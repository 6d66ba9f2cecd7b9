import CorpusStats.Proofs.Engine.Sections
import CorpusStats.Proofs.Engine.Sizes
import CorpusStats.Proofs.Similarity.Angle
/-!
# CorpusStats.Proofs.Engine.Cosines

Cosines over whole runs.

Sections are found through their keys, so as long as no fold moved the word of a section and no
disjunct has a reserved name, a word has one section for each disjunct (`SectionPool.Records.nodup`)
and is one vector. Then every pass leaves cosines of at most one; otherwise it does so for the
words that meet once (`cosines_at_most_one`).
-/

namespace CorpusStats

open Stage

/-! ### One section for each disjunct -/

namespace SectionPool

variable {α : Type} [Weight α] {sections : SectionPool α} {rs : List SectionRequest}

/-- A word has one section for each disjunct, unless words were folded or disjuncts are reserved. -/
theorem Records.nodup (h : Records rs sections)
    (hrs : ∀ r ∈ rs, r.now = r.word ∧ ¬ Key.IsReserved r.disjunct) :
    (sections.liveRows.map fun row => (row.word, row.chainKey)).Nodup := by
  -- a row shows the very section that its key was made from
  have hrow {i : ℕ} (hi : i < sections.liveRows.length) :
      (Key.firstCome sections.capacity (rs.map SectionRequest.key))[i]?
        = some (Key.ofSection sections.liveRows[i].word sections.liveRows[i].chainKey) := by
    obtain ⟨r, hr, hnumber, hword, hdisjunct⟩ := h.exists_request (List.getElem?_eq_getElem hi)
    obtain ⟨hnow, hreserved⟩ := hrs r hr
    rw [hnumber, SectionRow.chainKey, hword, hdisjunct, hnow,
      Key.storable_of_not_reserved hreserved, SectionRequest.key]
  rw [List.Nodup, List.pairwise_map, List.pairwise_iff_getElem]
  intro i j hi hj hij heq
  rw [Prod.mk.injEq] at heq
  have hnumber := hrow hi
  rw [heq.1, heq.2, ← hrow hj] at hnumber
  have hlt := (List.getElem?_eq_some_iff.mp (hrow hj)).1
  exact hij.ne ((List.getElem?_inj hlt (Key.nodup_firstCome _ _)).mp hnumber.symm).symm

end SectionPool

namespace Engine

variable {α : Type} [Field α] [LinearOrder α] [IsStrictOrderedRing α] [FloorSemiring α] [RootLog α]

/-- **Cosines of at most one.** Whatever was called before, a pass that answers bounds the product
of every candidate by the norms of its words, and its cosine by one, if each of the words has at
most one section with count for every disjunct that both have. That is so for all candidates, if
no fold since the last reset moved the word of a section and no section that was asked for has a
disjunct with a reserved name. -/
theorem cosines_at_most_one {config : Config} {e : Engine α} (he : ofConfig config = .ok e)
    (calls : List (Call α)) {answer : Answer α} {e' : Engine α}
    (h : perform .computeSimilarity (run calls e) = .ok answer e') :
    (∀ row ∈ e'.store.similarity.candidates.liveRows,
      MeetOnce (Similarity.live e'.store.sections) row.wordA row.wordB →
      e'.store.similarity.WithinNorms row)
    ∧ ((∀ r ∈ sectionsAsked [] calls e, r.now = r.word ∧ ¬ Key.IsReserved r.disjunct) →
      ∀ row ∈ e'.store.similarity.candidates.liveRows, e'.store.similarity.WithinNorms row) := by
  obtain ⟨report, hrun, -⟩ := map_eq_ok_iff.mp h
  obtain ⟨store, hstore, rfl⟩ := onStore_eq_ok_iff.mp hrun
  obtain ⟨s, hpass, rfl⟩ := Store.onSimilarity_eq_ok_iff.mp hstore
  have hfits : Similarity.Fits (run calls e).store.sections (run calls e).store.similarity :=
    fits_run he calls
  have hwithin row (hrow : row ∈ s.state.candidates.liveRows)
      (honce : MeetOnce (Similarity.live (run calls e).store.sections) row.wordA row.wordB) :
      s.state.WithinNorms row := Similarity.withinNorms_of_run hfits hpass hrow honce
  refine ⟨hwithin, fun hrs row hrow => hwithin row hrow (meetOnce_of_nodup ?_ _ _)⟩
  have hrecords := records_run (records_of_ofConfig he) calls
  exact (hrecords.nodup hrs).sublist (List.filter_sublist.map _)

omit [IsStrictOrderedRing α] in
/-- What a pass leaves, if computing says that it answers. -/
theorem perform_computeSimilarity {e : Engine α} {report : SimilarityReport}
    (h : (outcome computeSimilarity e).1.toOption = some report) :
    perform .computeSimilarity e = .ok (.similar report) (outcome computeSimilarity e).2 := by
  obtain ⟨e', hrun⟩ := exists_eq_ok_of_toOption h
  rw [outcome_of_ok hrun]
  exact map_eq_ok_iff.mpr ⟨report, hrun, rfl⟩

/-- The vectors `(3, 4)` and `(1, 0)`. -/
theorem cosines_at_most_one_apart :
    let calls : List (Call ℚ) :=
      [.sectionSlots [0, 0, 1] [5, 6, 5], .loadSections [0, 1, 2] [3, 4, 1]]
    ∃ e e' : Engine ℚ, ofConfig .tiny = .ok e
      ∧ perform .computeSimilarity (run calls e) = .ok (.similar ⟨3, 2, 1⟩) e'
      ∧ e'.store.similarity.candidates.liveRows = [⟨3, 3 / 5, 0, 1⟩]
      ∧ e'.store.similarity.WithinNorms ⟨3, 3 / 5, 0, 1⟩
      ∧ e'.store.similarity.normSquared 0 = 25 ∧ e'.store.similarity.normSquared 1 = 1 := by
  intro calls
  obtain ⟨e, he, hanswer, hrows, hasked, hnorms⟩ :=
    exists_ofConfig_of_mem .tiny (P := fun e : Engine ℚ =>
      (outcome computeSimilarity (run calls e)).1.toOption = some ⟨3, 2, 1⟩
        ∧ (outcome computeSimilarity (run calls e)).2.store.similarity.candidates.liveRows
          = [⟨3, 3 / 5, 0, 1⟩]
        ∧ (∀ r ∈ sectionsAsked [] calls e, r.now = r.word ∧ ¬ Key.IsReserved r.disjunct)
        ∧ (outcome computeSimilarity (run calls e)).2.store.similarity.normSquared 0 = 25
        ∧ (outcome computeSimilarity (run calls e)).2.store.similarity.normSquared 1 = 1)
      (by decide +kernel)
  have hrun := perform_computeSimilarity hanswer
  have hwithin := (cosines_at_most_one he calls hrun).2 hasked
  exact ⟨e, _, he, hrun, hrows, hwithin _ (by simp [hrows]), hnorms⟩

/-- Folding leaves a word two sections of one disjunct, and the word counts both of them in
every product, but adds the squares of the two apart. -/
theorem cosine_above_one_of_fold :
    ∃ e e' : Engine ℚ, ofConfig .tiny = .ok e
      ∧ perform .computeSimilarity (run [.sectionSlots [0, 1, 2] [5, 5, 5],
          .countSections [0, 1, 2], .assignClasses ⟨[(0, 1)], by decide⟩, .fold] e)
        = .ok (.similar ⟨3, 1, 1⟩) e'
      ∧ ∃ row ∈ e'.store.similarity.candidates.liveRows,
        ¬ row.dot * row.dot ≤ e'.store.similarity.normSquared row.wordA
          * e'.store.similarity.normSquared row.wordB := by
  obtain ⟨e, he, hanswer, hrow⟩ := exists_ofConfig_of_mem .tiny (P := fun e : Engine ℚ =>
    let folded := run [.sectionSlots [0, 1, 2] [5, 5, 5], .countSections [0, 1, 2],
      .assignClasses ⟨[(0, 1)], by decide⟩, .fold] e
    (outcome computeSimilarity folded).1.toOption = some ⟨3, 1, 1⟩
      ∧ ∃ row ∈ (outcome computeSimilarity folded).2.store.similarity.candidates.liveRows,
        ¬ row.dot * row.dot
          ≤ (outcome computeSimilarity folded).2.store.similarity.normSquared row.wordA
            * (outcome computeSimilarity folded).2.store.similarity.normSquared row.wordB)
    (by decide +kernel)
  exact ⟨e, _, he, perform_computeSimilarity hanswer, hrow⟩

end Engine

end CorpusStats
