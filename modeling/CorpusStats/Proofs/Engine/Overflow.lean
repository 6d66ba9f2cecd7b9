import CorpusStats.Proofs.Engine.Room
import CorpusStats.Proofs.Refusing
/-!
# CorpusStats.Proofs.Engine.Overflow

What an overflow says: the pool that a call creates records in is full (`Engine.fullFor_of_overflow`).
A call that creates records asks a pool for them and otherwise only checks what it is given, so it
fails as the pool does, or is refused. Calls that create no records are refused at most
(`Engine.onlyRefuses_perform`), and rebuilding the index of pairs does not fail at all.

`Engine.overflow_only_when_full` says this of every engine that a run can reach, together with what
it rests on: no index runs out of slots before its pool does.
-/

namespace CorpusStats

open Stage Pool

variable {α : Type} [Weight α]

/-! ### Stages that create records -/

namespace Tally

omit [Weight α] in
theorem keepsOr_internWords (keys : List UInt64) :
    KeepsOr (fun s : Logged (Tally α) => s.state.words.HasRoom)
      (fun err s => FullOn err s.state.words) (internWords keys) :=
  .dispatch (P := fun t : Tally α => t.words.HasRoom) (Q := fun err t => FullOn err t.words)
    fun _ _ => keepsOr_onWords (KeepsOr.bind (keepsOr_findOrCreate _ _) fun _ => .pure _)

omit [Weight α] in
/-- Asking for a pair runs out of room with the pool of pairs only. -/
theorem keepsOr_slotOf (a b : UInt32) :
    KeepsOr (fun t : Tally α => t.pairs.HasRoom) (fun err t => FullOn err t.pairs)
      (onPairs (PairPool.slotOf a b)) := keepsOr_onPairs (keepsOr_findOrCreate _ _)

omit [Weight α] in
theorem keepsOr_pairSlots (as bs : List UInt32) :
    KeepsOr (fun s : Logged (Tally α) => s.state.pairs.HasRoom)
      (fun err s => FullOn err s.state.pairs) (pairSlots as bs) := by
  refine .bind (.lift fun err s herr _ => ?_) fun _ => .dispatch
    (P := fun t : Tally α => t.pairs.HasRoom) (Q := fun err t => FullOn err t.pairs) fun pair _ => ?_
  · exact fullOn_of_malformed (malformed_of_checkLengths herr) _
  · exact (keepsOr_slotOf pair.1 pair.2).bind fun _ => .pure _

theorem keepsOr_observe (slot : ℕ) :
    KeepsOr (fun t : Tally α => t.pairs.HasRoom) (fun err t => FullOn err t.pairs)
      (observe slot) := by
  refine (onlyRefuses_observe slot).keepsOr (fun t h => ?_) fun fault t _ =>
    fullOn_of_malformed ⟨fault, rfl⟩ _
  obtain ⟨words, pairs, total⟩ := t
  unfold outcome observe
  dsimp only
  cases endsOf words pairs slot with
  | ok ends => exact h.congr rfl rfl rfl
  | error err => exact h

theorem keepsOr_countSentences (b : Sentences) (window : UInt32) (locator : Locator) :
    KeepsOr (fun s : Logged (Tally α) => s.state.pairs.HasRoom)
      (fun err s => FullOn err s.state.pairs) (countSentences b window locator) :=
  .bind (.dispatch (P := fun t : Tally α => t.pairs.HasRoom)
    (Q := fun err t => FullOn err t.pairs) fun i _ => keepsOr_countPosition keepsOr_slotOf
      keepsOr_observe (fun fault _ _ => fullOn_of_malformed ⟨fault, rfl⟩ _) b window locator i)
    fun _ => .pure _

end Tally

namespace SectionPool

omit [Weight α] in
theorem keepsOr_slotOf (word : UInt32) (disjunct : UInt64) :
    KeepsOr (HasRoom (ρ := SectionRow α)) FullOn (slotOf word disjunct) := keepsOr_findOrCreate _ _

omit [Weight α] in
theorem keepsOr_slotsOf (words : List UInt32) (disjuncts : List UInt64) :
    KeepsOr (fun s : Logged (SectionPool α) => s.state.HasRoom)
      (fun err s => FullOn err s.state) (slotsOf words disjuncts) := by
  refine .bind (.lift fun err s herr _ => ?_) fun _ => .dispatch fun pair _ => ?_
  · exact fullOn_of_malformed (malformed_of_checkLengths herr) _
  · exact (keepsOr_slotOf pair.1 pair.2).bind fun _ => .pure _

theorem keepsOr_extract (b : Parses) (locator : Locator) :
    KeepsOr (fun s : Logged (SectionPool α) => s.state.HasRoom)
      (fun err s => FullOn err s.state) (extract b locator) :=
  .bind (.dispatch fun i _ => keepsOr_extractPosition keepsOr_slotOf
    (fun _ _ h => h.congr rfl rfl rfl) (fun fault _ _ => fullOn_of_malformed ⟨fault, rfl⟩ _) b
    locator i) fun _ => .pure _

end SectionPool

/-! ### Calls -/

namespace Engine

/-- The pool that a call creates records in is full. -/
def FullFor (e : Engine α) : Call α → Prop
  | .internWords _ => e.store.tally.words.IsFull
  | .pairSlots _ _ | .countSentences _ _ => e.store.tally.pairs.IsFull
  | .sectionSlots _ _ | .extractSections _ => e.store.sections.IsFull
  | .computeSimilarity => e.store.similarity.candidates.IsFull
  | _ => False

variable {e e' : Engine α} {call : Call α} {err : Error}

/-- A pass over intact pairs rebuilds their index, whatever it was. -/
theorem exists_perform_reindexPairs (h : e.store.tally.pairs.Intact) :
    ∃ merged e', perform .reindexPairs e = .ok (.changed merged) e' := by
  obtain ⟨merged, s, hrun, -⟩ :=
    Tally.exists_reindexPairs_of_intact (s := ⟨e.store.tally, e.store.log⟩) h
  exact ⟨merged, _, map_eq_ok_iff.mpr ⟨merged, onTally_eq_ok_iff.mpr ⟨s, hrun, rfl⟩, rfl⟩⟩

theorem exists_perform_fold (h : e.store.tally.pairs.Intact) :
    ∃ report e', perform .fold e = .ok (.folded report) e' := by
  have hfolded := Tally.intact_foldPairs (s := ⟨e.store.tally, e.store.log⟩) h
  obtain ⟨merged, s, hrun, -⟩ := Tally.exists_reindexPairs_of_intact hfolded
  obtain ⟨report, store, hfold, -⟩ := Store.exists_fold_of_reindexPairs hrun
  exact ⟨report, _, map_eq_ok_iff.mpr ⟨report, onStore_eq_ok_iff.mpr ⟨store, hfold, rfl⟩, rfl⟩⟩

/-- Everything that a similarity pass can do: it answers, it runs out of room for candidates, or it
is refused because the word of a section with count is beyond the arena. -/
theorem perform_computeSimilarity_cases (h : e.HasRoom) :
    (∀ row ∈ Similarity.live e.store.sections,
        row.word.toNat < e.store.tally.words.capacity)
        ∧ ((∃ report e', perform .computeSimilarity e = .ok (.similar report) e')
          ∨ ∃ err e', perform .computeSimilarity e = .error err e' ∧ err.isOverflow = true
            ∧ e'.store.similarity.candidates.IsFull)
      ∨ ∃ row ∈ Similarity.live e.store.sections,
        e.store.tally.words.capacity ≤ row.word.toNat
          ∧ ∃ e', perform .computeSimilarity e = .error (.malformed
            (.sectionWordBeyond row.word.toNat e.store.tally.words.capacity)) e' := by
  have hok {report s'} (hrun : Similarity.run e.store.sections ⟨e.store.similarity, e.store.log⟩
      = .ok report s') := onStore_eq_ok_iff.mpr
    ⟨_, Store.onSimilarity_eq_ok_iff.mpr ⟨s', hrun, rfl⟩, rfl⟩
  have herror {err s'} (hrun : Similarity.run e.store.sections ⟨e.store.similarity, e.store.log⟩
      = .error err s') := onStore_eq_error_iff.mpr
    ⟨_, Store.onSimilarity_eq_error_iff.mpr ⟨s', hrun, rfl⟩, rfl⟩
  obtain ⟨s', -, ⟨hwords, ⟨report, hrun⟩ | ⟨err, hrun, herr, hfull⟩⟩ | ⟨row, hrow, hbeyond, hrun⟩⟩ :=
    Similarity.run_cases (s := ⟨e.store.similarity, e.store.log⟩) h.fits h.similarity
  · exact .inl ⟨hwords, .inl ⟨report, _, map_eq_ok_iff.mpr ⟨report, hok hrun, rfl⟩⟩⟩
  · exact .inl ⟨hwords, .inr ⟨err, _, map_eq_error_iff.mpr (herror hrun), herr, hfull⟩⟩
  · exact .inr ⟨row, hrow, hbeyond, _, map_eq_error_iff.mpr (herror hrun)⟩

/-- If a call runs out of room, the pool that it creates records in is full. -/
theorem fullFor_of_overflow (h : e.HasRoom) (hrun : perform call e = .error err e')
    (herr : err.isOverflow = true) : e'.FullFor call := by
  have hrefused (hcall : call.OnlyChecks) : e'.FullFor call := by
    rw [(onlyRefuses_perform hcall).not_isOverflow hrun] at herr
    cases herr
  cases call with
  | internWords keys =>
    exact (keepsOr_onTally (P := fun t => t.words.HasRoom) (Q := fun err t => FullOn err t.words)
      (Tally.keepsOr_internWords keys)).map.error h.words hrun herr
  | pairSlots as bs =>
    exact (keepsOr_onTally (P := fun t => t.pairs.HasRoom) (Q := fun err t => FullOn err t.pairs)
      (Tally.keepsOr_pairSlots as bs)).map.error h.pairs.toHasRoom hrun herr
  | countSentences batch window =>
    refine KeepsOr.error (P := fun e : Engine α => e.store.tally.pairs.HasRoom)
      (Q := fun err e => FullOn err e.store.tally.pairs) (KeepsOr.map (.bind .get fun e => .bind
        (.lift fun err s herr _ => ?_) fun _ => .bind .get fun e => .bind ?_ fun _ =>
        .bind .get fun _ => .pure _)) h.pairs.toHasRoom hrun herr
    · exact fullOn_of_malformed (malformed_of_checkWords herr) _
    · exact keepsOr_onTally (P := fun t => t.pairs.HasRoom) (Q := fun err t => FullOn err t.pairs)
        (Tally.keepsOr_countSentences batch window _)
  | sectionSlots words disjuncts =>
    exact (keepsOr_onSections (SectionPool.keepsOr_slotsOf words disjuncts)).map.error
      h.sections hrun herr
  | extractSections batch =>
    refine KeepsOr.error (P := fun e : Engine α => e.store.sections.HasRoom)
      (Q := fun err e => FullOn err e.store.sections) (KeepsOr.map (.bind .get fun e => .bind
        (.lift fun err s herr _ => ?_) fun _ => .bind .get fun e => .bind ?_ fun _ =>
        .bind .get fun _ => .pure _)) h.sections hrun herr
    · exact fullOn_of_malformed (malformed_of_checkWords herr) _
    · exact keepsOr_onSections (SectionPool.keepsOr_extract batch _)
  | computeSimilarity =>
    rcases perform_computeSimilarity_cases h with
      ⟨-, ⟨report, e'', hrun'⟩ | ⟨err', e'', hrun', -, hfull⟩⟩ | ⟨row, -, -, e'', hrun'⟩ <;>
      rw [hrun'] at hrun <;> cases hrun
    · exact hfull
    · cases herr
  | reindexPairs =>
    obtain ⟨merged, e'', hok⟩ := exists_perform_reindexPairs h.pairs
    rw [hok] at hrun
    cases hrun
  | fold =>
    obtain ⟨report, e'', hok⟩ := exists_perform_fold h.pairs
    rw [hok] at hrun
    cases hrun
  -- calls that create no records are refused at most
  | _ => exact hrefused trivial

/-! ### What a host may rely on -/

/-- Where an engine can run out of room, and where it cannot. -/
structure RunsOutWhenFull (e : Engine α) : Prop where
  /-- After an overflow the pool that the call creates records in is full. -/
  overflow : ∀ call name capacity e', perform call e = .error (.overflow name capacity) e' →
    e'.FullFor call
  /-- No index runs out of slots while its pool has some left. -/
  words : e.store.tally.words.used < e.store.tally.words.capacity →
    ∀ key, e.store.tally.words.index.probe key ≠ .full
  pairs : e.store.tally.pairs.used < e.store.tally.pairs.capacity →
    ∀ key, e.store.tally.pairs.index.probe key ≠ .full
  sections : e.store.sections.used < e.store.sections.capacity →
    ∀ key, e.store.sections.index.probe key ≠ .full
  candidates : e.store.similarity.candidates.used < e.store.similarity.candidates.capacity →
    ∀ key, e.store.similarity.candidates.index.probe key ≠ .full
  /-- The index of disjuncts has room for all sections: a pass that comes to link them does. -/
  chains : ∀ s, Similarity.computeNorms e.store.sections ⟨e.store.similarity.reset, e.store.log⟩
    = .ok () s → ∃ chained s', Similarity.buildChains e.store.sections s = .ok chained s'
  /-- Rebuilding the index of pairs does not fail, whatever keys are marked in it. -/
  reindex : ∃ merged e', perform .reindexPairs e = .ok (.changed merged) e'
  fold : ∃ report e', perform .fold e = .ok (.folded report) e'

theorem HasRoom.runsOutWhenFull (h : e.HasRoom) : e.RunsOutWhenFull where
  overflow _ _ _ _ hrun := fullFor_of_overflow h hrun rfl
  words := h.words.probe_ne_full
  pairs := h.pairs.probe_ne_full
  sections := h.sections.probe_ne_full
  candidates := h.similarity.candidates.probe_ne_full
  chains s hnorms := by
    have hs : Similarity.OtherNorms e.store.similarity.reset s.state := by
      rcases Similarity.computeNorms_cases e.store.sections
          ⟨e.store.similarity.reset, e.store.log⟩ with
        ⟨s', hrun, hs, -⟩ | ⟨row, -, -, s', hrun, -⟩ <;>
        rw [hrun] at hnorms <;> cases hnorms
      exact hs
    obtain ⟨chained, s', hchains, -⟩ := Similarity.exists_chained h.fits h.similarity hs
    exact ⟨chained, s', hchains⟩
  reindex := exists_perform_reindexPairs h.pairs
  fold := exists_perform_fold h.pairs

/-- **An overflow says that a pool is full.** After every run of a new engine, failed calls among
them, a call that runs out of room leaves the pool that it creates records in full. No index runs
out of slots while its pool has some left, the index of disjuncts never does, and rebuilding the
index of pairs answers, though earlier failures left marked keys in it. -/
theorem overflow_only_when_full {config : Config} (he : ofConfig config = .ok e)
    (calls : List (Call α)) : (run calls e).RunsOutWhenFull := (hasRoom_run he calls).runsOutWhenFull

/-- The fifth pair has no room among four, and its key is marked. Asking for a sixth one runs out of
room as well, and rebuilding the index does not. -/
theorem overflow_only_when_full_marked :
    let calls : List (Call ℚ) := [.pairSlots [0, 0, 0, 1, 2] [1, 2, 3, 2, 3]]
    ∃ e e' : Engine ℚ, ofConfig .tiny = .ok e ∧ (run calls e).RunsOutWhenFull
      ∧ ((WordPair.of 2 3).key, Index.exhausted) ∈ (run calls e).store.tally.pairs.index.entries
      ∧ perform (.pairSlots [1] [3]) (run calls e) = .error (.overflow "pair" 4) e'
      ∧ e'.FullFor (.pairSlots [1] [3] : Call ℚ) := by
  intro calls
  obtain ⟨e, he, hmark, herror⟩ := exists_ofConfig_of_mem .tiny (P := fun e : Engine ℚ =>
    ((WordPair.of 2 3).key, Index.exhausted) ∈ (run calls e).store.tally.pairs.index.entries
      ∧ (outcome (pairSlots [1] [3]) (run calls e)).1 = .error (.overflow "pair" 4))
    (by decide +kernel)
  obtain ⟨e', hrun⟩ := exists_eq_error_of_outcome herror
  have hfull := overflow_only_when_full he calls
  have hperform : perform (.pairSlots [1] [3]) (run calls e) = _ := map_eq_error_iff.mpr hrun
  exact ⟨e, e', he, hfull, hmark, hperform, hfull.overflow _ _ _ _ hperform⟩

end Engine

end CorpusStats
