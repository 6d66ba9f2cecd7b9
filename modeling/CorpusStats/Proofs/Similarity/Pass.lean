import CorpusStats.Proofs.Similarity.Products
/-!
# CorpusStats.Proofs.Similarity.Pass

The similarity pass, composed from the theorems about its four stages.

* **Norms** (`computeNorms_eq_ok`), **chains** (`buildChains_eq_ok`) and **products**
  (`computeProducts_eq_ok`) each start from what the one before leaves; **cosines** change
  every candidate once.
* `Measures` says what a host reads off the candidates, in terms of the vectors of words
  alone: it mentions neither slots of sections nor chains. `run_measures` is the result for
  the pass, from any earlier working state and for any content of the sections.
-/

namespace CorpusStats

namespace Similarity

variable {α : Type} [Field α] [RootLog α]

/-- The candidates are the pairs of words that share a disjunct, each with the product of the
two vectors and the cosine of the angle between them. -/
structure Measures (rows : List (SectionRow α)) (w : Similarity α) : Prop where
  /-- Candidates are words in order that share a disjunct. -/
  share : ∀ row ∈ w.candidates.liveRows, row.wordA < row.wordB ∧ Share rows row.wordA row.wordB
  exists_row : ∀ a b, a < b → Share rows a b →
    ∃ row ∈ w.candidates.liveRows, row.wordA = a ∧ row.wordB = b
  nodup : (w.candidates.liveRows.map fun row => (row.wordA, row.wordB)).Nodup
  /-- A candidate has the product of the two vectors. -/
  dot_eq : ∀ row ∈ w.candidates.liveRows, row.dot = dotProduct rows row.wordA row.wordB
  /-- A candidate has the cosine of the angle between the two vectors. -/
  cosine_eq : ∀ row ∈ w.candidates.liveRows, row.cosine
    = row.dot / RootLog.sqrt (squaredNorm rows row.wordA * squaredNorm rows row.wordB)

/-- A pass has one candidate for every pair of words that share a disjunct. -/
theorem Measures.used_eq {rows : List (SectionRow α)} {w : Similarity α} (h : w.Measures rows) :
    w.candidates.used = (sharing rows).card := by
  have hset : (w.candidates.liveRows.map fun row => (row.wordA, row.wordB)).toFinset
      = sharing rows := by
    ext ⟨a, b⟩
    rw [List.mem_toFinset, List.mem_map, mem_sharing]
    constructor
    · intro h
      obtain ⟨row, hrow, heq⟩ := h
      cases heq
      exact h.share row hrow
    · intro h
      obtain ⟨hlt, hshare⟩ := h
      obtain ⟨row, hrow, rfl, rfl⟩ := h.exists_row a b hlt hshare
      exact ⟨row, hrow, rfl⟩
  rw [← hset, List.toFinset_card_of_nodup h.nodup, List.length_map, Pool.length_liveRows]

variable [LinearOrder α] [FloorSemiring α]

/-! ### Cosines -/

/-- The cosine of a candidate, from the norms of a working state. -/
def withCosine (w : Similarity α) (row : CandidateRow α) : CandidateRow α :=
  { row with cosine := cosineOf row.dot (w.normSquared row.wordA) (w.normSquared row.wordB) }

theorem state_computeCosines (s : Logged (Similarity α)) :
    (computeCosines s).state =
      { s.state with
        candidates := (List.range s.state.candidates.used).foldl
          (fun p slot => p.modify slot s.state.withCosine) s.state.candidates } := by
  obtain ⟨⟨norms, heads, next, candidates⟩, log⟩ := s
  exact List.foldl_hom (fun p => (⟨norms, heads, next, p⟩ : Similarity α)) fun _ _ => rfl

theorem mapped_computeCosines (s : Logged (Similarity α)) :
    Pool.Mapped s.state.candidates (computeCosines s).state.candidates s.state.withCosine := by
  rw [state_computeCosines]
  exact Pool.mapped_foldl_modify _ _

variable [IsStrictOrderedRing α] {sections : SectionPool α}

theorem squaredNorm_pos_of_share {a b : UInt32} (h : Share (live sections) a b) :
    0 < squaredNorm (live sections) a ∧ 0 < squaredNorm (live sections) b := by
  obtain ⟨s, hs, t, ht, rfl, rfl, -⟩ := h
  exact ⟨squaredNorm_pos hs (count_pos_of_mem_live hs),
    squaredNorm_pos ht (count_pos_of_mem_live ht)⟩

/-- Once products and norms are there, the stage of cosines completes the candidates. -/
theorem measures_computeCosines {s : Logged (Similarity α)}
    (hgathered : s.state.candidates.Gathered (meetings (live sections)))
    (hnorms : ∀ word, s.state.normSquared word = squaredNorm (live sections) word) :
    (computeCosines s).state.Measures (live sections) := by
  have hrows := (mapped_computeCosines s).liveRows_eq
  have hshare row (hrow : row ∈ s.state.candidates.liveRows) :
      row.wordA < row.wordB ∧ Share (live sections) row.wordA row.wordB :=
    exists_meeting_iff.mp (hgathered.row_eq row hrow).2.2
  have hdot row (hrow : row ∈ s.state.candidates.liveRows) :
      row.dot = dotProduct (live sections) row.wordA row.wordB := by
    obtain ⟨hlt, hdot, -⟩ := hgathered.row_eq row hrow
    rw [hdot, totalOf_meetings _ hlt]
  constructor
  case share =>
    intro row hrow
    rw [hrows] at hrow
    obtain ⟨old, hold, rfl⟩ := List.mem_map.mp hrow
    exact hshare old hold
  case exists_row =>
    intro a b hlt hshared
    obtain ⟨m, hm, rfl, rfl⟩ := exists_meeting_iff.mpr ⟨hlt, hshared⟩
    obtain ⟨row, hrow, hwords⟩ := hgathered.exists_row m hm
    refine ⟨s.state.withCosine row, ?_, hwords⟩
    rw [hrows]
    exact List.mem_map_of_mem hrow
  case nodup =>
    rw [hrows, List.map_map, List.Nodup, List.pairwise_map, List.pairwise_iff_getElem]
    intro i j hi hj hij hwords
    exact hij.ne (hgathered.eq_of_words_eq (List.getElem?_eq_getElem hi)
      (List.getElem?_eq_getElem hj) (congrArg Prod.fst hwords) (congrArg Prod.snd hwords))
  case dot_eq =>
    intro row hrow
    rw [hrows] at hrow
    obtain ⟨old, hold, rfl⟩ := List.mem_map.mp hrow
    exact hdot old hold
  case cosine_eq =>
    intro row hrow
    rw [hrows] at hrow
    obtain ⟨old, hold, rfl⟩ := List.mem_map.mp hrow
    -- words with a common disjunct have length, so the cosine is never cut off to zero
    have hpos := squaredNorm_pos_of_share (hshare old hold).2
    show cosineOf old.dot (s.state.normSquared old.wordA) (s.state.normSquared old.wordB) = _
    rw [hnorms, hnorms]
    exact if_pos hpos

/-! ### The pass -/

omit [IsStrictOrderedRing α] in
theorem run_eq_ok {s s' : Logged (Similarity α)} {report : SimilarityReport}
    (h : run sections s = .ok report s') :
    ∃ chained s₁ s₂ s₃, computeNorms sections ⟨s.state.reset, s.log⟩ = .ok () s₁
      ∧ buildChains sections s₁ = .ok chained s₂ ∧ computeProducts sections s₂ = .ok () s₃
      ∧ s' = computeCosines s₃
      ∧ report = ⟨chained, s'.state.disjuncts, s'.state.candidates.used⟩ := by
  obtain ⟨_, _, hreset, h⟩ := Stage.bind_eq_ok_iff.mp h
  cases hreset
  obtain ⟨_, s₁, hnorms, h⟩ := Stage.bind_eq_ok_iff.mp h
  obtain ⟨chained, s₂, hchains, h⟩ := Stage.bind_eq_ok_iff.mp h
  obtain ⟨_, s₃, hproducts, h⟩ := Stage.bind_eq_ok_iff.mp h
  obtain ⟨_, _, hcosines, h⟩ := Stage.bind_eq_ok_iff.mp h
  cases hcosines
  obtain ⟨_, _, hget, h⟩ := Stage.bind_eq_ok_iff.mp h
  cases hget
  cases h
  exact ⟨chained, s₁, s₂, s₃, hnorms, hchains, hproducts, rfl, rfl⟩

/-- A pass that answers leaves measured candidates, and reports sections and disjuncts. -/
theorem measures_of_run {s s' : Logged (Similarity α)} (hfits : s.state.Fits sections)
    {report : SimilarityReport} (h : run sections s = .ok report s') :
    s'.state.Measures (live sections)
      ∧ report.chained = (live sections).length
      ∧ report.disjuncts = ((live sections).map SectionRow.chainKey).toFinset.card := by
  obtain ⟨chained, s₁, s₂, s₃, hnorms, hchains, hproducts, rfl, rfl⟩ := run_eq_ok h
  have hlinks : sections.used ≤ s.state.next.size := sections.used_le_capacity.trans hfits.links_le
  -- the reset state has no norms, no chains and no candidates
  have hnone (word : UInt32) : s.state.reset.normSquared word = 0 := by
    rw [normSquared, reset, Array.getD_eq_getD_getElem?, Array.getElem?_replicate]
    split <;> rfl
  obtain ⟨hheads₁, hnext₁, hcandidates₁, hnorms₁⟩ := computeNorms_eq_ok hnone hnorms
  have hlinked₀ : Linked sections s₁.state 0 := by
    refine .of_raw?_eq_none ?_ fun key => ?_
    · rw [hheads₁]
      exact Index.sound_clear _
    · rw [hheads₁]
      exact Index.raw?_clear _ key
  have hsize₁ : sections.used ≤ s₁.state.next.size := by
    rw [hnext₁]
    exact hlinks.trans_eq Array.size_replicate.symm
  obtain ⟨hlinked, hchained, hnorms₂, hsize₂, hcandidates₂⟩ :=
    buildChains_eq_ok hlinked₀ (.of_le hsize₁) hchains
  have hgathered₀ : s₂.state.candidates.Gathered [] := by
    rw [hcandidates₂, hcandidates₁]
    exact CandidatePool.gathered_of_blank (Pool.blank_reset _) hfits.candidates_le
  obtain ⟨hnorms₃, hheads₃, hgathered⟩ :=
    computeProducts_eq_ok hlinked hfits.sections_le (hsize₂ ▸ hsize₁) hgathered₀ hproducts
  have hmeasures := measures_computeCosines hgathered fun word => ?_
  · refine ⟨hmeasures, hchained, ?_⟩
    rw [← hlinked.disjuncts_eq, disjuncts, disjuncts, state_computeCosines, hheads₃]
  · rw [normSquared, hnorms₃, hnorms₂]
    exact hnorms₁ word

/-- **Dot products and cosines are exact.** A pass that answers leaves one candidate for
every pair of words that share a disjunct, with the product of their vectors and their cosine,
and reports the live sections, their disjuncts and the candidates, whatever the sections are and
whatever the working state was used for before. -/
theorem run_measures {s s' : Logged (Similarity α)} (hfits : s.state.Fits sections)
    {report : SimilarityReport} (h : run sections s = .ok report s') :
    s'.state.Measures (live sections)
      ∧ report.chained = (live sections).length
      ∧ report.disjuncts = ((live sections).map SectionRow.chainKey).toFinset.card
      ∧ report.candidates = (sharing (live sections)).card := by
  obtain ⟨hmeasures, hchained, hdisjuncts⟩ := measures_of_run hfits h
  obtain ⟨_, _, _, _, -, -, -, -, rfl⟩ := run_eq_ok h
  exact ⟨hmeasures, hchained, hdisjuncts, hmeasures.used_eq⟩

/-- Two sections of one word and one disjunct, as folding leaves them, a section without count,
and a disjunct with a reserved name that is stored under the key of the others, after a pass
over other sections. The norms add the squares of the two sections apart, which is how the
cosine comes out above one. -/
theorem run_measures_folded :
    let before : SectionPool ℚ := ⟨"section", #[⟨5, 1, 0⟩, ⟨5, 4, 3⟩, default, default, default],
      ⟨5, 2, by decide⟩, .vacantOf "section" 8 (by decide), rfl⟩
    let sections : SectionPool ℚ := ⟨"section",
      #[⟨Key.vacant, 2, 0⟩, ⟨0, 3, 1⟩, ⟨5, 0, 3⟩, ⟨0, 4, 1⟩, ⟨7, 1, 2⟩],
      ⟨5, 5, by decide⟩, .vacantOf "section" 8 (by decide), rfl⟩
    let w : Similarity ℚ := ⟨Array.replicate 4 0, .vacantOf "disjunct index" 8 (by decide),
      Array.replicate 5 Index.unset, ⟨"candidate", Array.replicate 4 default, .ofCapacity 4,
        .vacantOf "candidate" 8 (by decide), rfl⟩⟩
    ∃ s s', run before ⟨w, .empty⟩ = .ok ⟨2, 1, 1⟩ s ∧ s.state.Fits sections
      ∧ run sections s = .ok ⟨4, 2, 1⟩ s' ∧ s'.state.Measures (live sections)
      ∧ s'.state.candidates.liveRows = [⟨14, 7 / 5, 0, 1⟩]
      ∧ dotProduct (live sections) 0 1 = 14 ∧ (sharing (live sections)).card = 1 := by
  intro before sections w
  have hanswer : (Stage.outcome (run before) ⟨w, .empty⟩).1.toOption = some ⟨2, 1, 1⟩ := by
    decide +kernel
  obtain ⟨s, hbefore⟩ := Stage.exists_eq_ok_of_toOption hanswer
  have hs : s = (Stage.outcome (run before) ⟨w, .empty⟩).2 := by
    rw [Stage.outcome_of_ok hbefore]
  have hfits : s.state.Fits sections := by
    rw [hs]
    exact ⟨by decide, by decide +kernel, by decide +kernel⟩
  have hanswer' : (Stage.outcome (run sections) s).1.toOption = some ⟨4, 2, 1⟩ := by
    rw [hs]
    decide +kernel
  obtain ⟨s', hrun⟩ := Stage.exists_eq_ok_of_toOption hanswer'
  have hrows : s'.state.candidates.liveRows = [⟨14, 7 / 5, 0, 1⟩] := by
    rw [show s' = (Stage.outcome (run sections) s).2 by rw [Stage.outcome_of_ok hrun], hs]
    decide +kernel
  obtain ⟨hmeasures, -, -, hcard⟩ := run_measures hfits hrun
  have hdot := hmeasures.dot_eq ⟨14, 7 / 5, 0, 1⟩ (by simp [hrows])
  exact ⟨s, s', hbefore, hfits, hrun, hmeasures, hrows, hdot.symm, hcard.symm⟩

end Similarity

end CorpusStats
