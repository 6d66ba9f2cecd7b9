import CorpusStats.Proofs.Similarity.Pass
/-!
# CorpusStats.Proofs.Similarity.Angle

When a cosine is one.

The product of two words adds up over pairs of sections, so it is the product of two vectors
only if no disjunct gives a word two entries. `MeetOnce` says that much of two words: a section of
one meets at most one section of the other. Then the inequality of Cauchy and Schwarz, applied to
the pairs of sections that meet, bounds the product by the lengths of both
(`dotProduct_sq_le`), so a pass leaves no cosine above one for them
(`Similarity.withinNorms_of_run`).
-/

namespace CorpusStats

variable {α : Type}

/-- Sections of two words with one disjunct. -/
def SectionRow.Meets (a b : UInt32) (s t : SectionRow α) : Prop :=
  s.word = a ∧ t.word = b ∧ s.chainKey = t.chainKey

instance (a b : UInt32) (s t : SectionRow α) : Decidable (s.Meets a b t) :=
  inferInstanceAs (Decidable (_ ∧ _))

/-- A section of one word meets at most one section of the other: each of the words has one
section at most for every disjunct that both have. -/
structure MeetOnce (rows : List (SectionRow α)) (a b : UInt32) : Prop where
  left : ∀ s ∈ rows, rows.countP (fun t => s.Meets a b t) ≤ 1
  right : ∀ t ∈ rows, rows.countP (fun s => s.Meets a b t) ≤ 1

/-- Words with one section for each disjunct meet once. -/
theorem meetOnce_of_nodup {rows : List (SectionRow α)}
    (h : (rows.map fun row => (row.word, row.chainKey)).Nodup) (a b : UInt32) :
    MeetOnce rows a b := by
  have hone (p : SectionRow α → Bool) (word : UInt32) (key : UInt64)
      (hp : ∀ row, p row = true → row.word = word ∧ row.chainKey = key) : rows.countP p ≤ 1 := by
    have hcount := List.nodup_iff_count_le_one.mp h (word, key)
    rw [List.count, List.countP_map] at hcount
    refine (List.countP_mono_left fun row _ hrow => ?_).trans hcount
    simpa using hp row hrow
  constructor
  · intro s _
    refine hone _ b s.chainKey fun t ht => ?_
    obtain ⟨-, hword, hkey⟩ := of_decide_eq_true ht
    exact ⟨hword, hkey.symm⟩
  · intro t _
    refine hone _ a t.chainKey fun s hs => ?_
    obtain ⟨hword, -, hkey⟩ := of_decide_eq_true hs
    exact ⟨hword, hkey⟩

variable [Field α] [LinearOrder α] [IsStrictOrderedRing α] {rows : List (SectionRow α)}
  {a b : UInt32}

/-! ### Vectors -/

/-- A weight that is counted at most once. -/
theorem sum_map_ite_le {ι : Type} {l : List ι} {p : ι → Prop} [DecidablePred p]
    (hone : l.countP (fun i => p i) ≤ 1) {x : α} (hx : 0 ≤ x) :
    (l.map fun i => if p i then x else 0).sum ≤ x := by
  have hsum : (l.map fun i => if p i then x else 0).sum = l.countP (fun i => p i) • x := by
    clear hone
    induction l with
    | nil => simp
    | cons i l ih =>
      rw [List.map_cons, List.sum_cons, ih, List.countP_cons]
      by_cases hi : p i
      · simp [hi, add_smul, add_comm]
      · simp [hi]
  rw [hsum]
  calc l.countP (fun i => p i) • x ≤ 1 • x := nsmul_le_nsmul_left hx hone
    _ = x := one_nsmul x

/-- Sections of a word that meet at most one section each give no more than its length. -/
theorem sum_met_le {word : UInt32} {met : SectionRow α → SectionRow α → Prop}
    [∀ s t, Decidable (met s t)] (hword : ∀ s t, met s t → s.word = word)
    (hone : ∀ s ∈ rows, rows.countP (fun t => met s t) ≤ 1) :
    (rows.map fun s => (rows.map fun t => if met s t then s.count * s.count else 0).sum).sum
      ≤ squaredNorm rows word := by
  refine List.sum_le_sum fun s hs => ?_
  by_cases hs' : s.word = word
  · rw [if_pos hs']
    exact sum_map_ite_le (hone s hs) (mul_self_nonneg _)
  · rw [if_neg hs']
    refine (List.sum_eq_zero fun x hx => ?_).le
    obtain ⟨t, -, rfl⟩ := List.mem_map.mp hx
    exact if_neg fun hmet => hs' (hword s t hmet)

theorem squaredNorm_nonneg (rows : List (SectionRow α)) (word : UInt32) :
    0 ≤ squaredNorm rows word := by
  refine List.sum_nonneg fun x hx => ?_
  obtain ⟨s, -, rfl⟩ := List.mem_map.mp hx
  split
  · exact mul_self_nonneg _
  · exact le_rfl

/-- **Cauchy and Schwarz** for the vectors of two words. -/
theorem dotProduct_sq_le (h : MeetOnce rows a b) :
    dotProduct rows a b * dotProduct rows a b ≤ squaredNorm rows a * squaredNorm rows b := by
  -- the entries of the two vectors, one for every pair of sections that meet
  let row (i : Fin rows.length) : SectionRow α := rows[i.val]
  let x (p : Fin rows.length × Fin rows.length) : α :=
    if (row p.1).Meets a b (row p.2) then (row p.1).count else 0
  let y (p : Fin rows.length × Fin rows.length) : α :=
    if (row p.1).Meets a b (row p.2) then (row p.2).count else 0
  have hdot : dotProduct rows a b = ∑ p, x p * y p := by
    simp only [dotProduct, ← Fin.sum_univ_fun_getElem, ← Fintype.sum_prod_type']
    refine Finset.sum_congr rfl fun p _ => ?_
    rw [ite_zero_mul_ite_zero]
    exact if_congr (and_self_iff).symm rfl rfl
  have hx : ∑ p, x p ^ 2 ≤ squaredNorm rows a := by
    have hmet := sum_met_le (fun (s t : SectionRow α) (h : s.Meets a b t) => h.1) h.left
    simp only [← Fin.sum_univ_fun_getElem, ← Fintype.sum_prod_type'] at hmet
    refine (Finset.sum_congr rfl fun p _ => ?_).trans_le hmet
    rw [pow_two, ite_zero_mul_ite_zero]
    exact if_congr and_self_iff rfl rfl
  have hy : ∑ p, y p ^ 2 ≤ squaredNorm rows b := by
    have hmet := sum_met_le (fun (t s : SectionRow α) (h : s.Meets a b t) => h.2.1) h.right
    simp only [← Fin.sum_univ_fun_getElem, ← Fintype.sum_prod_type_right'] at hmet
    refine (Finset.sum_congr rfl fun p _ => ?_).trans_le hmet
    rw [pow_two, ite_zero_mul_ite_zero]
    exact if_congr and_self_iff rfl rfl
  rw [hdot, ← pow_two]
  calc (∑ p, x p * y p) ^ 2 ≤ (∑ p, x p ^ 2) * ∑ p, y p ^ 2 :=
        Finset.sum_mul_sq_le_sq_mul_sq _ x y
    _ ≤ squaredNorm rows a * squaredNorm rows b :=
        mul_le_mul hx hy (Finset.sum_nonneg fun p _ => sq_nonneg _) (squaredNorm_nonneg rows a)

namespace Similarity

variable [FloorSemiring α] [RootLog α] {sections : SectionPool α} {norms : Array α}

/-! ### Norms after a pass -/

omit [IsStrictOrderedRing α] in
theorem keeps_norms_link (slot : ℕ) :
    Stage.Keeps (fun w : Similarity α => w.norms = norms) (link sections slot) := by
  intro w hw
  obtain ⟨norms, heads, next, candidates⟩ := w
  unfold Stage.outcome link
  dsimp only
  cases liveRow? sections slot with
  | none => exact hw
  | some row =>
    dsimp only
    cases Index.pushFront row.disjunct slot.toUInt32 heads <;> exact hw

omit [IsStrictOrderedRing α] in
theorem keeps_norms_meet (row : SectionRow α) (other : ℕ) :
    Stage.Keeps (fun w : Similarity α => w.norms = norms) (meet sections row other) := by
  unfold meet
  cases sections.row? other with
  | none => exact .pure _
  | some row' =>
    dsimp only
    split
    · intro w hw
      rw [outcome_onCandidates]
      exact hw
    · exact .pure _

omit [IsStrictOrderedRing α] in
theorem keeps_norms_addProducts (slot : ℕ) :
    Stage.Keeps (fun w : Similarity α => w.norms = norms) (addProducts sections slot) := by
  intro w hw
  unfold Stage.outcome addProducts
  cases liveRow? sections slot with
  | none => exact hw
  | some row =>
    dsimp only
    have hwalk : Stage.Keeps (fun w : Similarity α => w.norms = norms)
        ((w.walk row.disjunct).visited.forM (meet sections row)) :=
      .forM fun other _ => keeps_norms_meet row other
    cases hrun : (w.walk row.disjunct).visited.forM (meet sections row) w with
    | ok _ w' =>
      have hw' := hwalk.ok hw hrun
      dsimp only
      cases (w.walk row.disjunct).ended <;> exact hw'
    | error e w' => exact hwalk.error hw hrun

omit [IsStrictOrderedRing α] in
/-- A pass that answers leaves every word its squared norm. -/
theorem normSquared_run {s s' : Logged (Similarity α)} {report : SimilarityReport}
    (h : run sections s = .ok report s') (word : UInt32) :
    s'.state.normSquared word = squaredNorm (live sections) word := by
  obtain ⟨chained, s₁, s₂, s₃, hnorms, hchains, hproducts, rfl, -⟩ := run_eq_ok h
  have hnone (word : UInt32) : s.state.reset.normSquared word = 0 := by
    rw [normSquared, reset, Array.getD_eq_getD_getElem?, Array.getElem?_replicate]
    split <;> rfl
  obtain ⟨-, -, -, hnorms₁⟩ := computeNorms_eq_ok hnone hnorms
  have hbuild : Stage.Keeps (fun s : Logged (Similarity α) => s.state.norms = s₁.state.norms)
      (buildChains sections) := .bind (.dispatch fun slot _ => keeps_norms_link slot) fun _ => .pure _
  have hmultiply : Stage.Keeps (fun s : Logged (Similarity α) => s.state.norms = s₁.state.norms)
      (computeProducts sections) :=
    .bind (.dispatch fun slot _ => keeps_norms_addProducts slot) fun _ => .pure _
  have hnorms₃ := hmultiply.ok (hbuild.ok rfl hchains) hproducts
  rw [← hnorms₁, normSquared, normSquared, state_computeCosines, hnorms₃]

/-! ### Cosines of at most one -/

/-- The product of a candidate is within the norms of its words, and its cosine is at most one
wherever the root of the product of these norms is what its name says. -/
structure WithinNorms (w : Similarity α) (row : CandidateRow α) : Prop where
  dot_sq_le : row.dot * row.dot ≤ w.normSquared row.wordA * w.normSquared row.wordB
  cosine_le_one : ∀ root, root = RootLog.sqrt (w.normSquared row.wordA * w.normSquared row.wordB) →
    0 ≤ root → root * root = w.normSquared row.wordA * w.normSquared row.wordB → row.cosine ≤ 1

/-- A pass bounds the candidates of words that meet once. -/
theorem withinNorms_of_run {s s' : Logged (Similarity α)} (hfits : s.state.Fits sections)
    {report : SimilarityReport} (h : run sections s = .ok report s') {row : CandidateRow α}
    (hrow : row ∈ s'.state.candidates.liveRows)
    (honce : MeetOnce (live sections) row.wordA row.wordB) : s'.state.WithinNorms row := by
  obtain ⟨hmeasures, -⟩ := measures_of_run hfits h
  have hle : row.dot * row.dot
      ≤ s'.state.normSquared row.wordA * s'.state.normSquared row.wordB := by
    rw [hmeasures.dot_eq row hrow, normSquared_run h, normSquared_run h]
    exact dotProduct_sq_le honce
  refine ⟨hle, fun root hroot hpos hsquare => ?_⟩
  have hdot : row.dot ≤ root := by
    by_contra hlt
    have hsquares := mul_self_lt_mul_self hpos (not_le.mp hlt)
    rw [hsquare] at hsquares
    exact absurd hle (not_le.mpr hsquares)
  rw [hmeasures.cosine_eq row hrow, ← normSquared_run h, ← normSquared_run h, ← hroot]
  exact div_le_one_of_le₀ hdot hpos

end Similarity

end CorpusStats
