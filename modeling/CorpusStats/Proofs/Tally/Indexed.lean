import CorpusStats.Proofs.Exact
import CorpusStats.Proofs.Key
import CorpusStats.Proofs.Keyed
import CorpusStats.Proofs.Pool
import CorpusStats.Proofs.Tally.Marginal
import CorpusStats.Proofs.Tally.PairMap
/-!
# CorpusStats.Proofs.Tally.Indexed

Pairs and their index, as a list of rows and a map from keys.

* A row is **proper** if its count is a natural number and, unless that is zero, its words
  are in order and words of the arena (`PairRow.Proper`). Rows without count keep whatever
  words they had.
* The index of the first `k` rows finds those that have a count (`Indexed`).
* `pairMass` adds up the counts of equal pairs, whatever rows they are in.
-/

namespace CorpusStats

variable {α : Type} [Field α]

/-! ### Counts of pairs -/

/-- The sum of the counts of the rows of every pair. -/
noncomputable def pairMass (rows : List (PairRow α)) : WordPair →₀ α :=
  (rows.map fun row => Finsupp.single row.words row.count).sum

/-- The counts of a map of pairs, in the arithmetic of rows. -/
noncomputable def castCounts : (WordPair →₀ ℕ) →+ (WordPair →₀ α) :=
  Finsupp.mapRange.addMonoidHom (Nat.castAddMonoidHom α)

theorem castCounts_single (p : WordPair) (n : ℕ) :
    castCounts (.single p n) = (.single p (n : α) : WordPair →₀ α) := by
  simp [castCounts]

theorem castCounts_apply (counts : WordPair →₀ ℕ) (p : WordPair) :
    (castCounts counts : WordPair →₀ α) p = counts p := rfl

theorem foldCounts_castCounts (cls : UInt32 → UInt32) (counts : WordPair →₀ ℕ) :
    foldCounts cls (castCounts counts : WordPair →₀ α) = castCounts (foldCounts cls counts) := by
  have hhom : (foldCounts cls).comp (castCounts (α := α)) = castCounts.comp (foldCounts cls) := by
    refine Finsupp.addHom_ext fun p n => ?_
    rw [AddMonoidHom.comp_apply, AddMonoidHom.comp_apply, castCounts_single, foldCounts_single,
      foldCounts_single]
    split
    · rw [map_zero]
    · rw [castCounts_single]
  exact DFunLike.congr_fun hhom counts

/-- A change of one row changes the counts of pairs by the change of that row. -/
theorem pairMass_modify (rows : List (PairRow α)) {i : ℕ} {row : PairRow α}
    (hrow : rows[i]? = some row) (f : PairRow α → PairRow α) :
    pairMass (rows.modify i f) + .single row.words row.count
      = pairMass rows + .single (f row).words (f row).count := by
  obtain ⟨hi, rfl⟩ := List.getElem?_eq_some_iff.mp hrow
  exact sum_map_modify rows hi f fun row => Finsupp.single row.words row.count

theorem pairMass_concat (rows : List (PairRow α)) (row : PairRow α) :
    pairMass (rows ++ [row]) = pairMass rows + .single row.words row.count := by
  simp [pairMass]

/-! ### Proper rows -/

namespace PairRow

/-- The count is a natural number, and a row with a count has its words in order and below
`n`. -/
def Proper (n : ℕ) (row : PairRow α) : Prop :=
  ∃ k : ℕ, row.count = k
    ∧ (row.count ≠ 0 → row.wordA ≤ row.wordB ∧ row.wordB.toNat < n)

variable {n : ℕ} {row : PairRow α}

/-- The words of a row with a count are the words of its pair. -/
theorem Proper.words_eq (h : row.Proper n) (hcount : row.count ≠ 0) :
    row.words.first = row.wordA ∧ row.words.second = row.wordB := by
  obtain ⟨k, -, hends⟩ := h
  rw [words, WordPair.of_of_le (hends hcount).1]
  exact ⟨rfl, rfl⟩

theorem Proper.second_lt (h : row.Proper n) (hcount : row.count ≠ 0) :
    row.words.second.toNat < n := by
  rw [(h.words_eq hcount).2]
  obtain ⟨k, -, hends⟩ := h
  exact (hends hcount).2

/-- Proper rows with a count have the same key only if they are rows of one pair. -/
theorem Proper.words_eq_of_key_eq (hn : n ≤ maxPoolCapacity.toNat) (h : row.Proper n)
    (hcount : row.count ≠ 0) {p : WordPair} (hp : p.second.toNat < n)
    (hkey : row.words.key = p.key) : row.words = p := by
  have hbound : maxPoolCapacity.toNat < 2 ^ 32 - 1 := by decide
  have hsecond := h.second_lt hcount
  have hle := UInt32.le_iff_toNat_le.mp row.words.first_le_second
  have hle' := UInt32.le_iff_toNat_le.mp p.first_le_second
  exact WordPair.key_inj (by omega) (by omega) hkey

end PairRow

/-! ### Indexes of rows -/

/-- The index finds those of the first `k` rows that have a count, through the keys of their
pairs, and nothing else. -/
abbrev Indexed (ix : Index) (rows : List (PairRow α)) (k : ℕ) : Prop :=
  Keyed (fun row => row.words.key) (fun row => row.count ≠ 0) ix rows k

/-! ### What a complete index says about sums -/

theorem pairMass_apply (rows : List (PairRow α)) (p : WordPair) :
    pairMass rows p = (rows.map fun row => if row.words = p then row.count else 0).sum := by
  induction rows with
  | nil => rfl
  | cons row rows ih =>
    rw [pairMass, List.map_cons, List.sum_cons, Finsupp.add_apply, ← pairMass, ih,
      Finsupp.single_apply, List.map_cons, List.sum_cons]

theorem pairMass_apply_of_forall {rows : List (PairRow α)} {p : WordPair}
    (h : ∀ row ∈ rows, row.count ≠ 0 → row.words ≠ p) : pairMass rows p = 0 := by
  rw [pairMass_apply]
  refine List.sum_eq_zero fun x hx => ?_
  obtain ⟨row, hrow, rfl⟩ := List.mem_map.mp hx
  by_cases hcount : row.count = 0
  · rw [hcount, ite_self]
  · rw [if_neg (h row hrow hcount)]

namespace Indexed

variable {ix : Index} {rows : List (PairRow α)}

theorem pairMass_apply_words (h : Indexed ix rows rows.length) {slot : ℕ} {row : PairRow α}
    (hrow : rows[slot]? = some row) (hcount : row.count ≠ 0) :
    pairMass rows row.words = row.count := by
  obtain ⟨hslot, rfl⟩ := List.getElem?_eq_some_iff.mp hrow
  rw [pairMass_apply, ← Fin.sum_univ_fun_getElem, Finset.sum_eq_single ⟨slot, hslot⟩]
  · exact if_pos rfl
  · intro j _ hj
    by_cases hwords : rows[j.val].words = rows[slot].words
    · rw [if_pos hwords]
      by_contra hcount'
      exact hj (Fin.ext (h.eq_of_key_eq hslot j.isLt hrow (List.getElem?_eq_getElem j.isLt)
        hcount hcount' (congrArg WordPair.key hwords)))
    · rw [if_neg hwords]
  · intro hnot
    exact absurd (Finset.mem_univ _) hnot

/-- The pairs with a count are the pairs of the rows with one. -/
theorem pairMass_apply_ne_zero_iff (h : Indexed ix rows rows.length) {p : WordPair} :
    pairMass rows p ≠ 0 ↔ ∃ row ∈ rows, row.count ≠ 0 ∧ row.words = p := by
  constructor
  · intro hne
    by_contra hnone
    push Not at hnone
    exact hne (pairMass_apply_of_forall hnone)
  · intro h
    obtain ⟨row, hmem, hcount, rfl⟩ := h
    obtain ⟨slot, hrow⟩ := List.mem_iff_getElem?.mp hmem
    rw [h.pairMass_apply_words hrow hcount]
    exact hcount

end Indexed

/-- A sum over the pairs of the rows with a count. -/
def liveSum [DecidableEq α] (g : WordPair → ℕ) (rows : List (PairRow α)) : ℕ :=
  (rows.map fun row => if row.count = 0 then 0 else g row.words).sum

theorem liveSum_cons [DecidableEq α] (g : WordPair → ℕ) (row : PairRow α)
    (rows : List (PairRow α)) :
    liveSum g (row :: rows) = (if row.count = 0 then 0 else g row.words) + liveSum g rows := by
  rw [liveSum, List.map_cons, List.sum_cons, liveSum]

/-- No pair has two rows with a count, so sums over rows are sums over pairs. -/
theorem Indexed.liveSum_eq [DecidableEq α] [CharZero α] {ix : Index} {rows : List (PairRow α)}
    (h : Indexed ix rows rows.length) {counts : WordPair →₀ ℕ}
    (hmass : pairMass rows = castCounts counts) (g : WordPair → ℕ) :
    liveSum g rows = ∑ p ∈ counts.support, g p := by
  have hfilter : liveSum g rows
      = (((rows.filter fun row => row.count ≠ 0).map PairRow.words).map g).sum := by
    rw [liveSum]
    clear h hmass
    induction rows with
    | nil => rfl
    | cons row rows ih =>
      rw [List.map_cons, List.sum_cons, ih, List.filter_cons]
      by_cases hcount : row.count = 0 <;> simp [hcount]
  have hnodup : ((rows.filter fun row => row.count ≠ 0).map PairRow.words).Nodup := by
    rw [List.Nodup, List.pairwise_map, List.pairwise_filter, List.pairwise_iff_getElem]
    intro i j hi hj hij hcount hcount' hwords
    have heq := h.eq_of_key_eq hi hj (List.getElem?_eq_getElem hi) (List.getElem?_eq_getElem hj)
      (of_decide_eq_true hcount) (of_decide_eq_true hcount') (congrArg WordPair.key hwords.symm)
    omega
  have hsupport : ((rows.filter fun row => row.count ≠ 0).map PairRow.words).toFinset
      = counts.support := by
    ext p
    have hne : counts p ≠ 0 ↔ pairMass rows p ≠ 0 := by
      rw [hmass, castCounts_apply, Nat.cast_ne_zero]
    rw [List.mem_toFinset, Finsupp.mem_support_iff, hne, h.pairMass_apply_ne_zero_iff]
    simp [and_assoc]
  rw [hfilter, ← hsupport, List.sum_toFinset g hnodup]

end CorpusStats
