import CorpusStats.Proofs.Exact
import CorpusStats.Proofs.Pool
import CorpusStats.Tally.Basic
/-!
# CorpusStats.Proofs.Tally.Marginal

What the ends of pairs add up to.

* `PairRow.ends` counts how many ends of a pair a word is, a word paired with itself
  counting twice, and `endMassOf` adds up the counts of rows over the ends of a word.
* Adding a count to the marginal counts of the two ends of a pair adds it once for every
  end that a word is (`marginal_addToEnds`).
-/

namespace CorpusStats

variable {α : Type}

/-! ### Sums over rows -/

/-- Changing one row of a list changes a sum over the list by the change of that row. -/
theorem sum_map_modify {ρ μ : Type} [AddCommMonoid μ] (l : List ρ) {i : ℕ} (h : i < l.length)
    (f : ρ → ρ) (g : ρ → μ) :
    ((l.modify i f).map g).sum + g l[i] = (l.map g).sum + g (f l[i]) := by
  obtain ⟨l₁, a, l₂, rfl, rfl, hmodify⟩ := List.exists_of_modify f h
  rw [hmodify]
  simp only [List.map_append, List.map_cons, List.sum_append, List.sum_cons,
    List.getElem_append_right le_rfl, Nat.sub_self, List.getElem_cons_zero]
  abel

/-- Changing two rows of a list changes a sum over the list by the changes of these rows. -/
theorem sum_map_modify_modify {ρ μ : Type} [AddCommMonoid μ] {l : List ρ} {i j : ℕ} {a b : ρ}
    (hi : l[i]? = some a) (hj : l[j]? = some b) (hne : i ≠ j) (f f' : ρ → ρ) (g : ρ → μ) :
    (((l.modify i f).modify j f').map g).sum + g b + g a = (l.map g).sum + g (f' b) + g (f a) := by
  have hkept : (l.modify i f)[j]? = some b := by rwa [List.getElem?_modify_ne _ _ hne]
  obtain ⟨hlt, rfl⟩ := List.getElem?_eq_some_iff.mp hi
  obtain ⟨hlt', rfl⟩ := List.getElem?_eq_some_iff.mp hkept
  rw [sum_map_modify _ hlt' f' g, add_right_comm, sum_map_modify l hlt f g, add_right_comm]

namespace PairRow

/-- How many ends of a pair a word is. -/
def ends (row : PairRow α) (word : UInt32) : ℕ :=
  (if row.wordA = word then 1 else 0) + if row.wordB = word then 1 else 0

theorem ends_congr {row row' : PairRow α} (ha : row'.wordA = row.wordA)
    (hb : row'.wordB = row.wordB) (word : UInt32) : row'.ends word = row.ends word := by
  rw [ends, ends, ha, hb]

end PairRow

variable [Field α]

def massOf (rows : List (PairRow α)) : α := (rows.map PairRow.count).sum

/-- The sum of the counts of pairs over the ends that a word is. -/
def endMassOf (rows : List (PairRow α)) (word : UInt32) : α :=
  (rows.map fun row => row.count * (row.ends word : α)).sum

theorem massOf_concat (rows : List (PairRow α)) (row : PairRow α) :
    massOf (rows ++ [row]) = massOf rows + row.count := by
  simp [massOf]

theorem endMassOf_concat (rows : List (PairRow α)) (row : PairRow α) (word : UInt32) :
    endMassOf (rows ++ [row]) word = endMassOf rows word + row.count * (row.ends word : α) := by
  simp [endMassOf]

theorem massOf_eq_natCast {rows : List (PairRow α)} (h : ∀ row ∈ rows, ∃ n : ℕ, row.count = n) :
    ∃ n : ℕ, massOf rows = n := by
  induction rows with
  | nil => exact ⟨0, by simp [massOf]⟩
  | cons row rows ih =>
    obtain ⟨m, hm⟩ := ih fun row' hrow' => h row' (List.mem_cons_of_mem _ hrow')
    obtain ⟨k, hk⟩ := h row List.mem_cons_self
    refine ⟨k + m, ?_⟩
    rw [massOf] at hm ⊢
    rw [List.map_cons, List.sum_cons, hm, hk, Nat.cast_add]

/-! ### Marginal counts -/

variable [LinearOrder α] [FloorSemiring α] [RootLog α]

namespace WordPool

theorem marginal_modify_of_eq (words : WordPool α) (slot : ℕ) {f : WordRow α → WordRow α}
    (hf : ∀ row, (f row).count = row.count) (word : UInt32) :
    marginal (words.modify slot f) word = marginal words word := by
  rw [marginal, marginal, Pool.row?_modify]
  by_cases h : slot = word.toNat
  · rw [if_pos h]
    cases words.row? word.toNat with
    | none => rfl
    | some row => exact hf row
  · rw [if_neg h]

/-- Adding to the count of a word adds to its marginal count and to no other. -/
theorem marginal_modify_add (words : WordPool α) {end' : UInt32}
    (hend : end'.toNat < words.capacity) (count : α) (word : UInt32) :
    marginal (words.modify end'.toNat fun row => { row with count := row.count + count }) word
      = marginal words word + if end' = word then count else 0 := by
  have hrow : end' = word → (words.row? word.toNat).isSome := by
    rintro rfl
    have hsize : end'.toNat < words.rows.size := words.rows_size ▸ hend
    simp [Pool.row?, hsize]
  rw [marginal, marginal, Pool.row?_modify]
  by_cases h : end' = word
  · obtain ⟨row, hword⟩ := Option.isSome_iff_exists.mp (hrow h)
    rw [if_pos (congrArg UInt32.toNat h), if_pos h, hword]
    rfl
  · rw [if_neg (fun hn => h (UInt32.toNat_inj.mp hn)), if_neg h, add_zero]

end WordPool

namespace Tally

/-- A count added to the ends of a pair is added once for every end that a word is. -/
theorem marginal_addToEnds (words : WordPool α) {row : PairRow α}
    (ha : row.wordA.toNat < words.capacity) (hb : row.wordB.toNat < words.capacity) (count : α)
    (word : UInt32) :
    WordPool.marginal (addToEnds count (row.wordA.toNat, row.wordB.toNat) words) word
      = WordPool.marginal words word + count * row.ends word := by
  rw [addToEnds, WordPool.marginal_modify_add _ (by simpa using hb),
    WordPool.marginal_modify_add _ ha, PairRow.ends]
  split <;> split <;> push_cast <;> ring

end Tally

end CorpusStats
