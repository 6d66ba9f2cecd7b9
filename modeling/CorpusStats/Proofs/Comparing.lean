import CorpusStats.Proofs.Exact
/-!
# CorpusStats.Proofs.Comparing

Comparing weights with zero.

Stages ask whether a count is above zero or whether it is at most zero. For an exact count one is
the opposite of the other. Floats have a number that compares with nothing, and is neither. What
holds for floats as well is collected in `ComparesWithZero`, so that statements under it cover every
count that a host can load.

`NanRat` is the smallest type with such a number that runs can be computed with.
-/

namespace CorpusStats

/-- Weights compare with zero as floats do. -/
class ComparesWithZero (α : Type) [Weight α] : Prop where
  zero_le_zero : (0 : α) ≤ 0
  /-- No weight is on both sides of zero. It may be on none. -/
  not_le_of_pos : ∀ a : α, 0 < a → ¬ a ≤ 0
  /-- Adding up does not lead from beyond zero back to it, nor to the other side. -/
  add_not_le : ∀ a b : α, ¬ a ≤ 0 → ¬ b ≤ 0 → ¬ a + b ≤ 0

/-- Exact weights are always on one side of zero. -/
instance {α : Type} [Field α] [LinearOrder α] [FloorSemiring α] [RootLog α]
    [IsStrictOrderedRing α] : ComparesWithZero α where
  zero_le_zero := le_refl _
  not_le_of_pos _ := not_le_of_gt
  add_not_le _ _ ha hb := not_le_of_gt (add_pos (not_le.mp ha) (not_le.mp hb))

/-! ### A number that compares with nothing -/

/-- A rational number, or a number that compares with nothing. -/
inductive NanRat
  | number (q : ℚ)
  /-- What every operation on it gives again. -/
  | nan
  deriving Repr, DecidableEq

namespace NanRat

def map (f : ℚ → ℚ) : NanRat → NanRat
  | number p => number (f p)
  | nan => nan

def map₂ (f : ℚ → ℚ → ℚ) : NanRat → NanRat → NanRat
  | number p, number q => number (f p q)
  | _, _ => nan

/-- Whether both are numbers that are so related. -/
def related (r : ℚ → ℚ → Bool) : NanRat → NanRat → Bool
  | number p, number q => r p q
  | _, _ => false

instance : Weight NanRat where
  zero := number 0
  one := number 1
  add := map₂ (· + ·)
  mul := map₂ (· * ·)
  div a b := if b = number 0 then nan else map₂ (· / ·) a b
  lt a b := related (fun p q => decide (p < q)) a b = true
  le a b := related (fun p q => decide (p ≤ q)) a b = true
  sqrt := map RootLog.sqrt
  log2 := map RootLog.log2
  ofTotal n := number n.toNat
  toTotal
    | number q => Weight.toTotal q
    | nan => 0
  decLt _ _ := inferInstanceAs (Decidable (_ = true))
  decLe _ _ := inferInstanceAs (Decidable (_ = true))

theorem lt_iff {a b : NanRat} :
    a < b ↔ ∃ p q : ℚ, a = number p ∧ b = number q ∧ p < q := by
  show related _ a b = true ↔ _
  cases a <;> cases b <;> simp [related]

theorem le_iff {a b : NanRat} :
    a ≤ b ↔ ∃ p q : ℚ, a = number p ∧ b = number q ∧ p ≤ q := by
  show related _ a b = true ↔ _
  cases a <;> cases b <;> simp [related]

theorem number_le_zero_iff {p : ℚ} : number p ≤ 0 ↔ p ≤ 0 := by
  show number p ≤ number 0 ↔ _
  simp [le_iff]

theorem not_nan_le (a : NanRat) : ¬ nan ≤ a := by
  simp [le_iff]

theorem number_add (p q : ℚ) : number p + number q = number (p + q) := rfl

theorem nan_add (a : NanRat) : nan + a = nan := rfl

theorem add_nan (a : NanRat) : a + nan = nan := by
  cases a <;> rfl

instance : ComparesWithZero NanRat where
  zero_le_zero := number_le_zero_iff.mpr le_rfl
  not_le_of_pos a hpos hle := by
    obtain ⟨p, q, hp, rfl, hlt⟩ := lt_iff.mp hpos
    cases hp
    exact hlt.not_ge (number_le_zero_iff.mp hle)
  add_not_le a b ha hb := by
    cases a with
    | nan => exact nan_add b ▸ not_nan_le 0
    | number p =>
      cases b with
      | nan => exact add_nan (number p) ▸ not_nan_le 0
      | number q =>
        rw [number_le_zero_iff, not_le] at ha hb
        rw [number_add, number_le_zero_iff, not_le]
        exact add_pos ha hb

end NanRat

end CorpusStats
