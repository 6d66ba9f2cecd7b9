import CorpusStats.Weight
import Mathlib
/-!
# CorpusStats.Proofs.Exact

**Exact arithmetic.** Statements that take counts as exact hold for every ordered field in
place of the weights: sums and products do not round there. A field has no root and no
logarithm of its own, so these two are parameters (`RootLog`); no statement depends on what
they are unless it names them. For the real numbers they are the real ones.

The field's own operations become the operations of `Weight`, so lemmas about fields apply
to rows and stages as they stand.
-/

namespace CorpusStats

-- Where a type has both, sums, products and comparisons are those of the field.
attribute [instance (low)] Weight.toZero Weight.toOne Weight.toAdd Weight.toMul Weight.toDiv
  Weight.toLT Weight.toLE Weight.decLt Weight.decLe

/-- A root and a logarithm beside the arithmetic of a field. -/
class RootLog (α : Type) where
  sqrt : α → α
  log2 : α → α

noncomputable instance : RootLog ℝ where
  sqrt := Real.sqrt
  log2 := Real.logb 2

/-- On rational numbers numerator and denominator are rounded down, so that runs can be
computed. Roots of squares and logarithms of powers of two are exact. -/
instance : RootLog ℚ where
  sqrt q := q.num.toNat.sqrt / q.den.sqrt
  log2 q := q.num.toNat.log2 - q.den.log2

variable {α : Type} [Field α] [LinearOrder α] [FloorSemiring α] [RootLog α]

/-- The weights of an ordered field. A total is its number; a weight rounds to the nearest
total, a half going up, and stops at both ends. -/
instance exactWeight : Weight α where
  toZero := inferInstance
  toOne := inferInstance
  toAdd := inferInstance
  toMul := inferInstance
  toDiv := inferInstance
  toLT := inferInstance
  toLE := inferInstance
  sqrt := RootLog.sqrt
  log2 := RootLog.log2
  ofTotal n := (n.toNat : α)
  toTotal x := (min ⌊x + 1 / 2⌋₊ (2 ^ 64 - 1)).toUInt64
  decLt := inferInstance
  decLe := inferInstance

/-- A natural number below the largest total is its own nearest total. -/
theorem toTotal_natCast [IsStrictOrderedRing α] {n : ℕ} (h : n < 2 ^ 64) :
    (Weight.toTotal (n : α)).toNat = n := by
  have hfloor : ⌊(n : α) + 1 / 2⌋₊ = n := by
    rw [Nat.floor_eq_iff (by positivity)]
    constructor <;> norm_num
  show (min ⌊(n : α) + 1 / 2⌋₊ (2 ^ 64 - 1)).toUInt64.toNat = n
  rw [hfloor, min_eq_left (by omega)]
  exact UInt64.toNat_ofNat_of_lt' h

/-! ### Counting -/

/-- A count after one was added to it `n` times. -/
def addOnes {α : Type} [Weight α] (n : ℕ) (count : α) : α := (· + 1)^[n] count

theorem addOnes_succ {α : Type} [Weight α] (n : ℕ) (count : α) :
    addOnes (n + 1) count = addOnes n count + 1 := Function.iterate_succ_apply' _ n count

theorem addOnes_add {α : Type} [Weight α] (m n : ℕ) (count : α) :
    addOnes (m + n) count = addOnes m (addOnes n count) := Function.iterate_add_apply _ m n count

/-- Exact counts grow by as many. -/
theorem addOnes_eq_add (n : ℕ) (count : α) : addOnes n count = count + n := by
  induction n with
  | zero => rw [Nat.cast_zero, add_zero, addOnes, Function.iterate_zero_apply]
  | succ n ih => rw [addOnes_succ, ih, Nat.cast_succ, ← add_assoc]

end CorpusStats
