/-!
# CorpusStats.Weight

The numbers that counts, scores and similarities are made of.

The stages only need a handful of operations, collected in `Weight`. Running
engines use `Float`; statements about exact arithmetic use a number type in which
addition and multiplication do not round. Two points matter for both:

* **Two comparisons with zero.** "not above zero" and "at most zero" differ for a
  number that compares with nothing, and the stages use both, so `<` and `≤` are
  separate operations and neither is defined from the other.
* **Totals are 64-bit words.** `ofTotal` and `toTotal` pass between them and weights;
  `toTotal` rounds to the nearest word, a half going up, and stops at both ends.
-/

namespace CorpusStats

/-- The arithmetic of counts and scores. -/
class Weight (α : Type) extends Zero α, One α, Add α, Mul α, Div α, LT α, LE α where
  sqrt : α → α
  log2 : α → α
  /-- A total as a weight. -/
  ofTotal : UInt64 → α
  /-- The total nearest to a weight. -/
  toTotal : α → UInt64
  decLt : DecidableLT α
  decLe : DecidableLE α

attribute [reducible, instance] Weight.decLt Weight.decLe

instance : Weight Float where
  zero := 0.0
  one := 1.0
  sqrt := Float.sqrt
  log2 := Float.log2
  ofTotal := UInt64.toFloat
  toTotal x := x.round.toUInt64
  decLt := Float.decLt
  decLe := Float.decLe

end CorpusStats
