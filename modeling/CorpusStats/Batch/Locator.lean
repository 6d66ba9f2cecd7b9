import CorpusStats.Batch.Sentences
/-!
# CorpusStats.Batch.Locator

Two ways to find the sentence that owns a position of a batch.

* **Linear**: the first sentence whose range holds the position.
* **Binary**: halve the range of sentences to the last one that starts at or before
  the position. Empty sentences share their start with the sentence that follows
  them, so the last such sentence is the one that may own the position.

Both answer nothing for a position beyond the batch.
-/

namespace CorpusStats

/-- How the sentence that owns a position is found. -/
inductive Locator
  /-- Walk the sentences from the front. -/
  | linear
  /-- Halve the range of sentences. -/
  | binary
  deriving Repr, DecidableEq, Inhabited

/-- The end of the part of `[low, high)` on which `p` holds, by halving, when `p` holds
up to some number and not from there on. -/
def bisect (p : Nat → Bool) (low high : Nat) : Nat :=
  if low < high then
    let middle := low + (high - low) / 2
    if p middle then bisect p (middle + 1) high else bisect p low middle
  else low
termination_by high - low

namespace Sentences

/-- Whether sentence `s` covers a position. -/
def Covers (b : Sentences) (s : Nat) (position : UInt32) : Prop :=
  b.start s ≤ position ∧ position < b.stop s

instance (b : Sentences) (s : Nat) (position : UInt32) : Decidable (b.Covers s position) :=
  inferInstanceAs (Decidable (_ ∧ _))

end Sentences

namespace Locator

/-- The sentence of a batch that owns a position, if any does. -/
def locate (locator : Locator) (b : Sentences) (position : UInt32) : Option Nat :=
  match locator with
  | linear => (List.range b.count).find? fun s => b.Covers s position
  | binary =>
    match bisect (fun s => b.start s ≤ position) 0 b.count with
    | 0 => none
    | s + 1 => if position < b.stop s then some s else none

end Locator

end CorpusStats
