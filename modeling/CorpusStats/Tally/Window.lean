import CorpusStats.Batch.Locator
import CorpusStats.Tally.Basic
/-!
# CorpusStats.Tally.Window

Counting co-occurrences in sentences. One work-item per flat position: it finds the
sentence that owns the position and observes the pair of its word with each of the
words that follow it **within the window and within the sentence**.

A position only looks forward, so each pair of positions is observed once, from the
earlier of the two. Sums of positions stop at the largest position instead of wrapping,
so a window larger than any sentence reaches to the end of the sentence.
-/

namespace CorpusStats

namespace Sentences

/-- The sum of two positions, or the largest position if there is no such position. -/
def reach (position window : UInt32) : UInt32 :=
  if position + window < position then 0xFFFFFFFF else position + window

variable (b : Sentences)

/-- The last position that a position of sentence `s` is paired with. -/
def lastPartner (s : Nat) (window position : UInt32) : UInt32 :=
  min (reach position window) (b.stop s - 1)

/-- The words that the word at a position of sentence `s` is paired with, in order. -/
def partners (s : Nat) (window position : UInt32) : List UInt32 :=
  (b.words.extract (position + 1).toNat ((b.lastPartner s window position).toNat + 1)).toList

end Sentences

namespace Tally

variable {α : Type} [Weight α]

/-- Observe the pairs that the word at a position opens, and answer how many there are. -/
def countPosition (b : Sentences) (window : UInt32) (locator : Locator) (i : Nat) :
    Stage (Tally α) Nat := do
  let position := i.toUInt32
  match locator.locate b position with
  | none => throw (.malformed (.unowned position.toNat))
  | some s =>
    let partners := b.partners s window position
    let word := b.words.getD i 0
    partners.forM fun partner => observeWords word partner
    return partners.length

/-- Observe every pair of words that stand in one sentence at most `window` positions
apart, and answer how many observations there were. -/
def countSentences (b : Sentences) (window : UInt32) (locator : Locator) :
    Stage (Logged (Tally α)) Nat := do
  let counts ← dispatch (List.range b.totalWords) (countPosition b window locator)
  return counts.foldl (· + ·) 0

end Tally

end CorpusStats
