import CorpusStats.Bounded
import CorpusStats.Tally.Basic
/-!
# CorpusStats.Tally.Score

The association of the two words of a pair: the logarithm of how much more often they
were observed together than their marginal counts alone would suggest.

* The score is zero unless the count, the total and both marginal counts are above
  zero, so degenerate pairs have a score too.
* Scores are computed for every pair, which leaves the dirty bits alone, or for dirty
  pairs only, which clears them.
* Statistics pass over pairs whose count is **at most zero**; the filter keeps pairs
  whose count is **above zero**.
-/

namespace CorpusStats

variable {α : Type} [Weight α]

/-- The association of two words: `log₂ (count · n / (a · b))`, or zero where that says
nothing. -/
def association (count n marginalA marginalB : α) : α :=
  if 0 < count ∧ 0 < n ∧ 0 < marginalA ∧ 0 < marginalB then
    Weight.log2 (count * n / (marginalA * marginalB))
  else 0

/-- Which pairs are scored. -/
inductive ScoreMode
  | all
  /-- The pairs whose score is out of date. -/
  | dirty
  deriving Repr, DecidableEq

/-- How many pairs have a count, a positive score, and a score above a threshold. -/
structure ScoreStats where
  /-- Pairs whose count is not at most zero. -/
  counted : Nat
  /-- Those of them whose score is above zero. -/
  positive : Nat
  /-- Those of them whose score is above the threshold. -/
  above : Nat
  deriving Repr, DecidableEq

namespace PairRow

/-- A row with its score for a total of `n` observations. -/
def rescore (words : WordPool α) (n : α) (row : PairRow α) : PairRow α :=
  { row with
    score := association row.count n (WordPool.marginal words row.wordA)
      (WordPool.marginal words row.wordB) }

/-- A dirty row with its score, and clean; another row as it is. -/
def refresh (words : WordPool α) (n : α) (row : PairRow α) : PairRow α :=
  if row.isDirty then row.markClean.rescore words n else row

/-- A live row with a score above the threshold, as a hit. -/
def hit? (threshold : α) (row : PairRow α) (slot : Nat) : Option (PairHit α) :=
  if threshold < row.score ∧ row.isLive then some ⟨row.score, slot.toUInt32⟩ else none

end PairRow

namespace Tally

/-- Score every pair for a total of `n` observations. -/
def scoreAll (n : α) (s : Logged (Tally α)) : Nat × Logged (Tally α) :=
  let used := s.state.pairs.used
  (used, sweep (List.range used) (fun (⟨words, pairs, total⟩ : Tally α) slot =>
    ⟨words, pairs.modify slot (PairRow.rescore words n), total⟩) s)

/-- Score the dirty pairs for a total of `n` observations, and answer how many there are. -/
def scoreDirty (n : α) (s : Logged (Tally α)) : Nat × Logged (Tally α) :=
  let dirty := s.state.pairs.liveRows.countP PairRow.isDirty
  (dirty, sweep (List.range s.state.pairs.used) (fun (⟨words, pairs, total⟩ : Tally α) slot =>
    ⟨words, pairs.modify slot (PairRow.refresh words n), total⟩) s)

/-- Score pairs for a total of `n` observations, and answer how many. -/
def score (mode : ScoreMode) (n : α) : Logged (Tally α) → Nat × Logged (Tally α) :=
  match mode with
  | .all => scoreAll n
  | .dirty => scoreDirty n

def scoreStats (threshold : α) (t : Tally α) : ScoreStats :=
  let counted := t.pairs.liveRows.filter fun row => !row.isSpent
  { counted := counted.length
    positive := counted.countP fun row => 0 < row.score
    above := counted.countP fun row => threshold < row.score }

/-- The live pairs with a score above the threshold, in the order of their slots. -/
def hits (threshold : α) (t : Tally α) : List (PairHit α) :=
  (t.pairs.liveRows.zipIdx).filterMap fun (row, slot) => row.hit? threshold slot

/-- At most `limit` of the live pairs with a score above the threshold. -/
def filterPairs (threshold : α) (limit : Nat) (t : Tally α) : Bounded (PairHit α) :=
  (Bounded.ofLimit limit t.pairs.used).pushAll (t.hits threshold)

end Tally

end CorpusStats
