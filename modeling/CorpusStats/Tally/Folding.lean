import CorpusStats.Batch.Classes
import CorpusStats.Tally.Basic
/-!
# CorpusStats.Tally.Folding

Folding words into classes, in place. Slots are never freed; a pair that is folded away
keeps its slot, without count.

1. `assignClasses` writes the classes.
2. `foldPairs` replaces the words of every pair by their classes. A pair whose two words
   fall into one class is **retired**; the index is out of date from here on.
3. `reindexPairs` rebuilds the index. The first slot of a key owns it; later slots of
   the same key hand it their count and are retired.
4. `rebuildMarginals` recomputes the marginal counts and the total from the pairs.

All of them pass over pairs whose count is at most zero.
-/

namespace CorpusStats

variable {α : Type} [Weight α]

/-- What folding did. -/
structure FoldReport where
  /-- Pairs with at least one new word. -/
  changed : Nat := 0
  /-- Pairs of them whose two words fell into one class. -/
  eliminated : Nat := 0
  /-- Pairs whose count went to another pair with the same words. -/
  merged : Nat := 0
  /-- Sections with a new word. -/
  sections : Nat := 0
  deriving Repr, DecidableEq

namespace PairRow

/-- The classes of the words of a pair, if the pair has count and a word that moves. -/
def moved? (words : WordPool α) (row : PairRow α) : Option WordPair :=
  let a := WordPool.classOf words row.wordA
  let b := WordPool.classOf words row.wordB
  if row.isSpent ∨ (a = row.wordA ∧ b = row.wordB) then none else some (.of a b)

/-- A pair with its words replaced by their classes, out of date or, if both words fall
into one class, retired. -/
def folded (words : WordPool α) (row : PairRow α) : PairRow α :=
  match row.moved? words with
  | none => row
  | some pair =>
    let row := { row with wordA := pair.first, wordB := pair.second }
    if pair.first = pair.second then row.retire else row.markDirty

end PairRow

namespace Tally

def assignClasses (m : ClassMap) : Stage (Logged (Tally α)) Unit := do
  let _ ← dispatch m.entries fun (word, cls) => onWords (WordPool.assign word cls)

/-- Replace the words of pairs by their classes. -/
def foldPairs (s : Logged (Tally α)) : FoldReport × Logged (Tally α) :=
  let moves := s.state.pairs.liveRows.filterMap (PairRow.moved? s.state.words)
  let report : FoldReport :=
    { changed := moves.length, eliminated := moves.countP fun pair => pair.first = pair.second }
  (report, sweep (List.range s.state.pairs.used) (fun (⟨words, pairs, total⟩ : Tally α) slot =>
    ⟨words, pairs.modify slot (PairRow.folded words), total⟩) s)

/-- Hand the count of one pair to another and retire it. -/
def merge (slot owner : Nat) (count : α) (pairs : PairPool α) : PairPool α :=
  let add (row : PairRow α) : PairRow α := { row with count := row.count + count }.markDirty
  (pairs.modify owner add).modify slot PairRow.retire

/-- Enter a pair in the index, merging it into the owner of its key if there is one.
Answers whether it was merged. -/
def reindexPair (slot : Nat) : Stage (PairPool α) Bool := fun pairs =>
  match pairs.row? slot with
  | none => .ok false pairs
  | some row =>
    if row.isSpent then .ok false pairs
    else
      match Pool.onIndex (Index.findOrCreate row.words.key (.ok slot.toUInt32)) pairs with
      | .ok (_, true) pairs => .ok false pairs
      | .ok (owner, false) pairs => .ok true (merge slot owner.toNat row.count pairs)
      | .error e pairs => .error e pairs

/-- Rebuild the index of the pairs with count, and answer how many were merged away. -/
def reindexPairs : Stage (Logged (Tally α)) Nat := do
  modify fun ⟨⟨words, pairs, total⟩, log⟩ => ⟨⟨words, pairs.clearIndex, total⟩, log⟩
  let used := (← get).state.pairs.used
  let merged ← dispatch (List.range used) fun slot => onPairs (reindexPair slot)
  return merged.countP id

/-- Add the count of a pair to the marginal counts of its words, and answer it. -/
def spreadCount (slot : Nat) : Stage (Tally α) (Option α)
  | ⟨words, pairs, total⟩ =>
    match pairs.row? slot with
    | none => .ok none ⟨words, pairs, total⟩
    | some row =>
      if row.isSpent then .ok none ⟨words, pairs, total⟩
      else
        match endsOf words pairs slot with
        | .ok ends => .ok (some row.count) ⟨addToEnds row.count ends words, pairs, total⟩
        | .error e => .error e ⟨words, pairs, total⟩

/-- Recompute the marginal counts from the pairs with count, and answer the sum of
their counts. The total is left alone. -/
def rebuildMarginals : Stage (Logged (Tally α)) α := do
  let capacity := (← get).state.words.capacity
  modify <| sweep (List.range capacity) fun ⟨words, pairs, total⟩ id =>
    ⟨words.modify id fun row => { row with count := 0 }, pairs, total⟩
  let used := (← get).state.pairs.used
  let counts ← dispatch (List.range used) spreadCount
  return (counts.filterMap id).foldl (· + ·) 0

/-- Recompute the marginal counts, set the total to the sum of the counts, and answer
it. -/
def rebuildTotals : Stage (Logged (Tally α)) UInt64 := do
  let mass ← rebuildMarginals
  let total := Weight.toTotal mass
  modify fun ⟨⟨words, pairs, _⟩, log⟩ => ⟨⟨words, pairs, total⟩, log⟩
  return total

end Tally

end CorpusStats
