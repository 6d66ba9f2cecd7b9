import CorpusStats.Pool
/-!
# CorpusStats.Tally.Basic

The **tally** of a corpus: its words with their marginal counts, its pairs with their
counts, and the number of observations.

* Observing a pair adds one to its count, to the marginal count of each of its words
  (twice for a word paired with itself) and to the total, and makes its score out of
  date. Both words are checked first, so an observation happens as a whole or not at all.
* Asking for a pair and observing it are separate: a pair can exist with no count.
-/

namespace CorpusStats

/-- Words, pairs and the number of observations. -/
structure Tally (α : Type) where
  words : WordPool α
  pairs : PairPool α
  total : UInt64
  deriving Repr

/-- Two lists that belong together have one length. -/
def checkLengths (stage : String) (first second : Nat) : Except Error Unit :=
  if first = second then .ok () else .error (.malformed (.lengthsDiffer stage first second))

namespace WordPool

variable {α : Type} [Weight α]

/-- The slot of a word, by the key of its name. -/
def intern (key : UInt64) : Stage (WordPool α) UInt32 := do
  let key := Key.storable key
  let (slot, _) ← Pool.findOrCreate key fun row => { row with nameHash := key }
  return slot

/-- Set the marginal count of a word of the arena. -/
def loadCount (id : UInt32) (count : α) : Stage (WordPool α) Unit := fun words =>
  match words.checkId id with
  | .ok slot => .ok () (words.modify slot fun row => { row with count })
  | .error e => .error e words

/-- Set the class of a word of the arena to another word of the arena. -/
def assign (word cls : UInt32) : Stage (WordPool α) Unit := fun words =>
  match (do let slot ← words.checkId word; let _ ← words.checkId cls; return slot) with
  | .ok slot => .ok () (words.modify slot fun row => { row with classId := cls })
  | .error e => .error e words

end WordPool

namespace PairPool

variable {α : Type} [Weight α]

/-- The slot of the pair of two words, and whether it is new. -/
def slotOf (a b : UInt32) : Stage (PairPool α) (UInt32 × Bool) :=
  let pair := WordPair.of a b
  Pool.findOrCreate pair.key fun row => { row with wordA := pair.first, wordB := pair.second }

/-- Set the count of a pair, which makes its score out of date. -/
def loadCount (slot : UInt32) (count : α) : Stage (PairPool α) Unit := fun pairs =>
  match pairs.check slot with
  | .ok slot => .ok () (pairs.modify slot fun row => { row with count }.markDirty)
  | .error e => .error e pairs

end PairPool

namespace Tally

variable {α β : Type}

/-- Run a stage of the words alone. -/
def onWords (act : Stage (WordPool α) β) : Stage (Tally α) β
  | ⟨words, pairs, total⟩ =>
    match act words with
    | .ok b words => .ok b ⟨words, pairs, total⟩
    | .error e words => .error e ⟨words, pairs, total⟩

/-- Run a stage of the pairs alone. -/
def onPairs (act : Stage (PairPool α) β) : Stage (Tally α) β
  | ⟨words, pairs, total⟩ =>
    match act pairs with
    | .ok b pairs => .ok b ⟨words, pairs, total⟩
    | .error e pairs => .error e ⟨words, pairs, total⟩

variable [Weight α]

/-- The words of a pair in use, accepted as ids of the word pool. -/
def endsOf (words : WordPool α) (pairs : PairPool α) (slot : Nat) : Except Error (Nat × Nat) :=
  match pairs.row? slot with
  | none => .error (.malformed (.slotOutOfRange pairs.name slot pairs.used))
  | some row => do
    let a ← words.checkId row.wordA
    let b ← words.checkId row.wordB
    return (a, b)

/-- Add to the marginal counts of the two ends of a pair. -/
def addToEnds (count : α) (ends : Nat × Nat) (words : WordPool α) : WordPool α :=
  let add (row : WordRow α) : WordRow α := { row with count := row.count + count }
  (words.modify ends.1 add).modify ends.2 add

/-- Observe a pair once. -/
def observe (slot : Nat) : Stage (Tally α) Unit
  | ⟨words, pairs, total⟩ =>
    match endsOf words pairs slot with
    | .ok ends =>
      let add (row : PairRow α) : PairRow α := { row with count := row.count + 1 }.markDirty
      .ok () ⟨addToEnds 1 ends words, pairs.modify slot add, total + 1⟩
    | .error e => .error e ⟨words, pairs, total⟩

/-- Observe the pair of two words once, creating it if it is new. -/
def observeWords (a b : UInt32) : Stage (Tally α) Unit := do
  let (slot, _) ← onPairs (PairPool.slotOf a b)
  observe slot.toNat

/-- Observe the pair in a slot once, if the slot is in use. -/
def observeSlot (slot : UInt32) : Stage (Tally α) Unit := fun t =>
  match t.pairs.check slot with
  | .ok slot => observe slot t
  | .error e => .error e t

/-- The rows of the pairs in use, each with the marginal counts of its words. -/
def scoredPairs (t : Tally α) : List (ScoredPair α) :=
  t.pairs.liveRows.map fun row =>
    { count := row.count, score := row.score,
      marginalA := WordPool.marginal t.words row.wordA,
      marginalB := WordPool.marginal t.words row.wordB,
      wordA := row.wordA, wordB := row.wordB, flags := row.flags }

def reset (t : Tally α) : Tally α := ⟨t.words.reset, t.pairs.reset, 0⟩

/-! ### Stages -/

/-- The slots of words, by the keys of their names. -/
def internWords (keys : List UInt64) : Stage (Logged (Tally α)) (List UInt32) :=
  dispatch keys fun key => onWords (WordPool.intern key)

/-- The slots of pairs, given as two lists of words. -/
def pairSlots (as bs : List UInt32) : Stage (Logged (Tally α)) (List UInt32) := do
  checkLengths "pair_find_or_create" as.length bs.length
  dispatch (as.zip bs) fun (a, b) => do
    let (slot, _) ← onPairs (PairPool.slotOf a b)
    return slot

/-- Observe the pairs in these slots, each as often as its slot is named. -/
def countSlots (slots : List UInt32) : Stage (Logged (Tally α)) Unit := do
  let _ ← dispatch slots observeSlot

end Tally

end CorpusStats
