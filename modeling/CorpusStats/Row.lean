import CorpusStats.Key
import CorpusStats.Weight
/-!
# CorpusStats.Row

The records of a store, one structure per kind. A row's `default` is what a slot holds
before its record is created, and again after the pool is emptied.

A pair row is **live** while its count is above zero and **dirty** when its count or
its words changed since its score was computed. Dirtiness is the lowest bit of the
row's flags; the other bits belong to the host.
-/

namespace CorpusStats

/-- The class of a word that has none. -/
def noClass : UInt32 := 0xFFFFFFFF

/-- One word. -/
structure WordRow (α : Type) where
  nameHash : UInt64
  /-- How many ends of observed pairs the word is: its marginal count. -/
  count : α
  /-- The class the word belongs to, or `noClass`. -/
  classId : UInt32
  deriving Repr, DecidableEq

/-- One pair of words, the smaller one in `wordA`. -/
structure PairRow (α : Type) where
  /-- How often the pair was observed. -/
  count : α
  /-- The association of the two words when it was last computed. -/
  score : α
  wordA : UInt32
  wordB : UInt32
  /-- The dirty bit and the bits of the host. -/
  flags : UInt32
  deriving Repr, DecidableEq

/-- A pair together with the marginal counts of its two words. -/
structure ScoredPair (α : Type) where
  /-- How often the pair was observed. -/
  count : α
  /-- The association of the two words when it was last computed. -/
  score : α
  marginalA : α
  marginalB : α
  wordA : UInt32
  wordB : UInt32
  /-- The dirty bit and the bits of the host. -/
  flags : UInt32
  deriving Repr, DecidableEq

/-- One section: a word with one of its disjuncts. -/
structure SectionRow (α : Type) where
  disjunct : UInt64
  count : α
  word : UInt32
  deriving Repr, DecidableEq

/-- Two words that share a disjunct, the smaller one in `wordA`. -/
structure CandidateRow (α : Type) where
  /-- The sum of the products of their counts over shared disjuncts. -/
  dot : α
  cosine : α
  wordA : UInt32
  wordB : UInt32
  deriving Repr, DecidableEq

/-- A pair that passed a filter on its score. -/
structure PairHit (α : Type) where
  score : α
  /-- The slot of the pair. -/
  pair : UInt32
  deriving Repr, DecidableEq

/-- Two words that passed a filter on their cosine. -/
structure CandidateHit (α : Type) where
  cosine : α
  wordA : UInt32
  wordB : UInt32
  deriving Repr, DecidableEq

variable {α : Type} [Weight α]

instance : Inhabited (WordRow α) := ⟨⟨0, 0, noClass⟩⟩

instance : Inhabited (PairRow α) := ⟨⟨0, 0, 0, 0, 0⟩⟩

instance : Inhabited (SectionRow α) := ⟨⟨0, 0, 0⟩⟩

instance : Inhabited (CandidateRow α) := ⟨⟨0, 0, 0, 0⟩⟩

namespace PairRow

/-- The flag of a pair whose score is out of date. -/
def dirtyBit : UInt32 := 1

def isDirty (row : PairRow α) : Bool := row.flags &&& dirtyBit != 0

def isLive (row : PairRow α) : Bool := 0 < row.count

/-- Whether the count is zero or below. It differs from the opposite of `isLive` for a
count that compares with nothing. -/
def isSpent (row : PairRow α) : Bool := row.count ≤ 0

def markDirty (row : PairRow α) : PairRow α := { row with flags := row.flags ||| dirtyBit }

def markClean (row : PairRow α) : PairRow α := { row with flags := row.flags &&& ~~~dirtyBit }

/-- Take count, score and flags away; the words stay. -/
def retire (row : PairRow α) : PairRow α := { row with count := 0, score := 0, flags := 0 }

def words (row : PairRow α) : WordPair := .of row.wordA row.wordB

omit [Weight α] in
@[simp] theorem isDirty_markDirty (row : PairRow α) : row.markDirty.isDirty = true := by
  have h : (row.flags ||| dirtyBit) &&& dirtyBit = dirtyBit := by
    apply UInt32.eq_of_toBitVec_eq
    ext i hi
    simp +contextual [dirtyBit]
  simp only [isDirty, markDirty, h]
  decide

omit [Weight α] in
@[simp] theorem isDirty_markClean (row : PairRow α) : row.markClean.isDirty = false := by
  have h : (row.flags &&& ~~~dirtyBit) &&& dirtyBit = 0 := by
    rw [UInt32.and_assoc, show ~~~dirtyBit &&& dirtyBit = 0 by decide, UInt32.and_zero]
  simp [isDirty, markClean, h]

end PairRow

namespace SectionRow

def isLive (row : SectionRow α) : Bool := 0 < row.count

end SectionRow

end CorpusStats
