import CorpusStats.Error
/-!
# CorpusStats.Batch.Sentences

A **batch of sentences**: the words of all sentences in one array, and for each
sentence where it starts and how long it is.

* The sentences **tile** the words: each starts where the one before it ends, the first
  at zero, and the last ends with the words. Empty sentences are allowed.
* Tiling is checked when a batch is made (`fault?`) and is part of the type, so a stage
  that works on a flat position never has to ask whether the arrays fit together.
* Positions are 32-bit words; a batch has at most `2 ^ 32 - 1` of them.
-/

namespace CorpusStats

/-- The most words a batch may hold. -/
def maxPositions : Nat := UInt32.size - 1

/-- Where each list starts in the concatenation of all, as a position. -/
def startsFrom {α : Type} (cursor : Nat) : List (List α) → List UInt32
  | [] => []
  | l :: rest => cursor.toUInt32 :: startsFrom (cursor + l.length) rest

@[simp] theorem length_startsFrom {α : Type} (cursor : Nat) (lists : List (List α)) :
    (startsFrom cursor lists).length = lists.length := by
  induction lists generalizing cursor with
  | nil => rfl
  | cons l rest ih => simp [startsFrom, ih]

namespace Sentences

/-- The first fault of the sentences from number `sentence` on, given as starts and
lengths, when the sentences before them end at `cursor`. -/
def tilingFault? (words : Nat) : (sentence cursor : Nat) → List (UInt32 × UInt32) → Option BatchFault
  | _, cursor, [] => if cursor = words then none else some (.coverage cursor words)
  | sentence, cursor, (start, length) :: rest =>
    if start.toNat = cursor then tilingFault? words (sentence + 1) (cursor + length.toNat) rest
    else some (.sentenceStart sentence start.toNat cursor)

/-- The first reason why arrays are no batch. -/
def fault? (words offsets lengths : Array UInt32) : Option BatchFault :=
  if offsets.size ≠ lengths.size then some (.offsetsAndLengths offsets.size lengths.size)
  else if maxPositions < words.size then some .tooManyPositions
  else tilingFault? words.size 0 0 (offsets.toList.zip lengths.toList)

end Sentences

/-- A batch of sentences that tile their words. -/
structure Sentences where
  /-- The words of all sentences, in order. -/
  words : Array UInt32
  /-- Where each sentence starts. -/
  offsets : Array UInt32
  /-- How many words each sentence has. -/
  lengths : Array UInt32
  tiled : Sentences.fault? words offsets lengths = none
  deriving Repr, DecidableEq

namespace Sentences

/-- The batch with these arrays, if the sentences tile the words. -/
def ofArrays (words offsets lengths : Array UInt32) : Except Error Sentences :=
  match h : fault? words offsets lengths with
  | none => .ok ⟨words, offsets, lengths, h⟩
  | some fault => .error (.malformed fault)

def ofLists (sentences : List (List UInt32)) : Except Error Sentences :=
  ofArrays sentences.flatten.toArray (startsFrom 0 sentences).toArray
    (sentences.map (·.length.toUInt32)).toArray

def empty : Sentences := ⟨#[], #[], #[], rfl⟩

instance : Inhabited Sentences := ⟨empty⟩

variable (b : Sentences)

def count : Nat := b.offsets.size

def totalWords : Nat := b.words.size

/-- The position at which sentence `s` starts. -/
def start (s : Nat) : UInt32 := b.offsets.getD s 0

def length (s : Nat) : UInt32 := b.lengths.getD s 0

/-- The position after the last word of sentence `s`. -/
def stop (s : Nat) : UInt32 := b.start s + b.length s

def sentence (s : Nat) : Array UInt32 :=
  b.words.extract (b.start s).toNat ((b.start s).toNat + (b.length s).toNat)

/-- The words of sentence `s`, if there is such a sentence. -/
def sentence? (s : Nat) : Option (Array UInt32) :=
  if s < b.count then some (b.sentence s) else none

def toLists : List (List UInt32) := (List.range b.count).map fun s => (b.sentence s).toList

/-- The largest word of the batch, if it has any. -/
def maxWord? : Option UInt32 := b.words.toList.max?

theorem lengths_size : b.lengths.size = b.count := by
  have h := b.tiled
  unfold fault? at h
  split at h
  · cases h
  · simp_all [count]

theorem totalWords_le : b.totalWords ≤ maxPositions := by
  have h := b.tiled
  unfold fault? at h
  split at h
  · cases h
  · split at h
    · cases h
    · simp_all [totalWords]

theorem ofArrays_eq_ok_iff {words offsets lengths : Array UInt32} {b : Sentences} :
    ofArrays words offsets lengths = .ok b ↔
      b.words = words ∧ b.offsets = offsets ∧ b.lengths = lengths := by
  constructor
  · intro h
    unfold ofArrays at h
    split at h
    · cases h; exact ⟨rfl, rfl, rfl⟩
    · cases h
  · rintro ⟨rfl, rfl, rfl⟩
    unfold ofArrays
    split
    · rfl
    · rename_i h
      rw [b.tiled] at h
      cases h

end Sentences

end CorpusStats
