import CorpusStats.Batch.Locator
import CorpusStats.Batch.Parses
import CorpusStats.Tally.Basic
/-!
# CorpusStats.Sections

Counting what words are linked to. One work-item per flat position: its connectors are
read off the edges of its sentence, and the section of its word with their disjunct is
created if it is new and counted once. A position that no edge touches has no section.

A section is found through the word it had when it was created. Folding words into
classes rewrites the words of sections in place and leaves the index alone, so sections
that become equal stay apart.
-/

namespace CorpusStats

/-- What extracting sections from a batch did. -/
structure ExtractReport where
  /-- Positions with a section. -/
  observed : Nat
  /-- Sections that were new. -/
  created : Nat
  deriving Repr, DecidableEq

variable {α : Type} [Weight α]

namespace SectionPool

/-- The slot of the section of a word and a disjunct, and whether it is new. -/
def slotOf (word : UInt32) (disjunct : UInt64) : Stage (SectionPool α) (UInt32 × Bool) :=
  Pool.findOrCreate (Key.ofSection word disjunct) fun row => { row with word, disjunct }

/-- Count the section in a slot once. -/
def observe (slot : Nat) : Stage (SectionPool α) Unit := fun sections =>
  .ok () (sections.modify slot fun row => { row with count := row.count + 1 })

/-- Count the section in a slot once, if the slot is in use. -/
def observeSlot (slot : UInt32) : Stage (SectionPool α) Unit := fun sections =>
  match sections.check slot with
  | .ok slot => observe slot sections
  | .error e => .error e sections

/-- Set the count of a section. -/
def loadCount (slot : UInt32) (count : α) : Stage (SectionPool α) Unit := fun sections =>
  match sections.check slot with
  | .ok slot => .ok () (sections.modify slot fun row => { row with count })
  | .error e => .error e sections

/-- Count the section of a position. Answers whether it was new, or nothing if the
position has no connectors. -/
def extractPosition (b : Parses) (locator : Locator) (i : Nat) :
    Stage (SectionPool α) (Option Bool) := do
  let position := i.toUInt32
  match locator.locate b.sentences position with
  | none => throw (.malformed (.unowned i))
  | some s =>
    let connectors := b.connectors s (position - b.sentences.start s)
    if Disjunct.maxConnectors < connectors.length then
      throw (.malformed (.crowded i Disjunct.maxConnectors))
    if connectors.isEmpty then
      return none
    let (slot, created) ← slotOf (b.sentences.words.getD i 0) (Disjunct.hash connectors)
    observe slot.toNat
    return some created

/-! ### Stages -/

/-- The slots of sections, given as a list of words and one of disjuncts. -/
def slotsOf (words : List UInt32) (disjuncts : List UInt64) :
    Stage (Logged (SectionPool α)) (List UInt32) := do
  checkLengths "section_find_or_create" words.length disjuncts.length
  dispatch (words.zip disjuncts) fun (word, disjunct) => do
    let (slot, _) ← slotOf word disjunct
    return slot

/-- Count the sections in these slots, each as often as its slot is named. -/
def countSlots (slots : List UInt32) : Stage (Logged (SectionPool α)) Unit := do
  let _ ← dispatch slots observeSlot

/-- Count the section of every position of a batch that has one. -/
def extract (b : Parses) (locator : Locator) : Stage (Logged (SectionPool α)) ExtractReport := do
  let found ← dispatch (List.range b.sentences.totalWords) (extractPosition b locator)
  let fresh := found.filterMap id
  return { observed := fresh.length, created := fresh.countP id }

/-- Replace the words of sections by their classes, and answer how many had one that
moved. -/
def foldWords (words : WordPool α) (s : Logged (SectionPool α)) : Nat × Logged (SectionPool α) :=
  let moved := s.state.liveRows.countP fun row => WordPool.classOf words row.word ≠ row.word
  (moved, sweep (List.range s.state.used) (fun sections slot =>
    sections.modify slot fun row => { row with word := WordPool.classOf words row.word }) s)

end SectionPool

end CorpusStats
