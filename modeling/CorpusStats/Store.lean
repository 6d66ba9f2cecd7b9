import CorpusStats.Sections
import CorpusStats.Similarity
import CorpusStats.Tally.Folding
import CorpusStats.Tally.Score
import CorpusStats.Tally.Window
/-!
# CorpusStats.Store

Everything an engine knows: the tally, the sections, the working state of the similarity
pass, and the log of all dispatches. The stages of each part work on that part alone and
are lifted here, so what they leave alone is visible in their types.
-/

namespace CorpusStats

/-- The sizes of a pool and its index. -/
structure PoolSize where
  capacity : Nat
  index : Nat
  deriving Repr, DecidableEq

/-- Words, pairs, sections, similarities and the log. -/
structure Store (α : Type) where
  tally : Tally α
  sections : SectionPool α
  similarity : Similarity α
  log : Log
  deriving Repr

namespace Store

variable {α β : Type} [Weight α]

/-- An empty store with pools of these sizes, norms for `norms` words, and an index of
`disjuncts` slots for disjuncts. -/
def ofSizes (words pairs sections candidates : PoolSize) (norms disjuncts : Nat) :
    Except Error (Store α) := do
  let words ← Pool.ofCapacity "word" words.capacity words.index
  let pairs ← Pool.ofCapacity "pair" pairs.capacity pairs.index
  let sectionPool ← Pool.ofCapacity "section" sections.capacity sections.index
  let similarity ← Similarity.ofCapacities norms sections.capacity disjuncts
    candidates.capacity candidates.index
  return ⟨⟨words, pairs, 0⟩, sectionPool, similarity, .empty⟩

omit [Weight α] in
def onTally (act : Stage (Logged (Tally α)) β) : Stage (Store α) β
  | ⟨tally, sections, similarity, log⟩ =>
    match act ⟨tally, log⟩ with
    | .ok b ⟨tally, log⟩ => .ok b ⟨tally, sections, similarity, log⟩
    | .error e ⟨tally, log⟩ => .error e ⟨tally, sections, similarity, log⟩

omit [Weight α] in
def onSections (act : Stage (Logged (SectionPool α)) β) : Stage (Store α) β
  | ⟨tally, sections, similarity, log⟩ =>
    match act ⟨sections, log⟩ with
    | .ok b ⟨sections, log⟩ => .ok b ⟨tally, sections, similarity, log⟩
    | .error e ⟨sections, log⟩ => .error e ⟨tally, sections, similarity, log⟩

omit [Weight α] in
/-- Run a stage of the similarity pass, which reads the sections. -/
def onSimilarity (act : SectionPool α → Stage (Logged (Similarity α)) β) : Stage (Store α) β
  | ⟨tally, sections, similarity, log⟩ =>
    match act sections ⟨similarity, log⟩ with
    | .ok b ⟨similarity, log⟩ => .ok b ⟨tally, sections, similarity, log⟩
    | .error e ⟨similarity, log⟩ => .error e ⟨tally, sections, similarity, log⟩

/-- Score pairs for a total of `n` observations, and answer how many. -/
def score (mode : ScoreMode) (n : α) : Stage (Store α) Nat := onTally (modifyGet (Tally.score mode n))

def scoreStats (threshold : α) : Stage (Store α) ScoreStats :=
  onTally <| modifyGet fun s => (s.state.scoreStats threshold, survey s.state.pairs.used s)

/-- At most `limit` of the pairs with a score above a threshold. -/
def filterPairs (threshold : α) (limit : Nat) : Stage (Store α) (Bounded (PairHit α)) :=
  onTally <| modifyGet fun s => (s.state.filterPairs threshold limit, survey s.state.pairs.used s)

/-- At most `limit` of the candidates with a cosine above a threshold. -/
def filterCandidates (threshold : α) (limit : Nat) : Stage (Store α) (Bounded (CandidateHit α)) :=
  onSimilarity fun _ => modifyGet fun s =>
    (s.state.filterCandidates threshold limit, survey s.state.candidates.used s)

def foldPairs : Stage (Store α) FoldReport := onTally (modifyGet Tally.foldPairs)

/-- Replace the words of sections by their classes, and answer how many moved. -/
def foldSections : Stage (Store α) Nat
  | ⟨tally, sections, similarity, log⟩ =>
    match SectionPool.foldWords tally.words ⟨sections, log⟩ with
    | (moved, ⟨sections, log⟩) => .ok moved ⟨tally, sections, similarity, log⟩

/-- Replace all words by their classes: pairs, then the index of pairs, then sections. -/
def fold : Stage (Store α) FoldReport := do
  let report ← foldPairs
  let merged ← onTally Tally.reindexPairs
  let sections ← foldSections
  return { report with merged, sections }

/-- Forget everything but the log. -/
def reset (s : Store α) : Store α :=
  ⟨s.tally.reset, s.sections.reset, s.similarity.reset, s.log⟩

end Store

end CorpusStats
