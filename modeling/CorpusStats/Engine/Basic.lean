import CorpusStats.Config.Basic
import CorpusStats.Store
/-!
# CorpusStats.Engine.Basic

A store with its configuration. Each stage checks its input as far as that can be done
before the first dispatch, runs, and reports.

* Batches are refused if they name a word beyond the word pool, before anything changes.
* Loading counts checks each slot as it comes to it, so a refused load may have stored
  the counts before the slot that was refused.
* Resetting forgets everything but the configuration and the log.
-/

namespace CorpusStats

/-- What counting a batch did. -/
structure CountReport where
  events : Nat
  total : UInt64
  pairs : Nat
  deriving Repr, DecidableEq

/-- How many records there are of each kind. -/
structure PoolCounts where
  words : Nat
  pairs : Nat
  sections : Nat
  candidates : Nat
  deriving Repr, DecidableEq

/-- A store and the configuration it was made from. -/
structure Engine (α : Type) where
  config : Config
  store : Store α
  deriving Repr

namespace Engine

variable {α β : Type}

/-- The name an engine gives itself. -/
def name : String := "CPU (Rayon)"

/-- The words of a batch, accepted as ids of a word pool. -/
def checkWords (words : WordPool α) (b : Sentences) : Except Error Unit :=
  match b.maxWord? with
  | some word =>
    if words.capacity ≤ word.toNat then .error (.malformed (.wordBeyond word.toNat words.capacity))
    else .ok ()
  | none => .ok ()

/-- How this engine finds the sentences of a batch. -/
def locatorFor (e : Engine α) (b : Sentences) : Locator :=
  e.config.compute.policy.locator e.config.compute.threshold b.count

def onStore (act : Stage (Store α) β) : Stage (Engine α) β
  | ⟨config, store⟩ =>
    match act store with
    | .ok b store => .ok b ⟨config, store⟩
    | .error e store => .error e ⟨config, store⟩

variable [Weight α]

/-- An empty engine, if the configuration is valid. -/
def ofConfig (config : Config) : Except Error (Engine α) := do
  config.validate
  let c := config.capacities
  let store ← Store.ofSizes ⟨c.wordPool.toNat, c.wordIndex.toNat⟩
    ⟨c.pairPool.toNat, c.pairIndex.toNat⟩ ⟨c.sectionPool.toNat, c.sectionIndex.toNat⟩
    ⟨c.candidatePool.toNat, c.candidateIndex.toNat⟩ c.wordPool.toNat c.disjunctIndex.toNat
  return ⟨config, store⟩

/-! ### Registering -/

def internWords (keys : List UInt64) : Stage (Engine α) (List UInt32) :=
  onStore (Store.onTally (Tally.internWords keys))

def pairSlots (as bs : List UInt32) : Stage (Engine α) (List UInt32) :=
  onStore (Store.onTally (Tally.pairSlots as bs))

/-- The slots of sections. -/
def sectionSlots (words : List UInt32) (disjuncts : List UInt64) : Stage (Engine α) (List UInt32) :=
  onStore (Store.onSections (SectionPool.slotsOf words disjuncts))

/-! ### Counting -/

def countPairs (slots : List UInt32) : Stage (Engine α) Unit :=
  onStore (Store.onTally (Tally.countSlots slots))

def countSections (slots : List UInt32) : Stage (Engine α) Unit :=
  onStore (Store.onSections (SectionPool.countSlots slots))

/-- Observe the pairs of words that stand close together in the sentences of a batch. -/
def countSentences (b : Sentences) (window : UInt32) : Stage (Engine α) CountReport := do
  checkWords (← get).store.tally.words b
  let locator := (← get).locatorFor b
  let events ← onStore (Store.onTally (Tally.countSentences b window locator))
  let tally := (← get).store.tally
  return { events, total := tally.total, pairs := tally.pairs.used }

/-- Count the sections of the positions of a batch. Answers what it did and how many
sections there are. -/
def extractSections (b : Parses) : Stage (Engine α) (ExtractReport × Nat) := do
  checkWords (← get).store.tally.words b.sentences
  let locator := (← get).locatorFor b.sentences
  let report ← onStore (Store.onSections (SectionPool.extract b locator))
  return (report, (← get).store.sections.used)

/-! ### Scores and similarities -/

/-- Score pairs for the observations so far, and answer how many. -/
def score (mode : ScoreMode) : Stage (Engine α) Nat := do
  let n : α := Weight.ofTotal (← get).store.tally.total
  onStore (Store.score mode n)

def scoreStats (threshold : α) : Stage (Engine α) ScoreStats := onStore (Store.scoreStats threshold)

/-- At most `limit` of the pairs with a score above a threshold. -/
def filterPairs (threshold : α) (limit : Nat) : Stage (Engine α) (Bounded (PairHit α)) :=
  onStore (Store.filterPairs threshold limit)

/-- Find the words that share disjuncts, and how alike they are. -/
def computeSimilarity : Stage (Engine α) SimilarityReport :=
  onStore (Store.onSimilarity Similarity.run)

/-- At most `limit` of the candidates with a cosine above a threshold. -/
def filterCandidates (threshold : α) (limit : Nat) : Stage (Engine α) (Bounded (CandidateHit α)) :=
  onStore (Store.filterCandidates threshold limit)

/-! ### Folding words into classes -/

def assignClasses (m : ClassMap) : Stage (Engine α) Unit :=
  onStore (Store.onTally (Tally.assignClasses m))

def foldPairs : Stage (Engine α) FoldReport := onStore Store.foldPairs

/-- Rebuild the index of pairs, and answer how many were merged away. -/
def reindexPairs : Stage (Engine α) Nat := onStore (Store.onTally Tally.reindexPairs)

/-- Replace the words of sections by their classes, and answer how many moved. -/
def foldSections : Stage (Engine α) Nat := onStore Store.foldSections

def fold : Stage (Engine α) FoldReport := onStore Store.fold

/-- Recompute the marginal counts and the total from the pairs, and answer the total. -/
def rebuildTotals : Stage (Engine α) UInt64 := onStore (Store.onTally Tally.rebuildTotals)

/-! ### Loading -/

/-- Run a stage on the state of the tally, outside any dispatch. -/
def onTallyState (act : Stage (Tally α) β) : Stage (Engine α) β :=
  onStore <| Store.onTally fun ⟨tally, log⟩ =>
    match act tally with
    | .ok b tally => .ok b ⟨tally, log⟩
    | .error e tally => .error e ⟨tally, log⟩

/-- Run a stage on the state of the sections, outside any dispatch. -/
def onSectionsState (act : Stage (SectionPool α) β) : Stage (Engine α) β :=
  onStore <| Store.onSections fun ⟨sections, log⟩ =>
    match act sections with
    | .ok b sections => .ok b ⟨sections, log⟩
    | .error e sections => .error e ⟨sections, log⟩

/-- Set the counts of pairs, and mark their scores as out of date. -/
def loadPairs (slots : List UInt32) (counts : List α) : Stage (Engine α) Unit := do
  checkLengths "load_pair_counts" slots.length counts.length
  onTallyState <| (slots.zip counts).forM fun (slot, count) =>
    Tally.onPairs (PairPool.loadCount slot count)

def loadSections (slots : List UInt32) (counts : List α) : Stage (Engine α) Unit := do
  checkLengths "load_section_counts" slots.length counts.length
  onSectionsState <| (slots.zip counts).forM fun (slot, count) => SectionPool.loadCount slot count

def loadWords (ids : List UInt32) (counts : List α) : Stage (Engine α) Unit := do
  checkLengths "load_word_counts" ids.length counts.length
  onTallyState <| (ids.zip counts).forM fun (id, count) => Tally.onWords (WordPool.loadCount id count)

def setTotal (total : UInt64) : Stage (Engine α) Unit :=
  onTallyState fun ⟨words, pairs, _⟩ => .ok () ⟨words, pairs, total⟩

/-- Forget everything but the configuration and the log. -/
def reset : Stage (Engine α) Unit := onStore fun s => .ok () s.reset

/-! ### Reading -/

omit [Weight α] in
/-- How many records there are of each kind. -/
def poolCounts (e : Engine α) : PoolCounts where
  words := e.store.tally.words.used
  pairs := e.store.tally.pairs.used
  sections := e.store.sections.used
  candidates := e.store.similarity.candidates.used

omit [Weight α] in
/-- The slot of the pair of two words, if there is one. -/
def lookupPair (e : Engine α) (a b : UInt32) : Option UInt32 :=
  e.store.tally.pairs.lookup (WordPair.of a b).key

omit [Weight α] in
/-- The slot of the section of a word and a disjunct, if there is one. -/
def lookupSection (e : Engine α) (word : UInt32) (disjunct : UInt64) : Option UInt32 :=
  e.store.sections.lookup (Key.ofSection word disjunct)

end Engine

end CorpusStats
