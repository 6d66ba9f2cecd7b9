import CorpusStats.Engine.Basic
/-!
# CorpusStats.Engine.Call

The stages of an engine as data. A host's session is a **run**: a list of calls, each
made on what the one before left behind, whether that one answered or failed.

* `Engine.perform` makes one call and answers it.
* `Engine.after` keeps what the call leaves of the engine, and `Engine.run` makes a whole
  list of calls. An engine is *reachable* from another exactly by a run.
* A failed call may have changed the engine: a stage keeps what it did before it failed.
-/

namespace CorpusStats

/-- What a host can ask of an engine. -/
inductive Call (α : Type)
  | internWords (keys : List UInt64)
  | pairSlots (as bs : List UInt32)
  | sectionSlots (words : List UInt32) (disjuncts : List UInt64)
  | countPairs (slots : List UInt32)
  | countSections (slots : List UInt32)
  /-- Observe the pairs of words that stand close together in a batch. -/
  | countSentences (batch : Sentences) (window : UInt32)
  | extractSections (batch : Parses)
  | score (mode : ScoreMode)
  /-- Read the statistics of the pairs. -/
  | scoreStats (threshold : α)
  /-- Read the pairs with a score above a threshold. -/
  | filterPairs (threshold : α) (limit : Nat)
  /-- Find the words that share disjuncts. -/
  | computeSimilarity
  /-- Read the candidates with a cosine above a threshold. -/
  | filterCandidates (threshold : α) (limit : Nat)
  | assignClasses (classes : ClassMap)
  /-- Replace the words of pairs by their classes; the index of pairs is then out of date. -/
  | foldPairs
  | reindexPairs
  | foldSections
  | fold
  /-- Recompute the marginal counts and the total. -/
  | rebuildTotals
  | loadPairs (slots : List UInt32) (counts : List α)
  | loadSections (slots : List UInt32) (counts : List α)
  | loadWords (ids : List UInt32) (counts : List α)
  | setTotal (total : UInt64)
  /-- Forget everything but the configuration and the log. -/
  | reset

/-- What an engine answers. -/
inductive Answer (α : Type)
  | done
  /-- Ids or slots, one for each thing asked for. -/
  | slots (slots : List UInt32)
  /-- How many records were changed. -/
  | changed (records : Nat)
  | total (observations : UInt64)
  | counted (report : CountReport)
  /-- What extracting sections did, and how many sections there are. -/
  | extracted (report : ExtractReport) (sections : Nat)
  | stats (stats : ScoreStats)
  | pairHits (hits : Bounded (PairHit α))
  | candidateHits (hits : Bounded (CandidateHit α))
  | similar (report : SimilarityReport)
  | folded (report : FoldReport)
  deriving Repr

namespace Engine

variable {α : Type} [Weight α]

/-- Make one call. -/
def perform : Call α → Stage (Engine α) (Answer α)
  | .internWords keys => .slots <$> internWords keys
  | .pairSlots as bs => .slots <$> pairSlots as bs
  | .sectionSlots words disjuncts => .slots <$> sectionSlots words disjuncts
  | .countPairs slots => (fun _ => .done) <$> countPairs slots
  | .countSections slots => (fun _ => .done) <$> countSections slots
  | .countSentences batch window => .counted <$> countSentences batch window
  | .extractSections batch => (fun (report, sections) => .extracted report sections) <$>
      extractSections batch
  | .score mode => .changed <$> score mode
  | .scoreStats threshold => .stats <$> scoreStats threshold
  | .filterPairs threshold limit => .pairHits <$> filterPairs threshold limit
  | .computeSimilarity => .similar <$> computeSimilarity
  | .filterCandidates threshold limit => .candidateHits <$> filterCandidates threshold limit
  | .assignClasses classes => (fun _ => .done) <$> assignClasses classes
  | .foldPairs => .folded <$> foldPairs
  | .reindexPairs => .changed <$> reindexPairs
  | .foldSections => .changed <$> foldSections
  | .fold => .folded <$> fold
  | .rebuildTotals => .total <$> rebuildTotals
  | .loadPairs slots counts => (fun _ => .done) <$> loadPairs slots counts
  | .loadSections slots counts => (fun _ => .done) <$> loadSections slots counts
  | .loadWords ids counts => (fun _ => .done) <$> loadWords ids counts
  | .setTotal total => (fun _ => .done) <$> setTotal total
  | .reset => (fun _ => .done) <$> reset

/-- What a call leaves of an engine, answered or not. -/
def after (e : Engine α) (call : Call α) : Engine α :=
  match perform call e with
  | .ok _ e => e
  | .error _ e => e

/-- What a run leaves of an engine. -/
def run (calls : List (Call α)) (e : Engine α) : Engine α := calls.foldl after e

@[simp] theorem run_nil (e : Engine α) : run [] e = e := rfl

@[simp] theorem run_cons (call : Call α) (calls : List (Call α)) (e : Engine α) :
    run (call :: calls) e = run calls (e.after call) := rfl

theorem run_append (calls calls' : List (Call α)) (e : Engine α) :
    run (calls ++ calls') e = run calls' (run calls e) := by
  simp [run]

end Engine

end CorpusStats
