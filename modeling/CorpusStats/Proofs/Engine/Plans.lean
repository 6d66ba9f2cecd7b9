import CorpusStats.Engine.Call
import CorpusStats.Proofs.Engine.Batches
import CorpusStats.Proofs.Plan
/-!
# CorpusStats.Proofs.Engine.Plans

The plan of every call (`Plan.perform`), stage by stage. A call does what its plan does
(`Engine.lift_perform`), so the trail of the plan is what the call leaves after each of its work-items
(`Engine.trail`). An answered call has one state there for each work-item of the dispatches that it
enters in the log (`Engine.length_trail`, `Engine.log_perform`).

Plans work on the contents of an engine. The configuration is left out, since what it decides, how
the sentence of a position is found, makes no difference to any stage.
-/

namespace CorpusStats

open Stage

variable {σ α β γ : Type}

/-! ### Parts of an engine -/

/-- What stages work on: an engine without its configuration and its log. -/
structure Contents (α : Type) where
  tally : Tally α
  sections : SectionPool α
  similarity : Similarity α

namespace Contents

def tallyPart : Part (Contents α) (Tally α) := ⟨tally, fun tally s => { s with tally }⟩

def sectionsPart : Part (Contents α) (SectionPool α) :=
  ⟨sections, fun sections s => { s with sections }⟩

def similarityPart : Part (Contents α) (Similarity α) :=
  ⟨similarity, fun similarity s => { s with similarity }⟩

end Contents

/-- The contents of an engine, with its log. -/
def Engine.opened : Part (Engine α) (Logged (Contents α)) where
  get e := ⟨⟨e.store.tally, e.store.sections, e.store.similarity⟩, e.store.log⟩
  put s e := ⟨e.config, s.state.tally, s.state.sections, s.state.similarity, s.log⟩

namespace Plan

section Plans

variable [Weight α]

/-! ### Plans of stages -/

def internWords (keys : List UInt64) : Plan (Tally α) (List UInt32) :=
  dispatch keys fun key => Tally.onWords (WordPool.intern key)

def pairSlots (as bs : List UInt32) : Plan (Tally α) (List UInt32) := do
  checkLengths "pair_find_or_create" as.length bs.length
  dispatch (as.zip bs) fun (a, b) => do
    let (slot, _) ← Tally.onPairs (PairPool.slotOf a b)
    return slot

def countPairs (slots : List UInt32) : Plan (Tally α) Unit := do
  let _ ← dispatch slots Tally.observeSlot

def countSentences (b : Sentences) (window : UInt32) (locator : Locator) : Plan (Tally α) ℕ := do
  let counts ← dispatch (List.range b.totalWords) (Tally.countPosition b window locator)
  return counts.foldl (· + ·) 0

/-- Change the row of every pair, and read the tally as it was before. -/
def sweepPairs (f : WordPool α → PairRow α → PairRow α) (read : Tally α → β) :
    Plan (Tally α) β := do
  let t ← get
  sweep (List.range t.pairs.used) fun (⟨words, pairs, total⟩ : Tally α) slot =>
    ⟨words, pairs.modify slot (f words), total⟩
  return read t

def score (n : α) : ScoreMode → Plan (Tally α) ℕ
  | .all => sweepPairs (PairRow.rescore · n) fun t => t.pairs.used
  | .dirty => sweepPairs (PairRow.refresh · n) fun t => t.pairs.liveRows.countP PairRow.isDirty

/-- Read the tally, with one work-item for each pair. -/
def surveyPairs (read : Tally α → β) : Plan (Tally α) β := do
  let t ← get
  survey t.pairs.used
  return read t

def assignClasses (m : ClassMap) : Plan (Tally α) Unit := do
  let _ ← dispatch m.entries fun (word, cls) => Tally.onWords (WordPool.assign word cls)

def foldPairs : Plan (Tally α) FoldReport :=
  sweepPairs PairRow.folded fun t => (Tally.foldPairs ⟨t, .empty⟩).1

def reindexPairs : Plan (Tally α) ℕ := do
  host <| modify fun ⟨words, pairs, total⟩ => ⟨words, pairs.clearIndex, total⟩
  let used := (← get).pairs.used
  let merged ← dispatch (List.range used) fun slot => Tally.onPairs (Tally.reindexPair slot)
  return merged.countP id

def rebuildTotals : Plan (Tally α) UInt64 := do
  let t ← get
  sweep (List.range t.words.capacity) fun (⟨words, pairs, total⟩ : Tally α) id =>
    ⟨words.modify id fun row => { row with count := 0 }, pairs, total⟩
  let used := (← get).pairs.used
  let counts ← dispatch (List.range used) Tally.spreadCount
  let total := Weight.toTotal ((counts.filterMap id).foldl (· + ·) 0)
  host <| modify fun ⟨words, pairs, _⟩ => ⟨words, pairs, total⟩
  return total

def sectionSlots (words : List UInt32) (disjuncts : List UInt64) :
    Plan (SectionPool α) (List UInt32) := do
  checkLengths "section_find_or_create" words.length disjuncts.length
  dispatch (words.zip disjuncts) fun (word, disjunct) => do
    let (slot, _) ← SectionPool.slotOf word disjunct
    return slot

def countSections (slots : List UInt32) : Plan (SectionPool α) Unit := do
  let _ ← dispatch slots SectionPool.observeSlot

def extractSections (b : Parses) (locator : Locator) : Plan (SectionPool α) ExtractReport := do
  let found ← dispatch (List.range b.sentences.totalWords) (SectionPool.extractPosition b locator)
  let fresh := found.filterMap id
  return { observed := fresh.length, created := fresh.countP id }

def foldSections (words : WordPool α) : Plan (SectionPool α) ℕ := do
  let sections ← get
  sweep (List.range sections.used) fun (sections : SectionPool α) slot =>
    sections.modify slot fun row => { row with word := WordPool.classOf words row.word }
  return sections.liveRows.countP fun row => WordPool.classOf words row.word ≠ row.word

def computeCosines : Plan (Similarity α) Unit := do
  let w ← get
  sweep w.candidates.slots fun (⟨norms, heads, next, candidates⟩ : Similarity α) slot =>
    let norm (word : UInt32) : α := norms.getD word.toNat 0
    ⟨norms, heads, next, candidates.modify slot fun row =>
      { row with cosine := Similarity.cosineOf row.dot (norm row.wordA) (norm row.wordB) }⟩

def computeSimilarity (sections : SectionPool α) : Plan (Similarity α) SimilarityReport := do
  host <| modify Similarity.reset
  let _ ← dispatch sections.slots (Similarity.addNorm sections)
  let linked ← dispatch sections.slots (Similarity.link sections)
  let _ ← dispatch sections.slots (Similarity.addProducts sections)
  computeCosines
  let w ← get
  return { chained := linked.countP id, disjuncts := w.disjuncts, candidates := w.candidates.used }

def filterCandidates (threshold : α) (limit : ℕ) :
    Plan (Similarity α) (Bounded (CandidateHit α)) := do
  let w ← get
  survey w.candidates.used
  return w.filterCandidates threshold limit

/-! ### Plans of calls -/

def onTally (plan : Plan (Tally α) β) : Plan (Contents α) β := within Contents.tallyPart plan

def onSections (plan : Plan (SectionPool α) β) : Plan (Contents α) β :=
  within Contents.sectionsPart plan

/-- A plan for the similarity pass, which reads the sections. -/
def onSimilarity (plan : SectionPool α → Plan (Similarity α) β) : Plan (Contents α) β := do
  let s ← get
  within Contents.similarityPart (plan s.sections)

/-- Check two lists that belong together, and go through them outside any dispatch. -/
def load {ι κ : Type} (stage : String) (as : List ι) (bs : List κ) (step : ι → κ → Stage σ Unit) :
    Plan σ Unit := do
  checkLengths stage as.length bs.length
  host <| (as.zip bs).forM fun (a, b) => step a b

/-- Check the words of a batch, go through it, and report on what that leaves. -/
def onBatch (b : Sentences) (plan : Plan (Contents α) β) (report : β → Contents α → γ) :
    Plan (Contents α) γ := do
  let s ← get
  Engine.checkWords s.tally.words b
  let answer ← plan
  return report answer (← get)

def fold : Plan (Contents α) FoldReport := do
  let report ← onTally foldPairs
  let merged ← onTally reindexPairs
  let s ← get
  let sections ← onSections (foldSections s.tally.words)
  return { report with merged, sections }

/-- The plan of a call. How the sentence of a position is found makes no difference, so any locator
will do. -/
def perform : Call α → Plan (Contents α) (Answer α)
  | .internWords keys => .slots <$> onTally (internWords keys)
  | .pairSlots as bs => .slots <$> onTally (pairSlots as bs)
  | .sectionSlots words disjuncts => .slots <$> onSections (sectionSlots words disjuncts)
  | .countPairs slots => (fun _ => .done) <$> onTally (countPairs slots)
  | .countSections slots => (fun _ => .done) <$> onSections (countSections slots)
  | .countSentences batch window =>
    .counted <$> onBatch batch (onTally (countSentences batch window .linear)) fun events s =>
      ⟨events, s.tally.total, s.tally.pairs.used⟩
  | .extractSections batch => (fun (report, sections) => .extracted report sections) <$>
    onBatch batch.sentences (onSections (extractSections batch .linear)) fun report s =>
      (report, s.sections.used)
  | .score mode => do
    let n : α := Weight.ofTotal (← get).tally.total
    .changed <$> onTally (score n mode)
  | .scoreStats threshold => .stats <$> onTally (surveyPairs (·.scoreStats threshold))
  | .filterPairs threshold limit => .pairHits <$> onTally (surveyPairs (·.filterPairs threshold limit))
  | .computeSimilarity => .similar <$> onSimilarity computeSimilarity
  | .filterCandidates threshold limit =>
    .candidateHits <$> onSimilarity fun _ => filterCandidates threshold limit
  | .assignClasses classes => (fun _ => .done) <$> onTally (assignClasses classes)
  | .foldPairs => .folded <$> onTally foldPairs
  | .reindexPairs => .changed <$> onTally reindexPairs
  | .foldSections => do
    let s ← get
    .changed <$> onSections (foldSections s.tally.words)
  | .fold => .folded <$> fold
  | .rebuildTotals => .total <$> onTally rebuildTotals
  | .loadPairs slots counts => (fun _ => .done) <$> onTally (load "load_pair_counts" slots counts
      fun slot count => Tally.onPairs (PairPool.loadCount slot count))
  | .loadSections slots counts => (fun _ => .done) <$> onSections
      (load "load_section_counts" slots counts SectionPool.loadCount)
  | .loadWords ids counts => (fun _ => .done) <$> onTally (load "load_word_counts" ids counts
      fun id count => Tally.onWords (WordPool.loadCount id count))
  | .setTotal total => (fun _ => .done) <$>
      onTally (host <| modify fun ⟨words, pairs, _⟩ => ⟨words, pairs, total⟩)
  | .reset => (fun _ => .done) <$> host (modify fun s : Contents α =>
      ⟨s.tally.reset, s.sections.reset, s.similarity.reset⟩)

end Plans

/-! ### What plans do -/

theorem run_pairSlots (as bs : List UInt32) :
    (pairSlots as bs : Plan (Tally α) _).run = Tally.pairSlots as bs := by
  simp only [pairSlots, run_bind, run_check]
  rfl

theorem run_sweepPairs (f : WordPool α → PairRow α → PairRow α) (read : Tally α → β) :
    (sweepPairs f read).run = modifyGet fun s => (read s.state,
      CorpusStats.sweep (List.range s.state.pairs.used) (fun (⟨words, pairs, total⟩ : Tally α) slot =>
        ⟨words, pairs.modify slot (f words), total⟩) s) := by
  simp only [sweepPairs, run_bind, run_sweep]
  rfl

theorem run_surveyPairs (read : Tally α → β) : (surveyPairs read).run
    = modifyGet fun s => (read s.state, CorpusStats.survey s.state.pairs.used s) := by
  simp only [surveyPairs, run_bind, run_survey]
  rfl

theorem run_sectionSlots (words : List UInt32) (disjuncts : List UInt64) :
    (sectionSlots words disjuncts : Plan (SectionPool α) _).run
      = SectionPool.slotsOf words disjuncts := by
  simp only [sectionSlots, run_bind, run_check]
  rfl

theorem run_foldSections (words : WordPool α) :
    (foldSections words).run = modifyGet (SectionPool.foldWords words) := by
  simp only [foldSections, run_bind, run_sweep]
  rfl

section Weighted

variable [Weight α]

theorem run_score (mode : ScoreMode) (n : α) :
    (score n mode).run = modifyGet (Tally.score mode n) := by
  cases mode with
  | all => exact run_sweepPairs (PairRow.rescore · n) fun t => t.pairs.used
  | dirty => exact run_sweepPairs (PairRow.refresh · n) fun t => t.pairs.liveRows.countP _

theorem run_foldPairs : (foldPairs (α := α)).run = modifyGet Tally.foldPairs :=
  run_sweepPairs PairRow.folded fun t => (Tally.foldPairs ⟨t, .empty⟩).1

theorem run_rebuildTotals : (rebuildTotals (α := α)).run = Tally.rebuildTotals := by
  unfold Tally.rebuildTotals Tally.rebuildMarginals
  simp only [rebuildTotals, run_bind, run_sweep, bind_assoc, pure_bind]
  rfl

theorem run_computeCosines :
    (computeCosines (α := α)).run = modify Similarity.computeCosines := by
  simp only [computeCosines, run_bind, run_sweep]
  rfl

theorem run_computeSimilarity (sections : SectionPool α) :
    (computeSimilarity sections).run = Similarity.run sections := by
  unfold Similarity.run Similarity.computeNorms Similarity.buildChains Similarity.computeProducts
  simp only [computeSimilarity, run_bind, run_computeCosines, bind_assoc, pure_bind]
  rfl

theorem run_filterCandidates (threshold : α) (limit : ℕ) : (filterCandidates threshold limit).run
    = modifyGet fun s => (s.state.filterCandidates threshold limit,
      CorpusStats.survey s.state.candidates.used s) := by
  simp only [filterCandidates, run_bind, run_survey]
  rfl

end Weighted

end Plan

namespace Engine

/-! ### What calls do -/

theorem lift_onTally (plan : Plan (Tally α) β) :
    opened.lift (Plan.onTally plan).run = onStore (Store.onTally plan.run) := by
  funext e
  obtain ⟨config, tally, sections, similarity, log⟩ := e
  simp only [Plan.onTally, Plan.run, Part.lift, Part.logged, opened, Contents.tallyPart, onStore,
    Store.onTally]
  cases plan.run ⟨tally, log⟩ <;> rfl

theorem lift_onSections (plan : Plan (SectionPool α) β) :
    opened.lift (Plan.onSections plan).run = onStore (Store.onSections plan.run) := by
  funext e
  obtain ⟨config, tally, sections, similarity, log⟩ := e
  simp only [Plan.onSections, Plan.run, Part.lift, Part.logged, opened, Contents.sectionsPart,
    onStore, Store.onSections]
  cases plan.run ⟨sections, log⟩ <;> rfl

theorem lift_get_bind (next : Contents α → Plan (Contents α) β) :
    opened.lift (get >>= next).run = fun e => opened.lift (next (opened.get e).state).run e := rfl

theorem lift_onSimilarity (plan : SectionPool α → Plan (Similarity α) β) :
    opened.lift (Plan.onSimilarity plan).run
      = onStore (Store.onSimilarity fun sections => (plan sections).run) := by
  funext e
  obtain ⟨config, tally, sections, similarity, log⟩ := e
  rw [Plan.onSimilarity, lift_get_bind]
  simp only [Plan.run, Part.lift, Part.logged, opened, Contents.similarityPart, onStore,
    Store.onSimilarity]
  cases (plan sections).run ⟨similarity, log⟩ <;> rfl

theorem lift_bind (plan : Plan (Contents α) β) (next : β → Plan (Contents α) γ) :
    opened.lift (plan >>= next).run
      = opened.lift plan.run >>= fun b => opened.lift (next b).run := by
  funext e
  rw [Plan.run_bind]
  simp only [Part.lift, Bind.bind, EStateM.bind]
  cases plan.run (opened.get e) <;> rfl

theorem lift_check_bind (check : Except Error β) (next : β → Plan (Contents α) γ) :
    opened.lift (liftM check >>= next).run = liftM check >>= fun b => opened.lift (next b).run := by
  rw [lift_bind, Plan.run_check]
  cases check <;> rfl

theorem onStore_bind (act : Stage (Store α) β) (next : β → Stage (Store α) γ) :
    onStore (act >>= next) = onStore act >>= fun b => onStore (next b) := by
  funext e
  obtain ⟨config, store⟩ := e
  simp only [onStore, Bind.bind, EStateM.bind]
  cases act store <;> rfl

theorem onTally_load {ι κ : Type} (stage : String) (as : List ι) (bs : List κ)
    (step : ι → κ → Stage (Tally α) Unit) :
    onStore (Store.onTally (Plan.load stage as bs step).run) = (do
      checkLengths stage as.length bs.length
      onTallyState <| (as.zip bs).forM fun (a, b) => step a b) := by
  have hstate (act : Stage (Tally α) Unit) :
      onTallyState act = onStore (Store.onTally (Part.state.lift act)) := by
    refine congrArg (fun act => onStore (Store.onTally act)) (funext fun s => ?_)
    unfold Part.lift Part.state
    dsimp only
    cases act s.state <;> rfl
  rw [hstate, Plan.load, Plan.run_bind, Plan.run_check]
  cases checkLengths stage as.length bs.length <;> rfl

theorem onSections_load {ι κ : Type} (stage : String) (as : List ι) (bs : List κ)
    (step : ι → κ → Stage (SectionPool α) Unit) :
    onStore (Store.onSections (Plan.load stage as bs step).run) = (do
      checkLengths stage as.length bs.length
      onSectionsState <| (as.zip bs).forM fun (a, b) => step a b) := by
  have hstate (act : Stage (SectionPool α) Unit) :
      onSectionsState act = onStore (Store.onSections (Part.state.lift act)) := by
    refine congrArg (fun act => onStore (Store.onSections act)) (funext fun s => ?_)
    unfold Part.lift Part.state
    dsimp only
    cases act s.state <;> rfl
  rw [hstate, Plan.load, Plan.run_bind, Plan.run_check]
  cases checkLengths stage as.length bs.length <;> rfl

/-- A plan for a batch reads the engine as a stage of the store does. -/
theorem lift_onBatch (b : Sentences) {plan : Plan (Contents α) β} {act : Stage (Store α) β}
    (hplan : opened.lift plan.run = onStore act) (report : β → Contents α → γ) :
    opened.lift (Plan.onBatch b plan report).run = onStore (Store.onBatch b act fun answer s =>
      report answer ⟨s.tally, s.sections, s.similarity⟩) := by
  funext e
  obtain ⟨config, store⟩ := e
  simp only [Plan.onBatch, lift_get_bind, lift_check_bind, lift_bind plan, hplan]
  cases hcheck : checkWords store.tally.words b with
  | error err =>
    simp only [opened, onStore, Store.onBatch_of_error hcheck, hcheck]
    rfl
  | ok _ =>
    have hrest := congrFun (onStore_bind act fun answer => do
      return report answer ⟨(← get).tally, (← get).sections, (← get).similarity⟩) ⟨config, store⟩
    simp only [opened, hcheck]
    refine Eq.trans ?_ (hrest.symm.trans ?_)
    · rfl
    · simp only [onStore, Store.onBatch_of_ok hcheck]
      rfl

variable [Weight α]

theorem lift_fold : opened.lift (Plan.fold (α := α)).run = fold := by
  show _ = onStore (Store.foldPairs >>= _)
  simp only [onStore_bind, Plan.fold, lift_bind, lift_onTally, lift_onSections, Plan.run_foldPairs,
    Plan.run_foldSections]
  rfl

/-- A call does what its plan does. -/
theorem lift_perform (call : Call α) : opened.lift (Plan.perform call).run = perform call := by
  cases call with
  | countSentences batch window =>
    rw [Plan.perform, Plan.run_map, Part.lift_map, lift_onBatch batch (lift_onTally _), perform,
      countSentences_eq_onStore]
    rfl
  | extractSections batch =>
    rw [Plan.perform, Plan.run_map, Part.lift_map, lift_onBatch batch.sentences (lift_onSections _),
      perform, extractSections_eq_onStore]
    rfl
  | score mode =>
    simp only [Plan.perform, lift_get_bind, Plan.run_map, Part.lift_map, lift_onTally,
      Plan.run_score]
    rfl
  | foldSections =>
    simp only [Plan.perform, lift_get_bind, Plan.run_map, Part.lift_map, lift_onSections,
      Plan.run_foldSections]
    rfl
  | fold =>
    rw [Plan.perform, Plan.run_map, Part.lift_map, lift_fold]
    rfl
  | _ =>
    simp only [Plan.perform, Plan.run_map, Part.lift_map, lift_onTally, lift_onSections,
      lift_onSimilarity, Plan.run_pairSlots, Plan.run_surveyPairs, Plan.run_foldPairs,
      Plan.run_rebuildTotals, Plan.run_sectionSlots, Plan.run_computeSimilarity,
      Plan.run_filterCandidates, onTally_load, onSections_load]
    rfl

/-! ### The trail of a call -/

/-- What a call leaves of an engine after each of its work-items, up to the one that fails if one
does. -/
def trail (e : Engine α) (call : Call α) : List (Engine α) :=
  ((Plan.perform call).trail (opened.get e)).map (opened.put · e)

/-- The widths of the dispatches of a call, in order. -/
def widths (e : Engine α) (call : Call α) : List ℕ := (Plan.perform call).widths (opened.get e)

variable {call : Call α} {e e' : Engine α} {answer : Answer α}

theorem exists_run_of_perform (h : perform call e = .ok answer e') :
    ∃ s, (Plan.perform call).run (opened.get e) = .ok answer s ∧ e' = opened.put s e := by
  rw [← lift_perform] at h
  exact Part.lift_eq_ok_iff.mp h

/-- The trail of a call that answers has one state for each work-item of its dispatches. -/
theorem length_trail (h : perform call e = .ok answer e') :
    (e.trail call).length = (e.widths call).sum := by
  obtain ⟨s, hrun, -⟩ := exists_run_of_perform h
  rw [trail, List.length_map, widths, (Plan.perform call).length_trail hrun]

/-- A call that answers enters its dispatches in the log. -/
theorem log_perform (h : perform call e = .ok answer e') :
    e'.store.log = e.store.log.record (e.widths call) false := by
  obtain ⟨s, hrun, rfl⟩ := exists_run_of_perform h
  exact (Plan.perform call).log_run hrun

/-- What the plan of a call meets holds of the engine, after every work-item and at the end. -/
theorem of_meets {P : Contents α → Prop} {R : Error → Prop} {call : Call α}
    (h : Plan.Meets P R P (Plan.perform call) fun _ => P) {e : Engine α} (he : P (opened.get e).state) :
    (∀ e' ∈ e.trail call, P (opened.get e').state) ∧
      match perform call e with
      | .ok _ e' => P (opened.get e').state
      | .error err e' => P (opened.get e').state ∧ R err := by
  obtain ⟨htrail, hend⟩ := h (opened.get e) he
  refine ⟨fun e' he' => ?_, ?_⟩
  · obtain ⟨s, hs, rfl⟩ := List.mem_map.mp he'
    exact htrail s hs
  · rw [← lift_perform]
    unfold Part.lift
    cases hrun : (Plan.perform call).run (opened.get e) <;> rwa [hrun] at hend

end Engine

end CorpusStats
