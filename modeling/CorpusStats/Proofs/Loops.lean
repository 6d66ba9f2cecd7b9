import CorpusStats.Proofs.Batch.Sections
import CorpusStats.Proofs.Engine.Batches
import CorpusStats.Proofs.Tally.Observed
/-!
# CorpusStats.Proofs.Loops

Counting and extracting a batch as plain loops.

A dispatch makes one step per flat position, and each step may observe several pairs or no section
at all. What all steps do together is one loop over the pairs of the batch, in their order
(`Tally.outcome_countSentences`), or over its sections (`SectionPool.outcome_extract`): the same
answer or failure and the same state, whatever the state was before. Only the log still knows how
many positions there were. So a statement about a batch that leaves out the log is a statement
about a list, and positions and locators do not come up in its proof.
-/

namespace CorpusStats

open Stage

variable {σ ι κ α β : Type}

/-! ### Stages -/

/-- A loop over two lists is a loop over the first and, if that comes to its end, one over the
second. -/
theorem outcome_forM_append (items items' : List ι) (step : ι → Stage σ Unit) (s : σ) :
    outcome ((items ++ items').forM step) s =
      match outcome (items.forM step) s with
      | (.ok _, s') => outcome (items'.forM step) s'
      | (.error e, s') => (.error e, s') := by
  show outcome (forM (items ++ items') step) s = _
  rw [List.forM_append, outcome_bind]
  rcases outcome (forM items step) s with ⟨_ | _, s'⟩ <;> rfl

theorem outcome_mapM_append (items items' : List ι) (step : ι → Stage σ α) (s : σ) :
    outcome ((items ++ items').mapM step) s =
      match outcome (items.mapM step) s with
      | (.ok as, s') => outcome ((as ++ ·) <$> items'.mapM step) s'
      | (.error e, s') => (.error e, s') := by
  rw [List.mapM_append, outcome_bind]
  rcases outcome (items.mapM step) s with ⟨_ | as, s'⟩
  · rfl
  · dsimp only
    rw [map_eq_pure_bind]

theorem mapM_congr_mem {items : List ι} {step step' : ι → Stage σ α}
    (h : ∀ i ∈ items, step i = step' i) : items.mapM step = items.mapM step' := by
  induction items with
  | nil => rfl
  | cons i items ih =>
    obtain ⟨hi, hitems⟩ := List.forall_mem_cons.mp h
    rw [List.mapM_cons, List.mapM_cons, hi, ih hitems]

/-- Loops inside a loop are one loop. -/
theorem mapM_forM_eq (items : List ι) (inner : ι → List κ) (step : κ → Stage σ Unit)
    (answer : ι → α) :
    (items.mapM fun i => (fun _ => answer i) <$> (inner i).forM step)
      = (fun _ => items.map answer) <$> (items.flatMap inner).forM step := by
  induction items with
  | nil => rfl
  | cons i items ih =>
    rw [List.mapM_cons, ih, List.flatMap_cons]
    show _ = (fun _ => _) <$> forM (inner i ++ items.flatMap inner) step
    rw [List.forM_append]
    simp [List.map_cons]

/-- Steps that do nothing may be left out of a loop, with their answers. -/
theorem filterMap_mapM_eq (items : List ι) (inner : ι → Option κ) (step : κ → Stage σ α) :
    List.filterMap id <$> (items.mapM fun i =>
        match inner i with
        | none => pure none
        | some k => some <$> step k)
      = (items.filterMap inner).mapM step := by
  induction items with
  | nil => rfl
  | cons i items ih =>
    cases hi : inner i with
    | none =>
      rw [List.filterMap_cons_none hi, ← ih]
      simp [List.mapM_cons, hi]
      rfl
    | some k =>
      rw [List.filterMap_cons_some hi, List.mapM_cons (f := step), ← ih]
      simp [List.mapM_cons, hi]

/-- A dispatch answers and leaves what its loop does, and enters that in the log. -/
theorem outcome_dispatch (items : List ι) (step : ι → Stage σ α) (s : Logged σ) :
    ∃ log, outcome (dispatch items step) s = ((outcome (items.mapM step) s.state).1,
      ⟨(outcome (items.mapM step) s.state).2, log⟩) := by
  unfold outcome
  rw [dispatch_eq]
  cases items.mapM step s.state <;> exact ⟨_, rfl⟩

/-! ### Pairs -/

variable [Weight α]

namespace Tally

/-- Observe a pair once, creating it if it is new. -/
def observePair (p : WordPair) : Stage (Tally α) Unit := do
  let (slot, _) ← onPairs (Pool.findOrCreate p.key (PairRow.fill p))
  observe slot.toNat

theorem observeWords_eq_observePair (a b : UInt32) :
    (observeWords a b : Stage (Tally α) Unit) = observePair (.of a b) := rfl

theorem countPosition_eq {b : Sentences} {i : ℕ} (hi : i < b.totalWords) (window : UInt32)
    (locator : Locator) :
    (countPosition b window locator i : Stage (Tally α) ℕ)
      = (fun _ => (b.pairsAt window locator i).length) <$>
          (b.pairsAt window locator i).forM observePair := by
  rw [← Sentences.bound_count] at hi
  obtain ⟨s, hs, j, hj, rfl⟩ := Sentences.exists_bound_add le_rfl hi
  rw [countPosition, Sentences.pairsAt, Sentences.locate_bound_add hs hj]
  dsimp only
  rw [List.length_map, map_eq_pure_bind]
  show _ = forM (List.map _ _) _ >>= _
  simp only [List.forM_map, ← observeWords_eq_observePair]
  rfl

/-- Counting a batch is observing its pairs. -/
theorem outcome_countSentences (b : Sentences) (window : UInt32) (locator : Locator)
    (s : Logged (Tally α)) :
    ∃ log, outcome (countSentences b window locator) s =
      ((outcome ((b.windowPairs window.toNat).forM observePair) s.state).1.map
          fun _ => (b.windowPairs window.toNat).length,
        ⟨(outcome ((b.windowPairs window.toNat).forM observePair) s.state).2, log⟩) := by
  have hloop : ((List.range b.totalWords).mapM (countPosition b window locator)
        : Stage (Tally α) (List ℕ))
      = (fun _ => (List.range b.totalWords).map fun i => (b.pairsAt window locator i).length) <$>
          (b.windowPairs window.toNat).forM observePair := by
    rw [← Sentences.flatMap_pairsAt b window locator, ← mapM_forM_eq]
    exact mapM_congr_mem fun i hi => countPosition_eq (List.mem_range.mp hi) window locator
  have htotal : ((List.range b.totalWords).map fun i => (b.pairsAt window locator i).length).foldl
      (· + ·) 0 = (b.windowPairs window.toNat).length := by
    rw [← Sentences.flatMap_pairsAt b window locator, List.length_flatMap, List.sum_eq_foldl]
  obtain ⟨log, hlog⟩ := outcome_dispatch (List.range b.totalWords)
    (countPosition b window locator) s
  refine ⟨log, ?_⟩
  rw [countSentences, ← map_eq_pure_bind, outcome_map, hlog, hloop, outcome_map]
  cases (outcome ((b.windowPairs window.toNat).forM observePair) s.state).1 with
  | error e => rfl
  | ok _ => rw [← htotal]; rfl

end Tally

/-! ### Sections -/

namespace SectionPool

/-- Count a section once, creating it if it is new. Answers whether it was. -/
def countSection (wanted : UInt32 × UInt64) : Stage (SectionPool α) Bool := do
  let (slot, created) ← slotOf wanted.1 wanted.2
  observe slot.toNat
  return created

/-- Extracting a batch is counting its sections. -/
theorem outcome_extract (b : Parses) (locator : Locator) (s : Logged (SectionPool α)) :
    ∃ log, outcome (extract b locator) s =
      ((outcome (b.sections.mapM countSection) s.state).1.map
          fun created => ⟨created.length, created.countP id⟩,
        ⟨(outcome (b.sections.mapM countSection) s.state).2, log⟩) := by
  have hloop : List.filterMap id <$> ((List.range b.sentences.totalWords).mapM
        (extractPosition b locator) : Stage (SectionPool α) (List (Option Bool)))
      = b.sections.mapM countSection := by
    rw [← b.filterMap_sectionAt? locator, ← filterMap_mapM_eq]
    refine congrArg _ (mapM_congr_mem fun i hi => ?_)
    rw [extractPosition_eq (List.mem_range.mp hi) locator]
    cases b.sectionAt? locator i with
    | none => rfl
    | some wanted => simp [countSection]
  obtain ⟨log, hlog⟩ := outcome_dispatch (List.range b.sentences.totalWords)
    (extractPosition b locator) s
  refine ⟨log, ?_⟩
  rw [extract, ← map_eq_pure_bind, outcome_map, hlog, ← hloop, outcome_map]
  cases (outcome ((List.range b.sentences.totalWords).mapM (extractPosition b locator)) s.state).1
    <;> rfl

end SectionPool

/-! ### Calls -/

omit [Weight α] in
theorem Store.outcome_onBatch_of_ok {b : Sentences} {s : Store α}
    (h : Engine.checkWords s.tally.words b = .ok ()) (act : Stage (Store α) β)
    (report : β → Store α → κ) :
    outcome (Store.onBatch b act report) s
      = ((outcome act s).1.map (report · (outcome act s).2), (outcome act s).2) := by
  unfold outcome
  rw [Store.onBatch_of_ok h]
  simp only [Bind.bind, EStateM.bind]
  cases act s <;> rfl

namespace Engine

theorem maxEqOr_uInt32 : Std.MaxEqOr UInt32 := by
  refine ⟨fun a c => ?_⟩
  rw [show max a c = if a ≤ c then c else a from rfl]
  split <;> simp

omit [Weight α] in
/-- A batch of words of the arena is accepted. -/
theorem checkWords_of_lt {words : WordPool α} {b : Sentences}
    (h : ∀ word ∈ b.words, word.toNat < words.capacity) : checkWords words b = .ok () := by
  have := maxEqOr_uInt32
  unfold checkWords
  cases hlargest : b.maxWord? with
  | none => rfl
  | some largest =>
    have hmem : largest ∈ b.words := Array.mem_toList_iff.mp (List.max?_mem hlargest)
    dsimp only
    rw [if_neg (not_le.mpr (h largest hmem))]

omit [Weight α] in
/-- The engine with another tally and another log. -/
def putTally (e : Engine α) (tally : Tally α) (log : Log) : Engine α :=
  ⟨e.config, tally, e.store.sections, e.store.similarity, log⟩

omit [Weight α] in
/-- The engine with other sections and another log. -/
def putSections (e : Engine α) (sections : SectionPool α) (log : Log) : Engine α :=
  ⟨e.config, e.store.tally, sections, e.store.similarity, log⟩

omit [Weight α] in
@[simp] theorem tally_putTally (e : Engine α) (tally : Tally α) (log : Log) :
    (e.putTally tally log).store.tally = tally := rfl

omit [Weight α] in
@[simp] theorem sections_putSections (e : Engine α) (sections : SectionPool α) (log : Log) :
    (e.putSections sections log).store.sections = sections := rfl

omit [Weight α] in
@[simp] theorem putTally_putTally (e : Engine α) (tally tally' : Tally α) (log log' : Log) :
    (e.putTally tally log).putTally tally' log' = e.putTally tally' log' := rfl

omit [Weight α] in
@[simp] theorem putSections_putSections (e : Engine α) (sections sections' : SectionPool α)
    (log log' : Log) :
    (e.putSections sections log).putSections sections' log' = e.putSections sections' log' := rfl

/-- Counting a batch is observing its pairs and reporting what there is then. -/
theorem outcome_countSentences {e : Engine α} {b : Sentences}
    (hwords : ∀ word ∈ b.words, word.toNat < e.store.tally.words.capacity) (window : UInt32) :
    let pairs := b.windowPairs window.toNat
    let counted := outcome (pairs.forM Tally.observePair) e.store.tally
    ∃ log, outcome (countSentences b window) e =
      (counted.1.map fun _ => ⟨pairs.length, counted.2.total, counted.2.pairs.used⟩,
        e.putTally counted.2 log) := by
  intro pairs counted
  obtain ⟨log, hlog⟩ := Tally.outcome_countSentences b window .linear ⟨e.store.tally, e.store.log⟩
  refine ⟨log, ?_⟩
  rw [countSentences_eq_onStore, outcome_onStore,
    Store.outcome_onBatch_of_ok (checkWords_of_lt hwords), Store.outcome_onTally, hlog]
  dsimp only
  cases counted.1 <;> rfl

/-- Extracting a batch is counting its sections and reporting what there is then. -/
theorem outcome_extractSections {e : Engine α} {b : Parses}
    (hwords : ∀ word ∈ b.sentences.words, word.toNat < e.store.tally.words.capacity) :
    let counted := outcome (b.sections.mapM SectionPool.countSection) e.store.sections
    ∃ log, outcome (extractSections b) e =
      (counted.1.map fun created => (⟨created.length, created.countP id⟩, counted.2.used),
        e.putSections counted.2 log) := by
  intro counted
  obtain ⟨log, hlog⟩ := SectionPool.outcome_extract b .linear ⟨e.store.sections, e.store.log⟩
  refine ⟨log, ?_⟩
  rw [extractSections_eq_onStore, outcome_onStore,
    Store.outcome_onBatch_of_ok (checkWords_of_lt hwords), Store.outcome_onSections, hlog]
  dsimp only
  cases counted.1 <;> rfl

end Engine

end CorpusStats
