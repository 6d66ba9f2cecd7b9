import CorpusStats.Proofs.Engine.Parts
import CorpusStats.Proofs.Engine.Start
import CorpusStats.Proofs.Exact
import CorpusStats.Proofs.SectionRequests
import CorpusStats.Proofs.Tally.Words
/-!
# CorpusStats.Proofs.Engine.Sections

Sections over whole runs.

`Engine.sectionsAsked` is the list of all requests for sections since the last reset, made by
looking sections up and by extracting them from batches, with the words of the requests folded
whenever those of the rows are. In every engine that a run can reach, the rows of sections are
those of the first requests of their keys (`Engine.records_run`), so a look-up answers a slot that
holds the section it asked for as long as keys do not collide and words do not move, and what
it holds otherwise is known as well (`slots_hold_first_requests`).
-/

namespace CorpusStats

open Stage

variable {α : Type}

/-- Whether a call asks for no sections, folds none and forgets none. -/
def Call.LeavesSections : Call α → Prop
  | .sectionSlots _ _ | .extractSections _ | .foldSections | .fold | .reset => False
  | _ => True

variable [Weight α]

/-! ### Folding -/

namespace Store

omit [Weight α] in
/-- The stages that fold pairs leave words and sections. -/
theorem keeps_words_sections {words : WordPool α} {sections : SectionPool α} {β : Type}
    {act : Stage (Logged (Tally α)) β}
    (h : Keeps (fun s : Logged (Tally α) => s.state.words = words) act) :
    Keeps (fun s : Store α => s.tally.words = words ∧ s.sections = sections) (onTally act) := by
  intro s hs
  exact ⟨keeps_tally_onTally (P := fun t => t.words = words) h s hs.1,
    keeps_rest_onTally (Q := fun sections' _ => sections' = sections) act s hs.2⟩

/-- Folding folds the sections with the words as they are, or fails before it comes to them. -/
theorem fold_cases (s : Store α) :
    (∃ report s' log, fold s = .ok report s'
        ∧ s'.sections = (SectionPool.foldWords s.tally.words ⟨s.sections, log⟩).2.state)
      ∨ ∃ e s', fold s = .error e s' ∧ s'.sections = s.sections := by
  have hpairs : Keeps (fun s' => s'.tally.words = s.tally.words ∧ s'.sections = s.sections)
      (foldPairs : Stage (Store α) _) :=
    keeps_words_sections (.modifyGet fun _ h => Tally.keeps_words_foldPairs (P := (· = _)) h)
  have hindex : Keeps (fun s' => s'.tally.words = s.tally.words ∧ s'.sections = s.sections)
      (onTally Tally.reindexPairs : Stage (Store α) _) :=
    keeps_words_sections (Tally.keeps_words_reindexPairs (P := (· = _)))
  cases hfold : foldPairs s with
  | error e s₁ =>
    refine .inr ⟨e, s₁, ?_, (hpairs.error ⟨rfl, rfl⟩ hfold).2⟩
    simp only [fold, Bind.bind, EStateM.bind, hfold]
  | ok report s₁ =>
    have hs₁ := hpairs.ok ⟨rfl, rfl⟩ hfold
    cases hmerge : onTally Tally.reindexPairs s₁ with
    | error e s₂ =>
      refine .inr ⟨e, s₂, ?_, (hindex.error hs₁ hmerge).2⟩
      simp only [fold, Bind.bind, EStateM.bind, hfold, hmerge]
    | ok merged s₂ =>
      obtain ⟨hwords, hsections⟩ := hindex.ok hs₁ hmerge
      rw [← hwords, ← hsections]
      have hrun : ∃ report' s', fold s = .ok report' s' ∧ s'.sections
          = (SectionPool.foldWords s₂.tally.words ⟨s₂.sections, s₂.log⟩).2.state := by
        simp only [fold, Bind.bind, EStateM.bind, hfold, hmerge, foldSections_eq]
        exact ⟨_, _, rfl, rfl⟩
      obtain ⟨report', s', hrun, hfolded⟩ := hrun
      exact .inl ⟨report', s', s₂.log, hrun, hfolded⟩

end Store

namespace Engine

/-- The requests for sections since the last reset, after one more call. -/
def askedAfter (e : Engine α) (asked : List SectionRequest) : Call α → List SectionRequest
  | .sectionSlots words disjuncts =>
    if words.length = disjuncts.length then asked ++ (words.zip disjuncts).map .new else asked
  | .extractSections batch =>
    match checkWords e.store.tally.words batch.sentences with
    | .ok _ => asked ++ batch.sections.map .new
    | .error _ => asked
  | .foldSections => asked.map (SectionRequest.fold e.store.tally.words)
  -- folding that fails does not come to the sections
  | .fold =>
    match fold e with
    | .ok _ _ => asked.map (SectionRequest.fold e.store.tally.words)
    | .error _ _ => asked
  | .reset => []
  | _ => asked

/-- The requests for sections since the last reset, after a run of an engine that was asked for
these before. -/
def sectionsAsked : List SectionRequest → List (Call α) → Engine α → List SectionRequest
  | asked, [], _ => asked
  | asked, call :: calls, e => sectionsAsked (e.askedAfter asked call) calls (e.after call)

theorem sectionsAsked_append (asked : List SectionRequest) (calls more : List (Call α))
    (e : Engine α) : sectionsAsked asked (calls ++ more) e
      = sectionsAsked (sectionsAsked asked calls e) more (run calls e) := by
  induction calls generalizing asked e with
  | nil => rfl
  | cons call calls ih => exact ih _ _

/-! ### What calls do -/

/-- Calls that leave the sections write counts of rows at most. -/
theorem keeps_records {asked : List SectionRequest} {call : Call α} (hcall : call.LeavesSections) :
    Keeps (fun e : Engine α => SectionPool.Records asked e.store.sections) (perform call) := by
  cases call with
  | sectionSlots | extractSections | foldSections | fold | reset => cases hcall
  | countSections slots =>
    exact (keeps_sections_onSections (SectionPool.keeps_records_countSlots slots)).map
  | loadSections slots counts =>
    refine Keeps.map (.bind (.lift _) fun _ => keeps_onSectionsState (.forM fun entry _ => ?_))
    exact SectionPool.keeps_records_loadCount entry.1 entry.2
  | computeSimilarity => exact (keeps_sections_onSimilarity _).map
  | filterCandidates threshold limit => exact (keeps_sections_onSimilarity _).map
  | _ => exact keeps_rest (Q := fun sections _ => SectionPool.Records asked sections) trivial

omit [Weight α] in
/-- A call on the sections leaves what its stage leaves. -/
theorem sections_onSections {β : Type} (act : Stage (Logged (SectionPool α)) β) (e : Engine α) :
    (outcome (onStore (Store.onSections act)) e).2.store.sections
      = (outcome act ⟨e.store.sections, e.store.log⟩).2.state := by
  rw [outcome_onStore, Store.outcome_onSections]

/-- A batch that is accepted is extracted, and another one changes nothing. -/
theorem sections_extractSections (batch : Parses) (e : Engine α) :
    (outcome (extractSections batch) e).2.store.sections =
      match checkWords e.store.tally.words batch.sentences with
      | .ok _ => (outcome (SectionPool.extract batch .linear) ⟨e.store.sections, e.store.log⟩).2.state
      | .error _ => e.store.sections := by
  rw [extractSections_eq_onStore, outcome_onStore, Store.state_onBatch]
  cases checkWords e.store.tally.words batch.sentences with
  | error error => rfl
  | ok _ =>
    dsimp only
    rw [Store.outcome_onSections]

/-- One call leaves rows that show the first requests, its own included. -/
theorem records_after {asked : List SectionRequest} {e : Engine α}
    (h : SectionPool.Records asked e.store.sections) (call : Call α) :
    SectionPool.Records (e.askedAfter asked call) (e.after call).store.sections := by
  rw [after_eq]
  have hkept (hcall : call.LeavesSections) :
      SectionPool.Records asked (outcome (perform call) e).2.store.sections :=
    keeps_records hcall e h
  cases call with
  | sectionSlots words disjuncts =>
    rw [perform, outcome_map, sectionSlots, sections_onSections, askedAfter]
    by_cases hlength : words.length = disjuncts.length
    · rw [if_pos hlength]
      exact SectionPool.records_slotsOf hlength h
    · rw [if_neg hlength, SectionPool.slotsOf, checkLengths, if_neg hlength]
      exact h
  | extractSections batch =>
    rw [perform, outcome_map, sections_extractSections, askedAfter]
    cases checkWords e.store.tally.words batch.sentences with
    | ok _ => exact SectionPool.records_extract batch _ h
    | error _ => exact h
  | foldSections =>
    exact SectionPool.records_foldWords (s := ⟨e.store.sections, e.store.log⟩) e.store.tally.words h
  | fold =>
    rw [perform, outcome_map, askedAfter]
    rcases e.store.fold_cases with ⟨report, s', log, hrun, hsections⟩ | ⟨error, s', hrun, hsections⟩
    · have hfold : fold e = .ok report { e with store := s' } :=
        onStore_eq_ok_iff.mpr ⟨s', hrun, rfl⟩
      rw [hfold, outcome_of_ok hfold, hsections]
      exact SectionPool.records_foldWords (s := ⟨e.store.sections, log⟩) e.store.tally.words h
    · have hfold : fold e = .error error { e with store := s' } := by
        simp only [fold, onStore, hrun]
      rw [hfold, outcome_of_error hfold, hsections]
      exact h
  | reset => exact SectionPool.records_reset h
  | _ => exact hkept trivial

theorem records_run {asked : List SectionRequest} {e : Engine α}
    (h : SectionPool.Records asked e.store.sections) (calls : List (Call α)) :
    SectionPool.Records (sectionsAsked asked calls e) (run calls e).store.sections := by
  induction calls generalizing e asked with
  | nil => exact h
  | cons call calls ih => exact ih (records_after h call)

theorem records_of_ofConfig {config : Config} {e : Engine α} (he : ofConfig config = .ok e) :
    SectionPool.Records [] e.store.sections := by
  have hnew := new_of_ofConfig he
  refine Pool.Blank.serves hnew.sections (Pool.numbers_of_ofCapacity ?_ (pools_of_ofConfig he).2.2)
  rw [← hnew.capacity_sections]
  exact hnew.capacities_le.2.2.1

/-- **The slot of a section holds the first section that was asked for under its key.** Looking
sections up, if it succeeds, answers slots whose rows show the first requests of their keys since
the last reset, by whatever call they were made, with their words folded as often as the rows
were. So a slot holds the section that was asked for unless another one was asked for under its
key or its word was folded, and requests share a slot exactly if they share a key. -/
theorem slots_hold_first_requests {config : Config} {e : Engine α} (he : ofConfig config = .ok e)
    (calls : List (Call α)) {words : List UInt32} {disjuncts : List UInt64} {slots : List UInt32}
    {e' : Engine α}
    (h : perform (.sectionSlots words disjuncts) (run calls e) = .ok (.slots slots) e') :
    words.length = disjuncts.length
      ∧ SectionPool.Served (sectionsAsked [] (calls ++ [.sectionSlots words disjuncts]) e)
        (words.zip disjuncts) slots e'.store.sections := by
  have hrecords := records_run (records_of_ofConfig he) calls
  obtain ⟨_, hrun, heq⟩ := map_eq_ok_iff.mp h
  cases heq
  obtain ⟨store, hstore, rfl⟩ := onStore_eq_ok_iff.mp hrun
  obtain ⟨s, hslots, rfl⟩ := Store.onSections_eq_ok_iff.mp hstore
  obtain ⟨hlength, hserved⟩ := SectionPool.served_of_slotsOf hrecords hslots
  refine ⟨hlength, ?_⟩
  rw [sectionsAsked_append, sectionsAsked, sectionsAsked, askedAfter, if_pos hlength]
  exact hserved

theorem perform_sectionSlots {e : Engine α} {words : List UInt32} {disjuncts : List UInt64}
    {slots : List UInt32}
    (h : (outcome (sectionSlots words disjuncts) e).1.toOption = some slots) :
    perform (.sectionSlots words disjuncts) e
      = .ok (.slots slots) (outcome (sectionSlots words disjuncts) e).2 :=
  map_eq_ok_of_toOption Answer.slots h

/-- Two sections whose first request came before a fold. -/
theorem slots_hold_first_requests_folded :
    let calls : List (Call ℚ) :=
      [.sectionSlots [0, 1] [7, 7], .assignClasses ⟨[(0, 3)], by decide⟩, .fold]
    ∃ e e' : Engine ℚ, ofConfig .tiny = .ok e
      ∧ perform (.sectionSlots [1, 0] [7, 7]) (run calls e) = .ok (.slots [1, 0]) e'
      ∧ e'.store.sections.liveRows = [⟨7, 0, 3⟩, ⟨7, 0, 1⟩]
      ∧ SectionPool.Served
        [⟨0, 7, 3⟩, ⟨1, 7, 1⟩, ⟨1, 7, 1⟩, ⟨0, 7, 0⟩] [(1, 7), (0, 7)] [1, 0] e'.store.sections := by
  intro calls
  obtain ⟨e, he, hslots, hrows, hasked⟩ := exists_ofConfig_of_mem .tiny (P := fun e : Engine ℚ =>
    (outcome (sectionSlots [1, 0] [7, 7]) (run calls e)).1.toOption = some [1, 0]
      ∧ (outcome (sectionSlots [1, 0] [7, 7]) (run calls e)).2.store.sections.liveRows
        = [⟨7, 0, 3⟩, ⟨7, 0, 1⟩]
      ∧ sectionsAsked [] (calls ++ [.sectionSlots [1, 0] [7, 7]]) e
        = [⟨0, 7, 3⟩, ⟨1, 7, 1⟩, ⟨1, 7, 1⟩, ⟨0, 7, 0⟩]) (by decide +kernel)
  have hrun := perform_sectionSlots hslots
  have hserved := (slots_hold_first_requests he calls hrun).2
  rw [hasked] at hserved
  exact ⟨e, _, he, hrun, hrows, hserved⟩

/-- A slot need not hold the section that was asked for: two sections may have one key, and a
fold moves the word of a section that is still found through its old key. -/
theorem slots_hold_other_sections :
    ∃ e : Engine ℚ, ofConfig .tiny = .ok e
      ∧ (∃ e', perform (.sectionSlots [1, 0] [0, Key.sectionSalt]) e = .ok (.slots [0, 0]) e'
        ∧ e'.store.sections.liveRows = [⟨0, 0, 1⟩])
      ∧ ∃ e', perform (.sectionSlots [0] [7]) (run
          [.sectionSlots [0] [7], .assignClasses ⟨[(0, 3)], by decide⟩, .fold] e)
            = .ok (.slots [0]) e'
        ∧ e'.store.sections.liveRows = [⟨7, 0, 3⟩] := by
  obtain ⟨e, he, hslots, hrows, hslots', hrows'⟩ :=
    exists_ofConfig_of_mem .tiny (P := fun e : Engine ℚ =>
      let moved := run [.sectionSlots [0] [7], .assignClasses ⟨[(0, 3)], by decide⟩, .fold] e
      (outcome (sectionSlots [1, 0] [0, Key.sectionSalt]) e).1.toOption = some [0, 0]
        ∧ (outcome (sectionSlots [1, 0] [0, Key.sectionSalt]) e).2.store.sections.liveRows
          = [⟨0, 0, 1⟩]
        ∧ (outcome (sectionSlots [0] [7]) moved).1.toOption = some [0]
        ∧ (outcome (sectionSlots [0] [7]) moved).2.store.sections.liveRows = [⟨7, 0, 3⟩])
      (by decide +kernel)
  exact ⟨e, he, ⟨_, perform_sectionSlots hslots, hrows⟩, ⟨_, perform_sectionSlots hslots', hrows'⟩⟩

end Engine

end CorpusStats
