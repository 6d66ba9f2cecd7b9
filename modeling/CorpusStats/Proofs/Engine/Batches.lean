import CorpusStats.Engine.Call
import CorpusStats.Proofs.Batch.Locate
import CorpusStats.Proofs.Lift
/-!
# CorpusStats.Proofs.Engine.Batches

Calls that take a batch.

* A batch is refused before anything changes, unless all its words are words of the arena
  (`Engine.lt_of_checkWords`).
* The configuration says how the sentence of a position is found, and nothing that an engine
  answers or keeps depends on it: locators find the same sentences (`Locator.locate_eq_locate`),
  so counting and extracting a batch are stages of the store (`Store.onBatch`) in which the
  configuration does not come up at all.
-/

namespace CorpusStats

open Stage

variable {α : Type} [Weight α]

/-! ### Stages -/

theorem Tally.countSentences_congr (b : Sentences) (window : UInt32) (locator locator' : Locator) :
    (Tally.countSentences b window locator : Stage (Logged (Tally α)) ℕ)
      = Tally.countSentences b window locator' := by
  unfold Tally.countSentences Tally.countPosition
  rw [Locator.locate_eq_locate locator locator']

theorem SectionPool.extract_congr (b : Parses) (locator locator' : Locator) :
    (SectionPool.extract b locator : Stage (Logged (SectionPool α)) ExtractReport)
      = SectionPool.extract b locator' := by
  unfold SectionPool.extract SectionPool.extractPosition
  rw [Locator.locate_eq_locate locator locator']

namespace Store

variable {β γ : Type}

/-- Check the words of a batch, run a stage, and report what it answers and leaves. -/
def onBatch (b : Sentences) (act : Stage (Store α) β) (report : β → Store α → γ) :
    Stage (Store α) γ := do
  Engine.checkWords (← get).tally.words b
  let answer ← act
  return report answer (← get)

variable {b : Sentences} {act : Stage (Store α) β} {report : β → Store α → γ}

omit [Weight α] in
/-- A batch that is refused changes nothing. -/
theorem onBatch_of_error {s : Store α} {e : Error}
    (h : Engine.checkWords s.tally.words b = .error e) : onBatch b act report s = .error e s := by
  simp only [onBatch, Bind.bind, EStateM.bind, get, getThe, MonadStateOf.get, EStateM.get, liftM,
    monadLift, MonadLift.monadLift, h]
  rfl

omit [Weight α] in
theorem onBatch_of_ok {s : Store α} (h : Engine.checkWords s.tally.words b = .ok ()) :
    onBatch b act report s = (act >>= fun answer => do return report answer (← get)) s := by
  simp only [onBatch, Bind.bind, EStateM.bind, get, getThe, MonadStateOf.get, EStateM.get, liftM,
    monadLift, MonadLift.monadLift, h]
  rfl

omit [Weight α] in
/-- A batch that is accepted leaves what the stage leaves, and another one changes nothing. -/
theorem state_onBatch (s : Store α) :
    (outcome (onBatch b act report) s).2 =
      match Engine.checkWords s.tally.words b with
      | .ok _ => (outcome act s).2
      | .error _ => s := by
  cases hcheck : Engine.checkWords s.tally.words b with
  | error e => rw [outcome_of_error (onBatch_of_error hcheck)]
  | ok _ =>
    unfold outcome
    rw [onBatch_of_ok hcheck]
    simp only [Bind.bind, EStateM.bind]
    cases act s <;> rfl

omit [Weight α] in
theorem onBatch_eq_ok_iff {s s' : Store α} {answer : γ} :
    onBatch b act report s = .ok answer s' ↔ Engine.checkWords s.tally.words b = .ok ()
      ∧ ∃ x, act s = .ok x s' ∧ answer = report x s' := by
  cases hwords : Engine.checkWords s.tally.words b with
  | error e =>
    rw [onBatch_of_error hwords]
    simp
  | ok _ =>
    rw [onBatch_of_ok hwords, bind_eq_ok_iff]
    constructor
    · intro h
      obtain ⟨x, s₁, hact, hpure⟩ := h
      cases hpure
      exact ⟨rfl, x, hact, rfl⟩
    · intro h
      obtain ⟨-, x, hact, rfl⟩ := h
      exact ⟨x, s', hact, rfl⟩

end Store

namespace Engine

/-! ### Words -/

theorem lawfulOrderSup_uInt32 : Std.LawfulOrderSup UInt32 := by
  refine ⟨fun a c d => ?_⟩
  rw [show max a c = if a ≤ c then c else a from rfl]
  by_cases hle : a ≤ c
  · rw [if_pos hle]
    exact ⟨fun hd => ⟨UInt32.le_trans hle hd, hd⟩, And.right⟩
  · rw [if_neg hle]
    have hge := UInt32.le_of_lt (UInt32.not_le.mp hle)
    exact ⟨fun hd => ⟨hd, UInt32.le_trans hge hd⟩, And.left⟩

omit [Weight α] in
/-- A batch that is accepted has only words of the arena. -/
theorem lt_of_checkWords {words : WordPool α} {b : Sentences} (h : checkWords words b = .ok ()) :
    ∀ word ∈ b.words, word.toNat < words.capacity := by
  intro word hword
  have hmem : word ∈ b.words.toList := Array.mem_toList_iff.mpr hword
  have := lawfulOrderSup_uInt32
  unfold checkWords at h
  cases hlargest : b.maxWord? with
  | none =>
    rw [List.max?_eq_none_iff.mp hlargest] at hmem
    cases hmem
  | some largest =>
    rw [hlargest] at h
    have hle := (List.max?_le_iff hlargest).mp (UInt32.le_refl _) word hmem
    by_cases hbeyond : words.capacity ≤ largest.toNat
    · simp only [if_pos hbeyond] at h
      cases h
    · exact lt_of_le_of_lt (UInt32.le_iff_toNat_le.mp hle) (not_le.mp hbeyond)

/-! ### Locators -/

variable {β γ : Type}

omit [Weight α] in
/-- A stage that is the same for all locators goes by the store alone. -/
theorem eq_onStore_onBatch (b : Sentences) (act : Locator → Stage (Store α) β)
    (report : β → Store α → γ) (hact : ∀ locator locator', act locator = act locator') :
    ((do
      checkWords (← get).store.tally.words b
      let locator := (← get).locatorFor b
      let answer ← onStore (act locator)
      return report answer (← get).store) : Stage (Engine α) γ)
      = onStore (Store.onBatch b (act .linear) report) := by
  funext e
  obtain ⟨config, store⟩ := e
  simp only [Store.onBatch, onStore, Bind.bind, EStateM.bind, get, getThe, MonadStateOf.get,
    EStateM.get, liftM, monadLift, MonadLift.monadLift]
  cases checkWords store.tally.words b with
  | error error => rfl
  | ok _ =>
    simp only [pure, EStateM.pure, hact _ .linear]
    cases act .linear store <;> rfl

theorem countSentences_eq_onStore (b : Sentences) (window : UInt32) :
    (countSentences b window : Stage (Engine α) CountReport)
      = onStore (Store.onBatch b (Store.onTally (Tally.countSentences b window .linear))
        fun events store => ⟨events, store.tally.total, store.tally.pairs.used⟩) :=
  eq_onStore_onBatch b (fun locator => Store.onTally (Tally.countSentences b window locator))
    (fun events store => CountReport.mk events store.tally.total store.tally.pairs.used)
    fun locator locator' => congrArg _ (Tally.countSentences_congr b window locator locator')

theorem extractSections_eq_onStore (b : Parses) :
    (extractSections b : Stage (Engine α) (ExtractReport × ℕ))
      = onStore (Store.onBatch b.sentences (Store.onSections (SectionPool.extract b .linear))
        fun report store => (report, store.sections.used)) :=
  eq_onStore_onBatch b.sentences (fun locator => Store.onSections (SectionPool.extract b locator))
    (fun report store => (report, store.sections.used))
    fun locator locator' => congrArg _ (SectionPool.extract_congr b locator locator')

/-- Counting a batch checks its words and counts it for the tally. -/
theorem countSentences_eq_ok {e e' : Engine α} {b : Sentences} {window : UInt32}
    {report : CountReport} (h : countSentences b window e = .ok report e') :
    (∀ word ∈ b.words, word.toNat < e.store.tally.words.capacity)
      ∧ ∃ s, Tally.countSentences b window .linear ⟨e.store.tally, e.store.log⟩ = .ok report.events s
        ∧ report = ⟨report.events, s.state.total, s.state.pairs.used⟩
        ∧ e' = { e with store := { e.store with tally := s.state, log := s.log } } := by
  rw [countSentences_eq_onStore] at h
  obtain ⟨store, hstore, rfl⟩ := onStore_eq_ok_iff.mp h
  obtain ⟨hwords, events, hrun, rfl⟩ := Store.onBatch_eq_ok_iff.mp hstore
  obtain ⟨s, hcount, rfl⟩ := Store.onTally_eq_ok_iff.mp hrun
  exact ⟨lt_of_checkWords hwords, s, hcount, rfl, rfl⟩

/-! ### Calls -/

/-- Engines with one store answer a call alike, and leave one store. -/
def AnswersByStore (call : Call α) : Prop :=
  ∀ (store : Store α) (config config' : Config),
    (outcome (perform call) ⟨config, store⟩).1 = (outcome (perform call) ⟨config', store⟩).1
      ∧ (outcome (perform call) ⟨config, store⟩).2.store
        = (outcome (perform call) ⟨config', store⟩).2.store

theorem answersByStore_of_eq_onStore {call : Call α} {act : Stage (Engine α) β}
    {act' : Stage (Store α) β} {f : β → Answer α} (hcall : perform call = f <$> act)
    (hact : act = onStore act') : AnswersByStore call := by
  intro store config config'
  rw [hcall, hact, outcome_map, outcome_map, outcome_onStore, outcome_onStore]
  exact ⟨rfl, rfl⟩

/-- **Locators agree.** Both find the one sentence whose range holds a position of the batch, and
none for a position behind the words, whatever empty sentences lie around it. So counting and
extracting a batch are the same stages with either, and engines with one store but any two
configurations answer both calls alike, failures included, and leave one store. -/
theorem locators_agree :
    (∀ (locator : Locator) (b : Sentences) (position : UInt32),
      (∀ s, locator.locate b position = some s ↔ s < b.count
          ∧ (b.start s).toNat ≤ position.toNat
          ∧ position.toNat < (b.start s).toNat + (b.length s).toNat)
        ∧ ((∃ s, locator.locate b position = some s) ↔ position.toNat < b.totalWords)
        ∧ (locator.locate b position = none ↔ b.totalWords ≤ position.toNat))
      ∧ (∀ (b : Sentences) (position : UInt32),
        Locator.linear.locate b position = Locator.binary.locate b position)
      ∧ (∀ (b : Sentences) (window : UInt32), AnswersByStore (.countSentences b window : Call α))
      ∧ ∀ b : Parses, AnswersByStore (.extractSections b : Call α) := by
  refine ⟨fun locator b position => ⟨fun s => ?_, ?_, locator.locate_eq_none_iff⟩,
    fun b position => ?_, fun b window => ?_, fun b => ?_⟩
  · rw [locator.locate_eq_some_iff]
    refine and_congr_right fun hs => ?_
    rw [Sentences.covers_iff hs, Sentences.toNat_start hs, Sentences.bound_succ hs]
  · rw [← Option.ne_none_iff_exists', ne_eq, locator.locate_eq_none_iff, not_le]
  · rw [Locator.locate_eq_locate .linear .binary]
  · exact answersByStore_of_eq_onStore rfl (countSentences_eq_onStore b window)
  · exact answersByStore_of_eq_onStore rfl (extractSections_eq_onStore b)

/-- Empty sentences in front, side by side in the middle and at the end. -/
example :
    let b : Sentences := ⟨#[7, 8, 9], #[0, 0, 2, 2, 2, 3], #[0, 2, 0, 0, 1, 0], by decide⟩
    (List.range 4).map (fun i => Locator.linear.locate b i.toUInt32)
      = [some 1, some 1, some 4, none] := by decide

end Engine

end CorpusStats
