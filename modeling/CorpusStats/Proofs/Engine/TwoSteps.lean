import CorpusStats.Proofs.Engine.Refusals
import CorpusStats.Proofs.Engine.Room
import CorpusStats.Proofs.Tally.Asking
/-!
# CorpusStats.Proofs.Engine.TwoSteps

A host can count a batch with one call, or list the words of its close places itself, ask for the
slots of these pairs and count the slots. Both come to their end on the same engines and leave the
same store (`Engine.counting_takes_one_step_or_two`), whatever has happened to the index of pairs
before.
-/

namespace CorpusStats

open Stage

variable {α : Type} [Weight α]

namespace Sentences

/-- The words that stand first at the close places of a batch, in the order of counting. -/
def firstWords (b : Sentences) (window : ℕ) : List UInt32 :=
  (b.near window).map fun place => b.wordAt place.1 place.2.1

/-- The words that stand second. -/
def secondWords (b : Sentences) (window : ℕ) : List UInt32 :=
  (b.near window).map fun place => b.wordAt place.1 place.2.2

end Sentences

namespace Tally

omit [Weight α] in
/-- Looking up the words of the close places is asking for the pairs of the batch. -/
theorem pairSlots_near_eq_ok_iff {b : Sentences} {window : ℕ} {s s' : Logged (Tally α)}
    {slots : List UInt32} :
    pairSlots (b.firstWords window) (b.secondWords window) s = .ok slots s' ↔
      (b.windowPairs window).mapM askPair s.state = .ok slots s'.state
        ∧ s'.log = s.log.start (b.near window).length := by
  have hlength : (b.firstWords window).length = (b.secondWords window).length := by
    rw [Sentences.firstWords, Sentences.secondWords, List.length_map, List.length_map]
  rw [pairSlots_eq hlength, dispatch_eq_ok_iff, Sentences.windowPairs_eq_map,
    Sentences.firstWords, Sentences.secondWords, List.zip_map', List.mapM_map, List.mapM_map,
    List.length_map]
  rfl

theorem countSlots_eq_ok_iff {slots : List UInt32} {s s' : Logged (Tally α)} :
    countSlots slots s = .ok () s' ↔ ∃ units, slots.mapM observeSlot s.state = .ok units s'.state
      ∧ s'.log = s.log.start slots.length := by
  rw [show (countSlots slots : Stage (Logged (Tally α)) Unit)
    = (fun _ => ()) <$> dispatch slots observeSlot from (map_eq_pure_bind _ _).symm]
  simp [map_eq_ok_iff, dispatch_eq_ok_iff]

end Tally

namespace Engine

variable {s s' : Engine α} {b : Sentences} {window : UInt32}

/-- Ask for the slots of pairs and count these slots. -/
def askAndCount (as bs : List UInt32) : Stage (Engine α) Unit := do
  let slots ← pairSlots as bs
  countPairs slots

/-- Counting a batch in one call is one loop over its pairs. -/
theorem countSentences_eq_ok_iff
    (hwords : ∀ word ∈ b.words, word.toNat < s.store.tally.words.capacity) (window : UInt32) :
    ∃ log, ∀ report s', countSentences b window s = .ok report s' ↔ ∃ tally,
      (b.windowPairs window.toNat).forM Tally.observePair s.store.tally = .ok () tally
        ∧ report = ⟨(b.windowPairs window.toNat).length, tally.total, tally.pairs.used⟩
        ∧ s' = s.putTally tally log := by
  obtain ⟨log, hlog⟩ := outcome_countSentences hwords window
  refine ⟨log, fun report s' => ?_⟩
  rw [← outcome_eq_ok_iff, hlog]
  unfold outcome
  cases (b.windowPairs window.toNat).forM Tally.observePair s.store.tally with
  | ok _ tally => simp [Except.map, eq_comm]
  | error err tally => simp [Except.map]

/-- Counting it in two steps is a loop that asks for the pairs and one that observes their slots. -/
theorem askAndCount_near_eq_ok_iff :
    askAndCount (b.firstWords window.toNat) (b.secondWords window.toNat) s = .ok () s' ↔
      ∃ slots t units tally, (b.windowPairs window.toNat).mapM Tally.askPair s.store.tally = .ok slots t
        ∧ slots.mapM Tally.observeSlot t = .ok units tally
        ∧ s' = s.putTally tally ((s.store.log.start (b.near window.toNat).length).start slots.length) := by
  rw [askAndCount, bind_eq_ok_iff]
  constructor
  · intro h
    obtain ⟨slots, _, hask, hcount⟩ := h
    obtain ⟨⟨t, _⟩, hslots, rfl⟩ := onTally_eq_ok_iff.mp hask
    obtain ⟨hasked, rfl⟩ := Tally.pairSlots_near_eq_ok_iff.mp hslots
    obtain ⟨⟨tally, _⟩, hslots', rfl⟩ := onTally_eq_ok_iff.mp hcount
    obtain ⟨units, hcounted, rfl⟩ := Tally.countSlots_eq_ok_iff.mp hslots'
    exact ⟨slots, t, units, tally, hasked, hcounted, rfl⟩
  · intro h
    obtain ⟨slots, t, units, tally, hask, hcount, rfl⟩ := h
    exact ⟨slots, _, onTally_eq_ok_iff.mpr
        ⟨⟨t, _⟩, Tally.pairSlots_near_eq_ok_iff.mpr ⟨hask, rfl⟩, rfl⟩,
      onTally_eq_ok_iff.mpr
        ⟨⟨tally, _⟩, Tally.countSlots_eq_ok_iff.mpr ⟨units, hcount, rfl⟩, rfl⟩⟩

/-- **One step or two.** After every run, failed calls and folds that leave the index of pairs out
of date among them, a batch of words of the arena is counted in one call exactly if the slots of its
pairs, asked for in the order of counting, can all be had and then be counted. Both ways leave the
same store, but for the log. -/
theorem counting_takes_one_step_or_two {config : Config} {e : Engine α}
    (he : ofConfig config = .ok e) (calls : List (Call α)) {b : Sentences} (window : UInt32)
    (hwords : ∀ word ∈ b.words, word.toNat < (run calls e).store.tally.words.capacity) :
    let as := b.firstWords window.toNat
    let bs := b.secondWords window.toNat
    ((∃ report s, countSentences b window (run calls e) = .ok report s)
        ↔ ∃ s, askAndCount as bs (run calls e) = .ok () s)
      ∧ ∀ report s s', countSentences b window (run calls e) = .ok report s →
        askAndCount as bs (run calls e) = .ok () s' → SameButLog s s' := by
  intro as bs
  obtain ⟨log, hcount⟩ := countSentences_eq_ok_iff hwords window
  have hloops tally : (b.windowPairs window.toNat).forM Tally.observePair (run calls e).store.tally
      = .ok () tally ↔ _ := Tally.forM_observePair_eq_ok_iff (intact_run he calls)
  constructor
  · constructor
    · intro h
      obtain ⟨report, s, h⟩ := h
      obtain ⟨tally, hloop, -⟩ := (hcount _ _).mp h
      obtain ⟨slots, t, units, hask, hobserve⟩ := (hloops tally).mp hloop
      exact ⟨_, askAndCount_near_eq_ok_iff.mpr ⟨slots, t, units, tally, hask, hobserve, rfl⟩⟩
    · intro h
      obtain ⟨s, h⟩ := h
      obtain ⟨slots, t, units, tally, hask, hobserve, -⟩ := askAndCount_near_eq_ok_iff.mp h
      exact ⟨_, _, (hcount _ _).mpr
        ⟨tally, (hloops tally).mpr ⟨slots, t, units, hask, hobserve⟩, rfl, rfl⟩⟩
  · intro report s s' hone htwo
    obtain ⟨tally, hloop, -, rfl⟩ := (hcount _ _).mp hone
    obtain ⟨slots, t, units, tally', hask, hobserve, rfl⟩ := askAndCount_near_eq_ok_iff.mp htwo
    have hloop' := (hloops tally').mpr ⟨slots, t, units, hask, hobserve⟩
    rw [hloop] at hloop'
    cases hloop'
    exact ⟨_, rfl⟩

/-- After a fold without a new index, a key leads to a slot with other words. The two ways still
agree: they count the slot that they are led to, whatever is in it now. -/
theorem counting_takes_one_step_or_two_stale :
    let calls : List (Call ℚ) := [.pairSlots [0, 1] [1, 2], .countPairs [0, 1],
      .assignClasses ⟨[(2, 3)], by decide⟩, .foldPairs]
    let b : Sentences := ⟨#[0, 1, 2, 1], #[0], #[4], by decide⟩
    ∃ (e s s' : Engine ℚ) (report : CountReport), ofConfig .tiny = .ok e
      ∧ (run calls e).lookupPair 1 2 = some 1
      ∧ (run calls e).store.tally.pairs.liveRows.map PairRow.words = [.of 0 1, .of 1 3]
      ∧ countSentences b 1 (run calls e) = .ok report s
      ∧ askAndCount (b.firstWords 1) (b.secondWords 1) (run calls e) = .ok () s'
      ∧ s.store.tally.pairs.liveRows.map PairRow.count = [2, 3]
      ∧ SameButLog s s' := by
  intro calls b
  obtain ⟨e, he, hcapacity, hlookup, hrows, hanswer, hcounts⟩ := exists_ofConfig_of_mem .tiny
    (P := fun e : Engine ℚ => (run calls e).store.tally.words.capacity = 4
      ∧ (run calls e).lookupPair 1 2 = some 1
      ∧ (run calls e).store.tally.pairs.liveRows.map PairRow.words = [.of 0 1, .of 1 3]
      ∧ (outcome (countSentences b 1) (run calls e)).1 = .ok ⟨3, 5, 2⟩
      ∧ (outcome (countSentences b 1) (run calls e)).2.store.tally.pairs.liveRows.map PairRow.count
        = [2, 3]) (by decide +kernel)
  have hcount : countSentences b 1 (run calls e)
      = .ok ⟨3, 5, 2⟩ (outcome (countSentences b 1) (run calls e)).2 :=
    eq_ok_of_outcome hanswer
  obtain ⟨hiff, hsame⟩ := counting_takes_one_step_or_two he calls (b := b) 1
    (by simp [b, hcapacity])
  obtain ⟨s', hask⟩ := hiff.mp ⟨_, _, hcount⟩
  exact ⟨e, _, s', _, he, hlookup, hrows, hcount, hask, hcounts, hsame _ _ _ hcount hask⟩

end Engine

end CorpusStats
