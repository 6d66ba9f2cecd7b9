import CorpusStats.Proofs.Checks
import CorpusStats.Proofs.Engine.Start
import CorpusStats.Proofs.Exact
/-!
# CorpusStats.Proofs.Engine.Refusals

What a call leaves when one of its items is refused. Counting slots, assigning classes and loading
counts check each item as they come to it, and write it at once. An item is refused as a whole
(`Stage.Atomic`), but the call is not: it leaves what the items before that one did, as if it had been
given no others (`Engine.refused_keeps_earlier_items`). Only lists whose lengths differ are refused
before anything is written.
-/

namespace CorpusStats

open Stage

variable {α β ι : Type}

/-- The first entries of an assignment. -/
def ClassMap.take (n : ℕ) (m : ClassMap) : ClassMap :=
  ⟨m.entries.take n, by
    rw [List.map_take]
    exact m.distinct.sublist (List.take_sublist _ _)⟩

/-- Whether a call counts, assigns or loads one item after the other. -/
def Call.TakesItems : Call α → Prop
  | .countPairs _ | .countSections _ | .assignClasses _ => True
  | .loadPairs _ _ | .loadSections _ _ | .loadWords _ _ => True
  | _ => False

/-- The call with its first `n` items. -/
def Call.take (n : ℕ) : Call α → Call α
  | .countPairs slots => .countPairs (slots.take n)
  | .countSections slots => .countSections (slots.take n)
  | .assignClasses classes => .assignClasses (classes.take n)
  | .loadPairs slots counts => .loadPairs (slots.take n) (counts.take n)
  | .loadSections slots counts => .loadSections (slots.take n) (counts.take n)
  | .loadWords ids counts => .loadWords (ids.take n) (counts.take n)
  | call => call

/-! ### One item -/

namespace Tally

theorem atomic_onWords {act : Stage (WordPool α) β} (h : Atomic act) : Atomic (onWords act) := by
  intro t e t' hrun
  obtain ⟨words, hact, rfl⟩ :=
    (eq_error_iff_of_outcome (f := fun words => { t with words }) (outcome_onWords act t)).mp hrun
  rw [h _ _ _ hact]

theorem atomic_onPairs {act : Stage (PairPool α) β} (h : Atomic act) : Atomic (onPairs act) := by
  intro t e t' hrun
  obtain ⟨pairs, hact, rfl⟩ :=
    (eq_error_iff_of_outcome (f := fun pairs => { t with pairs }) (outcome_onPairs act t)).mp hrun
  rw [h _ _ _ hact]

variable [Weight α]

/-- Both ends of a pair are checked before either is counted. -/
theorem atomic_observe (slot : ℕ) : Atomic (observe (α := α) slot) := by
  intro t e t' h
  obtain ⟨words, pairs, total⟩ := t
  unfold observe at h
  dsimp only at h
  split at h <;> cases h
  rfl

theorem atomic_observeSlot (slot : UInt32) : Atomic (observeSlot (α := α) slot) := by
  intro t e t' h
  unfold observeSlot at h
  split at h
  · exact atomic_observe _ t e t' h
  · cases h
    rfl

end Tally

/-! ### Calls -/

namespace Engine

/-- The engines differ in their logs at most. -/
def SameButLog (e e' : Engine α) : Prop := ∃ log, e' = { e with store := { e.store with log } }

theorem stopsAtItem_onTally {act : List ι → Stage (Logged (Tally α)) β}
    (h : StopsAtItem (fun s s' : Logged (Tally α) => s.state = s'.state) act) :
    StopsAtItem SameButLog fun items => onStore (Store.onTally (act items)) :=
  h.of_part (fun e : Engine α => ⟨e.store.tally, e.store.log⟩)
    (fun e s => { e with store := { e.store with tally := s.state, log := s.log } })
    (fun items e => by rw [outcome_onStore, Store.outcome_onTally])
    fun e s s' hs => ⟨s'.log, by rw [hs]⟩

theorem stopsAtItem_onSections {act : List ι → Stage (Logged (SectionPool α)) β}
    (h : StopsAtItem (fun s s' : Logged (SectionPool α) => s.state = s'.state) act) :
    StopsAtItem SameButLog fun items => onStore (Store.onSections (act items)) :=
  h.of_part (fun e : Engine α => ⟨e.store.sections, e.store.log⟩)
    (fun e s => { e with store := { e.store with sections := s.state, log := s.log } })
    (fun items e => by rw [outcome_onStore, Store.outcome_onSections])
    fun e s s' hs => ⟨s'.log, by rw [hs]⟩

theorem stopsAtItem_onTallyState {act : List ι → Stage (Tally α) β} (h : StopsAtItem Eq act) :
    StopsAtItem SameButLog fun items => onTallyState (act items) :=
  h.of_part (fun e : Engine α => e.store.tally)
    (fun e tally => { e with store := { e.store with tally } })
    (fun items e => by rw [outcome_onTallyState]) fun e s s' hs => ⟨e.store.log, by rw [hs]⟩

theorem stopsAtItem_onSectionsState {act : List ι → Stage (SectionPool α) β}
    (h : StopsAtItem Eq act) : StopsAtItem SameButLog fun items => onSectionsState (act items) :=
  h.of_part (fun e : Engine α => e.store.sections)
    (fun e sections => { e with store := { e.store with sections } })
    (fun items e => by rw [outcome_onSectionsState]) fun e s s' hs => ⟨e.store.log, by rw [hs]⟩

variable [Weight α] {e e' : Engine α} {call : Call α} {fault : BatchFault}

/-- The call accepts its first items, is refused at the one behind them, and leaves what these
items do. -/
def KeepsEarlierItems (e : Engine α) (call : Call α) (fault : BatchFault) (e' : Engine α) : Prop :=
  ∃ n e₁, perform (call.take n) e = .ok .done e₁ ∧ SameButLog e₁ e'
    ∧ ∃ e₂, perform (call.take (n + 1)) e = .error (.malformed fault) e₂

theorem keepsEarlierItems {act : List ι → Stage (Engine α) Unit} (hact : StopsAtItem SameButLog act)
    (items : List ι) (hcall : perform call = (fun _ => .done) <$> act items)
    (htake : ∀ n, perform (call.take n) = (fun _ => .done) <$> act (items.take n))
    (h : perform call e = .error (.malformed fault) e') : e.KeepsEarlierItems call fault e' := by
  rw [hcall, map_eq_error_iff] at h
  obtain ⟨n, _, e₁, hok, hsame, e₂, herror⟩ := hact items e _ e' h
  refine ⟨n, e₁, ?_, hsame, e₂, ?_⟩
  · rw [htake]
    exact map_eq_ok_iff.mpr ⟨(), hok, rfl⟩
  · rw [htake]
    exact map_eq_error_iff.mpr herror

omit [Weight α] in
theorem checkLengths_bind (stage : String) (first second : ℕ) (act : Stage (Engine α) β) :
    (do checkLengths stage first second; act : Stage (Engine α) β)
      = if first = second then act
        else throw (.malformed (.lengthsDiffer stage first second)) := by
  unfold checkLengths
  split <;> rfl

/-- Loading stops at an entry, or is refused because there are not as many counts as records. -/
theorem keepsEarlierItems_of_load {act : List (UInt32 × α) → Stage (Engine α) Unit}
    (hact : StopsAtItem SameButLog act) {stage : String} {ids : List UInt32} {counts : List α}
    (hcall : perform call = (fun _ => .done) <$> (do
      checkLengths stage ids.length counts.length
      act (ids.zip counts)))
    (htake : ∀ n, perform (call.take n) = (fun _ => .done) <$> (do
      checkLengths stage (ids.take n).length (counts.take n).length
      act ((ids.take n).zip (counts.take n))))
    (h : perform call e = .error (.malformed fault) e') :
    (fault = .lengthsDiffer stage ids.length counts.length ∧ e' = e)
      ∨ e.KeepsEarlierItems call fault e' := by
  rw [checkLengths_bind] at hcall
  by_cases hlength : ids.length = counts.length
  · rw [if_pos hlength] at hcall
    refine .inr (keepsEarlierItems hact (ids.zip counts) hcall (fun n => ?_) h)
    rw [htake, checkLengths_bind, if_pos (by rw [List.length_take, List.length_take, hlength]),
      List.zip, List.take_zipWith]
  · rw [if_neg hlength] at hcall
    rw [hcall] at h
    cases h
    exact .inl ⟨rfl, rfl⟩

/-- **A refused call keeps its earlier items.** If counting slots, assigning classes or loading
counts is refused, whatever the state of the engine is, then the lists that belong together differ
in length and nothing has changed, or one item was refused and the engine is, but for its log, what
the call leaves when it is given the items before that one. -/
theorem refused_keeps_earlier_items (hcall : call.TakesItems)
    (h : perform call e = .error (.malformed fault) e') :
    (∃ stage first second, fault = .lengthsDiffer stage first second ∧ e' = e)
      ∨ e.KeepsEarlierItems call fault e' := by
  cases call with
  | countPairs slots =>
    have hcount := (stopsAtItem_dispatch (Tally.atomic_observeSlot (α := α))).map fun _ => ()
    exact .inr (keepsEarlierItems (stopsAtItem_onTally hcount) slots rfl (fun _ => rfl) h)
  | countSections slots =>
    have hcount := (stopsAtItem_dispatch fun slot =>
      (SectionPool.writes_observeSlot (α := α) slot).atomic).map fun _ => ()
    exact .inr (keepsEarlierItems (stopsAtItem_onSections hcount) slots rfl (fun _ => rfl) h)
  | assignClasses classes =>
    have hassign := (stopsAtItem_dispatch fun entry : UInt32 × UInt32 =>
      Tally.atomic_onWords (WordPool.writes_assign (α := α) entry.1 entry.2).atomic).map fun _ => ()
    refine .inr (keepsEarlierItems (stopsAtItem_onTally hassign) classes.entries rfl ?_ h)
    exact fun _ => rfl
  | loadPairs slots counts =>
    have hload := stopsAtItem_forM fun entry : UInt32 × α =>
      Tally.atomic_onPairs (PairPool.writes_loadCount entry.1 entry.2).atomic
    exact (keepsEarlierItems_of_load (stopsAtItem_onTallyState hload) rfl (fun _ => rfl) h).imp_left
      fun hlengths => ⟨_, _, _, hlengths⟩
  | loadSections slots counts =>
    have hload := stopsAtItem_forM fun entry : UInt32 × α =>
      (SectionPool.writes_loadCount entry.1 entry.2).atomic
    exact (keepsEarlierItems_of_load (stopsAtItem_onSectionsState hload) rfl (fun _ => rfl) h).imp_left
      fun hlengths => ⟨_, _, _, hlengths⟩
  | loadWords ids counts =>
    have hload := stopsAtItem_forM fun entry : UInt32 × α =>
      Tally.atomic_onWords (WordPool.writes_loadCount entry.1 entry.2).atomic
    exact (keepsEarlierItems_of_load (stopsAtItem_onTallyState hload) rfl (fun _ => rfl) h).imp_left
      fun hlengths => ⟨_, _, _, hlengths⟩
  | _ => cases hcall

/-- The second of three slots is not in use. The first one was counted, the third one was not. -/
theorem refused_keeps_earlier_items_count :
    ∃ e e' : Engine ℚ, ofConfig .tiny = .ok e
      ∧ perform (.countPairs [0, 7, 0]) (run [.pairSlots [0] [1]] e)
        = .error (.malformed (.slotOutOfRange "pair" 7 1)) e'
      ∧ (run [.pairSlots [0] [1]] e).KeepsEarlierItems (.countPairs [0, 7, 0])
        (.slotOutOfRange "pair" 7 1) e'
      ∧ e'.store.tally.pairs.liveRows = [⟨1, 0, 0, 1, 1⟩] ∧ e'.store.tally.total = 1 := by
  obtain ⟨e, he, hanswer, hrows, htotal⟩ := exists_ofConfig_of_mem .tiny (P := fun e : Engine ℚ =>
    let counted := outcome (countPairs [0, 7, 0]) (run [.pairSlots [0] [1]] e)
    counted.1 = .error (.malformed (.slotOutOfRange "pair" 7 1))
      ∧ counted.2.store.tally.pairs.liveRows = [⟨1, 0, 0, 1, 1⟩]
      ∧ counted.2.store.tally.total = 1) (by decide +kernel)
  have hrun := outcome_eq_error_iff.mp (Prod.ext hanswer rfl)
  have hperform : perform (.countPairs [0, 7, 0]) (run [.pairSlots [0] [1]] e) = _ :=
    map_eq_error_iff.mpr hrun
  have hitems : (Call.countPairs [0, 7, 0] : Call ℚ).TakesItems := trivial
  refine ⟨e, _, he, hperform, ?_, hrows, htotal⟩
  rcases refused_keeps_earlier_items hitems hperform with ⟨stage, first, second, hfault, -⟩ | hkeeps
  · cases hfault
  · exact hkeeps

/-- A load that is refused for its second entry has stored the count of its first one. -/
theorem refused_load_leaves_count :
    ∃ e e' : Engine ℚ, ofConfig .tiny = .ok e
      ∧ perform (.loadPairs [0, 7] [5, 1]) (run [.pairSlots [0] [1]] e)
        = .error (.malformed (.slotOutOfRange "pair" 7 1)) e'
      ∧ (run [.pairSlots [0] [1]] e).store.tally.pairs.liveRows = [⟨0, 0, 0, 1, 0⟩]
      ∧ e'.store.tally.pairs.liveRows = [⟨5, 0, 0, 1, 1⟩] := by
  obtain ⟨e, he, hanswer, hbefore, hafter⟩ := exists_ofConfig_of_mem .tiny (P := fun e : Engine ℚ =>
    let loaded := outcome (loadPairs [0, 7] [5, 1]) (run [.pairSlots [0] [1]] e)
    loaded.1 = .error (.malformed (.slotOutOfRange "pair" 7 1))
      ∧ (run [.pairSlots [0] [1]] e).store.tally.pairs.liveRows = [⟨0, 0, 0, 1, 0⟩]
      ∧ loaded.2.store.tally.pairs.liveRows = [⟨5, 0, 0, 1, 1⟩]) (by decide +kernel)
  exact ⟨e, _, he, map_eq_error_iff.mpr (outcome_eq_error_iff.mp (Prod.ext hanswer rfl)),
    hbefore, hafter⟩

end Engine

end CorpusStats
