import CorpusStats.Engine.Call
import CorpusStats.Proofs.Checks
import CorpusStats.Proofs.Lift
import CorpusStats.Proofs.Tally.Sweeps
/-!
# CorpusStats.Proofs.Refusing

Stages that fail for what they are given only. Counting, loading, assigning and recomputing check
slots and ids, and every other stage that can fail creates records. So of the calls that create
no record none is ever short of room.

A position of a batch creates records and checks what it is given, so it fails as asking for a record
does or is refused (`Tally.keepsOr_countPosition`, `SectionPool.keepsOr_extractPosition`).
-/

namespace CorpusStats

open Stage

variable {α β : Type}

variable [Weight α]

/-! ### Words and pairs -/

namespace Tally

omit [Weight α] in
theorem onlyRefuses_onWords {act : Stage (WordPool α) β} (h : OnlyRefuses act) :
    OnlyRefuses (onWords act) :=
  keepsOr_onWords (P := fun _ => True) (Q := fun e _ => ∃ fault, e = .malformed fault) h

omit [Weight α] in
theorem onlyRefuses_onPairs {act : Stage (PairPool α) β} (h : OnlyRefuses act) :
    OnlyRefuses (onPairs act) :=
  keepsOr_onPairs (P := fun _ => True) (Q := fun e _ => ∃ fault, e = .malformed fault) h

theorem onlyRefuses_observe (slot : ℕ) : OnlyRefuses (observe (α := α) slot) := by
  intro t _
  obtain ⟨words, pairs, total⟩ := t
  unfold observe
  dsimp only
  cases hends : endsOf words pairs slot with
  | ok ends => trivial
  | error e => exact malformed_of_endsOf hends

theorem onlyRefuses_observeSlot (slot : UInt32) : OnlyRefuses (observeSlot (α := α) slot) := by
  intro t _
  unfold observeSlot
  cases hslot : t.pairs.check slot with
  | ok slot => exact onlyRefuses_observe slot t trivial
  | error e => exact Pool.malformed_of_check hslot

theorem onlyRefuses_countSlots (slots : List UInt32) :
    OnlyRefuses (countSlots (α := α) slots) :=
  KeepsOr.bind (.dispatch fun slot _ => onlyRefuses_observeSlot slot) fun _ => .pure _

omit [Weight α] in
theorem onlyRefuses_assignClasses (m : ClassMap) : OnlyRefuses (assignClasses (α := α) m) :=
  KeepsOr.bind (.dispatch fun _ _ => onlyRefuses_onWords (WordPool.writes_assign _ _).onlyRefuses)
    fun _ => .pure _

theorem onlyRefuses_spreadCount (slot : ℕ) : OnlyRefuses (spreadCount (α := α) slot) := by
  intro t _
  rcases spreadCount_cases slot t with
    ⟨-, hrun⟩ | ⟨row, -, -, ⟨ends, -, hrun⟩ | ⟨e, hends, hrun⟩⟩ <;> rw [hrun]
  · trivial
  · trivial
  · exact malformed_of_endsOf hends

theorem onlyRefuses_rebuildTotals : OnlyRefuses (rebuildTotals (α := α)) := by
  refine KeepsOr.bind (.bind .get fun _ => .bind (.modifyGet fun _ _ => trivial) fun _ => ?_)
    fun _ => .bind (.modifyGet fun _ _ => trivial) fun _ => .pure _
  exact .bind .get fun _ => .bind (.dispatch fun slot _ => onlyRefuses_spreadCount slot)
    fun _ => .pure _

/-- What asking for a pair and observing it leave, a position of a batch leaves. -/
theorem keepsOr_countPosition {P : Tally α → Prop} {Q : Error → Tally α → Prop}
    (hask : ∀ a b, KeepsOr P Q (onPairs (PairPool.slotOf a b)))
    (hobserve : ∀ slot, KeepsOr P Q (observe slot)) (hrefuse : ∀ fault t, P t → Q (.malformed fault) t)
    (b : Sentences) (window : UInt32) (locator : Locator) (i : ℕ) :
    KeepsOr P Q (countPosition b window locator i) := by
  unfold countPosition
  dsimp only
  cases locator.locate b i.toUInt32 with
  | none => exact .throw fun t h => hrefuse _ t h
  | some s =>
    refine .bind (.forM fun partner _ => ?_) fun _ => .pure _
    exact (hask _ _).bind fun found => hobserve found.1.toNat

end Tally

/-! ### Sections -/

namespace SectionPool

theorem onlyRefuses_countSlots (slots : List UInt32) :
    OnlyRefuses (countSlots (α := α) slots) :=
  KeepsOr.bind (.dispatch fun slot _ => (writes_observeSlot slot).onlyRefuses) fun _ => .pure _

/-- What asking for a section and counting it leave, a position of a batch leaves. -/
theorem keepsOr_extractPosition {P : SectionPool α → Prop} {Q : Error → SectionPool α → Prop}
    (hask : ∀ word disjunct, KeepsOr P Q (slotOf word disjunct))
    (hobserve : ∀ slot, KeepsOr P Q (observe slot))
    (hrefuse : ∀ fault sections, P sections → Q (.malformed fault) sections) (b : Parses)
    (locator : Locator) (i : ℕ) : KeepsOr P Q (extractPosition b locator i) := by
  unfold extractPosition
  dsimp only
  split
  · exact .throw fun _ h => hrefuse _ _ h
  · split
    · exact fun _ h => hrefuse _ _ h
    · split
      · exact .pure _
      · exact (hask _ _).bind fun _ => (hobserve _).bind fun _ => .pure _

end SectionPool

/-! ### Calls -/

namespace Engine

omit [Weight α] in
theorem onlyRefuses_onTally {act : Stage (Logged (Tally α)) β} (h : OnlyRefuses act) :
    OnlyRefuses (onStore (Store.onTally act)) :=
  keepsOr_onTally (P := fun _ => True) (Q := fun e _ => ∃ fault, e = .malformed fault) h

omit [Weight α] in
theorem onlyRefuses_onTallyState {act : Stage (Tally α) β} (h : OnlyRefuses act) :
    OnlyRefuses (onTallyState act) :=
  keepsOr_onTallyState (P := fun _ => True) (Q := fun e _ => ∃ fault, e = .malformed fault) h

omit [Weight α] in
theorem onlyRefuses_onSections {act : Stage (Logged (SectionPool α)) β} (h : OnlyRefuses act) :
    OnlyRefuses (onStore (Store.onSections act)) :=
  keepsOr_onSections (P := fun _ => True) (Q := fun e _ => ∃ fault, e = .malformed fault) h

omit [Weight α] in
theorem onlyRefuses_onSectionsState {act : Stage (SectionPool α) β} (h : OnlyRefuses act) :
    OnlyRefuses (onSectionsState act) :=
  keepsOr_onSectionsState (P := fun _ => True) (Q := fun e _ => ∃ fault, e = .malformed fault) h

/-- A check that refuses in front of a stage that does. -/
theorem onlyRefuses_of_check {σ γ : Type} {check : Except Error β} {act : β → Stage σ γ}
    (hcheck : ∀ e, check = .error e → ∃ fault, e = .malformed fault)
    (hact : ∀ b, OnlyRefuses (act b)) :
    OnlyRefuses ((liftM check : Stage σ β) >>= act) :=
  KeepsOr.bind (.lift fun e _ he _ => hcheck e he) hact

end Engine

/-- Whether a call neither creates records nor rebuilds the index of pairs. -/
def Call.OnlyChecks : Call α → Prop
  | .internWords _ | .pairSlots _ _ | .sectionSlots _ _ => False
  | .countSentences _ _ | .extractSections _ | .computeSimilarity => False
  | .reindexPairs | .fold => False
  | _ => True

theorem Engine.onlyRefuses_perform {call : Call α} (hcall : call.OnlyChecks) :
    OnlyRefuses (perform call) := by
  cases call with
  | internWords | pairSlots | sectionSlots | countSentences | extractSections | computeSimilarity
  | reindexPairs | fold => cases hcall
  | countPairs slots => exact KeepsOr.map (onlyRefuses_onTally (Tally.onlyRefuses_countSlots slots))
  | countSections slots =>
    exact KeepsOr.map (onlyRefuses_onSections (SectionPool.onlyRefuses_countSlots slots))
  | assignClasses classes =>
    exact KeepsOr.map (onlyRefuses_onTally (Tally.onlyRefuses_assignClasses classes))
  | rebuildTotals => exact KeepsOr.map (onlyRefuses_onTally Tally.onlyRefuses_rebuildTotals)
  | loadPairs slots counts =>
    refine KeepsOr.map (onlyRefuses_of_check (fun _ => malformed_of_checkLengths) fun _ => ?_)
    refine onlyRefuses_onTallyState (KeepsOr.forM fun _ _ => ?_)
    exact Tally.onlyRefuses_onPairs (PairPool.writes_loadCount _ _).onlyRefuses
  | loadSections slots counts =>
    refine KeepsOr.map (onlyRefuses_of_check (fun _ => malformed_of_checkLengths) fun _ => ?_)
    exact onlyRefuses_onSectionsState
      (KeepsOr.forM fun _ _ => (SectionPool.writes_loadCount _ _).onlyRefuses)
  | loadWords ids counts =>
    refine KeepsOr.map (onlyRefuses_of_check (fun _ => malformed_of_checkLengths) fun _ => ?_)
    refine onlyRefuses_onTallyState (KeepsOr.forM fun _ _ => ?_)
    exact Tally.onlyRefuses_onWords (WordPool.writes_loadCount _ _).onlyRefuses
  -- stages that always answer
  | score | scoreStats | filterPairs | filterCandidates | foldPairs | foldSections | setTotal
  | reset => exact fun _ _ => trivial

end CorpusStats
