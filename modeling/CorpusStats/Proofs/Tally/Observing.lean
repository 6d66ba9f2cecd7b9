import CorpusStats.Proofs.Batch.Window
import CorpusStats.Proofs.Lift
/-!
# CorpusStats.Proofs.Tally.Observing

Observing a pair counts its row and its ends, unless an end is beyond the arena
(`Tally.observe_eq_ok_iff`).

What stages that make and observe pairs keep is `Tally.KeptByObserving`. They check a slot or ask
for one, and then observe a slot in use, so it is enough that asking for a pair and observing a
slot in use keep something. Asking may do so for pairs of some words only; then the stage has to
name no others.
-/

namespace CorpusStats

open Stage

namespace Tally

variable {α : Type}

/-! ### One observation -/

/-- The ends of a pair are accepted if both are words of the arena. -/
theorem endsOf_eq_ok_iff {words : WordPool α} {pairs : PairPool α} {slot : ℕ} {ends : ℕ × ℕ} :
    endsOf words pairs slot = .ok ends ↔
      ∃ row, pairs.row? slot = some row ∧ row.wordA.toNat < words.capacity
        ∧ row.wordB.toNat < words.capacity ∧ ends = (row.wordA.toNat, row.wordB.toNat) := by
  unfold endsOf
  cases pairs.row? slot with
  | none => simp
  | some row =>
    by_cases ha : row.wordA.toNat < words.capacity <;>
      by_cases hb : row.wordB.toNat < words.capacity <;>
      simp [Pool.checkId, ha, hb, bind, Except.bind, pure, Except.pure, eq_comm]

/-- The ends of a pair are refused because of the first of its words that is beyond the arena. -/
theorem endsOf_eq_error_iff {words : WordPool α} {pairs : PairPool α} {slot : ℕ}
    {row : PairRow α} (hrow : pairs.row? slot = some row) {e : Error} :
    endsOf words pairs slot = .error e ↔
      ∃ word, [row.wordA, row.wordB].find? (words.capacity ≤ ·.toNat) = some word
        ∧ e = .malformed (.idBeyond words.name word.toNat words.capacity) := by
  simp only [endsOf, hrow, Pool.checkId]
  by_cases ha : row.wordA.toNat < words.capacity
  · by_cases hb : row.wordB.toNat < words.capacity
    · simp [ha, hb, bind, Except.bind, pure, Except.pure]
    · simp [ha, hb, not_lt.mp hb, bind, Except.bind, eq_comm]
  · simp [ha, not_lt.mp ha, bind, Except.bind, eq_comm]

variable [Weight α]

def countOnce (row : PairRow α) : PairRow α := { row with count := row.count + 1 }.markDirty

/-- An observation that answers counts its slot and the ends of its pair. -/
theorem observe_eq_ok_iff {words : WordPool α} {pairs : PairPool α} {total : UInt64} {slot : ℕ}
    {t' : Tally α} :
    observe slot ⟨words, pairs, total⟩ = .ok () t' ↔ ∃ ends, endsOf words pairs slot = .ok ends
      ∧ t' = ⟨addToEnds 1 ends words, pairs.modify slot countOnce, total + 1⟩ := by
  unfold observe
  dsimp only
  cases endsOf words pairs slot with
  | error e => simp
  | ok ends =>
    constructor
    · intro h
      cases h
      exact ⟨ends, rfl, rfl⟩
    · intro h
      obtain ⟨ends', hends, rfl⟩ := h
      cases hends
      rfl

/-! ### Batches -/

section Batches

variable {R : List WordPair → Tally α → Prop} {b : Sentences} {window : UInt32} {locator : Locator}

/-- What passes from one observation to the next holds of the pairs that a position opens. -/
theorem countPosition_ok_induction
    (hstep : ∀ ps word partner t t', word ∈ b.words → partner ∈ b.words → R ps t →
      observeWords word partner t = .ok () t' → R (ps ++ [.of word partner]) t')
    {i n : ℕ} (hi : i < b.totalWords) {ps : List WordPair} {t t' : Tally α} (h : R ps t)
    (hrun : countPosition b window locator i t = .ok n t') :
    n = (b.pairsAt window locator i).length ∧ R (ps ++ b.pairsAt window locator i) t' := by
  unfold countPosition at hrun
  dsimp only at hrun
  cases hlocate : locator.locate b i.toUInt32 with
  | none =>
    rw [hlocate] at hrun
    cases hrun
  | some s =>
    rw [hlocate] at hrun
    obtain ⟨⟨⟩, t'', hloop, hpure⟩ := Stage.bind_eq_ok_iff.mp hrun
    cases hpure
    rw [Sentences.pairsAt, hlocate]
    refine ⟨(List.length_map _).symm, forM_ok_induction (P := fun done t =>
      R (ps ++ done.map (.of (b.words.getD i 0))) t) hloop (by simpa using h) ?_⟩
    intro done partner rest t₁ t₂ hitems hdone hpartner
    have hmem : partner ∈ b.partners s window i.toUInt32 := by simp [hitems]
    rw [List.map_append, ← List.append_assoc]
    exact hstep _ _ _ _ _ (Sentences.getD_words_mem hi) (Sentences.mem_words_of_mem_partners hmem)
      hdone hpartner

/-- What holds before a batch is counted and passes from one observation to the next holds of all
pairs of the batch, in their order, if counting answers. It answers how many they are. -/
theorem countSentences_ok_induction
    (hstep : ∀ ps word partner t t', word ∈ b.words → partner ∈ b.words → R ps t →
      observeWords word partner t = .ok () t' → R (ps ++ [.of word partner]) t')
    {n : ℕ} {s s' : Logged (Tally α)} (h : R [] s.state)
    (hrun : countSentences b window locator s = .ok n s') :
    n = (b.windowPairs window.toNat).length ∧ R (b.windowPairs window.toNat) s'.state := by
  obtain ⟨counts, s₁, hdispatch, hpure⟩ := Stage.bind_eq_ok_iff.mp hrun
  cases hpure
  obtain ⟨hloop, -⟩ := dispatch_eq_ok_iff.mp hdispatch
  rw [← Sentences.flatMap_pairsAt b window locator]
  refine mapM_range_ok_induction (P := fun k counts t =>
    counts.foldl (· + ·) 0 = ((List.range k).flatMap (b.pairsAt window locator)).length
      ∧ R ((List.range k).flatMap (b.pairsAt window locator)) t) hloop ⟨rfl, h⟩ ?_
  intro k counts t n t' hk hdone hposition
  obtain ⟨hcounts, hR⟩ := hdone
  obtain ⟨rfl, hR'⟩ := countPosition_ok_induction hstep hk hR hposition
  rw [List.range_succ, List.flatMap_append, List.flatMap_singleton]
  exact ⟨by rw [List.foldl_concat, hcounts, List.length_append], hR'⟩

end Batches

/-! ### What stages keep -/

variable {P : UInt32 → Prop} {R : Tally α → Prop}

/-- Asking for a pair of words in `P` and observing a slot in use keep `R`, and while it holds,
the slot of such a pair is in use. -/
structure KeptByObserving (P : UInt32 → Prop) (R : Tally α → Prop) : Prop where
  slotOf : ∀ t a b, P a → P b → R t →
    (∃ slot created t', onPairs (PairPool.slotOf a b) t = .ok (slot, created) t'
        ∧ R t' ∧ slot.toNat < t'.pairs.used)
      ∨ ∃ e t', onPairs (PairPool.slotOf a b) t = .error e t' ∧ R t'
  observe : ∀ t slot, R t → slot < t.pairs.used → R (outcome (observe slot) t).2

namespace KeptByObserving

variable (hR : KeptByObserving P R)
include hR

theorem observeSlot (slot : UInt32) : Keeps R (observeSlot slot) := by
  intro t h
  by_cases hslot : slot.toNat < t.pairs.used
  · have hrun : Tally.observeSlot slot t = Tally.observe slot.toNat t := by
      simp only [Tally.observeSlot, Pool.check, if_pos hslot]
    rw [outcome, hrun]
    exact hR.observe t slot.toNat h hslot
  · unfold outcome Tally.observeSlot Pool.check
    rw [if_neg hslot]
    exact h

theorem onPairs_slotOf {a b : UInt32} (ha : P a) (hb : P b) :
    Keeps R (onPairs (PairPool.slotOf a b)) := by
  intro t h
  rcases hR.slotOf t a b ha hb h with ⟨slot, created, t', hok, h', -⟩ | ⟨e, t', herror, h'⟩
  · rwa [outcome_of_ok hok]
  · rwa [outcome_of_error herror]

theorem observeWords {a b : UInt32} (ha : P a) (hb : P b) : Keeps R (observeWords a b) := by
  -- the slot is in use because asking for the pair answered it
  refine .bind_of (Q := fun slot t => R t ∧ slot.1.toNat < t.pairs.used)
    (fun t slot t' h hrun => ?_) (fun t e t' h hrun => (hR.onPairs_slotOf ha hb).error h hrun)
    fun slot t h => hR.observe t _ h.1 h.2
  rcases hR.slotOf t a b ha hb h with ⟨slot', created, t'', hok, h', hlt⟩ | ⟨e, t'', herror, -⟩
  · rw [hok] at hrun
    cases hrun
    exact ⟨h', hlt⟩
  · rw [herror] at hrun
    cases hrun

theorem countPosition {b : Sentences} (hb : ∀ word ∈ b.words, P word) (window : UInt32)
    (locator : Locator) {i : ℕ} (hi : i < b.totalWords) :
    Keeps R (countPosition b window locator i) := by
  unfold Tally.countPosition
  dsimp only
  split
  · exact .throw _
  · refine .bind (.forM fun partner hpartner => hR.observeWords ?_ ?_) fun _ => .pure _
    · exact hb _ (Sentences.getD_words_mem hi)
    · exact hb _ (Sentences.mem_words_of_mem_partners hpartner)

theorem countSentences {b : Sentences} (hb : ∀ word ∈ b.words, P word) (window : UInt32)
    (locator : Locator) :
    Keeps (fun s : Logged (Tally α) => R s.state) (countSentences b window locator) :=
  .bind (.dispatch fun _ hi => hR.countPosition hb window locator (List.mem_range.mp hi))
    fun _ => .pure _

theorem countSlots (slots : List UInt32) :
    Keeps (fun s : Logged (Tally α) => R s.state) (countSlots slots) :=
  .bind (.dispatch fun slot _ => hR.observeSlot slot) fun _ => .pure _

theorem pairSlots {as bs : List UInt32} (has : ∀ a ∈ as, P a) (hbs : ∀ b ∈ bs, P b) :
    Keeps (fun s : Logged (Tally α) => R s.state) (pairSlots as bs) := by
  refine .bind (.lift _) fun _ => .dispatch fun (a, b) hab => ?_
  obtain ⟨ha, hb⟩ := List.of_mem_zip hab
  exact (hR.onPairs_slotOf (has a ha) (hbs b hb)).bind fun _ => .pure _

end KeptByObserving

end Tally

end CorpusStats
