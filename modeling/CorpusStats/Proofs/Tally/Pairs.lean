import CorpusStats.Proofs.Checks
import CorpusStats.Proofs.Tally.Observing
import CorpusStats.Proofs.Tally.Sweeps
/-!
# CorpusStats.Proofs.Tally.Pairs

What the stages of a tally keep of its pairs.

* Stages of the words leave the pairs (`keeps_pairs_onWords`), also those that read them.
* Stages that make and count pairs ask for pairs and write rows in use, which keep their words
  and are dirty afterwards. What these two keep (`PairPool.KeptByWriting`), every such stage keeps.
* Scoring changes all rows in all but their words. What it keeps too (`PairPool.Persists`), every
  stage keeps that does not fold.
-/

namespace CorpusStats

open Stage

variable {α β : Type}

/-- Rows may change in all but their words. -/
def PairRow.KeepsWords (f : PairRow α → PairRow α) : Prop :=
  ∀ row, (f row).wordA = row.wordA ∧ (f row).wordB = row.wordB

theorem PairRow.KeepsWords.words_eq {f : PairRow α → PairRow α} (hf : KeepsWords f)
    (row : PairRow α) : (f row).words = row.words := by
  rw [words, (hf row).1, (hf row).2, words]

/-- Whatever a row was, it is dirty afterwards. -/
def PairRow.MarksDirty (f : PairRow α → PairRow α) : Prop := ∀ row, (f row).isDirty = true

variable [Weight α]

/-- Asking for a pair of words in `P` and writing a row in use keep `Q`, and while it holds, the
slot of such a pair is in use. -/
structure PairPool.KeptByWriting (P : UInt32 → Prop) (Q : PairPool α → Prop) : Prop where
  slotOf : ∀ pairs a b, P a → P b → Q pairs →
    (∃ slot created pairs', PairPool.slotOf a b pairs = .ok (slot, created) pairs'
        ∧ Q pairs' ∧ slot.toNat < pairs'.used)
      ∨ ∃ e pairs', PairPool.slotOf a b pairs = .error e pairs' ∧ Q pairs'
  write : ∀ pairs slot f, slot < pairs.used → PairRow.KeepsWords f → PairRow.MarksDirty f →
    Q pairs → Q (pairs.modify slot f)

/-- So does changing all rows in all but their words. -/
structure PairPool.Persists (P : UInt32 → Prop) (Q : PairPool α → Prop) : Prop
    extends KeptByWriting P Q where
  mapped : ∀ pairs pairs' f, Pool.Mapped pairs pairs' f → PairRow.KeepsWords f → Q pairs → Q pairs'

namespace Tally

/-! ### Stages of the words -/

section Words

variable {Q : PairPool α → Prop}

omit [Weight α] in
theorem keeps_pairs_onWords (act : Stage (WordPool α) β) :
    Keeps (fun t : Tally α => Q t.pairs) (onWords act) := by
  intro t ht
  rw [outcome_onWords]
  exact ht

omit [Weight α] in
theorem keeps_pairs_onPairs {act : Stage (PairPool α) β} (h : Keeps Q act) :
    Keeps (fun t : Tally α => Q t.pairs) (onPairs act) := by
  intro t ht
  rw [outcome_onPairs]
  exact h _ ht

theorem keeps_pairs_spreadCount (slot : ℕ) :
    Keeps (fun t : Tally α => Q t.pairs) (spreadCount slot) := by
  intro t ht
  rcases spreadCount_cases slot t with
    ⟨-, hrun⟩ | ⟨row, -, -, ⟨ends, -, hrun⟩ | ⟨e, -, hrun⟩⟩
  · rwa [outcome_of_ok hrun]
  · rw [outcome_of_ok hrun]
    exact ht
  · rwa [outcome_of_error hrun]

theorem keeps_pairs_rebuildTotals :
    Keeps (fun s : Logged (Tally α) => Q s.state.pairs) rebuildTotals := by
  refine .bind (.bind .get fun _ => .bind (.modifyGet fun s h => ?_) fun _ => ?_) fun _ => ?_
  · refine sweep_induction (P := fun t : Tally α => Q t.pairs) (fun t _ _ ht => ?_) h
    exact ht
  · exact .bind .get fun _ => .bind (.dispatch fun slot _ => keeps_pairs_spreadCount slot)
      fun _ => .pure _
  · exact .bind (.modifyGet fun _ h => h) fun _ => .pure _

end Words

end Tally

/-! ### Stages of the pairs -/

namespace PairPool

variable {P : UInt32 → Prop} {Q : PairPool α → Prop}

namespace KeptByWriting

variable (hQ : KeptByWriting P Q)
include hQ

/-- Observing a slot in use changes its count. -/
theorem observe {t : Tally α} (h : Q t.pairs) {slot : ℕ} (hslot : slot < t.pairs.used) :
    Q (outcome (Tally.observe slot) t).2.pairs := by
  obtain ⟨words, pairs, total⟩ := t
  unfold outcome Tally.observe
  dsimp only
  cases Tally.endsOf words pairs slot with
  | ok ends =>
    exact hQ.write pairs slot _ hslot (fun _ => ⟨rfl, rfl⟩) (fun _ => PairRow.isDirty_markDirty _) h
  | error e => exact h

theorem keptByObserving : Tally.KeptByObserving P fun t : Tally α => Q t.pairs := by
  refine ⟨fun t a b ha hb h => ?_, fun _ _ h hslot => hQ.observe h hslot⟩
  obtain ⟨words, pairs, total⟩ := t
  rcases hQ.slotOf pairs a b ha hb h with
    ⟨slot, created, pairs', hrun, h', hslot⟩ | ⟨e, pairs', hrun, h'⟩
  · exact .inl ⟨slot, created, ⟨words, pairs', total⟩, by simp only [Tally.onPairs, hrun], h', hslot⟩
  · exact .inr ⟨e, ⟨words, pairs', total⟩, by simp only [Tally.onPairs, hrun], h'⟩

omit [Weight α] in
theorem loadCount (slot : UInt32) (count : α) : Keeps Q (PairPool.loadCount slot count) :=
  (writes_loadCount slot count).keeps fun pairs n hslot h =>
    hQ.write pairs n _ hslot (fun _ => ⟨rfl, rfl⟩) (fun _ => PairRow.isDirty_markDirty _) h

end KeptByWriting

theorem Persists.score (hQ : Persists P Q) (mode : ScoreMode) (n : α) {s : Logged (Tally α)}
    (h : Q s.state.pairs) : Q (Tally.score mode n s).2.state.pairs := by
  obtain ⟨pairs', f, hstate, hmapped, -, hends⟩ := Tally.exists_mapped_score mode n s
  rw [hstate]
  exact hQ.mapped _ pairs' f hmapped hends h

end PairPool

end CorpusStats
