import CorpusStats.Proofs.Checks
import CorpusStats.Proofs.Lift
import CorpusStats.Proofs.Numbering
import CorpusStats.Proofs.Tally.Sweeps
/-!
# CorpusStats.Proofs.Tally.Words

The words of a tally, as far as their **numbers** go.

* Counting, recomputing and loading write the counts of words, also of words that were never
  asked for, and classes are written by `assignClasses` alone. So all other stages keep whatever
  does not depend on counts (`WordPool.IgnoresCounts`).
* No stage other than `internWords` touches the index or hands out a slot, so the numbers of words
  do not depend on rows at all (`Pool.IgnoresRows`).
* Interning keys answers their numbers, or fails because one of them has none
  (`internWords_cases`).
-/

namespace CorpusStats

open Stage

variable {α β : Type}

/-- Rows do not matter for a property of pools. -/
def Pool.IgnoresRows {ρ : Type} (P : Pool ρ → Prop) : Prop :=
  ∀ (p : Pool ρ) (slot : ℕ) (f : ρ → ρ), P p → P (p.modify slot f)

/-- Rows matter for a property of words as far as their classes go. -/
def WordPool.IgnoresCounts (P : WordPool α → Prop) : Prop :=
  ∀ (words : WordPool α) (slot : ℕ) (f : WordRow α → WordRow α),
    (∀ row, (f row).classId = row.classId) → P words → P (words.modify slot f)

theorem Pool.IgnoresRows.ignoresCounts {P : WordPool α → Prop} (h : IgnoresRows P) :
    WordPool.IgnoresCounts P := fun words slot f _ => h words slot f

theorem Pool.ignoresRows_numbers {ρ : Type} (n : ℕ) (keys : List UInt64) :
    IgnoresRows fun p : Pool ρ => p.capacity = n ∧ p.Numbers keys :=
  fun _ _ _ h => ⟨h.1, h.2.congr rfl rfl rfl⟩

namespace Tally

variable {P : WordPool α → Prop}

/-! ### Stages that write rows only -/

theorem keeps_words_onPairs (act : Stage (PairPool α) β) :
    Keeps (fun t : Tally α => P t.words) (onPairs act) := by
  intro t ht
  rw [outcome_onPairs]
  exact ht

theorem keeps_words_onWords {act : Stage (WordPool α) β} (h : Keeps P act) :
    Keeps (fun t : Tally α => P t.words) (onWords act) := by
  intro t ht
  rw [outcome_onWords]
  exact h _ ht

variable [Weight α]

omit [Weight α] in
theorem keeps_words_sweep_pairs {items : List ℕ} (f : WordPool α → ℕ → PairPool α → PairPool α)
    {s : Logged (Tally α)} (h : P s.state.words) :
    P (sweep items (fun (⟨words, pairs, total⟩ : Tally α) slot =>
      ⟨words, f words slot pairs, total⟩) s).state.words := by
  refine sweep_induction (P := fun t : Tally α => P t.words) (fun t _ _ ht => ?_) h
  obtain ⟨words, pairs, total⟩ := t
  exact ht

theorem keeps_words_score (mode : ScoreMode) (n : α) {s : Logged (Tally α)}
    (h : P s.state.words) : P (score mode n s).2.state.words := by
  cases mode with
  | all => exact keeps_words_sweep_pairs (fun words slot => (·.modify slot (.rescore words n))) h
  | dirty => exact keeps_words_sweep_pairs (fun words slot => (·.modify slot (.refresh words n))) h

theorem keeps_words_foldPairs {s : Logged (Tally α)} (h : P s.state.words) :
    P (foldPairs s).2.state.words :=
  keeps_words_sweep_pairs (fun words slot => (·.modify slot (.folded words))) h

theorem keeps_words_reindexPairs :
    Keeps (fun s : Logged (Tally α) => P s.state.words) reindexPairs := by
  refine .bind (.modifyGet fun _ h => h) fun _ => .bind .get fun _ => ?_
  exact .bind (.dispatch fun slot _ => keeps_words_onPairs _) fun _ => .pure _

omit [Weight α] in
theorem keeps_words_assign (hP : Pool.IgnoresRows P) (word cls : UInt32) :
    Keeps (fun t : Tally α => P t.words) (onWords (WordPool.assign word cls)) :=
  keeps_words_onWords ((WordPool.writes_assign word cls).keeps fun _ _ _ h => hP _ _ _ h)

variable (hP : WordPool.IgnoresCounts P)
include hP

theorem ignores_addToEnds (count : α) (ends : ℕ × ℕ) {words : WordPool α} (h : P words) :
    P (addToEnds count ends words) := by
  refine hP _ _ _ (fun row => ?_) (hP _ _ _ (fun row => ?_) h) <;> rfl

theorem keeps_words_observe (slot : ℕ) :
    Keeps (fun t : Tally α => P t.words) (observe slot) := by
  intro t ht
  obtain ⟨words, pairs, total⟩ := t
  unfold outcome observe
  dsimp only
  cases endsOf words pairs slot with
  | ok ends => exact ignores_addToEnds hP 1 ends ht
  | error e => exact ht

theorem keeps_words_observeSlot (slot : UInt32) :
    Keeps (fun t : Tally α => P t.words) (observeSlot slot) := by
  intro t ht
  unfold outcome observeSlot
  cases t.pairs.check slot with
  | ok slot => exact keeps_words_observe hP slot t ht
  | error e => exact ht

theorem keeps_words_countPosition (b : Sentences) (window : UInt32) (locator : Locator) (i : ℕ) :
    Keeps (fun t : Tally α => P t.words) (countPosition b window locator i) := by
  unfold countPosition
  dsimp only
  split
  · exact .throw _
  · refine .bind (.forM fun _ _ => ?_) fun _ => .pure _
    exact (keeps_words_onPairs _).bind fun _ => keeps_words_observe hP _

theorem keeps_words_countSentences (b : Sentences) (window : UInt32) (locator : Locator) :
    Keeps (fun s : Logged (Tally α) => P s.state.words) (countSentences b window locator) :=
  .bind (.dispatch fun i _ => keeps_words_countPosition hP b window locator i) fun _ => .pure _

omit [Weight α] in
theorem keeps_words_loadCount (id : UInt32) (count : α) :
    Keeps (fun t : Tally α => P t.words) (onWords (WordPool.loadCount id count)) :=
  keeps_words_onWords ((WordPool.writes_loadCount id count).keeps fun _ _ _ h =>
    hP _ _ _ (fun _ => rfl) h)

theorem keeps_words_spreadCount (slot : ℕ) :
    Keeps (fun t : Tally α => P t.words) (spreadCount slot) := by
  intro t ht
  rcases spreadCount_cases slot t with
    ⟨-, hrun⟩ | ⟨row, -, -, ⟨ends, -, hrun⟩ | ⟨e, -, hrun⟩⟩
  · rwa [outcome_of_ok hrun]
  · rw [outcome_of_ok hrun]
    exact ignores_addToEnds hP row.count ends ht
  · rwa [outcome_of_error hrun]

theorem keeps_words_rebuildTotals :
    Keeps (fun s : Logged (Tally α) => P s.state.words) rebuildTotals := by
  refine .bind (.bind .get fun _ => .bind (.modifyGet fun s h => ?_) fun _ => ?_) fun _ => ?_
  · exact sweep_induction (P := fun t : Tally α => P t.words)
      (fun t slot _ ht => hP t.words slot (fun row => { row with count := 0 }) (fun _ => rfl) ht) h
  · exact .bind .get fun _ => .bind (.dispatch fun slot _ => keeps_words_spreadCount hP slot)
      fun _ => .pure _
  · exact .bind (.modifyGet fun _ h => h) fun _ => .pure _

end Tally

/-! ### Interning -/

namespace Tally

/-- A loop of stages of the words is a loop over the words. -/
theorem mapM_onWords {ι : Type} (items : List ι) (act : ι → Stage (WordPool α) β) (t : Tally α) :
    (items.mapM fun i => onWords (act i)) t = onWords (items.mapM act) t := by
  induction items generalizing t with
  | nil => rfl
  | cons i items ih =>
    obtain ⟨words, pairs, total⟩ := t
    simp only [List.mapM_cons, Bind.bind, EStateM.bind, onWords]
    cases act i words with
    | error e words' => rfl
    | ok b words' =>
      dsimp only
      rw [ih]
      simp only [onWords]
      cases items.mapM act words' <;> rfl

open Key

/-- Keys are made storable before they are asked for, and once more by the index. -/
theorem firstCome_map_storable (room : ℕ) (asked keys : List UInt64) :
    firstCome room (asked ++ keys.map storable) = firstCome room (asked ++ keys) := by
  simp [firstCome, Function.comp_def]

/-- Interning keys answers their numbers, or fails because one of them has none; either way they
count as asked for. -/
theorem internWords_cases {s : Logged (Tally α)} {asked : List UInt64}
    (h : s.state.words.Numbers asked) (keys : List UInt64) :
    ∃ s', s'.state.words.capacity = s.state.words.capacity
      ∧ s'.state.words.Numbers (asked ++ keys)
      ∧ ((∃ slots, internWords keys s = .ok slots s'
          ∧ List.Forall₂ (fun key (slot : UInt32) =>
              (firstCome s.state.words.capacity (asked ++ keys))[slot.toNat]? = some (storable key))
            keys slots)
        ∨ ∃ e, internWords keys s = .error e s' ∧ e.isOverflow = true
          ∧ ∃ key ∈ keys, storable key ∉ firstCome s.state.words.capacity (asked ++ keys)) := by
  obtain ⟨⟨words, pairs, total⟩, log⟩ := s
  dsimp only at h ⊢
  rw [internWords, dispatch_eq, mapM_onWords]
  simp only [onWords]
  cases hrun : keys.mapM WordPool.intern words with
  | ok slots words' =>
    obtain ⟨hcapacity, hnumbers, hall⟩ := h.mapM_eq_ok (k := storable)
      (f := fun key row => { row with nameHash := storable key }) hrun
    simp only [storable_storable, firstCome_map_storable] at hall
    refine ⟨⟨⟨words', pairs, total⟩, log.start keys.length⟩, hcapacity, ?_, .inl ⟨slots, rfl, hall⟩⟩
    exact hnumbers.congr_keys (firstCome_map_storable _ _ _).symm
  | error e words' =>
    obtain ⟨hcapacity, hnumbers, he, hkey⟩ := h.mapM_eq_error (k := storable)
      (f := fun key row => { row with nameHash := storable key }) hrun
    simp only [storable_storable, firstCome_map_storable] at hkey
    refine ⟨⟨⟨words', pairs, total⟩, (log.start keys.length).fail e⟩, hcapacity, ?_,
      .inr ⟨e, rfl, he, hkey⟩⟩
    exact hnumbers.congr_keys (firstCome_map_storable _ _ _).symm

end Tally

end CorpusStats
