import CorpusStats.Proofs.Checks
import CorpusStats.Proofs.Lift
import CorpusStats.Proofs.Tally.Marginal
import CorpusStats.Proofs.Tally.Observing
import CorpusStats.Proofs.Tally.Sweeps
/-!
# CorpusStats.Proofs.Tally.Balance

The **books of a tally balance** (`Tally.Balanced`): the total is the sum of the counts of
all pairs, and the marginal count of a word is the sum of the counts over the ends it is.

* An observation changes a count, two marginal counts and the total in one step, after
  everything that can fail, so the books balance again whatever happens
  (`Balanced.add`). Creating a pair, scoring and writing classes do not touch the books.
* Balance alone says nothing about the slots that the index answers, so observing by words
  carries `Pool.Grounded` along; both together are `Tally.Accounted`.
* The total wraps at `2 ^ 64`, so it is the sum up to that. `Balanced.inStep` gives the
  equation as it stands for sums below the bound.
-/

namespace CorpusStats

variable {α : Type} [Field α] [LinearOrder α] [FloorSemiring α] [RootLog α]

theorem mem_modify_cases {ρ : Type} {l : List ρ} {i : ℕ} {f : ρ → ρ} {a : ρ}
    (h : a ∈ l.modify i f) : a ∈ l ∨ ∃ b, l[i]? = some b ∧ a = f b := by
  obtain ⟨j, hj⟩ := List.mem_iff_getElem?.mp h
  rw [List.getElem?_modify] at hj
  obtain ⟨b, hb, rfl⟩ := Option.map_eq_some_iff.mp hj
  by_cases hij : i = j
  · rw [if_pos hij]
    exact .inr ⟨b, hij ▸ hb, rfl⟩
  · rw [if_neg hij]
    exact .inl (List.mem_of_getElem? hb)

namespace Tally

/-- The total is the sum of the counts of the pairs, and the marginal count of every word of
the arena is the sum of the counts over the ends it is. -/
structure InStep (t : Tally α) : Prop where
  total_eq : (t.total.toNat : α) = massOf t.pairs.liveRows
  marginal_eq : ∀ word : UInt32, word.toNat < t.words.capacity →
    WordPool.marginal t.words word = endMassOf t.pairs.liveRows word

/-- Counts are natural numbers, and the total, up to its size, and the marginal counts
follow from them. -/
structure Balanced (t : Tally α) : Prop where
  natural : ∀ row ∈ t.pairs.liveRows, ∃ n : ℕ, row.count = n
  /-- The words of counted pairs are words of the arena. -/
  ends_lt : ∀ row ∈ t.pairs.liveRows, row.count ≠ 0 →
    row.wordA.toNat < t.words.capacity ∧ row.wordB.toNat < t.words.capacity
  total_eq : ∃ n : ℕ, massOf t.pairs.liveRows = n ∧ t.total.toNat = n % 2 ^ 64
  marginal_eq : ∀ word : UInt32, word.toNat < t.words.capacity →
    WordPool.marginal t.words word = endMassOf t.pairs.liveRows word

variable {words words' : WordPool α} {pairs pairs' : PairPool α} {total : UInt64}

/-- While the total does not wrap, balanced books are in step. -/
theorem Balanced.inStep [IsStrictOrderedRing α] {t : Tally α} (h : t.Balanced)
    (hmass : massOf t.pairs.liveRows < 2 ^ 64) : t.InStep := by
  refine ⟨?_, h.marginal_eq⟩
  obtain ⟨n, hn, htotal⟩ := h.total_eq
  rw [hn] at hmass ⊢
  have hlt : n < 2 ^ 64 := by exact_mod_cast hmass
  rw [htotal, Nat.mod_eq_of_lt hlt]

/-! ### What does not touch the books -/

theorem balanced_of_blank (hwords : words.Blank) (hpairs : pairs.Blank) :
    Balanced ⟨words, pairs, 0⟩ := by
  have hrows := hpairs.liveRows_eq
  refine ⟨?_, ?_, ⟨0, ?_, rfl⟩, fun word hword => ?_⟩
  · simp [hrows]
  · simp [hrows]
  · simp [hrows, massOf]
  · have hmarginal : WordPool.marginal words word = 0 := by
      unfold WordPool.marginal
      split
      · rename_i row hrow
        rw [hwords.row_eq _ row hrow]
        rfl
      · rfl
    simp [hmarginal, hrows, endMassOf]

theorem Balanced.append (h : Balanced ⟨words, pairs, total⟩) {row : PairRow α}
    (hrows : pairs'.liveRows = pairs.liveRows ++ [row]) (hrow : row.count = 0) :
    Balanced ⟨words, pairs', total⟩ := by
  obtain ⟨hnatural, hends, htotal, hmarginal⟩ := h
  have hmass : massOf pairs'.liveRows = massOf pairs.liveRows := by
    rw [hrows, massOf_concat, hrow, add_zero]
  have hendMass word : endMassOf pairs'.liveRows word = endMassOf pairs.liveRows word := by
    rw [hrows, endMassOf_concat, hrow, zero_mul, add_zero]
  refine ⟨fun row' hmem => ?_, fun row' hmem hcount => ?_, ?_, fun word hword => ?_⟩
  · rcases List.mem_append.mp (hrows ▸ hmem) with hold | hnew
    · exact hnatural row' hold
    · exact ⟨0, by rw [List.mem_singleton.mp hnew, hrow, Nat.cast_zero]⟩
  · rcases List.mem_append.mp (hrows ▸ hmem) with hold | hnew
    · exact hends row' hold hcount
    · exact absurd (List.mem_singleton.mp hnew ▸ hrow) hcount
  · simpa only [hmass] using htotal
  · rw [hendMass]
    exact hmarginal word hword

/-- The words may change in all but their marginal counts. -/
theorem Balanced.congr_words (h : Balanced ⟨words, pairs, total⟩)
    (hcapacity : words'.capacity = words.capacity)
    (hmarginal : ∀ word, WordPool.marginal words' word = WordPool.marginal words word) :
    Balanced ⟨words', pairs, total⟩ := by
  refine ⟨h.natural, fun row hmem hcount => ?_, h.total_eq, fun word hword => ?_⟩
  · rw [hcapacity]
    exact h.ends_lt row hmem hcount
  · rw [hmarginal]
    exact h.marginal_eq word (hcapacity ▸ hword)

/-- Pairs may change in all but their counts and words. -/
theorem Balanced.map_pairs (h : Balanced ⟨words, pairs, total⟩) {f : PairRow α → PairRow α}
    (hrows : pairs'.liveRows = pairs.liveRows.map f) (hcount : ∀ row, (f row).count = row.count)
    (hends : ∀ row, (f row).wordA = row.wordA ∧ (f row).wordB = row.wordB) :
    Balanced ⟨words, pairs', total⟩ := by
  have hmass : massOf pairs'.liveRows = massOf pairs.liveRows := by
    rw [hrows, massOf, massOf, List.map_map]
    exact congrArg List.sum (List.map_congr_left fun row _ => hcount row)
  have hendMass word : endMassOf pairs'.liveRows word = endMassOf pairs.liveRows word := by
    rw [hrows, endMassOf, endMassOf, List.map_map]
    refine congrArg List.sum (List.map_congr_left fun row _ => ?_)
    rw [Function.comp_apply, hcount, PairRow.ends_congr (hends row).1 (hends row).2]
  refine ⟨fun row hmem => ?_, fun row hmem => ?_, ?_, fun word hword => ?_⟩
  · obtain ⟨old, hold, rfl⟩ := List.mem_map.mp (hrows ▸ hmem)
    rw [hcount]
    exact h.natural old hold
  · obtain ⟨old, hold, rfl⟩ := List.mem_map.mp (hrows ▸ hmem)
    rw [hcount, (hends old).1, (hends old).2]
    exact h.ends_lt old hold
  · rw [hmass]
    exact h.total_eq
  · rw [hendMass]
    exact h.marginal_eq word hword

/-! ### Observations -/

/-- An observation enters all the books at once. -/
theorem Balanced.add (h : Balanced ⟨words, pairs, total⟩) {slot : ℕ} {row : PairRow α}
    (hslot : slot < pairs.used) (hrow : pairs.row? slot = some row)
    (ha : row.wordA.toNat < words.capacity) (hb : row.wordB.toNat < words.capacity) :
    Balanced ⟨addToEnds 1 (row.wordA.toNat, row.wordB.toNat) words,
      pairs.modify slot fun row => { row with count := row.count + 1 }.markDirty, total + 1⟩ := by
  obtain ⟨hnatural, hends, ⟨n, hn, htotal⟩, hmarginal⟩ := h
  have hlt : slot < pairs.liveRows.length := by rwa [Pool.length_liveRows]
  have hget : pairs.liveRows[slot] = row := by
    rw [← Option.some_inj, ← hrow, ← Pool.liveRows_getElem? hslot, List.getElem?_eq_getElem hlt]
  have hmem : row ∈ pairs.liveRows := hget ▸ List.getElem_mem hlt
  refine ⟨fun row' hmem' => ?_, fun row' hmem' hcount => ?_, ⟨n + 1, ?_, ?_⟩, fun word hword => ?_⟩
  · rw [Pool.liveRows_modify] at hmem'
    rcases mem_modify_cases hmem' with hold | ⟨old, hold, rfl⟩
    · exact hnatural row' hold
    · obtain ⟨m, hm⟩ := hnatural old (List.mem_of_getElem? hold)
      exact ⟨m + 1, by simp [PairRow.markDirty, hm]⟩
  · rw [Pool.liveRows_modify] at hmem'
    rcases mem_modify_cases hmem' with hold | ⟨old, hold, rfl⟩
    · exact hends row' hold hcount
    · rw [List.getElem?_eq_getElem hlt, hget] at hold
      cases hold
      exact ⟨ha, hb⟩
  · have hsum := sum_map_modify pairs.liveRows hlt
      (fun row => { row with count := row.count + 1 }.markDirty) PairRow.count
    rw [hget, ← massOf, ← massOf, hn] at hsum
    rw [Pool.liveRows_modify]
    push_cast
    simp only [PairRow.markDirty] at hsum ⊢
    linear_combination hsum
  · rw [UInt64.toNat_add, htotal]
    exact Nat.mod_add_mod n (2 ^ 64) 1
  · have hsum := sum_map_modify pairs.liveRows hlt
      (fun row => { row with count := row.count + 1 }.markDirty)
      fun row => row.count * (row.ends word : α)
    rw [hget, ← endMassOf, ← endMassOf] at hsum
    change _ = _ + (row.count + 1) * (row.ends word : α) at hsum
    rw [Pool.liveRows_modify, marginal_addToEnds words ha hb, hmarginal word hword]
    linear_combination -hsum

/-- The books balance, and the index of the pairs answers slots in use. -/
structure Accounted (t : Tally α) : Prop where
  grounded : t.pairs.Grounded
  balanced : t.Balanced

theorem accounted_of_blank (hwords : words.Blank) (hpairs : pairs.Blank) :
    Accounted ⟨words, pairs, 0⟩ :=
  ⟨hpairs.grounded, balanced_of_blank hwords hpairs⟩

theorem accounted_reset (t : Tally α) : t.reset.Accounted :=
  accounted_of_blank t.words.blank_reset t.pairs.blank_reset

/-! ### What stages keep -/

/-- A stage of the words that leaves their marginal counts leaves the books. -/
theorem keeps_onWords {β : Type} {act : Stage (WordPool α) β}
    (hact : ∀ words, (Stage.outcome act words).2.capacity = words.capacity
      ∧ ∀ word, WordPool.marginal (Stage.outcome act words).2 word = WordPool.marginal words word) :
    Stage.Keeps Accounted (onWords act) := by
  intro t h
  obtain ⟨words, pairs, total⟩ := t
  obtain ⟨hcapacity, hmarginal⟩ := hact words
  rw [outcome_onWords]
  exact ⟨h.grounded, h.balanced.congr_words hcapacity hmarginal⟩

theorem keeps_intern (key : UInt64) : Stage.Keeps (α := UInt32) (Accounted (α := α))
    (onWords (WordPool.intern key)) := by
  refine keeps_onWords fun words => ?_
  have hstate : (Stage.outcome (WordPool.intern key) words).2
      = (Stage.outcome (Pool.findOrCreate (Key.storable key) fun row : WordRow α =>
          { row with nameHash := Key.storable key }) words).2 := by
    rw [show WordPool.intern key = Prod.fst <$> Pool.findOrCreate (Key.storable key)
      (fun row : WordRow α => { row with nameHash := Key.storable key }) from rfl,
      Stage.outcome_map]
  obtain ⟨hcapacity, hrows⟩ := Pool.rows_findOrCreate words (Key.storable key)
    fun row : WordRow α => { row with nameHash := Key.storable key }
  rw [← hstate] at hcapacity hrows
  refine ⟨hcapacity, fun word => ?_⟩
  rcases hrows with hrows | ⟨slot, hrows⟩
  · rw [WordPool.marginal, WordPool.marginal, Pool.row?, hrows, Pool.row?]
  · rw [← WordPool.marginal_modify_of_eq words slot
      (f := fun row => { row with nameHash := Key.storable key }) (fun _ => rfl) word,
      WordPool.marginal, WordPool.marginal, Pool.row?, hrows]
    rfl

theorem keeps_assign (word cls : UInt32) : Stage.Keeps (Accounted (α := α))
    (onWords (WordPool.assign word cls)) := by
  refine keeps_onWords fun words => ?_
  rcases WordPool.writes_assign word cls words with ⟨slot, -, hrun⟩ | ⟨fault, hrun⟩
  · rw [Stage.outcome_of_ok hrun]
    exact ⟨rfl, WordPool.marginal_modify_of_eq words slot fun _ => rfl⟩
  · rw [Stage.outcome_of_error hrun]
    exact ⟨rfl, fun _ => rfl⟩

/-- Everything that asking for a pair can do to the books: nothing, and it answers a slot in
use. -/
theorem Accounted.slotOf {t : Tally α} (h : t.Accounted) (a b : UInt32) :
    (∃ slot created t', onPairs (PairPool.slotOf a b) t = .ok (slot, created) t'
        ∧ t'.Accounted ∧ slot.toNat < t'.pairs.used)
      ∨ ∃ e t', onPairs (PairPool.slotOf a b) t = .error e t' ∧ t'.Accounted := by
  obtain ⟨words, pairs, total⟩ := t
  obtain ⟨hgrounded, hbalanced⟩ := h
  rcases Pool.findOrCreate_cases hgrounded.sound hgrounded.tidy (WordPair.of a b).key
      (fun row : PairRow α => { row with
        wordA := (WordPair.of a b).first, wordB := (WordPair.of a b).second }) with
    ⟨slot, hraw, -, hslot, hrun⟩ | ⟨pairs', -, -, hrun, hcreated⟩ | ⟨e, pairs', hrun, hrefused⟩
  · refine .inl ⟨slot, false, _, ?_, ⟨hgrounded, hbalanced⟩, hgrounded.lt_used _ slot hraw hslot⟩
    simp only [onPairs, PairPool.slotOf, hrun]
  · refine .inl ⟨pairs.used.toUInt32, true, ⟨words, pairs', total⟩, ?_, ?_, ?_⟩
    · simp only [onPairs, PairPool.slotOf, hrun]
    · exact ⟨hcreated.grounded hgrounded, hbalanced.append hcreated.liveRows_eq rfl⟩
    · rw [show pairs'.used = pairs.used + 1 from hcreated.used_eq]
      exact Nat.lt_succ_of_le (Nat.mod_le _ _)
  · refine .inr ⟨e, ⟨words, pairs', total⟩, ?_, hrefused.grounded hgrounded, ?_⟩
    · simp only [onPairs, PairPool.slotOf, hrun]
    · obtain ⟨hnatural, hends, htotal, hmarginal⟩ := hbalanced
      have hrows := hrefused.liveRows_eq
      refine ⟨?_, ?_, ?_, ?_⟩ <;> simpa only [hrows]

/-- Observing a slot in use is entered as a whole or not at all. -/
theorem Accounted.observe {t : Tally α} (h : t.Accounted) {slot : ℕ} (hslot : slot < t.pairs.used) :
    (Stage.outcome (Tally.observe slot) t).2.Accounted := by
  obtain ⟨words, pairs, total⟩ := t
  unfold Stage.outcome Tally.observe
  dsimp only
  -- the ends are checked before anything is written
  cases hends : endsOf words pairs slot with
  | error e => exact h
  | ok ends =>
    obtain ⟨row, hrow, ha, hb, rfl⟩ := endsOf_eq_ok_iff.mp hends
    exact ⟨h.grounded.modify hslot _, h.balanced.add hslot hrow ha hb⟩

theorem keptByObserving_accounted : KeptByObserving (fun _ => True) (Accounted (α := α)) :=
  ⟨fun _ a b _ _ h => h.slotOf a b, fun _ _ h hslot => h.observe hslot⟩

/-! ### What calls keep -/

theorem keeps_internWords (keys : List UInt64) :
    Stage.Keeps (fun s : Logged (Tally α) => s.state.Accounted) (internWords keys) :=
  .dispatch fun key _ => keeps_intern key

theorem keeps_assignClasses (m : ClassMap) :
    Stage.Keeps (fun s : Logged (Tally α) => s.state.Accounted) (assignClasses m) :=
  .bind (.dispatch fun (word, cls) _ => keeps_assign word cls) fun _ => .pure _

/-! ### Scores -/

theorem accounted_score (mode : ScoreMode) (n : α) {s : Logged (Tally α)}
    (h : s.state.Accounted) : (score mode n s).2.state.Accounted := by
  obtain ⟨pairs', f, hstate, hmapped, hcount, hends⟩ := exists_mapped_score mode n s
  rw [hstate]
  exact ⟨h.grounded.mapped hmapped, h.balanced.map_pairs hmapped.liveRows_eq hcount hends⟩

end Tally

end CorpusStats
