import CorpusStats.Proofs.Tally.Coherent
import CorpusStats.Proofs.Tally.Filled
import CorpusStats.Proofs.Tally.Refilled
import CorpusStats.Proofs.Tally.Words
/-!
# CorpusStats.Proofs.Tally.Arena

Which words the rows of a tally name, and what that means for recomputing its books.

* Classes are words of the arena (`WordPool.ClassesBelow`), since assigning a class checks both
  words. So folding leaves a word or leads into the arena.
* Pairs name words of a set `P` only, as long as they are asked for with such words and `P` has the
  classes of its words (`PairPool.Among`). Nothing but asking and folding brings words in.
* Recomputing the books is refused exactly if a pair with a count has an end beyond the arena
  (`Tally.rebuildTotals_cases`).

Nothing is asked of the weights.
-/

namespace CorpusStats

open Stage

variable {α : Type}

/-! ### Classes -/

namespace WordPool

/-- An arena of `n` words, whose classes are words of the arena. -/
structure ClassesBelow (n : ℕ) (words : WordPool α) : Prop where
  capacity_eq : words.capacity = n
  class_lt : ∀ slot row, words.row? slot = some row →
    row.classId = noClass ∨ row.classId.toNat < n

variable {n : ℕ} {words words' : WordPool α}

/-- Folding leaves a word or leads into the arena. -/
theorem ClassesBelow.classOf_mem (h : words.ClassesBelow n) {P : UInt32 → Prop}
    (hP : ∀ word, word.toNat < n → P word) {word : UInt32} (hword : P word) :
    P (classOf words word) := by
  unfold classOf
  cases hrow : words.row? word.toNat with
  | none => exact hword
  | some row =>
    dsimp only
    split
    · exact hword
    · rename_i hclass
      exact hP _ ((h.class_lt _ row hrow).resolve_left hclass)

theorem ClassesBelow.congr (h : words.ClassesBelow n) (hcapacity : words'.capacity = words.capacity)
    (hrows : words'.rows = words.rows) : words'.ClassesBelow n := by
  refine ⟨hcapacity.trans h.capacity_eq, fun slot row hrow => h.class_lt slot row ?_⟩
  rwa [Pool.row?, hrows] at hrow

/-- A row may take a class that is a word of the arena. -/
theorem ClassesBelow.modify (h : words.ClassesBelow n) (slot : ℕ) {f : WordRow α → WordRow α}
    (hf : ∀ row, (f row).classId = row.classId ∨ (f row).classId.toNat < n) :
    ClassesBelow n (words.modify slot f) := by
  refine ⟨h.capacity_eq, fun slot' row hrow => ?_⟩
  rw [Pool.row?_modify] at hrow
  split at hrow
  · obtain ⟨old, hold, rfl⟩ := Option.map_eq_some_iff.mp hrow
    rcases hf old with hsame | hlt
    · rw [hsame]
      exact h.class_lt slot' old hold
    · exact .inr hlt
  · exact h.class_lt slot' row hrow

theorem ignoresCounts_classesBelow : IgnoresCounts (ClassesBelow (α := α) n) :=
  fun _ slot _ hf h => h.modify slot fun row => .inl (hf row)

/-- A class is accepted if it is a word of the arena. -/
theorem keeps_classesBelow_assign (word cls : UInt32) :
    Keeps (ClassesBelow (α := α) n) (assign word cls) :=
  (writes_assign word cls).keeps fun _ slot hcls h =>
    h.modify slot fun _ => .inr (h.capacity_eq ▸ hcls)

theorem keeps_classesBelow_intern (key : UInt64) :
    Keeps (ClassesBelow (α := α) n) (intern key) := by
  refine .bind (fun words h => ?_) fun _ => .pure _
  obtain ⟨hcapacity, hrows | ⟨slot, hrows⟩⟩ := Pool.rows_findOrCreate words (Key.storable key)
    fun row => { row with nameHash := Key.storable key }
  · exact h.congr hcapacity hrows
  · have hnamed : ClassesBelow n
        (words.modify slot fun row => { row with nameHash := Key.storable key }) :=
      h.modify slot fun _ => .inl rfl
    exact hnamed.congr hcapacity hrows

theorem classesBelow_of_blank [Weight α] (h : words.Blank) : words.ClassesBelow words.capacity :=
  ⟨rfl, fun slot row hrow => .inl (by rw [h.row_eq slot row hrow]; rfl)⟩

end WordPool

/-! ### Pairs -/

variable [Weight α]

namespace PairPool

open Pool

/-- The words of the pairs that have a count. -/
def countedEnds (pairs : PairPool α) : List UInt32 :=
  (pairs.liveRows.filter fun row => !row.isSpent).flatMap fun row => [row.wordA, row.wordB]

theorem mem_countedEnds {pairs : PairPool α} {word : UInt32} :
    word ∈ pairs.countedEnds ↔ ∃ row ∈ pairs.liveRows, row.isSpent = false
      ∧ (word = row.wordA ∨ word = row.wordB) := by
  simp [countedEnds, and_assoc]

/-- An intact pool of pairs that name words of `P` only. -/
structure Among (P : UInt32 → Prop) (pairs : PairPool α) : Prop
    extends Intact pairs, Ordered P pairs

variable {P : UInt32 → Prop} {pairs pairs' : PairPool α}

/-- A new pair names the two words that it was asked for. -/
theorem Among.slotOf_cases (h : Among P pairs) {a b : UInt32} (ha : P a) (hb : P b) :
    (∃ slot created pairs', slotOf a b pairs = .ok (slot, created) pairs' ∧ Among P pairs'
        ∧ slot.toNat < pairs'.used)
      ∨ ∃ e pairs', slotOf a b pairs = .error e pairs' ∧ Among P pairs' := by
  rcases h.toIntact.findOrCreate_cases (WordPair.of a b).key
      (fun row : PairRow α => { row with
        wordA := (WordPair.of a b).first, wordB := (WordPair.of a b).second }) with
    ⟨slot, created, pairs', hrun, hintact, hslot, hrows⟩ | ⟨e, pairs', hrun, hintact, hrows⟩
  · refine .inl ⟨slot, created, pairs', hrun, ⟨hintact, fun slot row hrow => ?_⟩, hslot⟩
    rcases hrows with hrows | hrows <;> rw [hrows] at hrow
    · exact h.ordered slot row hrow
    · rcases getElem?_concat_cases hrow with hrow | ⟨-, rfl⟩
      · exact h.ordered slot row hrow
      · exact ⟨(WordPair.of a b).first_le_second, WordPair.of_mem ha hb⟩
  · exact .inr ⟨e, pairs', hrun, hintact, fun slot row hrow => h.ordered slot row (hrows ▸ hrow)⟩

theorem Among.mapped (h : Among P pairs) {f : PairRow α → PairRow α}
    (hmapped : Mapped pairs pairs' f) (hf : ∀ row, row.Ordered P → (f row).Ordered P) :
    Among P pairs' :=
  ⟨h.toIntact.mapped hmapped, (h.toOrdered.mapped hmapped hf).ordered⟩

theorem persists_among : Persists P (Among (α := α) P) where
  slotOf _ _ _ ha hb h := h.slotOf_cases ha hb
  write _ _ f hslot hf _ h :=
    ⟨h.toIntact.modify hslot f, (h.toOrdered.modify hslot hf).ordered⟩
  mapped _ _ _ hmapped hf h := h.mapped hmapped fun _ hrow => hrow.keepsWords hf

theorem Among.reset (h : Among P pairs) : Among P pairs.reset := by
  refine ⟨h.toIntact.reset, fun slot row hrow => ?_⟩
  rw [pairs.blank_reset.liveRows_eq] at hrow
  cases hrow

end PairPool

namespace Tally

variable {P : UInt32 → Prop}

/-- Rebuilding the index moves counts from pair to pair, and no words. -/
theorem keeps_among_reindexPairs :
    Keeps (fun s : Logged (Tally α) => PairPool.Among P s.state.pairs) reindexPairs := fun _ h =>
  ⟨(refilled_reindexPairs h.toIntact).intact h.toIntact,
    (coherent_reindexPairs h.toOrdered).ordered⟩

/-! ### Recomputing the books -/

/-- Everything that recomputing the books can do: it answers, or it is refused because an end of a
pair with a count is beyond the arena. -/
theorem rebuildTotals_cases (s : Logged (Tally α)) :
    (∀ word ∈ s.state.pairs.countedEnds, word.toNat < s.state.words.capacity)
        ∧ (∃ total s', rebuildTotals s = .ok total s')
      ∨ ∃ word ∈ s.state.pairs.countedEnds, s.state.words.capacity ≤ word.toNat
        ∧ ∃ s', rebuildTotals s = .error
          (.malformed (.idBeyond s.state.words.name word.toNat s.state.words.capacity)) s' := by
  cases hrun : rebuildTotals s with
  | ok total s' =>
    obtain ⟨t, hfilled, -⟩ := exists_filled_of_rebuildTotals_ok hrun
    refine .inl ⟨fun word hword => ?_, total, s', rfl⟩
    obtain ⟨row, hmem, hspent, hend⟩ := PairPool.mem_countedEnds.mp hword
    rw [← List.take_of_length_le (Pool.length_liveRows s.state.pairs).le] at hmem
    obtain ⟨ha, hb⟩ := hfilled.ends_lt row hmem hspent
    rcases hend with rfl | rfl <;> assumption
  | error e s' =>
    obtain ⟨slot, t, hstep, hslot, hfilled, -⟩ := exists_filled_of_rebuildTotals hrun
    obtain ⟨-, row, hrow, hspent, word, hword, rfl⟩ := hfilled.refused hstep
    rw [← Pool.liveRows_getElem? hslot] at hrow
    have hend : word = row.wordA ∨ word = row.wordB := by
      simpa using List.mem_of_find?_eq_some hword
    have hbeyond := List.find?_some hword
    refine .inr ⟨word, PairPool.mem_countedEnds.mpr ?_, of_decide_eq_true hbeyond, s', rfl⟩
    exact ⟨row, List.mem_of_getElem? hrow, hspent, hend⟩

end Tally

end CorpusStats
