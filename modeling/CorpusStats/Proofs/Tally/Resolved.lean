import CorpusStats.Proofs.Tally.Collected
import CorpusStats.Proofs.Tally.Pairs
/-!
# CorpusStats.Proofs.Tally.Resolved

Which pairs the index finds.

* A new pair is found through the key of its words, and no stage but folding moves words or
  takes keys away (`PairPool.Resolves`, and what keeps it). So two pairs with the same words
  do not come about.
* Rebuilding the index enters the pairs that have a count. It never lacks room, since a cleared
  index has a vacant slot for every slot of the pool (`PairPool.Rebuilt`), and every pair with a
  count is found afterwards or was merged into one that is. Pairs without count are not entered
  but keep their slot, and a host that counts such a slot later has a pair that the index does
  not find. These are the slots that `Resolves` leaves out.

Weights need not be exact: of their arithmetic only `0 ≤ 0` matters.
-/

namespace CorpusStats

open Stage

variable {α : Type} [Weight α]

namespace PairPool

variable {pairs pairs' : PairPool α} {lost : Finset ℕ}

/-- The index finds every pair in use through the key of its words, but for those in lost slots. -/
structure Resolves (lost : Finset ℕ) (pairs : PairPool α) : Prop where
  grounded : pairs.Grounded
  capacity_le : pairs.capacity ≤ maxPoolCapacity.toNat
  capacity_le_index : pairs.capacity ≤ pairs.index.capacity
  found : ∀ slot row, slot ∉ lost → pairs.liveRows[slot]? = some row →
    pairs.index.raw? row.words.key = some slot.toUInt32

/-! ### Rows -/

/-- Rows may change in all but their words. -/
theorem Resolves.modify (h : Resolves lost pairs) {slot : ℕ} (hslot : slot < pairs.used)
    {f : PairRow α → PairRow α} (hf : ∀ row, (f row).words = row.words) :
    Resolves lost (pairs.modify slot f) := by
  refine ⟨h.grounded.modify hslot f, h.capacity_le, h.capacity_le_index,
    fun slot' row hlost hrow => ?_⟩
  rw [Pool.liveRows_modify, List.getElem?_modify] at hrow
  obtain ⟨old, hold, rfl⟩ := Option.map_eq_some_iff.mp hrow
  have hwords : (if slot = slot' then f old else old).words = old.words := by
    split
    · exact hf old
    · rfl
  rw [hwords]
  exact h.found slot' old hlost hold

theorem Resolves.mapped (h : Resolves lost pairs) {f : PairRow α → PairRow α}
    (hmapped : Pool.Mapped pairs pairs' f) (hf : ∀ row, (f row).words = row.words) :
    Resolves lost pairs' := by
  refine ⟨h.grounded.mapped hmapped, ?_, ?_, fun slot row hlost hrow => ?_⟩
  · exact hmapped.capacity_eq.trans_le h.capacity_le
  · rw [hmapped.capacity_eq, hmapped.index_eq]
    exact h.capacity_le_index
  · rw [hmapped.liveRows_eq, List.getElem?_map] at hrow
    obtain ⟨old, hold, rfl⟩ := Option.map_eq_some_iff.mp hrow
    rw [hf, hmapped.index_eq]
    exact h.found slot old hlost hold

theorem Resolves.reset (h : Resolves lost pairs) : Resolves ∅ pairs.reset := by
  refine ⟨pairs.blank_reset.grounded, h.capacity_le, ?_, fun slot row _ hrow => ?_⟩
  · exact h.capacity_le_index.trans_eq pairs.index.capacity_clear.symm
  · rw [pairs.blank_reset.liveRows_eq] at hrow
    cases hrow

theorem resolves_of_ofCapacity {name : String} {capacity indexCapacity : ℕ}
    (hle : capacity ≤ maxPoolCapacity.toNat)
    (h : Pool.ofCapacity name capacity indexCapacity = .ok pairs) : Resolves ∅ pairs := by
  obtain ⟨hblank, hcapacity⟩ := Pool.blank_of_ofCapacity h
  obtain ⟨-, hindex, index, hnew, rfl⟩ := Pool.ofCapacity_eq_ok_iff.mp h
  obtain ⟨hpos, -, rfl⟩ := Index.ofCapacity_eq_ok_iff.mp hnew
  refine ⟨hblank.grounded, hcapacity.trans_le hle, ?_, fun slot row _ hrow => ?_⟩
  · rw [hcapacity]
    exact hindex.trans_eq (Index.capacity_vacantOf _ _ hpos).symm
  · rw [hblank.liveRows_eq] at hrow
    cases hrow

/-! ### Asking for pairs -/

/-- Writing a key that has no value takes no pair its key. -/
theorem Resolves.raw?_of_written (h : Resolves lost pairs) {key : UInt64} {index : Index}
    {value : UInt32} (hnone : pairs.index.raw? key = none)
    (hw : Index.Written pairs.index index key (some value)) {slot : ℕ} {row : PairRow α}
    (hlost : slot ∉ lost) (hrow : pairs.liveRows[slot]? = some row) :
    index.raw? row.words.key = some slot.toUInt32 := by
  have hfound := h.found slot row hlost hrow
  rw [hw.raw?_eq, if_neg, hfound]
  intro hkey
  rw [hkey, hnone] at hfound
  cases hfound

/-- A new pair is found under its slot. -/
theorem Resolves.created (h : Resolves lost pairs) {p : WordPair} {fill : PairRow α → PairRow α}
    (hnone : pairs.index.raw? p.key = none) (hcreated : Pool.Created pairs pairs' p.key fill)
    (hfill : (fill default).words = p) : Resolves lost pairs' := by
  have hw := hcreated.written
  rw [WordPair.storable_key] at hw
  refine ⟨hcreated.grounded h.grounded, ?_, ?_, fun slot row hlost hrow => ?_⟩
  · exact hcreated.capacity_eq.trans_le h.capacity_le
  · rw [hcreated.capacity_eq, hw.capacity_eq]
    exact h.capacity_le_index
  · rw [hcreated.liveRows_eq] at hrow
    rcases getElem?_concat_cases hrow with hrow | ⟨rfl, rfl⟩
    · exact h.raw?_of_written hnone hw hlost hrow
    · rw [hfill, hw.raw?_eq, if_pos rfl, Pool.length_liveRows]

theorem Resolves.refused (h : Resolves lost pairs) {p : WordPair}
    (hrefused : Pool.Refused pairs pairs' p.key) : Resolves lost pairs' := by
  have hcapacity : pairs'.capacity = pairs.capacity := by
    rw [Pool.capacity, hrefused.allocator_eq, Pool.capacity]
  refine ⟨hrefused.grounded h.grounded, hcapacity.trans_le h.capacity_le, ?_,
    fun slot row hlost hrow => ?_⟩
  · rw [hcapacity]
    rcases hrefused.index_cases with heq | ⟨-, -, hw, -⟩
    · rw [heq]
      exact h.capacity_le_index
    · rw [hw.capacity_eq]
      exact h.capacity_le_index
  · rw [hrefused.liveRows_eq] at hrow
    rcases hrefused.index_cases with heq | ⟨-, hnone, hw, -⟩
    · rw [heq]
      exact h.found slot row hlost hrow
    · rw [WordPair.storable_key] at hnone hw
      exact h.raw?_of_written hnone hw hlost hrow

/-- Everything that asking for a pair can do: it answers a slot in use or refuses, and loses none. -/
theorem Resolves.slotOf (h : Resolves lost pairs) (a b : UInt32) :
    (∃ slot created pairs', slotOf a b pairs = .ok (slot, created) pairs'
        ∧ Resolves lost pairs' ∧ slot.toNat < pairs'.used)
      ∨ ∃ e pairs', slotOf a b pairs = .error e pairs' ∧ Resolves lost pairs' := by
  rcases Pool.findOrCreate_cases h.grounded.sound h.grounded.tidy (WordPair.of a b).key
      (fun row : PairRow α => { row with
        wordA := (WordPair.of a b).first, wordB := (WordPair.of a b).second }) with
    ⟨slot, hraw, -, hslot, hrun⟩ | ⟨pairs', hnone, -, hrun, hcreated⟩ | ⟨e, pairs', hrun, hrefused⟩
  · exact .inl ⟨slot, false, pairs, hrun, h, h.grounded.lt_used _ slot hraw hslot⟩
  · rw [WordPair.storable_key] at hnone
    refine .inl ⟨_, true, pairs', hrun, h.created hnone hcreated ?_, ?_⟩
    · exact WordPair.of_first_second _
    · rw [hcreated.used_eq]
      exact Nat.lt_succ_of_le (Nat.mod_le _ _)
  · exact .inr ⟨e, pairs', hrun, h.refused hrefused⟩

theorem persists_resolves : Persists (fun _ => True) (Resolves (α := α) lost) where
  slotOf _ a b _ _ h := h.slotOf a b
  write _ _ _ hslot hf _ h := h.modify hslot hf.words_eq
  mapped _ _ _ hmapped hf h := h.mapped hmapped hf.words_eq

/-! ### Rebuilding the index -/

open PairRow

/-- The slots in use without count. -/
def spentSlots (pairs : PairPool α) : Finset ℕ :=
  (Finset.range pairs.used).filter fun slot => (pairs.row? slot).any PairRow.isSpent

/-- The index of the first `k` pairs is rebuilt: it finds the pairs with a count through their
keys, and nothing but pairs with these keys. -/
structure Rebuilt (used k : ℕ) (pairs : PairPool α) : Prop where
  sound : pairs.index.Sound
  tidy : pairs.Tidy
  used_eq : pairs.used = used
  capacity_le : pairs.capacity ≤ maxPoolCapacity.toNat
  capacity_le_index : pairs.capacity ≤ pairs.index.capacity
  /-- Every pair takes one vacant slot of the index at most. -/
  vacant : pairs.index.capacity ≤ pairs.index.vacancies + k
  found : ∀ slot row, slot < k → pairs.liveRows[slot]? = some row → row.isSpent = false →
    pairs.index.raw? row.words.key = some slot.toUInt32
  owned : ∀ key slot, pairs.index.raw? key = some slot →
    slot.toNat < k ∧ ∃ row, pairs.liveRows[slot.toNat]? = some row ∧ row.words.key = key

variable {used k : ℕ}

/-- Rows that were gone through and have a count own their keys, since the others are retired. -/
theorem Collected.rebuilt {start : PairPool α} (hzero : (0 : α) ≤ 0) (h : Collected start k pairs)
    (htidy : start.Tidy) (hle : start.capacity ≤ maxPoolCapacity.toNat)
    (hindex : start.capacity ≤ start.index.capacity) (hk : k ≤ start.used) :
    Rebuilt start.used k pairs where
  sound := h.sound
  tidy := h.tidy htidy hk
  used_eq := h.used_eq
  capacity_le := h.capacity_eq.trans_le hle
  capacity_le_index := by
    rw [h.capacity_eq, h.capacity_index_eq]
    exact hindex
  vacant := h.vacant
  found slot row hslot hrow hspent := by
    rw [h.liveRows_getElem?] at hrow
    obtain ⟨old, hold, rfl⟩ := Option.map_eq_some_iff.mp hrow
    have hfirst := findIdx?_of_settle hzero hslot hspent
    rw [words_settle, h.raw?_eq, hfirst, Option.filter_some, if_pos (decide_eq_true hslot),
      Option.map_some]
  owned key slot hraw := by
    obtain ⟨hfirst, hlt⟩ := (h.raw?_eq_some_iff hle).mp hraw
    obtain ⟨row, hrow, -, hkey⟩ := exists_of_findIdx? hfirst
    exact ⟨hlt, _, by rw [h.liveRows_getElem?, hrow, Option.map_some], by rw [words_settle, hkey]⟩

/-- An index that is rebuilt finds every pair with a count. -/
theorem Rebuilt.resolves (h : Rebuilt pairs.used pairs.used pairs) :
    Resolves (spentSlots pairs) pairs := by
  refine ⟨⟨h.sound, h.tidy, fun key slot hraw _ => (h.owned key slot hraw).1⟩, h.capacity_le,
    h.capacity_le_index, fun slot row hkept hrow => ?_⟩
  have hslot : slot < pairs.used := Pool.lt_used_of_liveRows hrow
  refine h.found slot row hslot hrow (Bool.eq_false_iff.mpr fun hspent => hkept ?_)
  rw [spentSlots, Finset.mem_filter, Finset.mem_range, ← Pool.liveRows_getElem? hslot, hrow]
  exact ⟨hslot, hspent⟩

end PairPool

/-! ### Stages of a tally -/

namespace Tally

variable {lost : Finset ℕ}

/-- Rebuilding the index answers, and loses the pairs without count only. -/
theorem exists_reindexPairs (hzero : (0 : α) ≤ 0) {s : Logged (Tally α)}
    (htidy : s.state.pairs.Tidy) (hle : s.state.pairs.capacity ≤ maxPoolCapacity.toNat)
    (hindex : s.state.pairs.capacity ≤ s.state.pairs.index.capacity) :
    ∃ n s', reindexPairs s = .ok n s'
      ∧ s'.state.pairs.Resolves (PairPool.spentSlots s'.state.pairs) := by
  obtain ⟨n, s', hrun, -, -, hcollected⟩ := exists_collected hle hindex
  have hrebuilt := hcollected.rebuilt hzero htidy hle hindex le_rfl
  rw [← hrebuilt.used_eq] at hrebuilt
  exact ⟨n, s', hrun, hrebuilt.resolves⟩

/-- Folding pairs and rebuilding their index answers, and loses the pairs without count only. -/
theorem exists_reindexPairs_foldPairs (hzero : (0 : α) ≤ 0) {s : Logged (Tally α)}
    (h : s.state.pairs.Resolves lost) :
    ∃ n s', reindexPairs (foldPairs s).2 = .ok n s'
      ∧ s'.state.pairs.Resolves (PairPool.spentSlots s'.state.pairs) := by
  obtain ⟨pairs', hpairs', hmapped⟩ := exists_mapped_foldPairs s
  refine exists_reindexPairs hzero ?_ ?_ ?_
  all_goals rw [hpairs']
  · exact hmapped.tidy h.grounded.tidy
  · exact hmapped.capacity_eq.trans_le h.capacity_le
  · show pairs'.capacity ≤ pairs'.index.capacity
    rw [hmapped.capacity_eq, hmapped.index_eq]
    exact h.capacity_le_index

end Tally

end CorpusStats
