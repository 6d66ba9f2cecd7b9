import CorpusStats.Proofs.Tally.Collected
import CorpusStats.Proofs.Tally.Marginal
/-!
# CorpusStats.Proofs.Tally.Merging

Rebuilding the index of pairs merges the pairs of one key, and loses no count.

With exact arithmetic a pair that collects counts has their sum on top of its own
(`PairRow.collect_eq`), so the first pair of a key ends with the sum over all pairs that hold the key
(`PairRow.settle_eq_of_first`). Every merge moves a count from one row to another and leaves one row
less with a count (`massOf_merge`, `countP_merge`). The pool that is rebuilt may be any: out of date
index, pairs of one key in several slots, words beyond the arena.
-/

namespace CorpusStats

open Stage

variable {α : Type} [Field α] [LinearOrder α] [FloorSemiring α] [RootLog α]

namespace PairRow

variable {rows : List (PairRow α)} {slot : ℕ} {row : PairRow α} {key : UInt64}

theorem isLive_eq_true_iff : row.isLive = true ↔ row.isSpent = false := by
  rw [isLive, isSpent, decide_eq_true_iff, decide_eq_false_iff_not, not_le]

/-- The counts that a pair is given add up, and it is dirty if it is given any. -/
theorem collect_eq (others : List (PairRow α)) (row : PairRow α) :
    row.collect others = { row with
      count := row.count + massOf others
      flags := if others.isEmpty then row.flags else row.flags ||| dirtyBit } := by
  induction others using List.reverseRecOn with
  | nil => simp [collect, massOf]
  | append_singleton others other ih =>
    rw [collect_concat, ih, massOf_concat, add_assoc]
    cases others <;> simp [markDirty, UInt32.or_assoc]

/-- The first row that holds a key comes before all others that do. -/
theorem filter_holds_eq (hfirst : rows.findIdx? (holds key) = some slot)
    (hrow : rows[slot]? = some row) :
    rows.filter (holds key) = row :: (rows.drop (slot + 1)).filter (holds key) := by
  obtain ⟨hlt, hholds, hbefore⟩ := List.findIdx?_eq_some_iff_getElem.mp hfirst
  have hget : rows[slot] = row := by rw [List.getElem_eq_iff, hrow]
  have hempty : (rows.take slot).filter (holds key) = [] := by
    rw [List.filter_eq_nil_iff]
    intro other hother
    obtain ⟨i, hi, rfl⟩ := List.mem_take_iff_getElem.mp hother
    exact hbefore i (by omega)
  rw [← List.take_append_drop slot rows, List.filter_append, List.take_append_drop, hempty,
    List.drop_eq_getElem_cons hlt, List.filter_cons_of_pos hholds, hget, List.nil_append]

/-- The first row of a key has the counts of all rows that hold it. -/
theorem settle_eq_of_first (hfirst : rows.findIdx? (holds key) = some slot)
    (hrow : rows[slot]? = some row) :
    settle rows rows.length slot row = { row with
      count := massOf (rows.filter (holds key))
      flags := if 1 < rows.countP (holds key) then row.flags ||| dirtyBit else row.flags } := by
  obtain ⟨row', hrow', hspent, rfl⟩ := exists_of_findIdx? hfirst
  obtain rfl : row' = row := Option.some.inj (hrow'.symm.trans hrow)
  have hlt := (List.getElem?_eq_some_iff.mp hrow).1
  rw [settle_of_first hspent hlt hfirst, List.take_length, collect_eq, List.countP_eq_length_filter,
    filter_holds_eq hfirst hrow, massOf, massOf, List.map_cons, List.sum_cons, List.length_cons]
  cases (rows.drop (slot + 1)).filter (holds row'.words.key) <;> simp

end PairRow

open PairRow

/-! ### One merge -/

theorem countP_eq_sum {ι : Type} (p : ι → Bool) (l : List ι) :
    l.countP p = (l.map fun a => if p a = true then 1 else 0).sum := by
  induction l with
  | nil => rfl
  | cons a l ih => rw [List.countP_cons, List.map_cons, List.sum_cons, ← ih, Nat.add_comm]

section Merge

variable {pairs : PairPool α} {k owner : ℕ} {row owned : PairRow α}

/-- What a merge does to a sum over the rows. -/
theorem sum_map_merge {μ : Type} [AddCommMonoid μ] (hrow : pairs.liveRows[k]? = some row)
    (howned : pairs.liveRows[owner]? = some owned) (hne : owner ≠ k) (g : PairRow α → μ) :
    ((Tally.merge k owner row.count pairs).liveRows.map g).sum + g row + g owned
      = (pairs.liveRows.map g).sum + g row.retire
        + g { owned with count := owned.count + row.count }.markDirty := by
  rw [Tally.merge, Pool.liveRows_modify, Pool.liveRows_modify]
  exact sum_map_modify_modify howned hrow hne _ PairRow.retire g

/-- A merge moves a count. -/
theorem massOf_merge (hrow : pairs.liveRows[k]? = some row)
    (howned : pairs.liveRows[owner]? = some owned) (hne : owner ≠ k) :
    massOf (Tally.merge k owner row.count pairs).liveRows = massOf pairs.liveRows := by
  have hsum := sum_map_merge hrow howned hne PairRow.count
  have hretire : row.retire.count = 0 := rfl
  have hgiven : ({ owned with count := owned.count + row.count }.markDirty : PairRow α).count
    = owned.count + row.count := rfl
  rw [hretire, hgiven] at hsum
  unfold massOf
  linear_combination hsum

/-- A merge leaves one row less with a count. -/
theorem countP_merge [IsStrictOrderedRing α] (hrow : pairs.liveRows[k]? = some row)
    (howned : pairs.liveRows[owner]? = some owned) (hne : owner ≠ k) (hlive : 0 < row.count)
    (hlive' : 0 < owned.count) :
    (Tally.merge k owner row.count pairs).liveRows.countP PairRow.isLive + 1
      = pairs.liveRows.countP PairRow.isLive := by
  have hsum := sum_map_merge hrow howned hne fun row => if row.isLive = true then 1 else 0
  have hgiven : ({ owned with count := owned.count + row.count }.markDirty : PairRow α).isLive
      = true := decide_eq_true (add_pos hlive' hlive)
  have hretired : ¬ row.retire.isLive = true := by simp [PairRow.isLive, PairRow.retire]
  have hrowLive : row.isLive = true := decide_eq_true hlive
  have hownedLive : owned.isLive = true := decide_eq_true hlive'
  rw [if_pos hrowLive, if_pos hownedLive, if_pos hgiven, if_neg hretired] at hsum
  rw [countP_eq_sum, countP_eq_sum]
  omega

end Merge

/-! ### All merges -/

namespace PairPool

/-- `pairs'` are `pairs` with their index rebuilt and `merged` of them merged into others. -/
structure Merges (pairs : PairPool α) (merged : ℕ) (pairs' : PairPool α) : Prop where
  /-- The first pair with a count and a key owns the key: the index leads there, and it has the sum
  of the counts of all of them. If there are others it is dirty. -/
  owner_eq : ∀ key slot, pairs.liveRows.findIdx? (holds key) = some slot →
    (pairs'.lookup key).map UInt32.toNat = some slot
      ∧ ∃ row, pairs.liveRows[slot]? = some row ∧ pairs'.liveRows[slot]? = some { row with
          count := massOf (pairs.liveRows.filter (holds key))
          flags := if 1 < pairs.liveRows.countP (holds key) then row.flags ||| dirtyBit
            else row.flags }
  /-- The others are left with their words. -/
  other_eq : ∀ key slot row, pairs.liveRows[slot]? = some row → row.holds key = true →
    pairs.liveRows.findIdx? (holds key) ≠ some slot →
    pairs'.liveRows[slot]? = some { row with count := 0, score := 0, flags := 0 }
  /-- A pair without count is passed over. -/
  spent_eq : ∀ (slot : ℕ) (row : PairRow α), pairs.liveRows[slot]? = some row → row.count ≤ 0 →
    pairs'.liveRows[slot]? = some row
  /-- The index has the keys of pairs with a count, and leads to their owners. -/
  mem_entries_iff : ∀ key slot, (key, slot) ∈ pairs'.index.entries ↔
    pairs.liveRows.findIdx? (holds key) = some slot.toNat
  /-- No count is lost. -/
  massOf_eq : massOf pairs'.liveRows = massOf pairs.liveRows
  /-- Every merge leaves one pair less with a count. -/
  merged_eq : merged + pairs'.liveRows.countP isLive = pairs.liveRows.countP isLive
  /-- Slots that are not in use are left alone, and the arena and the index are as large as before. -/
  rest : (∀ slot, pairs.used ≤ slot → pairs'.row? slot = pairs.row? slot)
    ∧ pairs'.name = pairs.name ∧ pairs'.allocator = pairs.allocator
    ∧ pairs'.index.capacity = pairs.index.capacity

variable {start pairs pairs' : PairPool α} {k merged : ℕ} {row owned : PairRow α}

/-- A row that owns a key has a count all along. -/
theorem Collected.exists_owner [IsStrictOrderedRing α] (h : Collected start k pairs) {key : UInt64}
    {owner : ℕ} (hfirst : start.liveRows.findIdx? (holds key) = some owner) (howner : owner < k) :
    ∃ owned, pairs.liveRows[owner]? = some owned ∧ 0 < owned.count := by
  obtain ⟨row, hrow, hspent, rfl⟩ := exists_of_findIdx? hfirst
  refine ⟨_, by rw [h.liveRows_getElem?, hrow, Option.map_some], ?_⟩
  rw [settle_of_first hspent howner hfirst, collect_eq]
  have hlive : 0 < row.count := of_decide_eq_true (isLive_eq_true_iff.mpr hspent)
  refine add_pos_of_pos_of_nonneg hlive (List.sum_nonneg fun count hcount => ?_)
  obtain ⟨other, hother, rfl⟩ := List.mem_map.mp hcount
  have hspent' := (holds_iff.mp (List.mem_filter.mp hother).2).1
  exact (of_decide_eq_true (isLive_eq_true_iff.mpr hspent') : 0 < other.count).le

/-- What is known of pairs whose index is rebuilt from the first `k`, with the answers so far. -/
structure Conserves (start : PairPool α) (k : ℕ) (answers : List Bool) (pairs : PairPool α) : Prop
    extends Collected start k pairs where
  massOf_eq : massOf pairs.liveRows = massOf start.liveRows
  merged_eq : answers.countP id + pairs.liveRows.countP isLive = start.liveRows.countP isLive

/-- One more pair loses no count, and is either merged or not. -/
theorem Conserves.step [IsStrictOrderedRing α] {answers : List Bool}
    (h : Conserves start k answers pairs) (hle : start.capacity ≤ maxPoolCapacity.toNat)
    (hroom : start.capacity ≤ start.index.capacity) (hk : k < start.used) :
    ∃ answer pairs', Tally.reindexPair k pairs = .ok answer pairs'
      ∧ Conserves start (k + 1) (answers ++ [answer]) pairs' := by
  have hfalse : (answers ++ [false]).countP id = answers.countP id := by simp
  have htrue : (answers ++ [true]).countP id = answers.countP id + 1 := by simp
  obtain ⟨row, -, hrow⟩ := Pool.exists_liveRow hk
  rcases h.toCollected.step hle hroom hrow with ⟨-, hrun, hnext⟩ |
    ⟨hspent, ⟨index, hrun, hnext⟩ | ⟨owner, howner, hlater, hrun, hnext⟩⟩
  · exact ⟨_, _, hrun, hnext, h.massOf_eq, hfalse ▸ h.merged_eq⟩
  · exact ⟨_, _, hrun, hnext, h.massOf_eq, hfalse ▸ h.merged_eq⟩
  · obtain ⟨owned, howned, hlive'⟩ := h.toCollected.exists_owner hlater howner
    have hrow' : pairs.liveRows[k]? = some row := by
      rw [h.toCollected.liveRows_getElem?, hrow, Option.map_some, settle_of_le le_rfl]
    have hlive : 0 < row.count := of_decide_eq_true (isLive_eq_true_iff.mpr hspent)
    refine ⟨_, _, hrun, hnext, ?_, ?_⟩
    · rw [massOf_merge hrow' howned howner.ne, h.massOf_eq]
    · have hcount := countP_merge hrow' howned howner.ne hlive hlive'
      have hmerged := h.merged_eq
      omega

/-- Pairs whose index is rebuilt from all of them are merged. -/
theorem Conserves.merges {answers : List Bool} (h : Conserves start start.used answers pairs)
    (hle : start.capacity ≤ maxPoolCapacity.toNat) :
    Merges start (answers.countP id) pairs := by
  have hraw (key : UInt64) (slot : UInt32) : pairs.index.raw? key = some slot ↔
      start.liveRows.findIdx? (holds key) = some slot.toNat ∧ slot.toNat < start.used :=
    h.raw?_eq_some_iff hle
  have hsettled {slot : ℕ} {row : PairRow α} (hrow : start.liveRows[slot]? = some row) :
      pairs.liveRows[slot]? = some (settle start.liveRows start.used slot row) := by
    rw [h.toCollected.liveRows_getElem?, hrow, Option.map_some]
  have hlength := Pool.length_liveRows start
  constructor
  case owner_eq =>
    intro key slot hfirst
    obtain ⟨row, hrow, -, hkey⟩ := exists_of_findIdx? hfirst
    have hlt := Pool.lt_used_of_liveRows hrow
    have hnumber := Index.toNat_toUInt32 (hlt.trans_le (start.used_le_capacity.trans hle))
    have hmax : slot.toUInt32.toNat < maxPoolCapacity.toNat :=
      hnumber.trans_lt (hlt.trans_le (start.used_le_capacity.trans hle))
    refine ⟨?_, row, hrow, ?_⟩
    · have hfound := (hraw key slot.toUInt32).mpr ⟨by rw [hnumber, hfirst], by rwa [hnumber]⟩
      have hstorable : Key.storable key = key := by rw [← hkey, WordPair.storable_key]
      rw [Pool.lookup, Index.lookup_eq_of_raw? (hstorable.symm ▸ hfound) hmax,
        if_neg (Index.not_reserved hmax).1, Option.map_some, hnumber]
    · rw [hsettled hrow, ← hlength, settle_eq_of_first hfirst hrow]
  case other_eq =>
    intro key slot row hrow hholds hother
    obtain ⟨hspent, rfl⟩ := holds_iff.mp hholds
    rw [hsettled hrow, settle_of_later hspent (Pool.lt_used_of_liveRows hrow) hother]
    rfl
  case spent_eq =>
    intro slot row hrow hle
    rw [hsettled hrow, settle_of_isSpent (decide_eq_true hle)]
  case mem_entries_iff =>
    intro key slot
    rw [h.sound.mem_entries_iff, hraw, and_iff_left_iff_imp]
    intro hfirst
    obtain ⟨row, hrow, -⟩ := exists_of_findIdx? hfirst
    exact Pool.lt_used_of_liveRows hrow
  case massOf_eq => exact h.massOf_eq
  case merged_eq => exact h.merged_eq
  case rest =>
    exact ⟨fun slot hslot => h.toCollected.ahead hslot, h.name_eq, h.allocator_eq,
      h.capacity_index_eq⟩

end PairPool

namespace Tally

/-- **Rebuilding the index merges exactly.** Whatever pairs there are, reachable or not, rebuilding
their index answers if the index and the slot numbers are as many as the slots. Of the pairs that hold
a key, the first takes the counts of all, and the others are left without; no other pair changes, no
count is lost, and the answer is how many pairs have lost theirs. -/
theorem index_rebuild_merges_exactly [IsStrictOrderedRing α] (s : Logged (Tally α))
    (hindex : s.state.pairs.capacity ≤ s.state.pairs.index.capacity)
    (hmax : s.state.pairs.capacity ≤ maxPoolCapacity.toNat) :
    ∃ merged s', reindexPairs s = .ok merged s'
      ∧ s.state.pairs.Merges merged s'.state.pairs
      ∧ s'.state.words = s.state.words ∧ s'.state.total = s.state.total
      ∧ s'.log = s.log.start s.state.pairs.used := by
  have hstart : PairPool.Conserves s.state.pairs 0 [] s.state.pairs.clearIndex :=
    ⟨PairPool.collected_clearIndex _, rfl, by simp; rfl⟩
  obtain ⟨answers, s', hrun, hwords, htotal, hlog, hend⟩ :=
    exists_reindexPairs_of_step hstart fun k answers pairs hk h => h.step hmax hindex hk
  exact ⟨answers.countP id, s', hrun, hend.merges hmax, hwords, htotal, hlog⟩

/-- Slots 1, 3 and 4 hold one key, in slot 3 with its words the other way round; slot 0 has the same
words but no count. The index that is cleared leads from another key to a slot that is not in use. -/
theorem index_rebuild_merges_exactly_stale :
    let words : WordPool ℚ := ⟨"word", #[], ⟨0, 0, le_rfl⟩, .vacantOf "word" 1 one_pos, rfl⟩
    let pairs : PairPool ℚ := ⟨"pair", #[⟨0, 7, 1, 2, 2⟩, ⟨3, 5, 1, 2, 4⟩, ⟨2, 1, 0, 1, 0⟩,
      ⟨4, 9, 2, 1, 1⟩, ⟨1, 0, 1, 2, 8⟩, ⟨0, 0, 0, 0, 0⟩], ⟨6, 5, by decide⟩,
      ⟨"pair", #[.erased, .held 1 5, .vacant, .vacant, .vacant, .vacant, .vacant, .vacant],
        by decide⟩, rfl⟩
    ∃ s', reindexPairs ⟨⟨words, pairs, 10⟩, .empty⟩ = .ok 2 s'
      ∧ pairs.Merges 2 s'.state.pairs
      ∧ s'.state.pairs.liveRows = [⟨0, 7, 1, 2, 2⟩, ⟨8, 5, 1, 2, 5⟩, ⟨2, 1, 0, 1, 0⟩,
        ⟨0, 0, 2, 1, 0⟩, ⟨0, 0, 1, 2, 0⟩]
      ∧ (s'.state.pairs.lookup (WordPair.of 2 1).key).map UInt32.toNat = some 1 := by
  intro words pairs
  obtain ⟨merged, s', hrun, hmerges, -⟩ :=
    index_rebuild_merges_exactly ⟨⟨words, pairs, 10⟩, .empty⟩ (by decide) (by decide)
  obtain ⟨hlookup, row₁, hold₁, hrow₁⟩ :=
    hmerges.owner_eq (WordPair.of 2 1).key 1 (by decide +kernel)
  obtain ⟨-, row₂, hold₂, hrow₂⟩ := hmerges.owner_eq (WordPair.of 0 1).key 2 (by decide +kernel)
  cases hold₁
  cases hold₂
  have hrow₀ := hmerges.spent_eq 0 ⟨0, 7, 1, 2, 2⟩ rfl le_rfl
  have hrow₃ := hmerges.other_eq (WordPair.of 1 2).key 3 ⟨4, 9, 2, 1, 1⟩ rfl (by decide +kernel)
    (by decide +kernel)
  have hrow₄ := hmerges.other_eq (WordPair.of 1 2).key 4 ⟨1, 0, 1, 2, 8⟩ rfl (by decide +kernel)
    (by decide +kernel)
  have hrows : s'.state.pairs.liveRows = [⟨0, 7, 1, 2, 2⟩, ⟨8, 5, 1, 2, 5⟩, ⟨2, 1, 0, 1, 0⟩,
      ⟨0, 0, 2, 1, 0⟩, ⟨0, 0, 1, 2, 0⟩] := by
    have hlength : s'.state.pairs.liveRows.length = 5 := by
      rw [Pool.length_liveRows, Pool.used, hmerges.rest.2.2.1]
    refine List.ext_getElem? fun slot => ?_
    rcases slot with _ | _ | _ | _ | _ | slot
    · exact hrow₀
    · exact hrow₁.trans (by decide +kernel)
    · exact hrow₂.trans (by decide +kernel)
    · exact hrow₃
    · exact hrow₄
    · simp [hlength]
  obtain rfl : merged = 2 := by
    have hmerged := hmerges.merged_eq
    rw [hrows] at hmerged
    exact Nat.add_right_cancel (hmerged.trans (by decide +kernel))
  exact ⟨s', hrun, hmerges, hrows, hlookup⟩

end Tally

end CorpusStats
