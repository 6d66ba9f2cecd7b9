import CorpusStats.Proofs.Comparing
import CorpusStats.Proofs.Emptied
import CorpusStats.Proofs.Lift
import CorpusStats.Proofs.Tally.Coherent
import CorpusStats.Proofs.Tally.Collected
/-!
# CorpusStats.Proofs.Tally.Refolding

Folding what was folded before.

Nothing is left to do for a second fold with the same classes, if the class of a class is the class
itself:

* **Words**: every pair with a count has classes for words already (`PairRow.moved?_folded`), and
  merging changes no words.
* **Keys**: no two pairs with a count have one key, because all but the first were retired
  (`PairPool.Collected.heldOnce`). So no pair is merged into another.
* **Index**: it comes out slot by slot as it was. Only the first pair of a key has put something
  into it (`PairPool.Filed`), and these are the same pairs in the same order (`owners_eq`).

The counts may be any. A pair that collects others stays a pair with a count, also if some of them
compare with nothing, so that it takes its key again.
-/

namespace CorpusStats

open Stage

/-! ### Entering keys -/

namespace Index

/-- Give keys to slots, one after the other, unless they have one. -/
def enter (entries : List (UInt64 × ℕ)) (ix : Index) : Index :=
  entries.foldl (fun ix entry => (outcome (findOrCreate entry.1 (.ok entry.2.toUInt32)) ix).2) ix

theorem enter_concat (entries : List (UInt64 × ℕ)) (key : UInt64) (slot : ℕ) (ix : Index) :
    ix.enter (entries ++ [(key, slot)])
      = (outcome (findOrCreate key (.ok slot.toUInt32)) (ix.enter entries)).2 :=
  List.foldl_concat ..

theorem clear_enter (entries : List (UInt64 × ℕ)) (ix : Index) :
    (ix.enter entries).clear = ix.clear := by
  induction entries using List.reverseRecOn with
  | nil => rfl
  | append_singleton entries entry ih => rw [enter_concat, clear_findOrCreate, ih]

/-- A key that has a value leaves the index as it is. -/
theorem Sound.index_findOrCreate_of_some {ix : Index} (h : ix.Sound) {key : UInt64} {v : UInt32}
    (hraw : ix.raw? (Key.storable key) = some v) (create : Except Error UInt32) :
    (outcome (findOrCreate key create) ix).2 = ix := by
  rw [outcome, h.findOrCreate_of_some hraw]
  split_ifs <;> rfl

end Index

variable {α : Type} [Weight α]

namespace PairRow

variable {rows : List (PairRow α)} {k slot : ℕ} {row : PairRow α}

/-! ### Words that stay -/

theorem moved?_eq_none_iff {words : WordPool α} : row.moved? words = none ↔ row.isSpent = true
    ∨ WordPool.classOf words row.wordA = row.wordA
      ∧ WordPool.classOf words row.wordB = row.wordB := by
  unfold moved?
  dsimp only
  split <;> simp_all

theorem folded_of_moved?_eq_none {words : WordPool α} (h : row.moved? words = none) :
    row.folded words = row := by
  simp only [folded, h]

@[simp] theorem isSpent_retire [ComparesWithZero α] (row : PairRow α) : row.retire.isSpent = true :=
  decide_eq_true ComparesWithZero.zero_le_zero

/-- A folded pair has classes for words, and these stay. -/
theorem moved?_folded [ComparesWithZero α] {words : WordPool α}
    (hclasses : ∀ word, WordPool.classOf words (WordPool.classOf words word)
      = WordPool.classOf words word) (row : PairRow α) :
    (row.folded words).moved? words = none := by
  cases hmoved : row.moved? words with
  | none => rw [folded_of_moved?_eq_none hmoved, hmoved]
  | some pair =>
    have hpair : WordPool.classOf words pair.first = pair.first
        ∧ WordPool.classOf words pair.second = pair.second := by
      unfold moved? at hmoved
      dsimp only at hmoved
      split at hmoved
      · cases hmoved
      · cases hmoved
        exact WordPair.of_mem (P := fun word => WordPool.classOf words word = word)
          (hclasses _) (hclasses _)
    simp only [folded, hmoved]
    by_cases hequal : pair.first = pair.second
    · rw [if_pos hequal]
      exact moved?_eq_none_iff.mpr (.inl (isSpent_retire _))
    · rw [if_neg hequal]
      exact moved?_eq_none_iff.mpr (.inr hpair)

/-! ### Collecting -/

theorem ends_collect (others : List (PairRow α)) (row : PairRow α) :
    (row.collect others).wordA = row.wordA ∧ (row.collect others).wordB = row.wordB := by
  induction others using List.reverseRecOn with
  | nil => exact ⟨rfl, rfl⟩
  | append_singleton others other ih =>
    rw [collect_concat]
    exact ih

/-- A pair with a count that collects others has a count. -/
theorem isSpent_collect [ComparesWithZero α] {others : List (PairRow α)}
    (hothers : ∀ other ∈ others, other.isSpent = false) (hrow : row.isSpent = false) :
    (row.collect others).isSpent = false := by
  induction others using List.reverseRecOn with
  | nil => exact hrow
  | append_singleton others other ih =>
    have hbefore := ih fun other hother => hothers other (List.mem_append_left _ hother)
    have hother := hothers other (List.mem_append_right _ List.mem_cons_self)
    rw [collect_concat]
    exact decide_eq_false (ComparesWithZero.add_not_le _ _ (of_decide_eq_false hbefore)
      (of_decide_eq_false hother))

/-- What is left of a pair has its words, or no count. -/
theorem moved?_settle [ComparesWithZero α] {words : WordPool α} (h : row.moved? words = none) :
    (settle rows k slot row).moved? words = none := by
  unfold settle
  split_ifs with hspent
  · exact h
  · obtain ⟨hA, hB⟩ := ends_collect
      (((rows.take k).drop (slot + 1)).filter (holds row.words.key)) row
    have hfixed := (moved?_eq_none_iff.mp h).resolve_left fun hrow => hspent (.inl hrow)
    rw [moved?_eq_none_iff, hA, hB]
    exact .inr hfixed
  · exact moved?_eq_none_iff.mpr (.inl (isSpent_retire row))

/-! ### Keys that are held once -/

/-- Every pair with a count is the first that holds its key. -/
def HeldOnce (rows : List (PairRow α)) : Prop :=
  ∀ slot row, rows[slot]? = some row → row.isSpent = false →
    rows.findIdx? (holds row.words.key) = some slot

/-- Going through pairs of different keys leaves all of them as they are. -/
theorem HeldOnce.settle_eq (h : HeldOnce rows) (hrow : rows[slot]? = some row) :
    settle rows k slot row = row := by
  unfold settle
  split_ifs with hpassed hfirst
  · rfl
  · have hempty : ((rows.take k).drop (slot + 1)).filter (holds row.words.key) = [] := by
      rw [List.filter_eq_nil_iff]
      intro other hother hholds
      obtain ⟨i, hi, rfl⟩ := List.mem_drop_iff_getElem.mp hother
      obtain ⟨hspent, hkey⟩ := holds_iff.mp hholds
      rw [List.getElem_take] at hspent hkey
      have hlater := h _ _ (List.getElem?_eq_getElem _) hspent
      rw [hkey, hfirst] at hlater
      have := Option.some.inj hlater
      omega
    rw [hempty]
    rfl
  · rw [not_or, Bool.not_eq_true] at hpassed
    exact absurd (h slot row hrow hpassed.1) hfirst

/-- The keys of the pairs with a count among the first `k`, with the slots that hold them first. -/
def owners (rows : List (PairRow α)) (k : ℕ) : List (UInt64 × ℕ) :=
  (List.range k).filterMap fun slot => rows[slot]?.bind fun row =>
    if row.isSpent = false ∧ rows.findIdx? (holds row.words.key) = some slot then
      some (row.words.key, slot)
    else none

theorem owners_succ (hrow : rows[k]? = some row) : owners rows (k + 1) = owners rows k ++
    if row.isSpent = false ∧ rows.findIdx? (holds row.words.key) = some k then
      [(row.words.key, k)]
    else [] := by
  rw [owners, List.range_succ, List.filterMap_append, ← owners]
  congr 1
  rw [List.filterMap_cons, hrow, Option.bind_some]
  split_ifs <;> rfl

end PairRow

open PairRow

/-! ### Rebuilding the index again -/

/-- Whatever entering a pair does to the index, it is asking for the key of the pair. -/
theorem Tally.index_reindexPair {pairs : PairPool α} {slot : ℕ} {row : PairRow α}
    (hrow : pairs.row? slot = some row) : (outcome (reindexPair slot) pairs).2.index =
      if row.isSpent = true then pairs.index
      else (outcome (Index.findOrCreate row.words.key (.ok slot.toUInt32)) pairs.index).2 := by
  unfold outcome reindexPair
  simp only [hrow]
  by_cases hspent : row.isSpent = true
  · simp only [if_pos hspent]
  · simp only [if_neg hspent, Pool.onIndex]
    cases Index.findOrCreate row.words.key (.ok slot.toUInt32) pairs.index with
    | ok found index =>
      obtain ⟨owner, created⟩ := found
      cases created <;> rfl
    | error e index => rfl

namespace PairPool

variable {start pairs : PairPool α} {k : ℕ} {row : PairRow α}

/-- The index of `start` is rebuilt from its first `k` pairs, and was given their keys in order. -/
structure Filed (start : PairPool α) (k : ℕ) (pairs : PairPool α) : Prop
    extends Collected start k pairs where
  index_eq : pairs.index = start.index.clear.enter (owners start.liveRows k)

theorem filed_clearIndex (start : PairPool α) : Filed start 0 start.clearIndex :=
  ⟨collected_clearIndex start, rfl⟩

/-- One more pair is filed if it is the first that holds its key. Otherwise the index stays. -/
theorem Filed.next (h : Filed start k pairs) (hrow : start.liveRows[k]? = some row) {answer : Bool}
    {pairs' : PairPool α} (hrun : Tally.reindexPair k pairs = .ok answer pairs')
    (hcollected : Collected start (k + 1) pairs') : Filed start (k + 1) pairs' := by
  refine ⟨hcollected, ?_⟩
  have hrow' : pairs.row? k = some row := by
    rw [h.toCollected.ahead le_rfl, Pool.row?_of_liveRows hrow]
  have hindex := Tally.index_reindexPair hrow'
  rw [outcome_of_ok hrun] at hindex
  dsimp only at hindex
  rw [hindex, owners_succ hrow]
  by_cases hspent : row.isSpent = true
  · rw [if_pos hspent, if_neg (by simp [hspent]), List.append_nil, h.index_eq]
  · rw [if_neg hspent]
    rw [Bool.not_eq_true] at hspent
    by_cases hfirst : start.liveRows.findIdx? (holds row.words.key) = some k
    · rw [if_pos ⟨hspent, hfirst⟩, Index.enter_concat, h.index_eq]
    · -- an earlier pair holds the key
      obtain ⟨owner, hle, howner⟩ := exists_findIdx?_le hrow hspent
      have hlt : owner < k := lt_of_le_of_ne hle fun heq => hfirst (heq ▸ howner)
      have hraw : pairs.index.raw? (Key.storable row.words.key) = some owner.toUInt32 := by
        rw [WordPair.storable_key, h.raw?_eq, howner, Option.filter_some,
          if_pos (decide_eq_true hlt), Option.map_some]
      rw [if_neg fun hand => hfirst hand.2, List.append_nil,
        h.sound.index_findOrCreate_of_some hraw, h.index_eq]

/-- Of the pairs that were gone through, each with a count is the first that holds its key. -/
theorem Collected.heldOnce [ComparesWithZero α] (h : Collected start start.used pairs) :
    HeldOnce pairs.liveRows := by
  -- whoever holds a key afterwards was the first to hold it before
  have hbefore (slot : ℕ) (row : PairRow α) (hrow : pairs.liveRows[slot]? = some row)
      (hspent : row.isSpent = false) :
      start.liveRows.findIdx? (holds row.words.key) = some slot := by
    have hslot : slot < start.used := h.used_eq ▸ Pool.lt_used_of_liveRows hrow
    rw [h.liveRows_getElem?] at hrow
    obtain ⟨old, -, rfl⟩ := Option.map_eq_some_iff.mp hrow
    rw [words_settle]
    exact findIdx?_of_settle ComparesWithZero.zero_le_zero hslot hspent
  intro slot row hrow hspent
  obtain ⟨owner, -, howner⟩ := exists_findIdx?_le hrow hspent
  obtain ⟨row', hrow', hspent', hkey⟩ := exists_of_findIdx? howner
  have hfirst := hbefore owner row' hrow' hspent'
  rw [hkey, hbefore slot row hrow hspent] at hfirst
  rw [howner, hfirst]

/-- The pairs that own their keys are the same afterwards. -/
theorem Collected.owners_eq [ComparesWithZero α] (h : Collected start start.used pairs) :
    owners pairs.liveRows start.used = owners start.liveRows start.used := by
  refine List.filterMap_congr fun slot hslot => ?_
  rw [List.mem_range] at hslot
  obtain ⟨row, -, hrow⟩ := Pool.exists_liveRow hslot
  have hsettled : pairs.liveRows[slot]? = some (settle start.liveRows start.used slot row) := by
    rw [h.liveRows_getElem?, hrow, Option.map_some]
  rw [hrow, hsettled, Option.bind_some, Option.bind_some, words_settle]
  refine if_congr ?_ rfl rfl
  constructor
  · intro howns
    refine ⟨?_, findIdx?_of_settle ComparesWithZero.zero_le_zero hslot howns.1⟩
    by_contra hspent
    rw [Bool.not_eq_false] at hspent
    rw [settle_of_isSpent hspent, hspent] at howns
    cases howns.1
  · intro howns
    have hspent : (settle start.liveRows start.used slot row).isSpent = false := by
      rw [settle_of_first howns.1 hslot howns.2]
      exact isSpent_collect (fun other hother => (holds_iff.mp (List.mem_filter.mp hother).2).1)
        howns.1
    have hfirst := h.heldOnce slot _ hsettled hspent
    rw [words_settle] at hfirst
    exact ⟨hspent, hfirst⟩

end PairPool

namespace Tally

variable {s : Logged (Tally α)}

/-- Rebuilding the index enters the pairs that own their keys, and merges none if all do. -/
theorem exists_filed (hle : s.state.pairs.capacity ≤ maxPoolCapacity.toNat)
    (hroom : s.state.pairs.capacity ≤ s.state.pairs.index.capacity) :
    ∃ n s', reindexPairs s = .ok n s' ∧ s'.state.words = s.state.words
      ∧ s'.state.total = s.state.total ∧ s'.log = s.log.start s.state.pairs.used
      ∧ PairPool.Filed s.state.pairs s.state.pairs.used s'.state.pairs
      ∧ (HeldOnce s.state.pairs.liveRows → n = 0) := by
  obtain ⟨answers, s', hrun, hwords, htotal, hlog, hfiled, hnone⟩ := exists_reindexPairs_of_step
    (P := fun k answers pairs => PairPool.Filed s.state.pairs k pairs
      ∧ (HeldOnce s.state.pairs.liveRows → answers.countP id = 0))
    ⟨PairPool.filed_clearIndex _, fun _ => rfl⟩ fun k answers pairs hk h => by
      obtain ⟨row, -, hrow⟩ := Pool.exists_liveRow hk
      have hkept (honce : HeldOnce s.state.pairs.liveRows) :
          (answers ++ [false]).countP id = 0 := by
        rw [List.countP_append, h.2 honce]
        rfl
      rcases h.1.toCollected.step hle hroom hrow with ⟨-, hrun, hnext⟩ |
        ⟨hspent, ⟨index, hrun, hnext⟩ | ⟨owner, howner, hlater, hrun, hnext⟩⟩
      · exact ⟨_, _, hrun, h.1.next hrow hrun hnext, hkept⟩
      · exact ⟨_, _, hrun, h.1.next hrow hrun hnext, hkept⟩
      · refine ⟨_, _, hrun, h.1.next hrow hrun hnext, fun honce => ?_⟩
        rw [honce k row hrow hspent] at hlater
        exact absurd (Option.some.inj hlater).symm howner.ne
  exact ⟨answers.countP id, s', hrun, hwords, htotal, hlog, hfiled, hnone⟩

/-- Rebuilding an index that was rebuilt merges nothing, and leaves everything as it is. -/
theorem reindexPairs_of_filed [ComparesWithZero α] {start : PairPool α}
    (h : PairPool.Filed start start.used s.state.pairs)
    (hle : start.capacity ≤ maxPoolCapacity.toNat) (hroom : start.capacity ≤ start.index.capacity) :
    reindexPairs s = .ok 0 ⟨s.state, s.log.start s.state.pairs.used⟩ := by
  have honce := h.heldOnce
  obtain ⟨n, ⟨⟨words, pairs, total⟩, log⟩, hrun, hwords, htotal, hlog, hfiled, hnone⟩ :=
    exists_filed (s := s) (h.capacity_eq.trans_le hle) (by
      rw [h.capacity_eq, h.capacity_index_eq]
      exact hroom)
  have hindex : pairs.index = s.state.pairs.index := by
    have hclear : s.state.pairs.index.clear = start.index.clear := by
      rw [h.index_eq, Index.clear_enter, Index.clear_clear]
    rw [hfiled.index_eq, hclear, h.used_eq, h.owners_eq, ← h.index_eq]
  have hrows slot : pairs.row? slot = s.state.pairs.row? slot := by
    rw [hfiled.row?_eq]
    cases hrow : s.state.pairs.row? slot with
    | none => rfl
    | some row =>
      rw [Option.map_some]
      by_cases hslot : slot < s.state.pairs.used
      · rw [honce.settle_eq (by rw [Pool.liveRows_getElem? hslot, hrow])]
      · rw [settle_of_le (not_lt.mp hslot)]
  obtain rfl : words = s.state.words := hwords
  obtain rfl : total = s.state.total := htotal
  obtain rfl : log = _ := hlog
  obtain rfl : pairs = s.state.pairs :=
    Pool.ext_row? hfiled.name_eq hfiled.allocator_eq hindex hrows
  rw [hrun, hnone honce]

/-! ### Folding pairs again -/

/-- Folding pairs whose words stay changes nothing. -/
theorem foldPairs_of_fixed
    (h : ∀ row ∈ s.state.pairs.liveRows, row.moved? s.state.words = none) :
    foldPairs s = ({}, ⟨s.state, s.log.start s.state.pairs.used⟩) := by
  have hstate : (foldPairs s).2.state = s.state := by
    refine (state_sweep_pairs s PairRow.folded).trans ?_
    rw [Pool.foldl_modify_eq_self fun row hrow => folded_of_moved?_eq_none (h row hrow)]
  have hmoves : s.state.pairs.liveRows.filterMap (PairRow.moved? s.state.words) = [] :=
    List.filterMap_eq_nil_iff.mpr h
  have hlog : (foldPairs s).2.log = s.log.start s.state.pairs.used :=
    congrArg s.log.start List.length_range
  have hreport : (foldPairs s).1 = {} := by
    unfold foldPairs
    simp only [hmoves, List.length_nil, List.countP_nil]
  exact Prod.ext hreport (congrArg₂ Logged.mk hstate hlog)

end Tally

/-! ### Folding sections again -/

namespace SectionPool

variable {s : Logged (SectionPool α)} {words : WordPool α}

theorem mapped_foldWords (words : WordPool α) (s : Logged (SectionPool α)) :
    Pool.Mapped s.state (foldWords words s).2.state fun row =>
      { row with word := WordPool.classOf words row.word } :=
  s.state.mapped_foldl_modify _

omit [Weight α] in
/-- Folding sections whose words stay changes nothing. -/
theorem foldWords_of_fixed
    (h : ∀ row ∈ s.state.liveRows, WordPool.classOf words row.word = row.word) :
    foldWords words s = (0, ⟨s.state, s.log.start s.state.used⟩) := by
  have hstate : (foldWords words s).2.state = s.state :=
    Pool.foldl_modify_eq_self fun row hrow => by rw [h row hrow]
  have hmoved : (foldWords words s).1 = 0 := by
    refine List.countP_eq_zero.mpr fun row hrow => ?_
    simp [h row hrow]
  have hlog : (foldWords words s).2.log = s.log.start s.state.used :=
    congrArg s.log.start List.length_range
  exact Prod.ext hmoved (congrArg₂ Logged.mk hstate hlog)

end SectionPool

end CorpusStats
