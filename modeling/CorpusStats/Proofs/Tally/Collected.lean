import CorpusStats.Proofs.Lift
import CorpusStats.Proofs.Stage
import CorpusStats.Proofs.Tally.Sweeps
/-!
# CorpusStats.Proofs.Tally.Collected

What rebuilding the index of pairs does, row by row.

The rows are gone through once, in the order of their slots. Which rows were gone through says all
about the state in between (`PairPool.Collected`): the index leads from a key to the first row that
holds it, which has the counts of the later ones on top of its own, and the later ones are retired
(`PairRow.settle`). One more row is passed over, takes its key, or hands its count to the row that has
the key (`PairPool.Collected.step`). The index never lacks room, since every row takes one vacant slot
at most.

Nothing is asked of the weights, nor of the pairs: the index may be out of date, and rows may have any
words and any counts.
-/

namespace CorpusStats

open Stage

variable {α : Type} [Weight α]

namespace PairRow

/-- Whether a pair has a count and a key. -/
def holds (key : UInt64) (row : PairRow α) : Bool := !row.isSpent && row.words.key == key

/-- A pair that was given the counts of others, one after the other. -/
def collect (others : List (PairRow α)) (row : PairRow α) : PairRow α :=
  others.foldl (fun row other => { row with count := row.count + other.count }.markDirty) row

/-- What is left of the row in a slot once the first `k` rows were gone through: the first row that
holds a key collects the counts of the later ones, and these are retired. -/
def settle (rows : List (PairRow α)) (k slot : ℕ) (row : PairRow α) : PairRow α :=
  if row.isSpent = true ∨ k ≤ slot then row
  else if rows.findIdx? (holds row.words.key) = some slot then
    row.collect (((rows.take k).drop (slot + 1)).filter (holds row.words.key))
  else row.retire

theorem holds_iff {key : UInt64} {row : PairRow α} :
    row.holds key = true ↔ row.isSpent = false ∧ row.words.key = key := by
  simp [holds]

theorem holds_words_key {row : PairRow α} (hspent : row.isSpent = false) :
    row.holds row.words.key = true := holds_iff.mpr ⟨hspent, rfl⟩

theorem collect_concat (others : List (PairRow α)) (row other : PairRow α) :
    row.collect (others ++ [other])
      = { row.collect others with count := (row.collect others).count + other.count }.markDirty := by
  rw [collect, List.foldl_concat]
  rfl

/-- A pair that was given a count is dirty. -/
theorem isDirty_collect {others : List (PairRow α)} (h : others ≠ []) (row : PairRow α) :
    (row.collect others).isDirty = true := by
  obtain ⟨before, other, rfl⟩ := (List.eq_nil_or_concat' others).resolve_left h
  rw [collect_concat]
  exact isDirty_markDirty _

@[simp] theorem words_collect (others : List (PairRow α)) (row : PairRow α) :
    (row.collect others).words = row.words := by
  induction others using List.reverseRecOn with
  | nil => rfl
  | append_singleton others other ih =>
    rw [collect_concat, ← ih]
    rfl

variable {rows : List (PairRow α)} {k slot owner : ℕ} {row new : PairRow α} {key : UInt64}

theorem settle_of_isSpent (hspent : row.isSpent = true) : settle rows k slot row = row :=
  if_pos (.inl hspent)

theorem settle_of_le (hslot : k ≤ slot) : settle rows k slot row = row := if_pos (.inr hslot)

theorem settle_of_first (hspent : row.isSpent = false) (hslot : slot < k)
    (hfirst : rows.findIdx? (holds row.words.key) = some slot) :
    settle rows k slot row
      = row.collect (((rows.take k).drop (slot + 1)).filter (holds row.words.key)) := by
  rw [settle, if_neg (by simp [hspent, hslot]), if_pos hfirst]

theorem settle_of_later (hspent : row.isSpent = false) (hslot : slot < k)
    (hlater : rows.findIdx? (holds row.words.key) ≠ some slot) :
    settle rows k slot row = row.retire := by
  rw [settle, if_neg (by simp [hspent, hslot]), if_neg hlater]

@[simp] theorem words_settle (rows : List (PairRow α)) (k slot : ℕ) (row : PairRow α) :
    (settle rows k slot row).words = row.words := by
  unfold settle
  split_ifs
  · rfl
  · exact words_collect _ row
  · rfl

/-- A row that was gone through and has a count is the first that holds its key. -/
theorem findIdx?_of_settle (hzero : (0 : α) ≤ 0) (hslot : slot < k)
    (hspent : (settle rows k slot row).isSpent = false) :
    rows.findIdx? (holds row.words.key) = some slot := by
  cases hrow : row.isSpent with
  | true =>
    rw [settle_of_isSpent hrow, hrow] at hspent
    cases hspent
  | false =>
    by_contra hlater
    rw [settle_of_later hrow hslot hlater] at hspent
    exact of_decide_eq_false hspent hzero

/-- The first row that holds a key. -/
theorem exists_of_findIdx? (h : rows.findIdx? (holds key) = some slot) :
    ∃ row, rows[slot]? = some row ∧ row.isSpent = false ∧ row.words.key = key := by
  obtain ⟨hlt, hholds, -⟩ := List.findIdx?_eq_some_iff_getElem.mp h
  exact ⟨_, List.getElem?_eq_getElem hlt, holds_iff.mp hholds⟩

/-- A row that holds a key is not before the first that does. -/
theorem exists_findIdx?_le (hrow : rows[slot]? = some row) (hspent : row.isSpent = false) :
    ∃ owner ≤ slot, rows.findIdx? (holds row.words.key) = some owner := by
  obtain ⟨hlt, hget⟩ := List.getElem?_eq_some_iff.mp hrow
  have hholds : rows[slot].holds row.words.key = true := by
    rw [hget]
    exact holds_words_key hspent
  cases hfirst : rows.findIdx? (holds row.words.key) with
  | none =>
    rw [List.findIdx?_eq_none_iff.mp hfirst _ (List.getElem_mem hlt)] at hholds
    cases hholds
  | some owner =>
    obtain ⟨_, -, hbefore⟩ := List.findIdx?_eq_some_iff_getElem.mp hfirst
    exact ⟨owner, not_lt.mp fun hlater => hbefore slot hlater hholds, rfl⟩

/-! ### One more row -/

section Succ

variable (hnew : rows[k]? = some new)
include hnew

omit [Weight α] in
theorem drop_take_succ (hslot : slot < k) :
    (rows.take (k + 1)).drop (slot + 1) = (rows.take k).drop (slot + 1) ++ [new] := by
  have hlength := (List.getElem?_eq_some_iff.mp hnew).1
  rw [take_succ_of_getElem? hnew, List.drop_append_of_le_length]
  rw [List.length_take_of_le hlength.le]
  exact hslot

/-- Other rows are as before. -/
theorem settle_succ_of_ne (hslot : slot ≠ k)
    (hother : new.holds row.words.key = true → rows.findIdx? (holds row.words.key) ≠ some slot) :
    settle rows (k + 1) slot row = settle rows k slot row := by
  rcases Nat.lt_or_gt_of_ne hslot with hlt | hlt
  swap
  · rw [settle_of_le hlt, settle_of_le hlt.le]
  cases hspent : row.isSpent with
  | true => rw [settle_of_isSpent hspent, settle_of_isSpent hspent]
  | false =>
    by_cases hfirst : rows.findIdx? (holds row.words.key) = some slot
    · have hnot : ¬ new.holds row.words.key = true := fun hholds => hother hholds hfirst
      rw [settle_of_first hspent (hlt.trans k.lt_succ_self) hfirst, settle_of_first hspent hlt hfirst,
        drop_take_succ hnew hlt, List.filter_append, List.filter_cons_of_neg hnot, List.filter_nil,
        List.append_nil]
    · rw [settle_of_later hspent (hlt.trans k.lt_succ_self) hfirst,
        settle_of_later hspent hlt hfirst]

/-- A row without count changes no row. -/
theorem settle_succ_of_isSpent (hspent : new.isSpent = true) (hrow : slot = k → row = new) :
    settle rows (k + 1) slot row = settle rows k slot row := by
  by_cases hslot : slot = k
  · obtain rfl := hrow hslot
    rw [settle_of_isSpent hspent, settle_of_isSpent hspent]
  · refine settle_succ_of_ne hnew hslot fun hholds => ?_
    rw [(holds_iff.mp hholds).1] at hspent
    cases hspent

/-- Nor does the first row that holds a key. -/
theorem settle_succ_of_first (hfirst : rows.findIdx? (holds new.words.key) = some k)
    (hrow : slot = k → row = new) :
    settle rows (k + 1) slot row = settle rows k slot row := by
  by_cases hslot : slot = k
  · obtain rfl := hrow hslot
    subst hslot
    obtain ⟨row', hrow', hspent, -⟩ := exists_of_findIdx? hfirst
    obtain rfl : row' = row := Option.some.inj (hrow'.symm.trans hnew)
    have hempty : (rows.take (slot + 1)).drop (slot + 1) = [] :=
      List.drop_eq_nil_of_le (rows.length_take_le _)
    rw [settle_of_first hspent slot.lt_succ_self hfirst, hempty, settle_of_le le_rfl]
    rfl
  · refine settle_succ_of_ne hnew hslot fun hholds heq => hslot ?_
    rw [(holds_iff.mp hholds).2] at hfirst
    exact Option.some.inj (heq.symm.trans hfirst)

/-- A later row hands its count to the first one, and is retired. -/
theorem settle_succ_of_later (hspent : new.isSpent = false)
    (hlater : rows.findIdx? (holds new.words.key) = some owner) (howner : owner < k)
    (hrow : slot ≤ k → rows[slot]? = some row) :
    settle rows (k + 1) slot row =
      let row := settle rows k slot row
      let row := if owner = slot then { row with count := row.count + new.count }.markDirty else row
      if k = slot then row.retire else row := by
  dsimp only
  by_cases hslot : k = slot
  · subst hslot
    obtain rfl : row = new := Option.some.inj ((hrow le_rfl).symm.trans hnew)
    rw [if_pos rfl, if_neg howner.ne, settle_of_le le_rfl]
    refine settle_of_later hspent k.lt_succ_self fun heq => howner.ne ?_
    exact Option.some.inj (hlater.symm.trans heq)
  rw [if_neg hslot]
  by_cases heq : owner = slot
  · subst heq
    -- the first row that holds the key of the new one has this key
    obtain ⟨row', hrow', hspent', hkey⟩ := exists_of_findIdx? hlater
    obtain rfl : row' = row := Option.some.inj (hrow'.symm.trans (hrow howner.le))
    have hholds : new.holds row'.words.key = true := holds_iff.mpr ⟨hspent, hkey.symm⟩
    rw [← hkey] at hlater
    rw [if_pos rfl, settle_of_first hspent' (howner.trans k.lt_succ_self) hlater,
      settle_of_first hspent' howner hlater, drop_take_succ hnew howner, List.filter_append,
      List.filter_cons_of_pos hholds, List.filter_nil, collect_concat]
  · rw [if_neg heq]
    refine settle_succ_of_ne hnew (Ne.symm hslot) fun hholds hfirst => heq ?_
    rw [← (holds_iff.mp hholds).2] at hfirst
    exact Option.some.inj (hlater.symm.trans hfirst)

end Succ

end PairRow

open PairRow

namespace PairPool

/-- The index of `start` is rebuilt from its first `k` pairs. -/
structure Collected (start : PairPool α) (k : ℕ) (pairs : PairPool α) : Prop where
  sound : pairs.index.Sound
  name_eq : pairs.name = start.name
  allocator_eq : pairs.allocator = start.allocator
  capacity_index_eq : pairs.index.capacity = start.index.capacity
  /-- Every pair takes one vacant slot of the index at most. -/
  vacant : pairs.index.capacity ≤ pairs.index.vacancies + k
  /-- A key leads to the first pair that holds it, if this is among the first `k`. -/
  raw?_eq : ∀ key, pairs.index.raw? key
    = ((start.liveRows.findIdx? (holds key)).filter (· < k)).map Nat.toUInt32
  row?_eq : ∀ slot, pairs.row? slot = (start.row? slot).map (settle start.liveRows k slot)

variable {start pairs : PairPool α} {k : ℕ} {row : PairRow α}

theorem collected_clearIndex (start : PairPool α) : Collected start 0 start.clearIndex := by
  have hcapacity : start.clearIndex.index.capacity = start.index.capacity :=
    start.index.capacity_clear
  refine ⟨start.index.sound_clear, rfl, rfl, hcapacity,
    hcapacity.trans_le start.index.vacancies_clear.ge, fun key => ?_, fun slot => ?_⟩
  · have hraw : start.clearIndex.index.raw? key = none := start.index.raw?_clear key
    simp [hraw]
  · have hsettle : settle start.liveRows 0 slot = id :=
      funext fun row => settle_of_le (Nat.zero_le slot)
    rw [hsettle, Option.map_id]
    rfl

section Collected

variable (h : Collected start k pairs)
include h

theorem Collected.used_eq : pairs.used = start.used := congrArg Allocator.used h.allocator_eq

theorem Collected.capacity_eq : pairs.capacity = start.capacity :=
  congrArg Allocator.capacity h.allocator_eq

theorem Collected.liveRows_getElem? (slot : ℕ) :
    pairs.liveRows[slot]? = (start.liveRows[slot]?).map (settle start.liveRows k slot) := by
  by_cases hslot : slot < start.used
  · rw [Pool.liveRows_getElem? (h.used_eq ▸ hslot), Pool.liveRows_getElem? hslot, h.row?_eq]
  · rw [List.getElem?_eq_none (by rw [Pool.length_liveRows, h.used_eq]; exact not_lt.mp hslot),
      List.getElem?_eq_none (by rw [Pool.length_liveRows]; exact not_lt.mp hslot), Option.map_none]

/-- Rows that were not gone through are as they were. -/
theorem Collected.ahead {slot : ℕ} (hslot : k ≤ slot) : pairs.row? slot = start.row? slot := by
  have hsettle : settle start.liveRows k slot = id := funext fun row => settle_of_le hslot
  rw [h.row?_eq, hsettle, Option.map_id, id]

theorem Collected.tidy (hstart : start.Tidy) (hk : k ≤ start.used) : pairs.Tidy := by
  intro slot row hslot hrow
  rw [h.used_eq] at hslot
  rw [h.ahead (hk.trans hslot)] at hrow
  exact hstart slot row hslot hrow

/-- What a key leads to. -/
theorem Collected.raw?_eq_some_iff (hle : start.capacity ≤ maxPoolCapacity.toNat) {key : UInt64}
    {slot : UInt32} : pairs.index.raw? key = some slot ↔
      start.liveRows.findIdx? (holds key) = some slot.toNat ∧ slot.toNat < k := by
  rw [h.raw?_eq]
  cases hfirst : start.liveRows.findIdx? (holds key) with
  | none => simp
  | some owner =>
    obtain ⟨row, hrow, -⟩ := exists_of_findIdx? hfirst
    have howner : owner < maxPoolCapacity.toNat :=
      (Pool.lt_used_of_liveRows hrow).trans_le (start.used_le_capacity.trans hle)
    by_cases hlt : owner < k
    · rw [Option.filter_some, if_pos (decide_eq_true hlt), Option.map_some, Option.some_inj,
        Option.some_inj, ← UInt32.toNat_inj, Index.toNat_toUInt32 howner]
      exact ⟨fun heq => ⟨heq, heq ▸ hlt⟩, And.left⟩
    · rw [Option.filter_some, if_neg (by simpa using hlt), Option.map_none, Option.some_inj]
      exact iff_of_false (by rintro ⟨⟩) fun ⟨heq, hslot⟩ => hlt (heq ▸ hslot)

/-- A pair that is not the first to hold a key adds none to the index. -/
theorem Collected.raw?_eq_succ {key : UInt64}
    (hother : start.liveRows.findIdx? (holds key) ≠ some k) :
    pairs.index.raw? key
      = ((start.liveRows.findIdx? (holds key)).filter (· < k + 1)).map Nat.toUInt32 := by
  rw [h.raw?_eq]
  cases hfirst : start.liveRows.findIdx? (holds key) with
  | none => rfl
  | some owner =>
    have hne : owner ≠ k := fun heq => hother (heq ▸ hfirst)
    have hlt : owner < k + 1 ↔ owner < k := by omega
    simp only [Option.filter_some, hlt]

/-- A pair without count is passed over. -/
theorem Collected.skip (hrow : start.liveRows[k]? = some row) (hspent : row.isSpent = true) :
    Collected start (k + 1) pairs := by
  refine ⟨h.sound, h.name_eq, h.allocator_eq, h.capacity_index_eq, h.vacant.trans (Nat.le_succ _),
    fun key => h.raw?_eq_succ fun hfirst => ?_, fun slot => ?_⟩
  · obtain ⟨row', hrow', hspent', -⟩ := exists_of_findIdx? hfirst
    rw [hrow] at hrow'
    cases hrow'
    rw [hspent] at hspent'
    cases hspent'
  · rw [h.row?_eq]
    refine Option.map_congr fun row' hrow' => (settle_succ_of_isSpent hrow hspent ?_).symm
    rintro rfl
    exact Option.some.inj (hrow'.symm.trans (Pool.row?_of_liveRows hrow))

/-- The first pair of a key takes it. -/
theorem Collected.enter (hrow : start.liveRows[k]? = some row)
    (hfirst : start.liveRows.findIdx? (holds row.words.key) = some k) {index : Index}
    (hw : Index.Written pairs.index index row.words.key (some k.toUInt32))
    (hvacancies : index.vacancies + 1 = pairs.index.vacancies) :
    Collected start (k + 1)
      ⟨pairs.name, pairs.rows, pairs.allocator, index, pairs.rows_size⟩ := by
  refine ⟨hw.sound, h.name_eq, h.allocator_eq, hw.capacity_eq.trans h.capacity_index_eq, ?_,
    fun key => ?_, fun slot => ?_⟩
  · have hvacant := h.vacant
    show index.capacity ≤ index.vacancies + (k + 1)
    rw [hw.capacity_eq]
    omega
  · rw [hw.raw?_eq]
    by_cases hkey : key = row.words.key
    · rw [if_pos hkey, hkey, hfirst, Option.filter_some, if_pos (decide_eq_true k.lt_succ_self)]
      rfl
    · rw [if_neg hkey]
      refine h.raw?_eq_succ fun hfirst' => hkey ?_
      obtain ⟨row', hrow', -, hkey'⟩ := exists_of_findIdx? hfirst'
      rw [hrow] at hrow'
      cases hrow'
      exact hkey'.symm
  · refine (h.row?_eq slot).trans (Option.map_congr fun row' hrow' =>
      (settle_succ_of_first hrow hfirst ?_).symm)
    rintro rfl
    exact Option.some.inj (hrow'.symm.trans (Pool.row?_of_liveRows hrow))

/-- A later pair of a key hands its count over and is left without. -/
theorem Collected.merge (hrow : start.liveRows[k]? = some row) (hspent : row.isSpent = false)
    {owner : ℕ} (hlater : start.liveRows.findIdx? (holds row.words.key) = some owner)
    (howner : owner < k) : Collected start (k + 1) (Tally.merge k owner row.count pairs) := by
  have hk := Pool.lt_used_of_liveRows hrow
  refine ⟨h.sound, h.name_eq, h.allocator_eq, h.capacity_index_eq, h.vacant.trans (Nat.le_succ _),
    fun key => h.raw?_eq_succ fun hfirst => ?_, fun slot => ?_⟩
  · obtain ⟨row', hrow', -, hkey⟩ := exists_of_findIdx? hfirst
    rw [hrow] at hrow'
    cases hrow'
    rw [hkey, hfirst] at hlater
    exact howner.ne (Option.some.inj hlater).symm
  · unfold Tally.merge
    dsimp only
    rw [Pool.row?_modify, Pool.row?_modify, h.row?_eq]
    cases hslot : start.row? slot with
    | none => simp
    | some row' =>
      have hlive (hle : slot ≤ k) : start.liveRows[slot]? = some row' := by
        rw [Pool.liveRows_getElem? (hle.trans_lt hk), hslot]
      rw [Option.map_some, Option.map_some, Option.map_some,
        settle_succ_of_later hrow hspent hlater howner hlive]
      by_cases howns : owner = slot <;> by_cases hself : k = slot <;> simp [howns, hself]

/-- Everything that one more pair can do: it is passed over, it takes its key, or it hands its count
to the pair that has the key. -/
theorem Collected.step (hle : start.capacity ≤ maxPoolCapacity.toNat)
    (hroom : start.capacity ≤ start.index.capacity) (hrow : start.liveRows[k]? = some row) :
    (row.isSpent = true ∧ Tally.reindexPair k pairs = .ok false pairs
        ∧ Collected start (k + 1) pairs)
      ∨ row.isSpent = false
        ∧ ((∃ index, Tally.reindexPair k pairs
              = .ok false ⟨pairs.name, pairs.rows, pairs.allocator, index, pairs.rows_size⟩
            ∧ Collected start (k + 1)
              ⟨pairs.name, pairs.rows, pairs.allocator, index, pairs.rows_size⟩)
          ∨ ∃ owner, owner < k
            ∧ start.liveRows.findIdx? (holds row.words.key) = some owner
            ∧ Tally.reindexPair k pairs = .ok true (Tally.merge k owner row.count pairs)
            ∧ Collected start (k + 1) (Tally.merge k owner row.count pairs)) := by
  have hk := Pool.lt_used_of_liveRows hrow
  have hk' := hk.trans_le start.used_le_capacity
  have hrow' : pairs.row? k = some row := by
    rw [h.ahead le_rfl, Pool.row?_of_liveRows hrow]
  have howner owner (hraw : pairs.index.raw? row.words.key = some owner) :
      owner.toNat < maxPoolCapacity.toNat :=
    (((h.raw?_eq_some_iff hle).mp hraw).2.trans hk').trans_le hle
  rcases Tally.reindexPair_cases h.sound hrow' howner with ⟨hspent, hpair⟩ |
    ⟨hspent, ⟨index, hraw, hw, hvacancies, hpair⟩ | ⟨owner, hraw, hpair⟩ | ⟨hfull, -⟩⟩
  · exact .inl ⟨hspent, hpair, h.skip hrow hspent⟩
  · -- no pair before holds the key
    obtain ⟨owner, howner', hfirst⟩ := exists_findIdx?_le hrow hspent
    rcases howner'.eq_or_lt with rfl | hlt
    · exact .inr ⟨hspent, .inl ⟨index, hpair, h.enter hrow hfirst hw hvacancies⟩⟩
    · rw [h.raw?_eq, hfirst, Option.filter_some, if_pos (decide_eq_true hlt)] at hraw
      cases hraw
  · obtain ⟨hlater, hlt⟩ := (h.raw?_eq_some_iff hle).mp hraw
    exact .inr ⟨hspent, .inr ⟨owner.toNat, hlt, hlater, hpair, h.merge hrow hspent hlater hlt⟩⟩
  · have hvacant := h.vacant
    have hcapacity := h.capacity_index_eq
    omega

end Collected

end PairPool

/-! ### All pairs -/

namespace Tally

variable {s : Logged (Tally α)}

/-- Rebuilding the index answers if every pair does, with what all pairs before have kept. -/
theorem exists_reindexPairs_of_step {P : ℕ → List Bool → PairPool α → Prop}
    (hstart : P 0 [] s.state.pairs.clearIndex)
    (hstep : ∀ (k : ℕ) (answers : List Bool) (pairs : PairPool α), k < s.state.pairs.used →
      P k answers pairs → ∃ answer pairs', reindexPair k pairs = .ok answer pairs'
        ∧ P (k + 1) (answers ++ [answer]) pairs') :
    ∃ answers s', reindexPairs s = .ok (answers.countP id) s'
      ∧ s'.state.words = s.state.words ∧ s'.state.total = s.state.total
      ∧ s'.log = s.log.start s.state.pairs.used
      ∧ P s.state.pairs.used answers s'.state.pairs := by
  obtain ⟨answers, t, hloop, hwords, htotal, hend⟩ :
      ∃ answers t, (List.range s.state.pairs.used).mapM (fun slot => onPairs (reindexPair slot))
          ⟨s.state.words, s.state.pairs.clearIndex, s.state.total⟩ = .ok answers t
        ∧ t.words = s.state.words ∧ t.total = s.state.total
        ∧ P s.state.pairs.used answers t.pairs := by
    refine mapM_range_ok_exists (P := fun k answers (t : Tally α) => t.words = s.state.words
      ∧ t.total = s.state.total ∧ P k answers t.pairs) ⟨rfl, rfl, hstart⟩ ?_
    intro k answers t hk hdone
    obtain ⟨hwords, htotal, hP⟩ := hdone
    obtain ⟨answer, pairs', hpair, hnext⟩ := hstep k answers t.pairs hk hP
    exact ⟨answer, _, onPairs_eq_ok_iff.mpr ⟨pairs', hpair, rfl⟩, hwords, htotal, hnext⟩
  refine ⟨answers, ⟨t, s.log.start s.state.pairs.used⟩, ?_, hwords, htotal, rfl, hend⟩
  exact reindexPairs_eq_ok_iff.mpr ⟨answers, dispatch_eq_ok_iff.mpr ⟨hloop, by
    rw [List.length_range]⟩, rfl⟩

/-- Rebuilding the index always answers, if there are as many slots in the index and as many numbers
as there are slots. -/
theorem exists_collected (hle : s.state.pairs.capacity ≤ maxPoolCapacity.toNat)
    (hroom : s.state.pairs.capacity ≤ s.state.pairs.index.capacity) :
    ∃ n s', reindexPairs s = .ok n s' ∧ s'.state.words = s.state.words
      ∧ s'.state.total = s.state.total
      ∧ PairPool.Collected s.state.pairs s.state.pairs.used s'.state.pairs := by
  obtain ⟨answers, s', hrun, hwords, htotal, -, hcollected⟩ := exists_reindexPairs_of_step
    (P := fun k _ pairs => PairPool.Collected s.state.pairs k pairs)
    (PairPool.collected_clearIndex _) fun k _ pairs hk h => by
      obtain ⟨row, -, hrow⟩ := Pool.exists_liveRow hk
      rcases h.step hle hroom hrow with ⟨-, hrun, hnext⟩ |
        ⟨-, ⟨index, hrun, hnext⟩ | ⟨owner, -, -, hrun, hnext⟩⟩
      all_goals exact ⟨_, _, hrun, hnext⟩
  exact ⟨answers.countP id, s', hrun, hwords, htotal, hcollected⟩

end Tally

end CorpusStats
