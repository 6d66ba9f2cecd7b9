import CorpusStats.Proofs.Room
import CorpusStats.Proofs.Tally.Collected
import CorpusStats.Proofs.Tally.Pairs
/-!
# CorpusStats.Proofs.Tally.Refilled

Rebuilding the index of pairs, seen from the pairs that it started with.

* Pairs are an intact pool after every stage (`PairPool.persists_intact`), and rebuilding their
  index always answers: cleared, it has a vacant slot for every pair, whatever keys were
  marked in it before (`Tally.exists_reindexPairs_of_intact`).
* Which pairs are merged away can be told before: those with a count whose key an earlier pair
  with a count has too (`PairRow.HandsOver`). Each of the others keeps its row, unless it is
  given a count, which makes it dirty (`PairPool.Refilled`).

Nothing is asked of the weights.
-/

namespace CorpusStats

open Stage

variable {α : Type} [Weight α]

namespace PairPool

open Pool

/-! ### Asking for pairs -/

theorem persists_intact : Persists (fun _ => True) (Intact (ρ := PairRow α)) where
  slotOf pairs a b _ _ h := by
    rcases h.findOrCreate_cases (WordPair.of a b).key
        (fun row : PairRow α => { row with
          wordA := (WordPair.of a b).first, wordB := (WordPair.of a b).second }) with
      ⟨slot, created, pairs', hrun, h', hlt, -⟩ | ⟨e, pairs', hrun, h', -⟩
    · exact .inl ⟨slot, created, pairs', hrun, h', hlt⟩
    · exact .inr ⟨e, pairs', hrun, h'⟩
  write _ _ f hslot _ _ h := h.modify hslot f
  mapped _ _ _ hmapped _ h := h.mapped hmapped

end PairPool

/-! ### Rebuilding the index -/

/-- The pair in a slot has a count, and so has an earlier pair with its key. -/
def PairRow.HandsOver (rows : List (PairRow α)) (slot : ℕ) : Prop :=
  ∃ row owner earlier, rows[slot]? = some row ∧ row.isSpent = false ∧ owner < slot
    ∧ rows[owner]? = some earlier ∧ earlier.isSpent = false
    ∧ earlier.words.key = row.words.key

theorem PairRow.handsOver_iff {rows : List (PairRow α)} {slot : ℕ} {row : PairRow α}
    (hrow : rows[slot]? = some row) : HandsOver rows slot ↔
      row.isSpent = false ∧ rows.findIdx? (holds row.words.key) ≠ some slot := by
  constructor
  · intro h
    obtain ⟨row', owner, earlier, hrow', hspent, howner, hearlier, hspent', hkey⟩ := h
    obtain rfl : row' = row := Option.some.inj (hrow'.symm.trans hrow)
    obtain ⟨first, hle, hfirst⟩ := exists_findIdx?_le hearlier hspent'
    rw [← hkey, hfirst]
    exact ⟨hspent, fun heq => (hle.trans_lt howner).ne (Option.some.inj heq)⟩
  · intro h
    obtain ⟨hspent, hlater⟩ := h
    obtain ⟨owner, hle, hfirst⟩ := exists_findIdx?_le hrow hspent
    obtain ⟨earlier, hearlier, hspent', hkey⟩ := exists_of_findIdx? hfirst
    have hne : owner ≠ slot := fun heq => hlater (heq ▸ hfirst)
    exact ⟨row, owner, earlier, hrow, hspent, lt_of_le_of_ne hle hne, hearlier, hspent', hkey⟩

namespace PairPool

open PairRow Pool

/-- What rebuilding leaves of the row of a slot that it has come to: the row is dirty, or it was
merged away, or it is as it was. -/
def Settled (rows : List (PairRow α)) (slot : ℕ) (row : PairRow α) : Prop :=
  row.isDirty = true
    ∨ (PairRow.HandsOver rows slot ∧ row.count = 0 ∧ row.score = 0)
    ∨ (¬ PairRow.HandsOver rows slot ∧ rows[slot]? = some row)

/-- The index of `start` is rebuilt from its first `k` pairs. -/
structure Refilled (start : PairPool α) (k : ℕ) (pairs : PairPool α) : Prop where
  sound : pairs.index.Sound
  tidy : pairs.Tidy
  capacity_eq : pairs.capacity = start.capacity
  capacity_le_index : pairs.capacity ≤ pairs.index.capacity
  used_eq : pairs.used = start.used
  /-- Every pair takes one vacant slot of the index at most. -/
  vacant : pairs.index.capacity ≤ pairs.index.vacancies + k
  leads : ∀ key slot, pairs.index.raw? key = some slot → slot.toNat < k
  /-- The keys that the index has are those of the pairs with a count. -/
  known : ∀ key, (pairs.index.raw? key).isSome = true ↔ ∃ slot row, slot < k
    ∧ start.liveRows[slot]? = some row ∧ row.isSpent = false ∧ row.words.key = key
  ahead : ∀ slot, k ≤ slot → pairs.liveRows[slot]? = start.liveRows[slot]?
  done : ∀ slot row, slot < k → pairs.liveRows[slot]? = some row →
    Settled start.liveRows slot row

variable {start pairs : PairPool α} {k : ℕ} {row : PairRow α}

/-- A row that was gone through is dirty if it was given a count. -/
theorem settled_settle {rows : List (PairRow α)} {slot : ℕ} (hrow : rows[slot]? = some row)
    (hslot : slot < k) : Settled rows slot (settle rows k slot row) := by
  cases hspent : row.isSpent with
  | true =>
    rw [settle_of_isSpent hspent]
    refine .inr (.inr ⟨fun hhands => ?_, hrow⟩)
    rw [((handsOver_iff hrow).mp hhands).1] at hspent
    cases hspent
  | false =>
    by_cases hfirst : rows.findIdx? (holds row.words.key) = some slot
    · rw [settle_of_first hspent hslot hfirst]
      by_cases hothers : ((rows.take k).drop (slot + 1)).filter (holds row.words.key) = []
      · rw [hothers]
        exact .inr (.inr ⟨fun hhands => ((handsOver_iff hrow).mp hhands).2 hfirst, hrow⟩)
      · exact .inl (isDirty_collect hothers row)
    · rw [settle_of_later hspent hslot hfirst]
      exact .inr (.inl ⟨(handsOver_iff hrow).mpr ⟨hspent, hfirst⟩, rfl, rfl⟩)

/-- What rebuilding does to the rows of an intact pool says which keys it has and which of its rows
are as they were. -/
theorem Collected.refilled (h : Collected start k pairs) (hstart : start.Intact)
    (hk : k ≤ start.used) : Refilled start k pairs where
  sound := h.sound
  tidy := h.tidy hstart.tidy hk
  capacity_eq := h.capacity_eq
  capacity_le_index := by
    rw [h.capacity_eq, h.capacity_index_eq]
    exact hstart.capacity_le_index
  used_eq := h.used_eq
  vacant := h.vacant
  leads key slot hraw := ((h.raw?_eq_some_iff hstart.capacity_le).mp hraw).2
  known key := by
    rw [Option.isSome_iff_exists]
    constructor
    · intro hsome
      obtain ⟨slot, hraw⟩ := hsome
      obtain ⟨hfirst, hlt⟩ := (h.raw?_eq_some_iff hstart.capacity_le).mp hraw
      obtain ⟨row, hrow, hspent, hkey⟩ := exists_of_findIdx? hfirst
      exact ⟨slot.toNat, row, hlt, hrow, hspent, hkey⟩
    · intro hpair
      obtain ⟨slot, row, hlt, hrow, hspent, rfl⟩ := hpair
      obtain ⟨owner, hle, hfirst⟩ := exists_findIdx?_le hrow hspent
      refine ⟨owner.toUInt32, ?_⟩
      rw [h.raw?_eq, hfirst, Option.filter_some, if_pos (decide_eq_true (hle.trans_lt hlt)),
        Option.map_some]
  ahead slot hslot := by
    have hsettle : settle start.liveRows k slot = id := funext fun row => settle_of_le hslot
    rw [h.liveRows_getElem?, hsettle, Option.map_id, id]
  done slot row hslot hrow := by
    rw [h.liveRows_getElem?] at hrow
    obtain ⟨old, hold, rfl⟩ := Option.map_eq_some_iff.mp hrow
    exact settled_settle hold hslot

/-- A pool whose index is rebuilt is intact. -/
theorem Refilled.intact (h : Refilled start start.used pairs) (hstart : start.Intact) :
    pairs.Intact := by
  refine ⟨⟨h.sound, h.capacity_eq.trans_le hstart.capacity_le, h.capacity_le_index,
    fun key slot hraw => .inl ?_, fun _ => ?_⟩, h.tidy⟩
  · rw [h.used_eq]
    exact h.leads key slot hraw
  · rw [h.used_eq]
    exact h.capacity_le_index.trans h.vacant

/-- A clean pair was merged away or is as it was. -/
theorem Refilled.settled_of_clean (h : Refilled start start.used pairs) {slot : ℕ}
    (hrow : pairs.liveRows[slot]? = some row) (hclean : row.isDirty = false) :
    (PairRow.HandsOver start.liveRows slot ∧ row.count = 0 ∧ row.score = 0)
      ∨ ¬ PairRow.HandsOver start.liveRows slot ∧ start.liveRows[slot]? = some row := by
  have hlt := (List.getElem?_eq_some_iff.mp hrow).1
  rw [Pool.length_liveRows, h.used_eq] at hlt
  rcases h.done slot row hlt hrow with hdirty | hsettled
  · rw [hclean] at hdirty
    cases hdirty
  · exact hsettled

end PairPool

namespace Tally

/-- Rebuilding the index of intact pairs always answers, and leaves them intact. -/
theorem exists_reindexPairs_of_intact {s : Logged (Tally α)} (h : s.state.pairs.Intact) :
    ∃ n s', reindexPairs s = .ok n s' ∧ s'.state.words = s.state.words
      ∧ s'.state.total = s.state.total
      ∧ PairPool.Refilled s.state.pairs s.state.pairs.used s'.state.pairs := by
  obtain ⟨n, s', hrun, hwords, htotal, hcollected⟩ :=
    exists_collected h.capacity_le h.capacity_le_index
  exact ⟨n, s', hrun, hwords, htotal, hcollected.refilled h le_rfl⟩

theorem refilled_reindexPairs {s : Logged (Tally α)} (h : s.state.pairs.Intact) :
    PairPool.Refilled s.state.pairs s.state.pairs.used
      (outcome reindexPairs s).2.state.pairs := by
  obtain ⟨n, s', hrun, -, -, hrefilled⟩ := exists_reindexPairs_of_intact h
  rwa [outcome_of_ok hrun]

end Tally

end CorpusStats
