import CorpusStats.Proofs.Lift
import CorpusStats.Proofs.Tally.Observing
import CorpusStats.Proofs.Tally.Sweeps
/-!
# CorpusStats.Proofs.Tally.Filled

What recomputing the books does, word by word.

The marginal counts are cleared in a first pass and filled again in a second one, which checks the
words of a pair only when it comes to it. After `k` pairs every word has the counts of those pairs
(`Tally.Filled`), whatever the weights are and however they round. The second pass either comes to its
end or stops at a pair with a count and a word beyond the arena (`Tally.Filled.refused`).
-/

namespace CorpusStats

open Stage

variable {α : Type} [Weight α]

/-! ### Sums over ends -/

namespace PairRow

/-- A sum to which the count of a pair was added once for every end that the word of a slot is. -/
def addTo (slot : ℕ) (sum : α) (row : PairRow α) : α :=
  let sum := if row.wordA.toNat = slot then sum + row.count else sum
  if row.wordB.toNat = slot then sum + row.count else sum

/-- The counts of the pairs that have one, added up over the ends that the word of a slot is, in
the order of the pairs. -/
def sumAt (rows : List (PairRow α)) (slot : ℕ) : α :=
  (rows.filter fun row => !row.isSpent).foldl (addTo slot) 0

theorem sumAt_concat_of_isSpent {row : PairRow α} (h : row.isSpent = true)
    (rows : List (PairRow α)) (slot : ℕ) : sumAt (rows ++ [row]) slot = sumAt rows slot := by
  simp [sumAt, h]

theorem sumAt_concat {row : PairRow α} (h : row.isSpent = false) (rows : List (PairRow α))
    (slot : ℕ) : sumAt (rows ++ [row]) slot = row.addTo slot (sumAt rows slot) := by
  simp [sumAt, h]

end PairRow

open PairRow (sumAt)

namespace Tally

theorem row?_addToEnds_addTo (words : WordPool α) (row : PairRow α) (slot : ℕ) :
    (addToEnds row.count (row.wordA.toNat, row.wordB.toNat) words).row? slot
      = (words.row? slot).map fun word => { word with count := row.addTo slot word.count } := by
  rw [addToEnds, Pool.row?_modify, Pool.row?_modify]
  unfold PairRow.addTo
  by_cases ha : row.wordA.toNat = slot <;> by_cases hb : row.wordB.toNat = slot <;>
    simp [ha, hb, Function.comp_def]

/-! ### Half-filled books -/

/-- The marginal counts of `t` are those of the first `k` pairs of `t₀`, all of whose words are
words of the arena if they have a count. Everything else is as in `t₀`. -/
structure Filled (t₀ t : Tally α) (k : ℕ) : Prop where
  pairs_eq : t.pairs = t₀.pairs
  total_eq : t.total = t₀.total
  name_eq : t.words.name = t₀.words.name
  allocator_eq : t.words.allocator = t₀.words.allocator
  index_eq : t.words.index = t₀.words.index
  row_eq : ∀ slot, t.words.row? slot = (t₀.words.row? slot).map fun word =>
    { word with count := sumAt (t₀.pairs.liveRows.take k) slot }
  ends_lt : ∀ row ∈ t₀.pairs.liveRows.take k, row.isSpent = false →
    row.wordA.toNat < t₀.words.capacity ∧ row.wordB.toNat < t₀.words.capacity

variable {t₀ t t' : Tally α} {k : ℕ}

theorem clearCounts_eq (t : Tally α) : t.clearCounts = ⟨(List.range t.words.capacity).foldl
    (fun words slot => words.modify slot fun word => { word with count := 0 }) t.words,
    t.pairs, t.total⟩ := by
  obtain ⟨words, pairs, total⟩ := t
  exact List.foldl_hom (fun words => (⟨words, pairs, total⟩ : Tally α)) fun _ _ => rfl

theorem filled_clearCounts (t : Tally α) : Filled t t.clearCounts 0 := by
  obtain ⟨hname, hallocator, hindex, hrow⟩ := t.words.row?_foldl_modify
    (fun word : WordRow α => { word with count := 0 }) t.words.capacity
  rw [clearCounts_eq]
  refine ⟨rfl, rfl, hname, hallocator, hindex, fun slot => ?_, by simp⟩
  rw [hrow]
  by_cases hslot : slot < t.words.capacity
  · rw [if_pos hslot]
    rfl
  · rw [if_neg hslot, Pool.row?_eq_none (not_lt.mp hslot)]
    rfl

theorem Filled.capacity_eq (h : Filled t₀ t k) : t.words.capacity = t₀.words.capacity := by
  rw [Pool.capacity, h.allocator_eq, Pool.capacity]

theorem Filled.row?_eq (h : Filled t₀ t k) {row : PairRow α}
    (hrow : t₀.pairs.liveRows[k]? = some row) : t.pairs.row? k = some row := by
  rw [h.pairs_eq, Pool.row?_of_liveRows hrow]

/-- A pair without count adds nothing. -/
theorem Filled.skip (h : Filled t₀ t k) {row : PairRow α}
    (hrow : t₀.pairs.liveRows[k]? = some row) (hspent : row.isSpent = true) :
    Filled t₀ t (k + 1) := by
  have htake := take_succ_of_getElem? hrow
  refine { h with row_eq := fun slot => ?_, ends_lt := ?_ }
  · rw [h.row_eq, htake]
    simp only [PairRow.sumAt_concat_of_isSpent hspent]
  · rw [htake]
    refine List.forall_mem_append.mpr ⟨h.ends_lt, List.forall_mem_singleton.mpr fun hcount => ?_⟩
    rw [hspent] at hcount
    cases hcount

/-- A pair with a count adds it to the words that it names. -/
theorem Filled.add (h : Filled t₀ t k) {row : PairRow α}
    (hrow : t₀.pairs.liveRows[k]? = some row) (hspent : row.isSpent = false)
    (ha : row.wordA.toNat < t.words.capacity) (hb : row.wordB.toNat < t.words.capacity) :
    Filled t₀ ⟨addToEnds row.count (row.wordA.toNat, row.wordB.toNat) t.words, t.pairs, t.total⟩
      (k + 1) := by
  have htake := take_succ_of_getElem? hrow
  refine ⟨h.pairs_eq, h.total_eq, h.name_eq, h.allocator_eq, h.index_eq, fun slot => ?_, ?_⟩
  · rw [row?_addToEnds_addTo, h.row_eq, htake, Option.map_map]
    simp only [PairRow.sumAt_concat hspent]
    rfl
  · rw [h.capacity_eq] at ha hb
    rw [htake]
    exact List.forall_mem_append.mpr ⟨h.ends_lt, List.forall_mem_singleton.mpr fun _ => ⟨ha, hb⟩⟩

/-- The next pair is passed over, or added to the words that it names. -/
theorem Filled.step (h : Filled t₀ t k) (hk : k < t₀.pairs.used) {count : Option α}
    (hrun : spreadCount k t = .ok count t') : Filled t₀ t' (k + 1) := by
  obtain ⟨row, -, hrow⟩ := Pool.exists_liveRow hk
  rcases spreadCount_cases k t with
    ⟨hspent, hok⟩ | ⟨row', hrow', hspent, ⟨ends, hends, hok⟩ | ⟨e, -, herror⟩⟩
  · rw [hok] at hrun
    cases hrun
    exact h.skip hrow (hspent row (h.row?_eq hrow))
  · obtain rfl : row' = row := Option.some.inj (hrow'.symm.trans (h.row?_eq hrow))
    obtain ⟨row, hrow'', ha, hb, rfl⟩ := endsOf_eq_ok_iff.mp hends
    obtain rfl : row' = row := Option.some.inj (hrow'.symm.trans hrow'')
    rw [hok] at hrun
    cases hrun
    exact h.add hrow hspent ha hb
  · rw [herror] at hrun
    cases hrun

/-- A refused pair leaves everything as it is. It has a count, and the failure names the first of
its words that is beyond the arena. -/
theorem Filled.refused (h : Filled t₀ t k) {e : Error} (hrun : spreadCount k t = .error e t') :
    t' = t ∧ ∃ row, t₀.pairs.row? k = some row ∧ row.isSpent = false
      ∧ ∃ word, [row.wordA, row.wordB].find? (t₀.words.capacity ≤ ·.toNat) = some word
        ∧ e = .malformed (.idBeyond t₀.words.name word.toNat t₀.words.capacity) := by
  rw [← h.pairs_eq, ← h.name_eq, ← h.capacity_eq]
  rcases spreadCount_cases k t with
    ⟨-, hok⟩ | ⟨row, hrow, hspent, ⟨ends, -, hok⟩ | ⟨e', hends, herror⟩⟩
  · rw [hok] at hrun
    cases hrun
  · rw [hok] at hrun
    cases hrun
  · rw [herror] at hrun
    cases hrun
    exact ⟨rfl, row, hrow, hspent, (endsOf_eq_error_iff hrow).mp hends⟩

/-- Recomputing the books that fails has stopped at a pair, with the pairs before it filled in. -/
theorem exists_filled_of_rebuildTotals {s s' : Logged (Tally α)} {e : Error}
    (hrun : rebuildTotals s = .error e s') :
    ∃ slot t, spreadCount slot t = .error e s'.state ∧ slot < s.state.pairs.used
      ∧ Filled s.state t slot
      ∧ s'.log = ((s.log.start s.state.words.capacity).start s.state.pairs.used).fail e := by
  rw [rebuildTotals_eq] at hrun
  split at hrun
  · cases hrun
  · rename_i e' s₁ hdispatch
    cases hrun
    obtain ⟨hloop, hlog⟩ := dispatch_eq_error_iff.mp hdispatch
    obtain ⟨slot, counts, t, hslot, hdone, hstep⟩ := exists_of_mapM_range_eq_error hloop
    refine ⟨slot, t, hstep, hslot, ?_, by simpa using hlog⟩
    exact mapM_range_ok_induction (P := fun k _ t => Filled s.state t k) hdone
      s.state.filled_clearCounts fun k _ t _ t' hk h hrun => h.step (hk.trans hslot) hrun

/-- Recomputing the books that answers has filled in all pairs. -/
theorem exists_filled_of_rebuildTotals_ok {s s' : Logged (Tally α)} {total : UInt64}
    (hrun : rebuildTotals s = .ok total s') :
    ∃ t, Filled s.state t s.state.pairs.used ∧ s'.state = ⟨t.words, t.pairs, total⟩ := by
  rw [rebuildTotals_eq] at hrun
  split at hrun
  · rename_i counts s₁ hdispatch
    cases hrun
    refine ⟨s₁.state, ?_, rfl⟩
    exact mapM_range_ok_induction (P := fun k _ t => Filled s.state t k)
      (dispatch_eq_ok_iff.mp hdispatch).1 s.state.filled_clearCounts
      fun k _ t _ t' hk h hrun => h.step hk hrun
  · cases hrun

end Tally

end CorpusStats
