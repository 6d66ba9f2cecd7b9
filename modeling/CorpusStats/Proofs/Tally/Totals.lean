import CorpusStats.Proofs.Tally.Balance
import CorpusStats.Proofs.Tally.Filled
import CorpusStats.Tally.Folding
/-!
# CorpusStats.Proofs.Tally.Totals

Recomputing the books from the pairs alone.

* The marginal counts are cleared first and then filled pair by pair; after `k` slots they
  are the sums over the first `k` pairs (`Tally.Spread`), whatever they were before.
* A pair can only be refused if it has a count and a word beyond the arena
  (`Spread.step`). Balanced books have no such pair, so recomputing them always succeeds
  and finds what is there (`Balanced.rebuildTotals`).
-/

namespace CorpusStats

variable {α : Type} [Field α] [LinearOrder α] [FloorSemiring α] [RootLog α]

namespace Tally

/-! ### Clearing the marginal counts -/

theorem marginal_of_capacity_le {words : WordPool α} {word : UInt32}
    (h : words.capacity ≤ word.toNat) : WordPool.marginal words word = 0 := by
  rw [WordPool.marginal, Pool.row?_eq_none h]

theorem marginal_clearCounts (t : Tally α) (word : UInt32) :
    WordPool.marginal t.clearCounts.words word = 0 := by
  rw [WordPool.marginal, t.filled_clearCounts.row_eq]
  cases t.words.row? word.toNat <;> rfl

/-! ### Filling them from the pairs -/

/-- The marginal counts of `t` are those of the first `k` pairs of `t₀`, and `counts` are
their counts. -/
structure Spread (t₀ t : Tally α) (k : ℕ) (counts : List (Option α)) : Prop where
  pairs_eq : t.pairs = t₀.pairs
  total_eq : t.total = t₀.total
  capacity_eq : t.words.capacity = t₀.words.capacity
  sum_eq : countSum counts = massOf (t₀.pairs.liveRows.take k)
  marginal_eq : ∀ word : UInt32, word.toNat < t₀.words.capacity →
    WordPool.marginal t.words word = endMassOf (t₀.pairs.liveRows.take k) word

theorem spread_clearCounts (t : Tally α) : Spread t t.clearCounts 0 [] := by
  have h := t.filled_clearCounts
  exact ⟨h.pairs_eq, h.total_eq, h.capacity_eq, rfl, fun word _ => t.marginal_clearCounts word⟩

theorem Spread.skip {t₀ t : Tally α} {k : ℕ} {counts : List (Option α)}
    (h : Spread t₀ t k counts) {row : PairRow α} (hrow : t₀.pairs.liveRows[k]? = some row)
    (hcount : row.count = 0) : Spread t₀ t (k + 1) (counts ++ [none]) := by
  have htake := take_succ_of_getElem? hrow
  refine ⟨h.pairs_eq, h.total_eq, h.capacity_eq, ?_, fun word hword => ?_⟩
  · rw [htake, massOf_concat, hcount, add_zero, countSum_concat_none]
    exact h.sum_eq
  · rw [htake, endMassOf_concat, hcount, zero_mul, add_zero]
    exact h.marginal_eq word hword

theorem Spread.add {t₀ t : Tally α} {k : ℕ} {counts : List (Option α)} (h : Spread t₀ t k counts)
    {row : PairRow α} (hrow : t₀.pairs.liveRows[k]? = some row)
    (ha : row.wordA.toNat < t.words.capacity) (hb : row.wordB.toNat < t.words.capacity) :
    Spread t₀ ⟨addToEnds row.count (row.wordA.toNat, row.wordB.toNat) t.words, t.pairs, t.total⟩
      (k + 1) (counts ++ [some row.count]) := by
  have htake := take_succ_of_getElem? hrow
  refine ⟨h.pairs_eq, h.total_eq, h.capacity_eq, ?_, fun word hword => ?_⟩
  · rw [htake, massOf_concat, countSum_concat_some, h.sum_eq]
  · rw [htake, endMassOf_concat, marginal_addToEnds t.words ha hb, h.marginal_eq word hword]

/-- The next pair is added, or refused if it has a count and a word beyond the arena. -/
theorem Spread.step {t₀ t : Tally α} {k : ℕ} {counts : List (Option α)} (h : Spread t₀ t k counts)
    {row : PairRow α} (hrow : t₀.pairs.liveRows[k]? = some row) (hcount : 0 ≤ row.count) :
    (∃ c t', spreadCount k t = .ok c t' ∧ Spread t₀ t' (k + 1) (counts ++ [c]))
      ∨ ∃ e, spreadCount k t = .error e t ∧ row.count ≠ 0
        ∧ ¬ (row.wordA.toNat < t₀.words.capacity ∧ row.wordB.toNat < t₀.words.capacity) := by
  have hrow' : t.pairs.row? k = some row := by rw [h.pairs_eq, Pool.row?_of_liveRows hrow]
  rcases spreadCount_cases k t with ⟨hspent, hrun⟩ | ⟨row', hrow'', hspent, hends⟩
  · have hle : row.count ≤ 0 := of_decide_eq_true (hspent row hrow')
    exact .inl ⟨none, t, hrun, h.skip hrow (le_antisymm hle hcount)⟩
  · obtain rfl : row' = row := Option.some.inj (hrow''.symm.trans hrow')
    rcases hends with ⟨ends, hends, hrun⟩ | ⟨e, hends, hrun⟩
    · obtain ⟨row, hrow'', ha, hb, rfl⟩ := endsOf_eq_ok_iff.mp hends
      obtain rfl : row' = row := Option.some.inj (hrow'.symm.trans hrow'')
      exact .inl ⟨_, _, hrun, h.add hrow ha hb⟩
    · refine .inr ⟨e, hrun, fun hzero => of_decide_eq_false hspent hzero.le, fun hlt => ?_⟩
      -- the ends are looked up in the words as they are now, which are as many as before
      rw [← h.capacity_eq] at hlt
      rw [endsOf_eq_ok_iff.mpr ⟨row', hrow', hlt.1, hlt.2, rfl⟩] at hends
      cases hends

/-! ### Recomputing the books -/

variable [IsStrictOrderedRing α]

/-- Once all pairs are added, the books are in step. -/
theorem Spread.inStep {t₀ t : Tally α} {counts : List (Option α)}
    (h : Spread t₀ t t₀.pairs.used counts)
    (hnatural : ∀ row ∈ t₀.pairs.liveRows, ∃ n : ℕ, row.count = n)
    (hmass : massOf t₀.pairs.liveRows < 2 ^ 64) :
    InStep ⟨t.words, t.pairs, Weight.toTotal (countSum counts)⟩ := by
  have hall : t₀.pairs.liveRows.take t₀.pairs.used = t₀.pairs.liveRows :=
    List.take_of_length_le t₀.pairs.length_liveRows.le
  obtain ⟨hpairs, -, hcapacity, hsum, hmarginal⟩ := h
  rw [hall] at hsum hmarginal
  refine ⟨?_, fun word hword => ?_⟩
  · obtain ⟨n, hn⟩ := massOf_eq_natCast hnatural
    have hlt : n < 2 ^ 64 := by
      rw [hn] at hmass
      exact_mod_cast hmass
    show ((Weight.toTotal (countSum counts)).toNat : α) = massOf t.pairs.liveRows
    rw [hpairs, hsum, hn, toTotal_natCast hlt]
  · show WordPool.marginal t.words word = endMassOf t.pairs.liveRows word
    rw [hpairs]
    exact hmarginal word (hcapacity ▸ hword)

/-- Recomputing the books puts them in step, whatever they were. -/
theorem inStep_of_rebuildTotals {s s' : Logged (Tally α)} {total : UInt64}
    (hnatural : ∀ row ∈ s.state.pairs.liveRows, ∃ n : ℕ, row.count = n)
    (hmass : massOf s.state.pairs.liveRows < 2 ^ 64) (hrun : rebuildTotals s = .ok total s') :
    s'.state.InStep ∧ total = s'.state.total ∧ s'.state.pairs = s.state.pairs
      ∧ s'.state.words.capacity = s.state.words.capacity := by
  rw [rebuildTotals_eq] at hrun
  split at hrun
  · rename_i counts s₁ hdispatch
    cases hrun
    obtain ⟨hloop, -⟩ := dispatch_eq_ok_iff.mp hdispatch
    have hspread : Spread s.state s₁.state s.state.pairs.used counts := by
      refine mapM_range_ok_induction (P := fun k counts t => Spread s.state t k counts) hloop
        s.state.spread_clearCounts fun k counts t c t' hk hspread hstep => ?_
      obtain ⟨row, hmem, hrow⟩ := Pool.exists_liveRow hk
      obtain ⟨n, hn⟩ := hnatural row hmem
      rcases hspread.step hrow (hn ▸ n.cast_nonneg) with ⟨c', t'', hok, h⟩ | ⟨e, herror, -⟩
      · rw [hok] at hstep
        cases hstep
        exact h
      · rw [herror] at hstep
        cases hstep
    exact ⟨hspread.inStep hnatural hmass, rfl, hspread.pairs_eq, hspread.capacity_eq⟩
  · cases hrun

/-- Recomputing balanced books succeeds and finds what is there. -/
theorem Balanced.rebuildTotals {s : Logged (Tally α)} (h : s.state.Balanced)
    (hmass : massOf s.state.pairs.liveRows < 2 ^ 64) :
    ∃ s', Tally.rebuildTotals s = .ok s.state.total s' ∧ s'.state.total = s.state.total
      ∧ s'.state.pairs = s.state.pairs
      ∧ ∀ word, WordPool.marginal s'.state.words word = WordPool.marginal s.state.words word := by
  have hloop := mapM_range_ok_exists (n := s.state.pairs.used)
    (P := fun k counts t => Spread s.state t k counts) s.state.spread_clearCounts
    (f := spreadCount) fun k counts t hk hspread => by
      obtain ⟨row, hmem, hrow⟩ := Pool.exists_liveRow hk
      obtain ⟨n, hn⟩ := h.natural row hmem
      rcases hspread.step hrow (hn ▸ n.cast_nonneg) with hok | ⟨e, -, hcount, hends⟩
      · exact hok
      · exact absurd (h.ends_lt row hmem hcount) hends
  obtain ⟨counts, t, hrun, hspread⟩ := hloop
  obtain ⟨s', hs'⟩ : ∃ s', Tally.rebuildTotals s = .ok (Weight.toTotal (countSum counts)) s' := by
    rw [rebuildTotals_eq, dispatch_eq, hrun]
    exact ⟨_, rfl⟩
  obtain ⟨hstep, htotal, hpairs, hcapacity⟩ := inStep_of_rebuildTotals h.natural hmass hs'
  have hbefore := h.inStep hmass
  -- both totals are the sum of the same counts
  have hsame : s'.state.total = s.state.total := by
    have hcast : (s'.state.total.toNat : α) = s.state.total.toNat := by
      rw [hstep.total_eq, hbefore.total_eq, hpairs]
    exact UInt64.toNat_inj.mp (Nat.cast_injective hcast)
  refine ⟨s', by rw [hs', htotal, hsame], hsame, hpairs, fun word => ?_⟩
  by_cases hword : word.toNat < s.state.words.capacity
  · rw [hstep.marginal_eq word (hcapacity ▸ hword), hbefore.marginal_eq word hword, hpairs]
  · rw [marginal_of_capacity_le (hcapacity ▸ not_lt.mp hword),
      marginal_of_capacity_le (not_lt.mp hword)]

end Tally

end CorpusStats
