import CorpusStats.Proofs.Engine.Start
import CorpusStats.Proofs.Exact
import CorpusStats.Proofs.Tally.Arena
import CorpusStats.Proofs.Tally.Filled
/-!
# CorpusStats.Proofs.Engine.Interrupted

Recomputing the books, interrupted.

A pair that has a count and a word beyond the arena ends the second pass half way: the marginal
counts are those of the pairs before, and the total is still the old one (`Engine.InterruptedAt`).
Nothing else can make recomputing fail.
-/

namespace CorpusStats

open Stage
open PairRow (sumAt)

variable {α : Type} [Weight α]

namespace Engine

/-- `e'` is what recomputing the books of `e` leaves when it is refused, with `err`, at the pair in
a slot. -/
structure InterruptedAt (e : Engine α) (slot : ℕ) (err : Error) (e' : Engine α) : Prop where
  /-- The pair has a count, and the failure names the first of its words that is beyond the arena. -/
  refused : ∃ row, e.store.tally.pairs.liveRows[slot]? = some row ∧ row.isSpent = false
    ∧ ∃ word, [row.wordA, row.wordB].find? (e.store.tally.words.capacity ≤ ·.toNat) = some word
      ∧ err = .malformed (.idBeyond e.store.tally.words.name word.toNat
        e.store.tally.words.capacity)
  /-- It is the first such pair. -/
  ends_lt : ∀ row ∈ e.store.tally.pairs.liveRows.take slot, row.isSpent = false →
    row.wordA.toNat < e.store.tally.words.capacity ∧ row.wordB.toNat < e.store.tally.words.capacity
  /-- Whatever they were, the marginal counts are those of the pairs before. -/
  row_eq : ∀ word, e'.store.tally.words.row? word = (e.store.tally.words.row? word).map fun row =>
    { row with count := sumAt (e.store.tally.pairs.liveRows.take slot) word }
  name_eq : e'.store.tally.words.name = e.store.tally.words.name
  allocator_eq : e'.store.tally.words.allocator = e.store.tally.words.allocator
  index_eq : e'.store.tally.words.index = e.store.tally.words.index
  /-- The total is still the old one, and two passes are in the log. -/
  rest : e' = { e with store := { e.store with
    tally := { e.store.tally with words := e'.store.tally.words }
    log := (e.store.log.start e.store.tally.words.capacity).start e.store.tally.pairs.used } }

variable {e e₁ e₂ : Engine α} {slot₁ slot₂ : ℕ} {err err₁ err₂ : Error}

theorem exists_interruptedAt (h : perform .rebuildTotals e = .error err e₁) :
    ∃ slot, e.InterruptedAt slot err e₁ := by
  obtain ⟨s, hrun, rfl⟩ := onTally_eq_error_iff.mp (map_eq_error_iff.mp h)
  obtain ⟨slot, t, hstep, hslot, hfilled, hlog⟩ := Tally.exists_filled_of_rebuildTotals hrun
  obtain ⟨hstate, row, hrow, hspent, word, hword, rfl⟩ := hfilled.refused hstep
  obtain ⟨state, log⟩ := s
  obtain ⟨words, pairs, total⟩ := t
  obtain rfl : state = _ := hstate
  obtain rfl : log = _ := hlog
  obtain rfl : pairs = _ := hfilled.pairs_eq
  obtain rfl : total = _ := hfilled.total_eq
  rw [← Pool.liveRows_getElem? hslot] at hrow
  exact ⟨slot, ⟨row, hrow, hspent, word, hword, rfl⟩, hfilled.ends_lt, hfilled.row_eq,
    hfilled.name_eq, hfilled.allocator_eq, hfilled.index_eq, rfl⟩

/-- A pair at which recomputing is interrupted is not one of those before another one. -/
theorem InterruptedAt.le (h₁ : e.InterruptedAt slot₁ err₁ e₁)
    (h₂ : e.InterruptedAt slot₂ err₂ e₂) : slot₂ ≤ slot₁ := by
  by_contra! hlt
  obtain ⟨row, hrow, hspent, word, hword, -⟩ := h₁.refused
  have hmem : row ∈ e.store.tally.pairs.liveRows.take slot₂ :=
    List.mem_of_getElem? (by rw [List.getElem?_take_of_lt hlt, hrow])
  obtain ⟨ha, hb⟩ := h₂.ends_lt row hmem hspent
  have hbeyond := List.find?_some hword
  have hle := of_decide_eq_true hbeyond
  have hend : word = row.wordA ∨ word = row.wordB := by
    simpa using List.mem_of_find?_eq_some hword
  rcases hend with rfl | rfl <;> omega

/-- There is one pair at which recomputing can be interrupted, and one thing that this leaves. -/
theorem InterruptedAt.unique (h₁ : e.InterruptedAt slot₁ err₁ e₁)
    (h₂ : e.InterruptedAt slot₂ err₂ e₂) : err₁ = err₂ ∧ e₁ = e₂ := by
  obtain rfl : slot₁ = slot₂ := le_antisymm (h₂.le h₁) (h₁.le h₂)
  obtain ⟨row, hrow, -, word, hword, rfl⟩ := h₁.refused
  obtain ⟨row', hrow', -, word', hword', rfl⟩ := h₂.refused
  obtain rfl : row = row' := Option.some.inj (hrow.symm.trans hrow')
  obtain rfl : word = word' := Option.some.inj (hword.symm.trans hword')
  have hwords : e₁.store.tally.words = e₂.store.tally.words :=
    Pool.ext_row? (h₁.name_eq.trans h₂.name_eq.symm) (h₁.allocator_eq.trans h₂.allocator_eq.symm)
      (h₁.index_eq.trans h₂.index_eq.symm) fun slot => by rw [h₁.row_eq, h₂.row_eq]
  refine ⟨rfl, ?_⟩
  rw [h₁.rest, h₂.rest, hwords]

/-- **Recomputing the books stops half way.** It fails exactly if a pair with a count has a word
beyond the arena. Then the marginal counts are not what they were but those of the pairs before the
first such pair, next to the old total; nothing else has changed. -/
theorem rebuilding_stops_half_way (e : Engine α) (err : Error) (e' : Engine α) :
    perform .rebuildTotals e = .error err e' ↔ ∃ slot, e.InterruptedAt slot err e' := by
  refine ⟨exists_interruptedAt, fun hinterrupted => ?_⟩
  obtain ⟨slot, h⟩ := hinterrupted
  obtain ⟨row, hrow, hspent, word, hword, -⟩ := h.refused
  rcases Tally.rebuildTotals_cases ⟨e.store.tally, e.store.log⟩ with
    ⟨hwords, -⟩ | ⟨_, -, -, s, hrun⟩
  · have hend : word ∈ e.store.tally.pairs.countedEnds := PairPool.mem_countedEnds.mpr
      ⟨row, List.mem_of_getElem? hrow, hspent, by simpa using List.mem_of_find?_eq_some hword⟩
    have hbeyond := List.find?_some hword
    exact absurd (hwords word hend) (of_decide_eq_true hbeyond).not_gt
  · have herror : perform .rebuildTotals e = .error _ _ :=
      map_eq_error_iff.mpr (onTally_eq_error_iff.mpr ⟨s, hrun, rfl⟩)
    obtain ⟨slot', h'⟩ := exists_interruptedAt herror
    obtain ⟨rfl, rfl⟩ := h'.unique h
    exact herror

/-- A pair of word 9, of which there is none in an arena of four words, takes the marginal counts
away from words 1 and 2. The total still counts their observation. -/
theorem rebuilding_loses_marginals :
    let calls : List (Call ℚ) := [.pairSlots [0, 1] [9, 2], .countPairs [1], .loadPairs [0] [1]]
    ∃ e e' : Engine ℚ, ofConfig .tiny = .ok e
      ∧ perform .rebuildTotals (run calls e) = .error (.malformed (.idBeyond "word" 9 4)) e'
      ∧ WordPool.marginal (run calls e).store.tally.words 1 = 1
      ∧ WordPool.marginal e'.store.tally.words 1 = 0
      ∧ (run calls e).store.tally.total = 1 ∧ e'.store.tally.total = 1 := by
  intro calls
  obtain ⟨e, he, hrun, hbefore, hafter, htotal, htotal'⟩ := exists_ofConfig_of_mem .tiny
    (P := fun e : Engine ℚ =>
      (outcome rebuildTotals (run calls e)).1 = .error (.malformed (.idBeyond "word" 9 4))
        ∧ WordPool.marginal (run calls e).store.tally.words 1 = 1
        ∧ WordPool.marginal (outcome rebuildTotals (run calls e)).2.store.tally.words 1 = 0
        ∧ (run calls e).store.tally.total = 1
        ∧ (outcome rebuildTotals (run calls e)).2.store.tally.total = 1) (by decide +kernel)
  obtain ⟨e', herror⟩ := exists_eq_error_of_outcome hrun
  rw [outcome_of_error herror] at hafter htotal'
  exact ⟨e, e', he, map_eq_error_iff.mpr herror, hbefore, hafter, htotal, htotal'⟩

end Engine

end CorpusStats
