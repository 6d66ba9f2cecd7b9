import CorpusStats.Proofs.Comparing
import CorpusStats.Proofs.Engine.Logs
/-!
# CorpusStats.Proofs.Engine.Filters

What filters and statistics read.

* A filter answers with the **first** of the rows that pass, as many as there is room for, and with
  how many pass (`Bounded.FirstOf`). So less room means a shorter list with the same beginning
  (`Engine.filters_answer_first`).
* Statistics of pairs pass over a count that is at most zero, filters keep a count above zero. They
  tell the same pairs apart unless a count compares with nothing (`PairRow.isUnordered`), which
  statistics take in and filters leave out (`Engine.stats_counted`).
-/

namespace CorpusStats

open Stage

/-! ### Output with room for the first rows -/

namespace Bounded

variable {β : Type} {all : List β} {limit limit' : ℕ} {b b' : Bounded β}

/-- The output has the first `limit` of the rows, and says how many there are. -/
structure FirstOf (all : List β) (limit : ℕ) (b : Bounded β) : Prop where
  total_eq : b.total = all.length
  rows_eq : b.rows.toList = all.take (min limit b.total)
  truncated_iff : b.truncated = true ↔ limit < b.total

/-- The room is cut to the number of work-items, of which each emits one row at most. -/
theorem firstOf_pushAll {workItems : ℕ} (h : all.length ≤ workItems) (limit : ℕ) :
    FirstOf all limit ((ofLimit limit workItems).pushAll all) := by
  have htotal : ((ofLimit limit workItems).pushAll all).total = all.length :=
    (total_pushAll all _).trans (Nat.zero_add _)
  have hrows : ((ofLimit limit workItems).pushAll all).rows.toList
      = all.take (min limit all.length) := by
    rw [toList_rows_pushAll]
    simp only [ofLimit, List.size_toArray, List.length_nil, Nat.sub_zero, List.nil_append]
    rw [List.take_eq_take_iff]
    omega
  refine ⟨htotal, htotal ▸ hrows, ?_⟩
  rw [truncated, decide_eq_true_iff, htotal, ← Array.length_toList, hrows, List.length_take]
  omega

/-- Less room keeps the beginning of what more room keeps. -/
theorem FirstOf.initial (h : FirstOf all limit b) (h' : FirstOf all limit' b')
    (hle : limit ≤ limit') : b.rows.toList <+: b'.rows.toList := by
  rw [h.rows_eq, h'.rows_eq, h.total_eq, h'.total_eq]
  exact List.take_prefix_take_left (by omega)

end Bounded

variable {α : Type} [Weight α]

/-! ### Pairs that pass -/

/-- The pairs with a score above the threshold and a count above zero, with their slots, in the
order of the slots. -/
def PairPool.passing (pairs : PairPool α) (threshold : α) : List (PairRow α × ℕ) :=
  pairs.liveRows.zipIdx.filter fun (row, _) => threshold < row.score ∧ 0 < row.count

/-- The candidates with a cosine above the threshold, in the order of their slots. -/
def CandidatePool.passing (candidates : CandidatePool α) (threshold : α) : List (CandidateRow α) :=
  candidates.liveRows.filter fun row => threshold < row.cosine

namespace PairPool

variable {pairs : PairPool α} {threshold : α}

theorem length_passing_le : (pairs.passing threshold).length ≤ pairs.used := by
  refine (List.length_filter_le ..).trans_eq ?_
  rw [List.length_zipIdx, Pool.length_liveRows]

theorem length_passing : (pairs.passing threshold).length
    = pairs.liveRows.countP fun row => threshold < row.score ∧ 0 < row.count := by
  rw [passing, ← List.countP_eq_length_filter]
  conv_rhs => rw [← List.zipIdx_map_fst 0 pairs.liveRows, List.countP_map]
  rfl

end PairPool

theorem Tally.hits_eq (t : Tally α) (threshold : α) : t.hits threshold
    = (t.pairs.passing threshold).map fun (row, slot) => ⟨row.score, slot.toUInt32⟩ := by
  rw [hits, PairPool.passing, ← List.filterMap_eq_map, List.filterMap_filter]
  refine List.filterMap_congr fun (row, slot) _ => ?_
  simp only [PairRow.hit?, PairRow.isLive, decide_eq_true_iff, Function.comp_apply]

/-! ### Statistics of pairs -/

namespace PairRow

/-- Whether the count is neither above zero nor at most zero. -/
def isUnordered (row : PairRow α) : Bool := !row.isLive && !row.isSpent

theorem isSpent_of_isLive [ComparesWithZero α] {row : PairRow α} (h : row.isLive = true) :
    row.isSpent = false :=
  decide_eq_false (ComparesWithZero.not_le_of_pos _ (of_decide_eq_true h))

/-- Statistics take in the live pairs and the unordered ones. -/
theorem countP_filter_not_isSpent [ComparesWithZero α] (p : PairRow α → Bool)
    (rows : List (PairRow α)) : (rows.filter fun row => !row.isSpent).countP p
      = rows.countP (fun row => p row && row.isLive)
        + rows.countP fun row => p row && row.isUnordered := by
  induction rows with
  | nil => rfl
  | cons row rows ih =>
    rw [List.countP_filter] at ih ⊢
    rw [List.countP_cons, List.countP_cons, List.countP_cons, ih]
    -- the row is live, unordered or spent
    cases hl : row.isLive with
    | true =>
      simp [isUnordered, hl, isSpent_of_isLive hl]
      omega
    | false =>
      simp [isUnordered, hl]
      omega

end PairRow

namespace Tally

variable [ComparesWithZero α] (t : Tally α) (threshold : α)

theorem counted_scoreStats : (t.scoreStats threshold).counted
    = t.pairs.liveRows.countP PairRow.isLive + t.pairs.liveRows.countP PairRow.isUnordered := by
  have hall := PairRow.countP_filter_not_isSpent (fun _ => true) t.pairs.liveRows
  simp only [List.countP_true, Bool.true_and] at hall
  exact hall

theorem above_scoreStats : (t.scoreStats threshold).above = (t.pairs.passing threshold).length
    + t.pairs.liveRows.countP fun row => threshold < row.score && row.isUnordered := by
  have hpassing : (t.pairs.passing threshold).length
      = t.pairs.liveRows.countP fun row => threshold < row.score && row.isLive := by
    rw [PairPool.length_passing]
    exact List.countP_congr fun row _ => by simp [PairRow.isLive]
  rw [hpassing]
  exact PairRow.countP_filter_not_isSpent (fun row => threshold < row.score) t.pairs.liveRows

end Tally

namespace Engine

/-! ### Filters -/

/-- A filter that answers with the first of these rows, for whatever limit. -/
structure Filters {β : Type} (e : Engine α) (call : ℕ → Call α) (answer : Bounded β → Answer α)
    (all : List β) : Prop where
  /-- Every limit is answered, and nothing but the log changes. -/
  answers : ∀ limit, ∃ b log, perform (call limit) e = .ok (answer b) (e.putLog log)
    ∧ b.FirstOf all limit
  /-- A smaller limit is answered with the beginning of what a larger one is answered with. -/
  initial : ∀ limit limit' b b' e₁ e₂, limit ≤ limit' → perform (call limit) e = .ok (answer b) e₁ →
    perform (call limit') e = .ok (answer b') e₂ → b.rows.toList <+: b'.rows.toList

theorem filters_of_answers {β : Type} {e : Engine α} {call : ℕ → Call α}
    {answer : Bounded β → Answer α} {all : List β} (hanswer : Function.Injective answer)
    (h : ∀ limit, ∃ b log, perform (call limit) e = .ok (answer b) (e.putLog log)
      ∧ b.FirstOf all limit) : e.Filters call answer all := by
  have hfirst limit b e' (hrun : perform (call limit) e = .ok (answer b) e') :
      b.FirstOf all limit := by
    obtain ⟨b', log, hrun', hb'⟩ := h limit
    rw [hrun] at hrun'
    cases hanswer (EStateM.Result.ok.inj hrun').1
    exact hb'
  exact ⟨h, fun limit limit' b b' e₁ e₂ hle hrun hrun' =>
    (hfirst limit b e₁ hrun).initial (hfirst limit' b' e₂ hrun') hle⟩

theorem filterPairs_answers (e : Engine α) (threshold : α) (limit : ℕ) :
    ∃ b log, perform (.filterPairs threshold limit) e = .ok (.pairHits b) (e.putLog log)
      ∧ b.FirstOf ((e.store.tally.pairs.passing threshold).map
        fun (row, slot) => ⟨row.score, slot.toUInt32⟩) limit := by
  rw [← Tally.hits_eq]
  refine ⟨_, _, rfl, Bounded.firstOf_pushAll ?_ limit⟩
  rw [Tally.hits_eq, List.length_map]
  exact PairPool.length_passing_le

theorem filterCandidates_answers (e : Engine α) (threshold : α) (limit : ℕ) :
    ∃ b log, perform (.filterCandidates threshold limit) e = .ok (.candidateHits b) (e.putLog log)
      ∧ b.FirstOf ((e.store.similarity.candidates.passing threshold).map
        fun row => ⟨row.cosine, row.wordA, row.wordB⟩) limit := by
  refine ⟨_, _, rfl, Bounded.firstOf_pushAll ?_ limit⟩
  rw [List.length_map]
  exact (List.length_filter_le ..).trans_eq (Pool.length_liveRows _)

/-- **Bounded filters answer with the first rows that pass.** Whatever the pools hold, the output
for a limit counts all pairs with a score above the threshold and a count above zero, has the first
of them in the order of their slots, and is truncated if there are more. The same holds for the
candidates with a cosine above the threshold. -/
theorem filters_answer_first (e : Engine α) (threshold : α) :
    e.Filters (.filterPairs threshold) .pairHits ((e.store.tally.pairs.passing threshold).map
        fun (row, slot) => ⟨row.score, slot.toUInt32⟩)
      ∧ e.Filters (.filterCandidates threshold) .candidateHits
        ((e.store.similarity.candidates.passing threshold).map
          fun row => ⟨row.cosine, row.wordA, row.wordB⟩) :=
  ⟨filters_of_answers (fun _ _ => Answer.pairHits.inj) (e.filterPairs_answers threshold),
    filters_of_answers (fun _ _ => Answer.candidateHits.inj) (e.filterCandidates_answers threshold)⟩

/-! ### Statistics -/

/-- **Statistics count live pairs and unordered ones.** The pairs that they count, and those of them
with a score above a threshold, are the live pairs, and those that a filter counts, together with
pairs whose count compares with zero in neither way. So statistics and filters agree if and only if
there are no such pairs. -/
theorem stats_counted [ComparesWithZero α] (e : Engine α) (threshold : α) (limit : ℕ) :
    let rows := e.store.tally.pairs.liveRows
    ∃ stats hits log log', perform (.scoreStats threshold) e = .ok (.stats stats) (e.putLog log)
      ∧ perform (.filterPairs threshold limit) e = .ok (.pairHits hits) (e.putLog log')
      ∧ stats.counted = rows.countP PairRow.isLive + rows.countP PairRow.isUnordered
      ∧ stats.above
        = hits.total + rows.countP (fun row => threshold < row.score && row.isUnordered)
      ∧ (stats.counted = rows.countP PairRow.isLive ↔ ∀ row ∈ rows, row.isUnordered = false)
      ∧ (stats.above = hits.total
        ↔ ∀ row ∈ rows, threshold < row.score → row.isUnordered = false) := by
  intro rows
  obtain ⟨hits, log, hrun, hfirst⟩ := e.filterPairs_answers threshold limit
  have hcounted := e.store.tally.counted_scoreStats threshold
  have habove := e.store.tally.above_scoreStats threshold
  have htotal : hits.total = (e.store.tally.pairs.passing threshold).length := by
    rw [hfirst.total_eq, List.length_map]
  rw [← htotal] at habove
  refine ⟨_, hits, _, log, rfl, hrun, hcounted, habove, ?_, ?_⟩
  · rw [hcounted, Nat.add_eq_left, List.countP_eq_zero]
    simp [rows]
  · rw [habove, Nat.add_eq_left, List.countP_eq_zero]
    simp [rows]

/-- A live pair, an unordered one, one with a negative count, and one that was never counted. -/
theorem stats_counted_nan :
    let calls : List (Call NanRat) := [.pairSlots [0, 0, 0, 1] [1, 2, 3, 2],
      .loadPairs [0, 1, 2] [.number 3, .nan, .number (-1)]]
    ∃ e : Engine NanRat, ofConfig .tiny = .ok e
      ∧ (run calls e).store.tally.pairs.liveRows.map
          (fun row => (row.isLive, row.isUnordered, row.isSpent))
        = [(true, false, false), (false, true, false), (false, false, true), (false, false, true)]
      ∧ ∃ stats hits log log', perform (.scoreStats (.number (-1))) (run calls e)
          = .ok (.stats stats) ((run calls e).putLog log)
        ∧ perform (.filterPairs (.number (-1)) 4) (run calls e)
          = .ok (.pairHits hits) ((run calls e).putLog log')
        ∧ stats.counted = 1 + 1 ∧ stats.above = hits.total + 1 := by
  intro calls
  obtain ⟨e, he, hrows, hlive, hunordered, habove⟩ := exists_ofConfig_of_mem .tiny
    (P := fun e : Engine NanRat => (run calls e).store.tally.pairs.liveRows.map
        (fun row => (row.isLive, row.isUnordered, row.isSpent))
        = [(true, false, false), (false, true, false), (false, false, true), (false, false, true)]
      ∧ (run calls e).store.tally.pairs.liveRows.countP PairRow.isLive = 1
      ∧ (run calls e).store.tally.pairs.liveRows.countP PairRow.isUnordered = 1
      ∧ (run calls e).store.tally.pairs.liveRows.countP
        (fun row => NanRat.number (-1) < row.score && row.isUnordered) = 1)
    (by decide +kernel)
  obtain ⟨stats, hits, log, log', hstats, hhits, h⟩ :=
    stats_counted (run calls e) (.number (-1)) 4
  rw [hlive, hunordered, habove] at h
  exact ⟨e, he, hrows, stats, hits, log, log', hstats, hhits, h.1, h.2.1⟩

/-- No pair is live and none passes the filter, but statistics count one, and find its score above
the threshold. -/
theorem stats_count_unordered :
    let calls : List (Call NanRat) := [.pairSlots [0] [1], .loadPairs [0] [.nan]]
    ∃ e : Engine NanRat, ofConfig .tiny = .ok e
      ∧ (outcome (scoreStats (.number (-1))) (run calls e)).1.toOption = some ⟨1, 0, 1⟩
      ∧ (outcome (filterPairs (.number (-1)) (2 ^ 64 - 1)) (run calls e)).1.toOption.map
          Bounded.total = some 0
      ∧ (run calls e).store.tally.pairs.liveRows.countP PairRow.isLive = 0 :=
  exists_ofConfig_of_mem .tiny (by decide +kernel)

end Engine

end CorpusStats
