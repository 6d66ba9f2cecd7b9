import CorpusStats.Proofs.Tally.Refilled
/-!
# CorpusStats.Proofs.Tally.Clean

What stages of a tally leave of **clean** pairs, those whose score is up to date.

* Asking for pairs and writing rows leave a clean row as it was, or it is new and has neither count
  nor score (`PairPool.Written`).
* Folding leaves a clean row as it was, or has taken its count and its score away
  (`PairRow.folded_cases`).
* Scoring the dirty pairs changes the rows that are dirty and no others, and then no row is dirty
  (`Tally.score_dirty_eq`), so a second pass has nothing to do (`Tally.scoreDirty_of_clean`).

Nothing is asked of the weights.
-/

namespace CorpusStats

open Stage

variable {α : Type} [Weight α]

/-! ### Asking and writing -/

namespace PairPool

open Pool

/-- Pairs after some were asked for and some were written. -/
structure Written (start pairs : PairPool α) : Prop where
  intact : pairs.Intact
  used_le : start.used ≤ pairs.used
  clean : ∀ slot row, pairs.liveRows[slot]? = some row → row.isDirty = false →
    start.liveRows[slot]? = some row ∨ start.used ≤ slot ∧ row.count = 0 ∧ row.score = 0

theorem written_self {start : PairPool α} (h : start.Intact) : Written start start :=
  ⟨h, le_rfl, fun _ _ hrow _ => .inl hrow⟩

/-- The rows stay, or one is put behind them that has neither count nor score. -/
theorem Written.grow {start pairs pairs' : PairPool α} (h : Written start pairs)
    (hintact : pairs'.Intact) (hrows : pairs'.liveRows = pairs.liveRows
      ∨ ∃ row, pairs'.liveRows = pairs.liveRows ++ [row] ∧ row.count = 0 ∧ row.score = 0) :
    Written start pairs' := by
  rcases hrows with hrows | ⟨new, hrows, hnew⟩
  · refine ⟨hintact, ?_, by rw [hrows]; exact h.clean⟩
    rw [← pairs'.length_liveRows, hrows, pairs.length_liveRows]
    exact h.used_le
  · refine ⟨hintact, ?_, fun slot row hrow hclean => ?_⟩
    · rw [← pairs'.length_liveRows, hrows, List.length_append, pairs.length_liveRows]
      exact h.used_le.trans (Nat.le_add_right _ _)
    · rw [hrows] at hrow
      rcases getElem?_concat_cases hrow with hrow | ⟨rfl, rfl⟩
      · exact h.clean slot row hrow hclean
      · exact .inr ⟨pairs.length_liveRows ▸ h.used_le, hnew⟩

theorem keptByWriting_written (start : PairPool α) :
    KeptByWriting (fun _ => True) (Written start) where
  slotOf pairs a b _ _ h := by
    rcases h.intact.findOrCreate_cases (WordPair.of a b).key
        (fun row : PairRow α => { row with
          wordA := (WordPair.of a b).first, wordB := (WordPair.of a b).second }) with
      ⟨slot, created, pairs', hrun, hintact, hslot, hrows⟩ | ⟨e, pairs', hrun, hintact, hrows⟩
    · refine .inl ⟨slot, created, pairs', hrun, h.grow hintact (hrows.imp_right fun hrows => ?_), hslot⟩
      exact ⟨_, hrows, rfl, rfl⟩
    · exact .inr ⟨e, pairs', hrun, h.grow hintact (.inl hrows)⟩
  write pairs slot f hslot _ hdirty h := by
    refine ⟨h.intact.modify hslot f, by simpa using h.used_le, fun slot' row hrow hclean => ?_⟩
    rw [liveRows_modify, List.getElem?_modify] at hrow
    obtain ⟨old, hold, rfl⟩ := Option.map_eq_some_iff.mp hrow
    by_cases heq : slot = slot'
    · simp only [if_pos heq] at hclean
      rw [hdirty old] at hclean
      cases hclean
    · simp only [if_neg heq] at hclean ⊢
      exact h.clean slot' old hold hclean

end PairPool

/-! ### Folding -/

/-- Folding leaves a clean row only if its words stay, or if they fall into one class. -/
theorem PairRow.folded_cases {words : WordPool α} {row : PairRow α}
    (hclean : (row.folded words).isDirty = false) :
    row.moved? words = none ∧ row.folded words = row
      ∨ ∃ pair, row.moved? words = some pair ∧ pair.first = pair.second
        ∧ (row.folded words).count = 0 ∧ (row.folded words).score = 0 := by
  unfold folded at hclean ⊢
  cases hmoved : row.moved? words with
  | none => exact .inl ⟨rfl, rfl⟩
  | some pair =>
    rw [hmoved] at hclean
    dsimp only at hclean ⊢
    by_cases hequal : pair.first = pair.second
    · rw [if_pos hequal]
      exact .inr ⟨pair, rfl, hequal, rfl, rfl⟩
    · rw [if_neg hequal, isDirty_markDirty] at hclean
      cases hclean

/-! ### Scoring -/

namespace PairRow

variable {words : WordPool α} {n : α} {row : PairRow α}

theorem refresh_of_dirty (h : row.isDirty = true) :
    row.refresh words n = row.markClean.rescore words n := if_pos h

theorem refresh_of_clean (h : row.isDirty = false) : row.refresh words n = row := by
  rw [refresh, if_neg (by simp [h])]

theorem isDirty_refresh (words : WordPool α) (n : α) (row : PairRow α) :
    (row.refresh words n).isDirty = false := by
  cases h : row.isDirty with
  | true =>
    rw [refresh_of_dirty h]
    exact row.isDirty_markClean
  | false => rwa [refresh_of_clean h]

end PairRow

namespace Tally

theorem score_all_eq (n : α) (s : Logged (Tally α)) :
    ∃ pairs', (score .all n s).2.state = ⟨s.state.words, pairs', s.state.total⟩
      ∧ Pool.Mapped s.state.pairs pairs' (PairRow.rescore s.state.words n) :=
  exists_mapped_sweep s fun words => PairRow.rescore words n

theorem score_dirty_eq (n : α) (s : Logged (Tally α)) :
    ∃ pairs', (score .dirty n s).2.state = ⟨s.state.words, pairs', s.state.total⟩
      ∧ Pool.Mapped s.state.pairs pairs' (PairRow.refresh s.state.words n) :=
  exists_mapped_sweep s fun words => PairRow.refresh words n

/-- Where no pair is dirty, scoring the dirty pairs does nothing. -/
theorem scoreDirty_of_clean {s : Logged (Tally α)} (n : α)
    (h : ∀ row ∈ s.state.pairs.liveRows, row.isDirty = false) :
    scoreDirty n s = (0, ⟨s.state, s.log.start s.state.pairs.used⟩) := by
  have hpairs : (List.range s.state.pairs.used).foldl
      (fun pairs slot => pairs.modify slot (PairRow.refresh s.state.words n)) s.state.pairs
        = s.state.pairs :=
    Pool.foldl_modify_eq_self fun row hrow => PairRow.refresh_of_clean (h row hrow)
  have hstate : (scoreDirty n s).2.state = s.state :=
    (state_sweep_pairs s fun words => PairRow.refresh words n).trans (by rw [hpairs])
  have hcount : s.state.pairs.liveRows.countP PairRow.isDirty = 0 :=
    List.countP_eq_zero.mpr fun row hrow => by simp [h row hrow]
  have hlog : (scoreDirty n s).2.log = s.log.start s.state.pairs.used := by
    simp only [scoreDirty, sweep, List.length_range]
  calc scoreDirty n s
      = (s.state.pairs.liveRows.countP PairRow.isDirty,
          ⟨(scoreDirty n s).2.state, (scoreDirty n s).2.log⟩) := rfl
    _ = (0, ⟨s.state, s.log.start s.state.pairs.used⟩) := by rw [hcount, hstate, hlog]

end Tally

end CorpusStats
