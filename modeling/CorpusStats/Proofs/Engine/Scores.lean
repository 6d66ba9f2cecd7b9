import CorpusStats.Proofs.Engine.Room
/-!
# CorpusStats.Proofs.Engine.Scores

**Clean pairs are up to date**, over whole runs and whatever failed on the way.

A call *settles* a slot if it computes the score of its pair, takes the slot into use, or takes its
count away, which folding does to a pair whose words fall into one class and to one that is merged
into another (`Engine.Settles`). Everything else that a call can do to a pair makes it dirty. So
after one call a clean pair was settled by it or is as it was (`Engine.settled_or_unchanged`), and
after a run it was settled by some call and is as that call left it (`Engine.UpToDate`).
-/

namespace CorpusStats

open Stage

variable {α : Type} [Weight α]

namespace Engine

/-! ### Settling a slot -/

/-- The call computes the score of the pair in the slot. -/
def Scores (e : Engine α) : Call α → ℕ → Prop
  | .score .all, slot => slot < e.store.tally.pairs.used
  | .score .dirty, slot =>
    ∃ row, e.store.tally.pairs.liveRows[slot]? = some row ∧ row.isDirty = true
  | _, _ => False

/-- The call takes the slot into use. -/
def Creates (e : Engine α) (call : Call α) (slot : ℕ) : Prop :=
  e.store.tally.pairs.used ≤ slot ∧ slot < (e.after call).store.tally.pairs.used

/-- The call folds the words of the pair in the slot into one class. -/
def Eliminates (e : Engine α) : Call α → ℕ → Prop
  | .foldPairs, slot | .fold, slot => ∃ row pair, e.store.tally.pairs.liveRows[slot]? = some row
    ∧ row.moved? e.store.tally.words = some pair ∧ pair.first = pair.second
  | _, _ => False

/-- The call hands the count of the pair in the slot over to another pair. -/
def MergesAway (e : Engine α) : Call α → ℕ → Prop
  | .reindexPairs, slot => PairRow.HandsOver e.store.tally.pairs.liveRows slot
  | .fold, slot => PairRow.HandsOver
    (e.store.tally.pairs.liveRows.map (PairRow.folded e.store.tally.words)) slot
  | _, _ => False

inductive Settles (e : Engine α) (call : Call α) (slot : ℕ) : Prop
  | scored (h : e.Scores call slot)
  | created (h : e.Creates call slot)
  | eliminated (h : e.Eliminates call slot)
  | merged (h : e.MergesAway call slot)

/-- The call settles the slot and leaves this row in it. -/
structure Settled (e : Engine α) (call : Call α) (slot : ℕ) (row : PairRow α) : Prop where
  settles : e.Settles call slot
  /-- A pass computes the score from the count, the total and the marginal counts that it reads. -/
  scored : e.Scores call slot → row.score = association row.count
    (Weight.ofTotal e.store.tally.total) (WordPool.marginal e.store.tally.words row.wordA)
    (WordPool.marginal e.store.tally.words row.wordB)
  /-- Every other call leaves neither count nor score. -/
  bare : ¬ e.Scores call slot → row.count = 0 ∧ row.score = 0

variable {e : Engine α} {call : Call α} {slot : ℕ} {row : PairRow α}

theorem settled_of_bare (h : e.Settles call slot) (hscores : ¬ e.Scores call slot)
    (hcount : row.count = 0) (hscore : row.score = 0) : e.Settled call slot row :=
  ⟨h, fun hs => absurd hs hscores, fun _ => ⟨hcount, hscore⟩⟩

/-- The slot of a row that was there before is not new, so only three ways to settle it are left. -/
theorem not_settles (hrow : e.store.tally.pairs.liveRows[slot]? = some row)
    (hscores : ¬ e.Scores call slot) (hfolds : ¬ e.Eliminates call slot)
    (hmerges : ¬ e.MergesAway call slot) : ¬ e.Settles call slot := by
  rintro (h | h | h | h)
  · exact hscores h
  · have hlt := (List.getElem?_eq_some_iff.mp hrow).1
    rw [Pool.length_liveRows] at hlt
    exact absurd h.1 (not_le.mpr hlt)
  · exact hfolds h
  · exact hmerges h

/-- A pair whose words stay is not eliminated. -/
theorem not_eliminates (hrow : e.store.tally.pairs.liveRows[slot]? = some row)
    (hmoved : row.moved? e.store.tally.words = none) : ¬ e.Eliminates call slot := by
  have hnone : ¬ ∃ row pair, e.store.tally.pairs.liveRows[slot]? = some row
      ∧ row.moved? e.store.tally.words = some pair ∧ pair.first = pair.second := by
    rintro ⟨other, pair, hother, hmoved', -⟩
    rw [hrow] at hother
    cases hother
    rw [hmoved] at hmoved'
    cases hmoved'
  cases call with
  | foldPairs | fold => exact hnone
  | _ => exact id

/-! ### One call -/

/-- Scoring works on the tally alone, and always answers. -/
theorem perform_score (mode : ScoreMode) (e : Engine α) :
    perform (.score mode) e
      = .ok (.changed (Tally.score mode (Weight.ofTotal e.store.tally.total)
          ⟨e.store.tally, e.store.log⟩).1)
        { e with store := { e.store with
          tally := (Tally.score mode (Weight.ofTotal e.store.tally.total)
            ⟨e.store.tally, e.store.log⟩).2.state
          log := (Tally.score mode (Weight.ofTotal e.store.tally.total)
            ⟨e.store.tally, e.store.log⟩).2.log } } := rfl

theorem settled_scoreAll
    (hrow : (e.after (.score .all)).store.tally.pairs.liveRows[slot]? = some row) :
    e.Settled (.score .all) slot row := by
  obtain ⟨pairs', hstate, hmapped⟩ := Tally.score_all_eq (Weight.ofTotal e.store.tally.total)
    ⟨e.store.tally, e.store.log⟩
  have hpairs : (e.after (.score .all)).store.tally.pairs = pairs' := congrArg Tally.pairs hstate
  rw [hpairs, hmapped.liveRows_eq, List.getElem?_map] at hrow
  obtain ⟨old, hold, rfl⟩ := Option.map_eq_some_iff.mp hrow
  have hlt := (List.getElem?_eq_some_iff.mp hold).1
  rw [Pool.length_liveRows] at hlt
  exact ⟨.scored hlt, fun _ => rfl, fun hscores => absurd hlt hscores⟩

theorem settled_or_unchanged_scoreDirty
    (hrow : (e.after (.score .dirty)).store.tally.pairs.liveRows[slot]? = some row) :
    e.Settled (.score .dirty) slot row
      ∨ ¬ e.Settles (.score .dirty) slot ∧ e.store.tally.pairs.liveRows[slot]? = some row := by
  obtain ⟨pairs', hstate, hmapped⟩ := Tally.score_dirty_eq (Weight.ofTotal e.store.tally.total)
    ⟨e.store.tally, e.store.log⟩
  have hpairs : (e.after (.score .dirty)).store.tally.pairs = pairs' := congrArg Tally.pairs hstate
  rw [hpairs, hmapped.liveRows_eq, List.getElem?_map] at hrow
  obtain ⟨old, hold, rfl⟩ := Option.map_eq_some_iff.mp hrow
  cases hdirty : old.isDirty with
  | true =>
    rw [PairRow.refresh_of_dirty hdirty]
    have hscores : e.Scores (.score .dirty) slot := ⟨old, hold, hdirty⟩
    exact .inl ⟨.scored hscores, fun _ => rfl, fun h => absurd hscores h⟩
  | false =>
    rw [PairRow.refresh_of_clean hdirty]
    refine .inr ⟨not_settles hold ?_ id id, hold⟩
    rintro ⟨other, hother, hdirty'⟩
    rw [hold] at hother
    cases hother
    rw [hdirty] at hdirty'
    cases hdirty'

/-- Asking for pairs and writing them settles the slots of new pairs only. -/
theorem settled_or_unchanged_of_writes (h : e.store.tally.pairs.Intact)
    (hcall : call.OnlyWritesPairs)
    (hrow : (e.after call).store.tally.pairs.liveRows[slot]? = some row)
    (hclean : row.isDirty = false) :
    e.Settled call slot row
      ∨ ¬ e.Settles call slot ∧ e.store.tally.pairs.liveRows[slot]? = some row := by
  have hwritten : PairPool.Written e.store.tally.pairs (e.after call).store.tally.pairs := by
    rw [after_eq]
    exact pairs_write (PairPool.keptByWriting_written _) hcall
      (call.asksForPairsOf_of_forall fun _ => trivial) (fun _ _ => trivial)
      (PairPool.written_self h)
  have hother : ¬ e.Scores call slot ∧ ¬ e.Eliminates call slot ∧ ¬ e.MergesAway call slot := by
    cases call with
    | score | foldPairs | reindexPairs | fold | reset => cases hcall
    | _ => exact ⟨id, id, id⟩
  rcases hwritten.clean slot row hrow hclean with hold | ⟨hnew, hcount, hscore⟩
  · exact .inr ⟨not_settles hold hother.1 hother.2.1 hother.2.2, hold⟩
  · have hlt := (List.getElem?_eq_some_iff.mp hrow).1
    rw [Pool.length_liveRows] at hlt
    exact .inl (settled_of_bare (.created ⟨hnew, hlt⟩) hother.1 hcount hscore)

theorem settled_or_unchanged_foldPairs
    (hrow : (e.after .foldPairs).store.tally.pairs.liveRows[slot]? = some row)
    (hclean : row.isDirty = false) :
    e.Settled .foldPairs slot row
      ∨ ¬ e.Settles .foldPairs slot ∧ e.store.tally.pairs.liveRows[slot]? = some row := by
  obtain ⟨pairs', hstate, hmapped⟩ := Tally.exists_mapped_foldPairs ⟨e.store.tally, e.store.log⟩
  have hpairs : (e.after .foldPairs).store.tally.pairs = pairs' := congrArg Tally.pairs hstate
  rw [hpairs, hmapped.liveRows_eq, List.getElem?_map] at hrow
  obtain ⟨old, hold, rfl⟩ := Option.map_eq_some_iff.mp hrow
  rcases PairRow.folded_cases hclean with ⟨hmoved, hsame⟩ | ⟨pair, hmoved, hequal, hcount, hscore⟩
  · rw [hsame]
    exact .inr ⟨not_settles hold id (not_eliminates hold hmoved) id, hold⟩
  · exact .inl (settled_of_bare (.eliminated ⟨old, pair, hold, hmoved, hequal⟩) id hcount hscore)

theorem refilled_reindexPairs (h : e.store.tally.pairs.Intact) :
    PairPool.Refilled e.store.tally.pairs e.store.tally.pairs.used
      (e.after .reindexPairs).store.tally.pairs := by
  rw [after_eq, perform, outcome_map, reindexPairs, outcome_onStore, Store.outcome_onTally]
  exact Tally.refilled_reindexPairs (s := ⟨e.store.tally, e.store.log⟩) h

/-- Folding changes the rows first, and then rebuilds the index from what they are. -/
theorem refilled_fold (h : e.store.tally.pairs.Intact) :
    ∃ folded, Pool.Mapped e.store.tally.pairs folded (PairRow.folded e.store.tally.words)
      ∧ PairPool.Refilled folded folded.used (e.after .fold).store.tally.pairs := by
  obtain ⟨folded, hstate, hmapped⟩ := Tally.exists_mapped_foldPairs ⟨e.store.tally, e.store.log⟩
  have hintact := Tally.intact_foldPairs (s := ⟨e.store.tally, e.store.log⟩) h
  have hrefilled := Tally.refilled_reindexPairs hintact
  rw [hstate] at hrefilled
  refine ⟨folded, hmapped, ?_⟩
  rw [after_eq, perform, outcome_map, fold, outcome_onStore, Store.tally_fold]
  exact hrefilled

theorem settled_or_unchanged_reindexPairs (h : e.store.tally.pairs.Intact)
    (hrow : (e.after .reindexPairs).store.tally.pairs.liveRows[slot]? = some row)
    (hclean : row.isDirty = false) :
    e.Settled .reindexPairs slot row
      ∨ ¬ e.Settles .reindexPairs slot ∧ e.store.tally.pairs.liveRows[slot]? = some row := by
  rcases (refilled_reindexPairs h).settled_of_clean hrow hclean with
    ⟨hhands, hcount, hscore⟩ | ⟨hkeeps, hold⟩
  · exact .inl (settled_of_bare (.merged hhands) id hcount hscore)
  · exact .inr ⟨not_settles hold id id hkeeps, hold⟩

theorem settled_or_unchanged_fold (h : e.store.tally.pairs.Intact)
    (hrow : (e.after .fold).store.tally.pairs.liveRows[slot]? = some row)
    (hclean : row.isDirty = false) :
    e.Settled .fold slot row
      ∨ ¬ e.Settles .fold slot ∧ e.store.tally.pairs.liveRows[slot]? = some row := by
  obtain ⟨folded, hmapped, hrefilled⟩ := refilled_fold h
  have hrows := hmapped.liveRows_eq
  rcases hrefilled.settled_of_clean hrow hclean with ⟨hhands, hcount, hscore⟩ | ⟨hkeeps, hkept⟩
  · rw [hrows] at hhands
    exact .inl (settled_of_bare (.merged hhands) id hcount hscore)
  · rw [hrows, List.getElem?_map] at hkept
    rw [hrows] at hkeeps
    obtain ⟨old, hold, rfl⟩ := Option.map_eq_some_iff.mp hkept
    rcases PairRow.folded_cases hclean with
      ⟨hmoved, hsame⟩ | ⟨pair, hmoved, hequal, hcount, hscore⟩
    · rw [hsame]
      exact .inr ⟨not_settles hold id (not_eliminates hold hmoved) hkeeps, hold⟩
    · exact .inl (settled_of_bare (.eliminated ⟨old, pair, hold, hmoved, hequal⟩) id hcount hscore)

/-- Everything that a call can do to a pair that is clean afterwards: it settles its slot, or it
leaves it as it was. -/
theorem settled_or_unchanged (h : e.store.tally.pairs.Intact) (call : Call α)
    (hrow : (e.after call).store.tally.pairs.liveRows[slot]? = some row)
    (hclean : row.isDirty = false) :
    e.Settled call slot row
      ∨ ¬ e.Settles call slot ∧ e.store.tally.pairs.liveRows[slot]? = some row := by
  have hwrites (hcall : call.OnlyWritesPairs) :=
    settled_or_unchanged_of_writes h hcall hrow hclean
  cases call with
  | score mode =>
    cases mode with
    | all => exact .inl (settled_scoreAll hrow)
    | dirty => exact settled_or_unchanged_scoreDirty hrow
  | foldPairs => exact settled_or_unchanged_foldPairs hrow hclean
  | reindexPairs => exact settled_or_unchanged_reindexPairs h hrow hclean
  | fold => exact settled_or_unchanged_fold h hrow hclean
  | reset =>
    have hlt := (List.getElem?_eq_some_iff.mp hrow).1
    rw [Pool.length_liveRows] at hlt
    exact absurd hlt (Nat.not_lt_zero slot)
  | _ => exact hwrites trivial

/-! ### Whole runs -/

/-- A call of the run settled the slot, no later one does, and since then the row has been what it
is now. -/
def UpToDate (e : Engine α) (calls : List (Call α)) (slot : ℕ) (row : PairRow α) : Prop :=
  ∃ before call after, calls = before ++ call :: after
    ∧ (run before e).Settled call slot row
    ∧ (∀ mid c rest, after = mid ++ c :: rest →
      ¬ (run (before ++ call :: mid) e).Settles c slot)
    ∧ ∀ mid rest, after = mid ++ rest →
      (run (before ++ call :: mid) e).store.tally.pairs.liveRows[slot]? = some row

/-- One more call that leaves the row and does not settle its slot. -/
theorem UpToDate.concat {calls : List (Call α)} (h : e.UpToDate calls slot row)
    (hsettles : ¬ (run calls e).Settles call slot)
    (hrow : (run (calls ++ [call]) e).store.tally.pairs.liveRows[slot]? = some row) :
    e.UpToDate (calls ++ [call]) slot row := by
  obtain ⟨before, settling, after, rfl, hsettled, hlast, hsame⟩ := h
  refine ⟨before, settling, after ++ [call], by simp, hsettled, fun mid c rest hafter => ?_,
    fun mid rest hafter => ?_⟩
  · rcases List.eq_nil_or_concat rest with rfl | ⟨rest, last, rfl⟩
    · obtain ⟨rfl, hc⟩ := List.append_inj' hafter rfl
      cases hc
      exact hsettles
    · rw [List.concat_eq_append, ← List.cons_append, ← List.append_assoc] at hafter
      exact hlast mid c rest (List.append_inj' hafter rfl).1
  · rcases List.eq_nil_or_concat rest with rfl | ⟨rest, last, rfl⟩
    · rw [List.append_nil] at hafter
      rw [← hafter]
      simpa using hrow
    · rw [List.concat_eq_append, ← List.append_assoc] at hafter
      exact hsame mid rest (List.append_inj' hafter rfl).1

theorem upToDate_run {config : Config} (he : ofConfig config = .ok e) (calls : List (Call α))
    (hrow : (run calls e).store.tally.pairs.liveRows[slot]? = some row)
    (hclean : row.isDirty = false) : e.UpToDate calls slot row := by
  induction calls using List.reverseRecOn generalizing row with
  | nil =>
    have hlt := (List.getElem?_eq_some_iff.mp hrow).1
    rw [Pool.length_liveRows, run_nil, (new_of_ofConfig he).pairs.used_eq] at hlt
    exact absurd hlt (Nat.not_lt_zero slot)
  | append_singleton calls call ih =>
    have hafter : run (calls ++ [call]) e = (run calls e).after call := run_append calls [call] e
    have hrow' := hrow
    rw [hafter] at hrow'
    rcases settled_or_unchanged (intact_run he calls) call hrow' hclean with
      hsettled | ⟨hsettles, hold⟩
    · refine ⟨calls, call, [], rfl, hsettled, fun mid c rest hnil => ?_, fun mid rest hnil => ?_⟩
      · cases mid <;> cases hnil
      · obtain ⟨rfl, rfl⟩ := List.append_eq_nil_iff.mp hnil.symm
        exact hrow
    · exact (ih hold hclean).concat hsettles hrow

/-! ### Scoring the dirty pairs -/

/-- Scoring the dirty pairs of `e` leaves `e'`. -/
structure Refreshes (e e' : Engine α) : Prop where
  /-- A dirty pair has its score from what it has and what the words have, and is clean. -/
  dirty : ∀ (slot : ℕ) (row : PairRow α), e.store.tally.pairs.liveRows[slot]? = some row →
    row.isDirty = true → e'.store.tally.pairs.liveRows[slot]? = some { row.markClean with
      score := association row.count (Weight.ofTotal e.store.tally.total)
        (WordPool.marginal e.store.tally.words row.wordA)
        (WordPool.marginal e.store.tally.words row.wordB) }
  clean : ∀ (slot : ℕ) (row : PairRow α), e.store.tally.pairs.liveRows[slot]? = some row →
    row.isDirty = false → e'.store.tally.pairs.liveRows[slot]? = some row
  /-- Nothing else has changed but the log. -/
  rest : ∃ pairs log, pairs.used = e.store.tally.pairs.used
    ∧ pairs.capacity = e.store.tally.pairs.capacity ∧ pairs.index = e.store.tally.pairs.index
    ∧ e' = { e with store := { e.store with tally := { e.store.tally with pairs }, log } }

theorem exists_perform_scoreDirty (e : Engine α) :
    ∃ e', perform (.score .dirty) e
        = .ok (.changed (e.store.tally.pairs.liveRows.countP PairRow.isDirty)) e'
      ∧ e.Refreshes e' ∧ (∀ row ∈ e'.store.tally.pairs.liveRows, row.isDirty = false) := by
  obtain ⟨pairs', hstate, hmapped⟩ := Tally.score_dirty_eq (Weight.ofTotal e.store.tally.total)
    ⟨e.store.tally, e.store.log⟩
  have hrow (slot : ℕ) : pairs'.liveRows[slot]? = (e.store.tally.pairs.liveRows[slot]?).map
      (PairRow.refresh e.store.tally.words (Weight.ofTotal e.store.tally.total)) := by
    rw [hmapped.liveRows_eq, List.getElem?_map]
  have hrun := perform_score .dirty e
  rw [hstate] at hrun
  refine ⟨_, hrun, ⟨fun slot row hold hdirty => ?_, fun slot row hold hclean => ?_,
    pairs', _, hmapped.used_eq, hmapped.capacity_eq, hmapped.index_eq, rfl⟩, fun row hmem => ?_⟩
  · refine (hrow slot).trans ?_
    rw [hold, Option.map_some, PairRow.refresh_of_dirty hdirty]
    rfl
  · refine (hrow slot).trans ?_
    rw [hold, Option.map_some, PairRow.refresh_of_clean hclean]
  · obtain ⟨old, -, rfl⟩ := List.mem_map.mp (hmapped.liveRows_eq ▸ hmem)
    exact old.isDirty_refresh _ _

/-- Where no pair is dirty, scoring the dirty pairs changes the log only. -/
theorem perform_scoreDirty_of_clean
    (h : ∀ row ∈ e.store.tally.pairs.liveRows, row.isDirty = false) :
    ∃ log, perform (.score .dirty) e
      = .ok (.changed 0) { e with store := { e.store with log } } := by
  have hscore := Tally.scoreDirty_of_clean (s := ⟨e.store.tally, e.store.log⟩)
    (Weight.ofTotal e.store.tally.total) h
  refine ⟨e.store.log.start e.store.tally.pairs.used, ?_⟩
  rw [perform_score, Tally.score, hscore]

/-- **Clean pairs are up to date.** After every run of a new engine, failed calls among them, a pair
that is clean was settled by a call of the run, by the last one that did, and has had the same
count, words and score since: the score that a pass computed from its count and from the total and
the marginal counts that it read, or neither count nor score if the pair was created, eliminated or
merged away. Scoring the dirty pairs changes exactly these and answers how many they are, and doing
it again answers none and changes the log only. -/
theorem clean_pairs_up_to_date :
    (∀ (config : Config) (e : Engine α), ofConfig config = .ok e →
      ∀ (calls : List (Call α)) (slot : ℕ) (row : PairRow α),
        (run calls e).store.tally.pairs.liveRows[slot]? = some row → row.isDirty = false →
        e.UpToDate calls slot row)
      ∧ ∀ e : Engine α, ∃ e', perform (.score .dirty) e
          = .ok (.changed (e.store.tally.pairs.liveRows.countP PairRow.isDirty)) e'
        ∧ e.Refreshes e'
        ∧ ∃ log, perform (.score .dirty) e'
          = .ok (.changed 0) { e' with store := { e'.store with log } } := by
  constructor
  · intro config e he calls slot row hrow hclean
    exact upToDate_run he calls hrow hclean
  · intro e
    obtain ⟨e', hrun, hrefreshes, hclean⟩ := exists_perform_scoreDirty e
    exact ⟨e', hrun, hrefreshes, perform_scoreDirty_of_clean hclean⟩

/-- Four clean pairs: one that was eliminated, one that was scored after another was merged into
it, the one that was merged away, and a new one. -/
theorem clean_pairs_up_to_date_folded :
    let calls : List (Call ℚ) := [.pairSlots [0, 0, 1] [1, 2, 2], .countPairs [0, 1, 1, 2],
      .score .dirty, .assignClasses ⟨[(1, 0)], by decide⟩, .fold, .score .dirty, .pairSlots [3] [3]]
    ∃ e : Engine ℚ, ofConfig .tiny = .ok e
      ∧ (run calls e).store.tally.pairs.liveRows
        = [⟨0, 0, 0, 0, 0⟩, ⟨3, 1, 0, 2, 0⟩, ⟨0, 0, 0, 2, 0⟩, ⟨0, 0, 3, 3, 0⟩]
      ∧ e.UpToDate calls 0 ⟨0, 0, 0, 0, 0⟩ ∧ e.UpToDate calls 1 ⟨3, 1, 0, 2, 0⟩
      ∧ e.UpToDate calls 2 ⟨0, 0, 0, 2, 0⟩ ∧ e.UpToDate calls 3 ⟨0, 0, 3, 3, 0⟩ := by
  intro calls
  obtain ⟨e, he, hrows⟩ := exists_ofConfig_of_mem .tiny (P := fun e : Engine ℚ =>
    (run calls e).store.tally.pairs.liveRows
      = [⟨0, 0, 0, 0, 0⟩, ⟨3, 1, 0, 2, 0⟩, ⟨0, 0, 0, 2, 0⟩, ⟨0, 0, 3, 3, 0⟩]) (by decide +kernel)
  have hclean := clean_pairs_up_to_date.1 .tiny e he calls
  rw [hrows] at hclean
  exact ⟨e, he, hrows, hclean 0 _ rfl rfl, hclean 1 _ rfl rfl, hclean 2 _ rfl rfl,
    hclean 3 _ rfl rfl⟩

end Engine

end CorpusStats
