import CorpusStats.Proofs.Engine.Parts
import CorpusStats.Proofs.Engine.Start
import CorpusStats.Proofs.Exact
import CorpusStats.Proofs.Tally.Resolved
/-!
# CorpusStats.Proofs.Engine.Lookups

Where looking pairs up leads, over whole runs.

`Engine.lostSlots` are the slots that a run has lost: those in use without count when its last
fold since the last reset was done. Folding never fails, and whatever else is called, looking the
words of any other slot up leads to the slot (`Engine.resolves_run`). So slots that are not lost
have different pairs, whether they have a count or not, and the pair of a slot that is lost may
be in another slot as well.
-/

namespace CorpusStats

open Stage

variable {α : Type}

/-- Whether a call folds as a whole or not at all: the index of pairs is out of date between
folding pairs and rebuilding it. -/
def Call.FoldsAtOnce : Call α → Prop
  | .foldPairs | .reindexPairs => False
  | _ => True

variable [Weight α]

namespace Store

/-- Folding answers, and loses the pairs without count only. -/
theorem exists_fold (hzero : (0 : α) ≤ 0) {lost : Finset ℕ} {s : Store α}
    (h : s.tally.pairs.Resolves lost) :
    ∃ report s', fold s = .ok report s'
      ∧ s'.tally.pairs.Resolves (PairPool.spentSlots s'.tally.pairs) := by
  obtain ⟨merged, t, hrun, ht⟩ :=
    Tally.exists_reindexPairs_foldPairs hzero (s := ⟨s.tally, s.log⟩) h
  obtain ⟨report, s', hfold, htally⟩ := exists_fold_of_reindexPairs hrun
  exact ⟨report, s', hfold, htally ▸ ht⟩

end Store

namespace Engine

/-- The slots of pairs that are lost after one more call. -/
def lostAfter (e : Engine α) (lost : Finset ℕ) : Call α → Finset ℕ
  | .fold => PairPool.spentSlots (e.after .fold).store.tally.pairs
  | .reset => ∅
  | _ => lost

/-- The slots of pairs that are lost after a run of an engine that had lost these before. -/
def lostSlots : Finset ℕ → List (Call α) → Engine α → Finset ℕ
  | lost, [], _ => lost
  | lost, call :: calls, e => lostSlots (e.lostAfter lost call) calls (e.after call)

/-- Look-ups lead to all pairs, but for those in lost slots. -/
structure FindsPairs (e : Engine α) (lost : Finset ℕ) : Prop where
  /-- Looking the words of a slot up leads to the slot. -/
  lookup_eq : ∀ slot row, slot ∉ lost → e.store.tally.pairs.liveRows[slot]? = some row →
    ∃ u : UInt32, u.toNat = slot ∧ e.lookupPair row.wordA row.wordB = some u
  /-- No two slots have the same words, in whatever order. -/
  unique : ∀ slot slot' row row', slot ∉ lost → slot' ∉ lost →
    e.store.tally.pairs.liveRows[slot]? = some row →
    e.store.tally.pairs.liveRows[slot']? = some row' →
    WordPair.of row.wordA row.wordB = .of row'.wordA row'.wordB → slot = slot'

theorem findsPairs_of_resolves {e : Engine α} {lost : Finset ℕ}
    (h : e.store.tally.pairs.Resolves lost) : e.FindsPairs lost := by
  have hlookup slot row (hkept : slot ∉ lost)
      (hrow : e.store.tally.pairs.liveRows[slot]? = some row) :
      ∃ u : UInt32, u.toNat = slot ∧ e.lookupPair row.wordA row.wordB = some u := by
    have hslot : slot < e.store.tally.pairs.used := Pool.lt_used_of_liveRows hrow
    have hlt : slot < maxPoolCapacity.toNat :=
      hslot.trans_le (e.store.tally.pairs.used_le_capacity.trans h.capacity_le)
    have hnumber := Index.toNat_toUInt32 hlt
    have hraw := h.found slot row hkept hrow
    rw [← WordPair.storable_key] at hraw
    rw [← hnumber] at hlt
    refine ⟨slot.toUInt32, hnumber, ?_⟩
    rw [lookupPair, Pool.lookup, ← PairRow.words, Index.lookup_eq_of_raw? hraw hlt]
    exact if_neg (Index.not_reserved hlt).1
  refine ⟨hlookup, fun slot slot' row row' hkept hkept' hrow hrow' hwords => ?_⟩
  obtain ⟨u, rfl, hu⟩ := hlookup slot row hkept hrow
  obtain ⟨u', rfl, hu'⟩ := hlookup slot' row' hkept' hrow'
  rw [lookupPair, hwords, ← lookupPair, hu'] at hu
  exact congrArg UInt32.toNat (Option.some.inj hu).symm

/-! ### What calls do -/

variable (hzero : (0 : α) ≤ 0) {lost : Finset ℕ} {e : Engine α}
include hzero

/-- One call leaves an index that finds all pairs, but for those that it loses. -/
theorem resolves_after (h : e.store.tally.pairs.Resolves lost) {call : Call α}
    (hcall : call.FoldsAtOnce) :
    (e.after call).store.tally.pairs.Resolves (e.lostAfter lost call) := by
  have hkept (hcall : call.KeepsIndex) : (e.after call).store.tally.pairs.Resolves lost := by
    rw [after_eq]
    exact pairs_perform PairPool.persists_resolves hcall
      (call.asksForPairsOf_of_forall fun _ => trivial) (fun _ _ => trivial) h
  cases call with
  | foldPairs | reindexPairs => cases hcall
  | fold =>
    obtain ⟨report, s', hrun, hs'⟩ := Store.exists_fold hzero h
    have hfold : perform .fold e = .ok (.folded report) { e with store := s' } :=
      map_eq_ok_iff.mpr ⟨report, onStore_eq_ok_iff.mpr ⟨s', hrun, rfl⟩, rfl⟩
    rw [lostAfter, after_eq, outcome_of_ok hfold]
    exact hs'
  | reset => exact h.reset
  | _ => exact hkept trivial

theorem resolves_run (h : e.store.tally.pairs.Resolves lost) {calls : List (Call α)}
    (hcalls : ∀ call ∈ calls, call.FoldsAtOnce) :
    (run calls e).store.tally.pairs.Resolves (lostSlots lost calls e) := by
  induction calls generalizing e lost with
  | nil => exact h
  | cons call calls ih =>
    exact ih (resolves_after hzero h (hcalls call List.mem_cons_self))
      fun call' hcall' => hcalls call' (List.mem_cons_of_mem _ hcall')

omit hzero in
theorem resolves_of_ofConfig {config : Config} (he : ofConfig config = .ok e) :
    e.store.tally.pairs.Resolves ∅ := by
  have hnew := new_of_ofConfig he
  refine PairPool.resolves_of_ofCapacity ?_ (pools_of_ofConfig he).2.1
  rw [← hnew.capacity_pairs]
  exact hnew.capacities_le.2.1

/-- **Look-ups lead to every pair that no fold has lost.** After every run of calls that do not
break folding up, failed calls among them, no two slots that are not lost have the same words, and
looking their words up leads to them. Lost are the slots that were in use without count when the
last fold since the last reset was done. -/
theorem pairs_found_unless_lost {config : Config} (he : ofConfig config = .ok e)
    {calls : List (Call α)} (hcalls : ∀ call ∈ calls, call.FoldsAtOnce) :
    (run calls e).FindsPairs (lostSlots ∅ calls e) := by
  have hresolves := resolves_run hzero (resolves_of_ofConfig he) hcalls
  exact findsPairs_of_resolves hresolves

omit hzero in
/-- A fold that merges one pair into another and passes over a third, which is asked for again
and then counted in both of its slots. -/
theorem pairs_found_unless_lost_merged :
    let calls : List (Call ℚ) := [.pairSlots [0, 1, 2] [1, 2, 3], .countPairs [0, 1, 1],
      .assignClasses ⟨[(2, 0)], by decide⟩, .fold, .pairSlots [3] [2], .countPairs [3, 2]]
    ∃ e : Engine ℚ, ofConfig .tiny = .ok e ∧ lostSlots ∅ calls e = {1, 2}
      ∧ (run calls e).FindsPairs {1, 2}
      ∧ (run calls e).store.tally.pairs.liveRows.map (fun row => (row.words, row.count))
        = [(.of 0 1, 3), (.of 0 1, 0), (.of 2 3, 1), (.of 2 3, 1)] := by
  intro calls
  obtain ⟨e, he, hlost, hrows⟩ := exists_ofConfig_of_mem .tiny (P := fun e : Engine ℚ =>
    lostSlots ∅ calls e = {1, 2}
      ∧ (run calls e).store.tally.pairs.liveRows.map (fun row => (row.words, row.count))
        = [(.of 0 1, 3), (.of 0 1, 0), (.of 2 3, 1), (.of 2 3, 1)]) (by decide +kernel)
  have hcalls : ∀ call ∈ calls, call.FoldsAtOnce := by simp [calls, Call.FoldsAtOnce]
  have hfound := pairs_found_unless_lost le_rfl he hcalls
  rw [hlost] at hfound
  exact ⟨e, he, hlost, hfound, hrows⟩

omit hzero in
/-- A fold loses a pair that has no count yet. Counted afterwards, it has a count and is not
found; asked for again first, it is in two slots with a count. -/
theorem pair_counted_after_lost :
    let calls : List (Call ℚ) := [.pairSlots [0] [1], .fold]
    ∃ e : Engine ℚ, ofConfig .tiny = .ok e
      ∧ ((run (calls ++ [.countPairs [0]]) e).store.tally.pairs.liveRows.map
          fun row => (row.words, row.count)) = [(.of 0 1, 1)]
      ∧ (run (calls ++ [.countPairs [0]]) e).lookupPair 0 1 = none
      ∧ ((run (calls ++ [.pairSlots [0] [1], .countPairs [0, 1]]) e).store.tally.pairs.liveRows.map
          fun row => (row.words, row.count)) = [(.of 0 1, 1), (.of 0 1, 1)] :=
  exists_ofConfig_of_mem .tiny (by decide +kernel)

end Engine

end CorpusStats
