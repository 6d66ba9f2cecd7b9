import CorpusStats.Proofs.Engine.Batches
import CorpusStats.Proofs.Engine.Parts
import CorpusStats.Proofs.Engine.Start
import CorpusStats.Proofs.Tally.Fold
/-!
# CorpusStats.Proofs.Engine.Pairs

The pairs of an engine over whole runs: counting, assigning classes, folding, scoring,
recomputing and resetting act on the pairs as they do on a map (`PairMap.step`), as long as
every call answers.

* `Engine.Represents` says what a host sees of that: which slots have a count, which pairs
  they hold, and where look-ups lead. `Engine.represents_run` is the result for runs.
* Slots without count are not part of it. They keep whatever words they had, and counting
  such a pair again opens a new slot, since no look-up leads to the old one.
-/

namespace CorpusStats

open Stage

variable {α : Type} [Field α] [LinearOrder α] [FloorSemiring α] [RootLog α]

/-- Whether a call acts on the pairs as a whole or not at all: calls that make pairs without
counting them, go by slots, load counts or do half of a fold are left out. -/
def Call.ActsOnMap : Call α → Prop
  | .internWords _ | .pairSlots _ _ | .countPairs _ | .foldPairs | .reindexPairs => False
  | .loadPairs _ _ | .loadWords _ _ | .setTotal _ => False
  | _ => True

namespace Engine

/-- Whether every call of a run answers. -/
def Answers : List (Call α) → Engine α → Prop
  | [], _ => True
  | call :: calls, e => (∃ answer e', perform call e = .ok answer e') ∧ Answers calls (e.after call)

/-- Whether a call answers is found by making it. -/
instance decidableAnswers : (calls : List (Call α)) → (e : Engine α) → Decidable (Answers calls e)
  | [], _ => .isTrue trivial
  | call :: calls, e =>
    have : Decidable (∃ answer e', perform call e = .ok answer e') :=
      match h : perform call e with
      | .ok answer e' => .isTrue ⟨answer, e', rfl⟩
      | .error error e' => .isFalse (by simp)
    have := decidableAnswers calls (e.after call)
    inferInstanceAs (Decidable (_ ∧ _))

/-- The row of a slot that is in use and has a count. -/
def LiveAt (e : Engine α) (slot : ℕ) (row : PairRow α) : Prop :=
  slot < e.store.tally.pairs.used ∧ e.store.tally.pairs.row? slot = some row ∧ 0 < row.count

/-- The slots with a count are the pairs of a map. -/
structure Represents (e : Engine α) (m : PairMap) : Prop where
  /-- A live slot holds two words in order, with the count of their pair. -/
  count_eq : ∀ slot row, e.LiveAt slot row →
    row.wordA ≤ row.wordB ∧ row.count = m.counts (.of row.wordA row.wordB)
  /-- Looking the pair of a live slot up leads to the slot. -/
  lookup_eq : ∀ slot row, e.LiveAt slot row →
    ∃ u : UInt32, u.toNat = slot ∧ e.lookupPair row.wordA row.wordB = some u
  unique : ∀ slot slot' row row', e.LiveAt slot row → e.LiveAt slot' row' →
    row'.wordA = row.wordA → row'.wordB = row.wordB → slot' = slot
  /-- Every pair of the map has a live slot. -/
  exists_slot : ∀ p, m.counts p ≠ 0 →
    ∃ slot row, e.LiveAt slot row ∧ row.wordA = p.first ∧ row.wordB = p.second
  classOf_eq : ∀ word, WordPool.classOf e.store.tally.words word = m.cls word

/-! ### From tallies to look-ups -/

variable [IsStrictOrderedRing α]

theorem represents_of_tracks {e : Engine α} {m : PairMap} (h : e.store.tally.Tracks m) :
    e.Represents m := by
  have hcomplete : Indexed e.store.tally.pairs.index e.store.tally.pairs.liveRows
      e.store.tally.pairs.liveRows.length := by
    rw [Pool.length_liveRows]
    exact h.indexed
  have hlive {slot : ℕ} {row : PairRow α} (hslot : e.LiveAt slot row) :
      e.store.tally.pairs.liveRows[slot]? = some row ∧ row ∈ e.store.tally.pairs.liveRows
        ∧ row.count ≠ 0 ∧ row.words = .of row.wordA row.wordB := by
    obtain ⟨hlt, hrow, hpos⟩ := hslot
    rw [← Pool.liveRows_getElem? hlt] at hrow
    exact ⟨hrow, List.mem_of_getElem? hrow, hpos.ne', rfl⟩
  refine ⟨fun slot row hslot => ?_, fun slot row hslot => ?_,
    fun slot slot' row row' hslot hslot' hA hB => ?_, fun p hp => ?_, h.classified.classOf_eq⟩
  · obtain ⟨hrow, hmem, hcount, hwords⟩ := hlive hslot
    obtain ⟨k, -, hends⟩ := h.proper row hmem
    have hmass := hcomplete.pairMass_apply_words hrow hcount
    rw [h.mass_eq, castCounts_apply, hwords] at hmass
    exact ⟨(hends hcount).1, hmass.symm⟩
  · obtain ⟨hrow, -, hcount, hwords⟩ := hlive hslot
    obtain ⟨u, hraw, rfl⟩ := h.indexed.found slot row hslot.1 hrow hcount
    have hlt : u.toNat < maxPoolCapacity.toNat :=
      hslot.1.trans_le (e.store.tally.pairs.used_le_capacity.trans h.capacity_le)
    rw [← WordPair.storable_key, hwords] at hraw
    refine ⟨u, rfl, ?_⟩
    rw [lookupPair, Pool.lookup, Index.lookup_eq_of_raw? hraw hlt]
    exact if_neg (Index.not_reserved hlt).1
  · obtain ⟨hrow, -, hcount, hwords⟩ := hlive hslot
    obtain ⟨hrow', -, hcount', hwords'⟩ := hlive hslot'
    refine h.indexed.eq_of_key_eq hslot.1 hslot'.1 hrow hrow' hcount hcount' ?_
    rw [hwords, hwords', hA, hB]
  · have hne : pairMass e.store.tally.pairs.liveRows p ≠ 0 := by
      rw [h.mass_eq, castCounts_apply, Nat.cast_ne_zero]
      exact hp
    obtain ⟨row, hmem, hcount, rfl⟩ := hcomplete.pairMass_apply_ne_zero_iff.mp hne
    obtain ⟨slot, hrow⟩ := List.mem_iff_getElem?.mp hmem
    have hproper := h.proper row hmem
    obtain ⟨hfirst, hsecond⟩ := hproper.words_eq hcount
    obtain ⟨k, hk, -⟩ := hproper
    refine ⟨slot, row, ⟨Pool.lt_used_of_liveRows hrow, Pool.row?_of_liveRows hrow, ?_⟩,
      hfirst.symm, hsecond.symm⟩
    rw [hk] at hcount ⊢
    exact lt_of_le_of_ne k.cast_nonneg (Ne.symm hcount)

/-! ### What calls do -/

omit [IsStrictOrderedRing α] in
/-- Folding an engine folds its pairs and rebuilds their index. -/
theorem fold_eq_ok {e e' : Engine α} {report : FoldReport} (h : fold e = .ok report e') :
    ∃ s, Tally.reindexPairs (Tally.foldPairs ⟨e.store.tally, e.store.log⟩).2 = .ok report.merged s
      ∧ report.changed = (Tally.foldPairs ⟨e.store.tally, e.store.log⟩).1.changed
      ∧ report.eliminated = (Tally.foldPairs ⟨e.store.tally, e.store.log⟩).1.eliminated
      ∧ e'.store.tally = s.state := by
  obtain ⟨store, hstore, rfl⟩ := onStore_eq_ok_iff.mp h
  obtain ⟨first, s₁, hpairs, h⟩ := Stage.bind_eq_ok_iff.mp hstore
  obtain ⟨merged, s₂, hindex, h⟩ := Stage.bind_eq_ok_iff.mp h
  obtain ⟨moved, s₃, hsections, h⟩ := Stage.bind_eq_ok_iff.mp h
  cases h
  obtain ⟨l₁, hl₁, rfl⟩ := Store.onTally_eq_ok_iff.mp hpairs
  cases hl₁
  obtain ⟨l₂, hl₂, rfl⟩ := Store.onTally_eq_ok_iff.mp hindex
  cases hsections
  exact ⟨l₂, hl₂, rfl, rfl, rfl⟩

/-- A call that answers acts on the map that is tracked. -/
theorem tracks_perform {e e' : Engine α} {m : PairMap} (h : e.store.tally.Tracks m)
    {call : Call α} (hcall : call.ActsOnMap) {answer : Answer α}
    (hrun : perform call e = .ok answer e') : e'.store.tally.Tracks (m.step call) := by
  have hkept (hkeeps : Keeps (fun e : Engine α => e.store.tally.Tracks m) (perform call)) :
      e'.store.tally.Tracks m := hkeeps.ok h hrun
  cases call with
  | countSentences batch window =>
    obtain ⟨report, hcount, -⟩ := Stage.map_eq_ok_iff.mp hrun
    obtain ⟨hbatch, s, hs, -, rfl⟩ := countSentences_eq_ok hcount
    exact Tally.Tracks.countSentences (s := ⟨e.store.tally, e.store.log⟩) h hbatch hs
  | assignClasses classes =>
    obtain ⟨⟨⟩, hassign, -⟩ := Stage.map_eq_ok_iff.mp hrun
    obtain ⟨s, hs, rfl⟩ := onTally_eq_ok_iff.mp hassign
    exact Tally.Tracks.assignClasses (s := ⟨e.store.tally, e.store.log⟩) h hs
  | fold =>
    obtain ⟨report, hfold, -⟩ := Stage.map_eq_ok_iff.mp hrun
    obtain ⟨s, hs, -, -, htally⟩ := fold_eq_ok hfold
    rw [htally]
    exact (Tally.Tracks.fold (s := ⟨e.store.tally, e.store.log⟩) h hs).1
  | rebuildTotals =>
    obtain ⟨total, hrebuild, -⟩ := Stage.map_eq_ok_iff.mp hrun
    obtain ⟨s, hs, rfl⟩ := onTally_eq_ok_iff.mp hrebuild
    exact Tally.Tracks.rebuildTotals (s := ⟨e.store.tally, e.store.log⟩) h hs
  | reset =>
    cases hrun
    exact h.reset
  | score mode =>
    refine hkept (Keeps.map (.bind .get fun e => ?_))
    exact keeps_onTally (P := (·.Tracks m)) (.modifyGet fun s hs => hs.score mode _)
  | scoreStats threshold =>
    exact hkept (keeps_onTally (P := (·.Tracks m)) (.modifyGet fun _ hs => hs)).map
  | filterPairs threshold limit =>
    exact hkept (keeps_onTally (P := (·.Tracks m)) (.modifyGet fun _ hs => hs)).map
  | internWords | pairSlots | countPairs | foldPairs | reindexPairs => cases hcall
  | loadPairs | loadWords | setTotal => cases hcall
  | _ => exact hkept (keeps_tally (P := (·.Tracks m)) trivial)

/-- A run whose calls answer acts on the map that is tracked, call by call. -/
theorem tracks_run {calls : List (Call α)} (hcalls : ∀ call ∈ calls, call.ActsOnMap)
    {e : Engine α} {m : PairMap} (h : e.store.tally.Tracks m) (hanswers : Answers calls e) :
    (run calls e).store.tally.Tracks (PairMap.run calls m) := by
  induction calls generalizing e m with
  | nil => exact h
  | cons call calls ih =>
    obtain ⟨⟨answer, e', hrun⟩, hrest⟩ := hanswers
    have hafter : e.after call = e' := by rw [after, hrun]
    rw [run_cons, PairMap.run, List.foldl_cons, ← PairMap.run]
    refine ih (fun c hc => hcalls c (List.mem_cons_of_mem _ hc)) ?_ hrest
    rw [hafter]
    exact tracks_perform h (hcalls call List.mem_cons_self) hrun

omit [IsStrictOrderedRing α] in
theorem New.tracks {config : Config} {e : Engine α} (h : e.New config) :
    e.store.tally.Tracks .empty := by
  obtain ⟨hwords, hpairs, -, -⟩ := h.capacities_le
  exact Tally.tracks_of_blank h.words h.pairs hwords hpairs

/-- **The live pairs are a map.** After every run of such calls from a new engine in which
every call answers, the slots with a count are the pairs of the map on which the calls acted
one after the other. A fold that answers next reports how many pairs of the map move, how many
of them vanish, and how many pairs the folded map has less than are left. -/
theorem represents_run {config : Config} {e : Engine α} (he : ofConfig config = .ok e)
    {calls : List (Call α)} (hcalls : ∀ call ∈ calls, call.ActsOnMap)
    (hanswers : Answers calls e) :
    (run calls e).Represents (PairMap.run calls .empty)
      ∧ ∀ report e', perform .fold (run calls e) = .ok (.folded report) e' →
        report.changed = ((PairMap.run calls .empty).counts.support.filter fun p =>
            p.Moves (PairMap.run calls .empty).cls).card
          ∧ report.eliminated = ((PairMap.run calls .empty).counts.support.filter fun p =>
            p.Vanishes (PairMap.run calls .empty).cls).card
          ∧ report.merged + report.eliminated + (PairMap.run calls .empty).fold.counts.support.card
            = (PairMap.run calls .empty).counts.support.card := by
  have htracks := tracks_run hcalls (new_of_ofConfig he).tracks hanswers
  refine ⟨represents_of_tracks htracks, fun report e' hrun => ?_⟩
  obtain ⟨report', hfold, hreport⟩ := Stage.map_eq_ok_iff.mp hrun
  cases hreport
  obtain ⟨s, hs, hchanged, heliminated, -⟩ := fold_eq_ok hfold
  obtain ⟨-, hmoves, hvanishes, hmerged⟩ := Tally.Tracks.fold
    (s := ⟨(run calls e).store.tally, (run calls e).store.log⟩) htracks hs
  rw [hchanged, heliminated]
  exact ⟨hmoves, hvanishes, hmerged⟩

/-- Counting, folding one word into another, counting again and folding again: the pair that
was folded away is counted in a new slot, and the second fold merges that slot too. -/
theorem represents_run_twice :
    let first : Sentences := ⟨#[0, 1, 2, 1], #[0], #[4], by decide⟩
    let second : Sentences := ⟨#[0, 1, 3], #[0, 2], #[2, 1], by decide⟩
    let calls : List (Call ℚ) := [.countSentences first 1, .assignClasses ⟨[(0, 2)], by decide⟩,
      .fold, .rebuildTotals, .score .dirty, .countSentences second 1]
    ∃ (e e' : Engine ℚ) (report : FoldReport), ofConfig .tiny = .ok e
      ∧ (run calls e).Represents (PairMap.run calls .empty)
      ∧ (run calls e).lookupPair 1 2 = some 0 ∧ (run calls e).lookupPair 1 0 = some 2
      ∧ perform .fold (run calls e) = .ok (.folded report) e'
      ∧ ((PairMap.run calls .empty).counts.support.filter fun p =>
        p.Moves (PairMap.run calls .empty).cls).card = 1
      ∧ 1 + (PairMap.run calls .empty).fold.counts.support.card
        = (PairMap.run calls .empty).counts.support.card := by
  intro first second calls
  obtain ⟨e, he, hanswers, hlookup, hlookup', hanswer⟩ :=
    exists_ofConfig_of_mem .tiny (P := fun e : Engine ℚ =>
      Answers calls e ∧ (run calls e).lookupPair 1 2 = some 0 ∧ (run calls e).lookupPair 1 0 = some 2
        ∧ (outcome fold (run calls e)).1.toOption = some ⟨1, 0, 1, 0⟩)
      (by decide +kernel)
  obtain ⟨e', hrun⟩ := exists_eq_ok_of_toOption hanswer
  have hperform : perform .fold (run calls e) = .ok (.folded ⟨1, 0, 1, 0⟩) e' :=
    Stage.map_eq_ok_iff.mpr ⟨_, hrun, rfl⟩
  have hcalls : ∀ call ∈ calls, call.ActsOnMap := by simp [calls, Call.ActsOnMap]
  obtain ⟨hrepresents, hfold⟩ := represents_run he hcalls hanswers
  obtain ⟨hchanged, -, hmerged⟩ := hfold _ e' hperform
  exact ⟨e, e', _, he, hrepresents, hlookup, hlookup', hperform, hchanged.symm, hmerged⟩

end Engine

end CorpusStats
