import CorpusStats.Proofs.Engine.Logs
import CorpusStats.Proofs.Engine.Room
/-!
# CorpusStats.Proofs.Engine.Reset

A reset makes an engine new again. What emptying leaves of each part depends on its name and its
sizes alone (`CorpusStats.Proofs.Emptied`), and no call changes these, whether it answers or fails
(`Engine.emptied_after`). So whatever was called since an engine was made, emptying it leaves the
engine that was made, down to the rows that are not in use and the marks in its indexes
(`Engine.emptied_run`). Only the log stays, and nothing that is answered afterwards depends on it.
-/

namespace CorpusStats

open Stage Pool

variable {α : Type} [Weight α]

/-! ### Pairs -/

namespace PairPool

theorem keeps_reindexPair (empty : PairPool α) (slot : ℕ) :
    Keeps (EmptiesTo empty) (Tally.reindexPair slot) := by
  intro pairs hpairs
  unfold outcome Tally.reindexPair
  cases pairs.row? slot with
  | none => exact hpairs
  | some row =>
    dsimp only
    by_cases hspent : row.isSpent
    · rw [if_pos hspent]
      exact hpairs
    · rw [if_neg hspent]
      have hreset := reset_onIndex (p := pairs)
        (pairs.index.clear_findOrCreate row.words.key (.ok slot.toUInt32))
      cases hfind : onIndex (Index.findOrCreate row.words.key (.ok slot.toUInt32)) pairs with
      | ok found pairs' =>
        rw [outcome_of_ok hfind] at hreset
        obtain ⟨owner, created⟩ := found
        cases created <;> exact hreset.trans hpairs
      | error e pairs' =>
        rw [outcome_of_error hfind] at hreset
        exact hreset.trans hpairs

/-- What emptying leaves of intact pairs stays the same. -/
theorem persists_emptiesTo (empty : PairPool α) :
    Persists (fun _ => True) fun pairs => pairs.Intact ∧ EmptiesTo empty pairs where
  slotOf pairs a b ha hb h := by
    have hreset : (outcome (slotOf a b) pairs).2.reset = pairs.reset :=
      pairs.reset_findOrCreate _ _
    rcases persists_intact.slotOf pairs a b ha hb h.1 with
      ⟨slot, created, pairs', hrun, hintact, hslot⟩ | ⟨e, pairs', hrun, hintact⟩
    · rw [outcome_of_ok hrun] at hreset
      exact .inl ⟨slot, created, pairs', hrun, ⟨hintact, hreset.trans h.2⟩, hslot⟩
    · rw [outcome_of_error hrun] at hreset
      exact .inr ⟨e, pairs', hrun, hintact, hreset.trans h.2⟩
  write pairs slot f hslot _ _ h := ⟨h.1.modify hslot f, (pairs.reset_modify slot f).trans h.2⟩
  mapped _ _ _ hmapped _ h := ⟨h.1.mapped hmapped, hmapped.reset_eq.trans h.2⟩

end PairPool

theorem Tally.keeps_emptied_reindexPairs (empty : PairPool α) :
    Keeps (fun s : Logged (Tally α) => EmptiesTo empty s.state.pairs) reindexPairs := by
  refine .bind (.modifyGet fun s hs => s.state.pairs.reset_clearIndex.trans hs) fun _ => ?_
  refine .bind .get fun _ => .bind ?_ fun _ => .pure _
  exact .dispatch (P := fun t : Tally α => EmptiesTo empty t.pairs) fun slot _ =>
    keeps_pairs_onPairs (PairPool.keeps_reindexPair empty slot)

/-! ### The similarity pass -/

theorem Similarity.reset_of_ofCapacities {words sections disjuncts candidates candidateIndex : ℕ}
    {w : Similarity α}
    (h : ofCapacities words sections disjuncts candidates candidateIndex = .ok w) :
    w.reset = w := by
  obtain ⟨heads, hheads, candidates, hcandidates, rfl⟩ := ofCapacities_eq_ok_iff.mp h
  obtain ⟨hpos, -, rfl⟩ := Index.ofCapacity_eq_ok_iff.mp hheads
  unfold reset
  simp only [Index.clear_vacantOf, Array.size_replicate, reset_of_ofCapacity hcandidates]

/-! ### Calls -/

namespace Engine

variable {e : Engine α}

theorem keeps_config (config : Config) (call : Call α) :
    Keeps (fun e : Engine α => e.config = config) (perform call) := by
  have hstore {β : Type} (act : Stage (Store α) β) :
      Keeps (fun e : Engine α => e.config = config) (onStore act) := by
    intro e he
    rw [outcome_onStore]
    exact he
  cases call with
  | countSentences batch window =>
    rw [perform, countSentences_eq_onStore]
    exact (hstore _).map
  | extractSections batch =>
    rw [perform, extractSections_eq_onStore]
    exact (hstore _).map
  | score mode => exact Keeps.map (.bind .get fun _ => hstore _)
  | loadPairs slots counts => exact Keeps.map (.bind (.lift _) fun _ => hstore _)
  | loadSections slots counts => exact Keeps.map (.bind (.lift _) fun _ => hstore _)
  | loadWords ids counts => exact Keeps.map (.bind (.lift _) fun _ => hstore _)
  | setTotal total => exact Keeps.map fun _ he => he
  | _ => exact (hstore _).map

theorem keeps_emptied_words (empty : WordPool α) (call : Call α) :
    Keeps (fun e : Engine α => EmptiesTo empty e.store.tally.words) (perform call) := by
  have hrows : IgnoresRows (EmptiesTo empty) := fun _ _ _ h => h
  have hkept (hcall : call.OnlyCountsWords) := keeps_words hrows.ignoresCounts hcall
  cases call with
  | internWords keys =>
    refine (keeps_onTally (P := fun t => EmptiesTo empty t.words) ?_).map
    refine .dispatch fun key _ => Tally.keeps_words_onWords ?_
    exact (keeps_findOrCreate empty _ _).bind fun _ => .pure _
  | assignClasses classes =>
    exact keeps_assignClasses fun entry _ => Tally.keeps_words_assign hrows entry.1 entry.2
  | reset => exact Keeps.map fun e h => e.store.tally.words.reset_reset.trans h
  | _ => exact hkept trivial

theorem keeps_emptied_pairs (empty : PairPool α) (call : Call α) :
    Keeps (fun e : Engine α => e.store.tally.pairs.Intact ∧ EmptiesTo empty e.store.tally.pairs)
      (perform call) := fun _ h =>
  pairs_keep (PairPool.persists_emptiesTo empty) (call.asksForPairsOf_of_forall fun _ => trivial)
    (fun _ _ => trivial) (fun _ _ hmapped h => ⟨h.1.mapped hmapped, hmapped.reset_eq.trans h.2⟩)
    (fun s h => ⟨(Tally.refilled_reindexPairs h.1).intact h.1,
      Tally.keeps_emptied_reindexPairs empty s h.2⟩)
    (fun pairs h => ⟨h.1.reset, pairs.reset_reset.trans h.2⟩) h

/-! ### Runs -/

/-- What a reset leaves, with a new log. -/
def emptied (e : Engine α) : Engine α :=
  ⟨e.config, e.store.tally.reset, e.store.sections.reset, e.store.similarity.reset, .empty⟩

theorem perform_reset (e : Engine α) :
    perform .reset e = .ok .done (putLog e.store.log e.emptied) := rfl

theorem after_reset (e : Engine α) : e.after .reset = putLog e.store.log e.emptied := rfl

/-- Emptying after any run leaves what emptying before it would have left. -/
theorem emptied_run (h : e.store.tally.pairs.Intact) (calls : List (Call α)) :
    (run calls e).emptied = e.emptied := by
  have hconfig : (run calls e).config = e.config :=
    run_keeps (fun call _ => keeps_config e.config call) rfl
  have hwords : (run calls e).store.tally.words.reset = e.store.tally.words.reset :=
    run_keeps (fun call _ => keeps_emptied_words e.store.tally.words.reset call) rfl
  have hpairs : (run calls e).store.tally.pairs.reset = e.store.tally.pairs.reset :=
    (run_keeps (fun call _ => keeps_emptied_pairs e.store.tally.pairs.reset call) ⟨h, rfl⟩).2
  obtain ⟨hsections, hsimilarity⟩ := run_keeps (fun call (_ : call ∈ calls) => keeps_sizes
    (Similarity.persists_emptiesTo e.store.sections.reset e.store.similarity.reset) call)
    ⟨rfl, rfl⟩
  rw [Pool.EmptiesTo] at hsections
  rw [Similarity.EmptiesTo] at hsimilarity
  unfold emptied Tally.reset
  rw [hconfig, hwords, hpairs, hsections, hsimilarity]

/-- Emptying a new engine does nothing. -/
theorem emptied_of_ofConfig {config : Config} (he : ofConfig config = .ok e) : e.emptied = e := by
  obtain ⟨words, pairs, sections, similarity, -, hwords, hpairs, hsections, hsimilarity, rfl⟩ :=
    parts_of_ofConfig he
  unfold emptied Tally.reset
  rw [reset_of_ofCapacity hwords, reset_of_ofCapacity hpairs, reset_of_ofCapacity hsections,
    Similarity.reset_of_ofCapacities hsimilarity]

/-- **A reset makes an engine new.** Whatever was called since an engine was made, and whether it
answered or failed, a reset leaves the engine that was made, with the log as it has grown. What is
called afterwards is answered as by the new engine, and leaves what it leaves there, but for the
log. -/
theorem reset_eq_new {config : Config} (he : ofConfig config = .ok e) (calls : List (Call α)) :
    perform .reset (run calls e) = .ok .done (putLog (run calls e).store.log e)
      ∧ ∀ more, answers more ((run calls e).after .reset) = answers more e
        ∧ ∃ log, run more ((run calls e).after .reset) = putLog log (run more e) := by
  have hemptied : (run calls e).emptied = e :=
    (emptied_run (intact_run he []) calls).trans (emptied_of_ofConfig he)
  constructor
  · rw [perform_reset, hemptied]
  · intro more
    rw [after_reset, hemptied]
    exact run_putLog more (run calls e).store.log e

/-- Words and pairs that have overflowed and left their marks, a class, a fold that has moved a pair
under its old key, sections in a chain, a load that was refused half-way: all of it is gone, and a
pair that was refused takes the first slot. -/
theorem reset_eq_new_failing :
    let calls : List (Call ℚ) := [.internWords [7, 8, 9, 10, 11],
      .pairSlots [0, 0, 0, 1, 2] [1, 2, 3, 2, 3], .countPairs [0, 1, 2, 3],
      .sectionSlots [0, 1, 2] [5, 5, 5], .countSections [0, 1, 2], .computeSimilarity,
      .assignClasses ⟨[(3, 2)], by decide⟩, .foldPairs, .setTotal 9, .loadPairs [1, 7] [2, 1]]
    let more : List (Call ℚ) := [.pairSlots [2] [3], .internWords [11], .computeSimilarity]
    ∃ e : Engine ℚ, ofConfig .tiny = .ok e ∧ (run calls e).poolCounts = ⟨4, 4, 3, 3⟩
      ∧ ((WordPair.of 2 3).key, Index.exhausted) ∈ (run calls e).store.tally.pairs.index.entries
      ∧ (answers calls e).countP overflowed = 2
      ∧ perform .reset (run calls e) = .ok .done (putLog (run calls e).store.log e)
      ∧ answers more ((run calls e).after .reset) = answers more e := by
  intro calls more
  obtain ⟨e, he, hcounts, hmark, hoverflows⟩ := exists_ofConfig_of_mem .tiny
    (P := fun e : Engine ℚ => (run calls e).poolCounts = ⟨4, 4, 3, 3⟩
      ∧ ((WordPair.of 2 3).key, Index.exhausted) ∈ (run calls e).store.tally.pairs.index.entries
      ∧ (answers calls e).countP overflowed = 2) (by decide +kernel)
  obtain ⟨hreset, hmore⟩ := reset_eq_new he calls
  exact ⟨e, he, hcounts, hmark, hoverflows, hreset, (hmore more).1⟩

end Engine

end CorpusStats
