import CorpusStats.Proofs.Engine.Sections
import CorpusStats.Proofs.Engine.Sizes
import CorpusStats.Proofs.Engine.Words
import CorpusStats.Proofs.Similarity.Room
import CorpusStats.Proofs.Tally.Clean
/-!
# CorpusStats.Proofs.Engine.Room

The pools of an engine have room over whole runs (`Engine.hasRoom_run`), whatever was called and
whatever failed on the way. Words and sections are numbered, which says more. Pairs are intact after
every call (`Engine.keeps_intact`), also when they were folded and their index was rebuilt. The
working state of the similarity pass is reset by every pass.

So rebuilding the index of pairs and folding always answer.
-/

namespace CorpusStats

open Stage

variable {α : Type} [Weight α]

/-! ### Pairs -/

namespace Tally

theorem intact_foldPairs {s : Logged (Tally α)} (h : s.state.pairs.Intact) :
    (foldPairs s).2.state.pairs.Intact := by
  obtain ⟨pairs', hstate, hmapped⟩ := exists_mapped_foldPairs s
  rw [hstate]
  exact h.mapped hmapped

end Tally

namespace Engine

/-- Pairs are an intact pool after every call. -/
theorem keeps_intact (call : Call α) :
    Keeps (fun e : Engine α => e.store.tally.pairs.Intact) (perform call) := fun _ h =>
  pairs_keep PairPool.persists_intact (call.asksForPairsOf_of_forall fun _ => trivial)
    (fun _ _ => trivial) (fun _ _ hmapped h => h.mapped hmapped)
    (fun _ h => (Tally.refilled_reindexPairs h).intact h) (fun _ h => h.reset) h

theorem intact_run {config : Config} {e : Engine α} (he : ofConfig config = .ok e)
    (calls : List (Call α)) : (run calls e).store.tally.pairs.Intact := by
  refine run_keeps (fun call _ => keeps_intact call) ?_
  have hnew := new_of_ofConfig he
  obtain ⟨-, hpairs, -⟩ := pools_of_ofConfig he
  refine ⟨Pool.hasRoom_of_ofCapacity ?_ hpairs, hnew.pairs.tidy⟩
  exact hnew.capacity_pairs ▸ hnew.capacities_le.2.1

end Engine

/-! ### The similarity pass -/

/-- Passes and resets leave room for passes. -/
theorem Similarity.persists_hasRoom (n : ℕ) :
    Persists fun (sections : SectionPool α) w => Fits sections w ∧ HasRoom sections n w where
  congr sections sections' w hsections h := by
    obtain ⟨hfits, hroom⟩ := h
    exact ⟨persists_fits.congr _ _ _ hsections hfits, hroom.size_norms, hroom.candidates,
      (Pool.capacity_eq_of_reset hsections).trans_le hroom.heads_le⟩
  run sections s h := by
    refine ⟨persists_fits.run sections s h.1, ?_⟩
    obtain ⟨s', hroom, ⟨-, ⟨report, hrun⟩ | ⟨err, hrun, -⟩⟩ | ⟨row, -, -, hrun⟩⟩ :=
      run_cases h.1 h.2
    · rwa [outcome_of_ok hrun]
    · rwa [outcome_of_error hrun]
    · rwa [outcome_of_error hrun]
  reset sections w h := ⟨fits_reset h.1, h.2.reset⟩

namespace Engine

/-- The working state of a new engine has room for a pass. -/
theorem New.hasRoom_similarity {config : Config} {e : Engine α} (he : ofConfig config = .ok e) :
    e.store.similarity.HasRoom e.store.sections config.capacities.wordPool.toNat := by
  have hnew := new_of_ofConfig he
  obtain ⟨heads, hheads, candidates, hcandidates, hw⟩ :=
    Similarity.ofCapacities_eq_ok_iff.mp (similarity_of_ofConfig he)
  obtain ⟨hpos, -, rfl⟩ := Index.ofCapacity_eq_ok_iff.mp hheads
  have hdisjuncts : ("disjunct", config.capacities.sectionPool, config.capacities.disjunctIndex)
      ∈ config.capacities.pools := by simp [Capacities.pools]
  rw [← hw]
  refine ⟨Array.size_replicate, Pool.hasRoom_of_ofCapacity ?_ hcandidates, ?_⟩
  · exact hnew.capacity_candidates ▸ hnew.capacities_le.2.2.2
  · rw [hnew.capacity_sections]
    exact (hnew.pool_bounds hdisjuncts).2.trans_eq Array.size_replicate.symm

/-! ### Engines -/

/-- All pools have room, and so has the similarity pass. -/
structure HasRoom (e : Engine α) : Prop where
  words : e.store.tally.words.HasRoom
  pairs : e.store.tally.pairs.Intact
  sections : e.store.sections.HasRoom
  fits : e.store.Fits
  similarity : e.store.similarity.HasRoom e.store.sections e.store.tally.words.capacity

/-- Every engine that a run can reach has room. -/
theorem hasRoom_run {config : Config} {e : Engine α} (he : ofConfig config = .ok e)
    (calls : List (Call α)) : (run calls e).HasRoom := by
  obtain ⟨hcapacity, hwords⟩ := wordsNumbered_run (wordsNumbered_of_ofConfig he) calls
  have hstart := New.hasRoom_similarity he
  rw [← (new_of_ofConfig he).capacity_words] at hstart
  have hsizes := run_keeps (fun call (_ : call ∈ calls) =>
    keeps_sizes (Similarity.persists_hasRoom _) call) ⟨fits_run he [], hstart⟩
  refine ⟨hwords.hasRoom, intact_run he calls, ?_, hsizes.1, hcapacity ▸ hsizes.2⟩
  exact (records_run (records_of_ofConfig he) calls).numbers.hasRoom

end Engine

end CorpusStats
