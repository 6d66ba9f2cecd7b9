import CorpusStats.Proofs.Engine.Parts
import CorpusStats.Proofs.Engine.Start
import CorpusStats.Proofs.Tally.Totals
/-!
# CorpusStats.Proofs.Engine.Balance

The books of an engine over whole runs. Every call that does not fold, recompute or load
leaves them balanced, whether it answers or fails (`Engine.keeps_accounted`), so they
balance after every run of such calls from a new or a reset engine, and recomputing them
there finds what is there.
-/

namespace CorpusStats

open Stage

variable {α : Type}

/-- Whether a call leaves the counts of pairs, the marginal counts and the total to the
stages that observe. The others write some of them apart from the rest. -/
def Call.KeepsBooks : Call α → Prop
  | .foldPairs | .reindexPairs | .fold | .rebuildTotals => False
  | .loadPairs _ _ | .loadWords _ _ | .setTotal _ => False
  | _ => True

variable [Field α] [LinearOrder α] [FloorSemiring α] [RootLog α]

namespace Engine

theorem accounted_of_ofConfig {config : Config} {e : Engine α} (h : ofConfig config = .ok e) :
    e.store.tally.Accounted := by
  obtain ⟨-, hwords, -, hpairs, -, htotal, -⟩ := new_of_ofConfig h
  have haccounted := Tally.accounted_of_blank hwords hpairs
  rwa [← htotal] at haccounted

/-- A call leaves balanced books balanced, whether it answers or fails. -/
theorem keeps_accounted {call : Call α} (hcall : call.KeepsBooks) :
    Keeps (fun e : Engine α => e.store.tally.Accounted) (perform call) := by
  cases call with
  | internWords keys => exact (keeps_onTally (Tally.keeps_internWords keys)).map
  | pairSlots as bs =>
    refine (keeps_onTally ?_).map
    exact Tally.keptByObserving_accounted.pairSlots (fun _ _ => trivial) fun _ _ => trivial
  | countPairs slots => exact (keeps_onTally (Tally.keptByObserving_accounted.countSlots slots)).map
  | countSentences batch window =>
    refine Keeps.map (.bind .get fun e => .bind (.lift _) fun _ => .bind .get fun e' => ?_)
    refine .bind (keeps_onTally ?_) fun _ => .bind .get fun _ => .pure _
    exact Tally.keptByObserving_accounted.countSentences (fun _ _ => trivial) window _
  | score mode =>
    refine Keeps.map (.bind .get fun e => keeps_onTally (.modifyGet fun s hs => ?_))
    exact Tally.accounted_score mode _ hs
  | scoreStats threshold => exact (keeps_onTally (.modifyGet fun _ hs => hs)).map
  | filterPairs threshold limit => exact (keeps_onTally (.modifyGet fun _ hs => hs)).map
  | assignClasses classes => exact (keeps_onTally (Tally.keeps_assignClasses classes)).map
  | reset => exact Keeps.map fun e _ => e.store.tally.accounted_reset
  | foldPairs | reindexPairs | fold | rebuildTotals | loadPairs | loadWords | setTotal => cases hcall
  | _ => exact keeps_tally trivial

theorem accounted_run {e : Engine α} (he : e.IsStart) {calls : List (Call α)}
    (hcalls : ∀ call ∈ calls, call.KeepsBooks) : (run calls e).store.tally.Accounted := by
  refine run_keeps (P := fun e => e.store.tally.Accounted)
    (fun call hcall => keeps_accounted (hcalls call hcall)) ?_
  rcases he with ⟨config, hconfig⟩ | ⟨e₀, rfl⟩
  · exact accounted_of_ofConfig hconfig
  · rw [after_eq]
    exact e₀.store.tally.accounted_reset

theorem perform_rebuildTotals_eq_ok_iff {e e' : Engine α} {answer : Answer α} :
    perform .rebuildTotals e = .ok answer e' ↔
      ∃ total s, Tally.rebuildTotals ⟨e.store.tally, e.store.log⟩ = .ok total s
        ∧ e' = { e with store := { e.store with tally := s.state, log := s.log } }
        ∧ answer = .total total := by
  rw [perform, Stage.map_eq_ok_iff]
  constructor
  · intro h
    obtain ⟨total, hrun, rfl⟩ := h
    obtain ⟨s, hrebuild, rfl⟩ := onTally_eq_ok_iff.mp hrun
    exact ⟨total, s, hrebuild, rfl, rfl⟩
  · intro h
    obtain ⟨total, s, hrebuild, rfl, rfl⟩ := h
    exact ⟨total, onTally_eq_ok_iff.mpr ⟨s, hrebuild, rfl⟩, rfl⟩

variable [IsStrictOrderedRing α]

/-- **The books are in step.** While the counts add up to less than `2 ^ 64`, after every run
of calls that leave the books to the stages that observe, failed calls among them, the total
and the marginal counts are those of the pairs, and recomputing them there succeeds, answers
the total and changes none of them. From any engine whose pairs have natural counts, recomputing
that succeeds puts the books in step and answers the total. -/
theorem books_in_step :
    (∀ (e : Engine α) (calls : List (Call α)), e.IsStart → (∀ call ∈ calls, call.KeepsBooks) →
      massOf (run calls e).store.tally.pairs.liveRows < 2 ^ 64 →
      (run calls e).store.tally.InStep
        ∧ ∃ e', perform .rebuildTotals (run calls e)
            = .ok (.total (run calls e).store.tally.total) e'
          ∧ e'.store.tally.total = (run calls e).store.tally.total
          ∧ e'.store.tally.pairs = (run calls e).store.tally.pairs
          ∧ ∀ word, WordPool.marginal e'.store.tally.words word
            = WordPool.marginal (run calls e).store.tally.words word)
      ∧ ∀ (e e' : Engine α) (answer : Answer α),
        (∀ row ∈ e.store.tally.pairs.liveRows, ∃ n : ℕ, row.count = n) →
        massOf e.store.tally.pairs.liveRows < 2 ^ 64 →
        perform .rebuildTotals e = .ok answer e' →
        e'.store.tally.InStep ∧ answer = .total e'.store.tally.total
          ∧ e'.store.tally.pairs = e.store.tally.pairs := by
  constructor
  · intro e calls he hcalls hmass
    have hbalanced := (accounted_run he hcalls).balanced
    obtain ⟨s', hrun, htotal, hpairs, hmarginal⟩ := Tally.Balanced.rebuildTotals
      (s := ⟨(run calls e).store.tally, (run calls e).store.log⟩) hbalanced hmass
    exact ⟨hbalanced.inStep hmass, _,
      perform_rebuildTotals_eq_ok_iff.mpr ⟨_, s', hrun, rfl, rfl⟩, htotal, hpairs, hmarginal⟩
  · intro e e' answer hnatural hmass hrun
    obtain ⟨total, s, hrebuild, rfl, rfl⟩ := perform_rebuildTotals_eq_ok_iff.mp hrun
    obtain ⟨hstep, rfl, hpairs, -⟩ := Tally.inStep_of_rebuildTotals hnatural hmass hrebuild
    exact ⟨hstep, rfl, hpairs⟩

/-- A batch that runs out of pairs on its way, and a pair that does not exist: what was
observed before the failures is in the books. Loading a count takes them out of step, and
recomputing them brings them back. -/
theorem books_in_step_overflow :
    let batch : Sentences := ⟨#[0, 1, 2, 3], #[0], #[4], by decide⟩
    let calls : List (Call ℚ) := [.countSentences batch 3, .countPairs [0, 7]]
    ∃ e e' : Engine ℚ, ofConfig .tiny = .ok e
      ∧ (run calls e).store.tally.InStep ∧ (run calls e).store.tally.total = 5
      ∧ perform .rebuildTotals (run (calls ++ [.loadPairs [1] [5]]) e) = .ok (.total 9) e'
      ∧ e'.store.tally.InStep := by
  intro batch calls
  obtain ⟨e, he, htotal, hcounts, hloaded, hanswer⟩ :=
    exists_ofConfig_of_mem .tiny (P := fun e : Engine ℚ =>
      (run calls e).store.tally.total = 5
        ∧ (run calls e).store.tally.pairs.liveRows.map PairRow.count = [2, 1, 1, 1]
        ∧ (run (calls ++ [.loadPairs [1] [5]]) e).store.tally.pairs.liveRows.map PairRow.count
          = [2, 5, 1, 1]
        ∧ (outcome rebuildTotals (run (calls ++ [.loadPairs [1] [5]]) e)).1.toOption = some 9)
      (by decide +kernel)
  obtain ⟨e', hrun⟩ := exists_eq_ok_of_toOption hanswer
  have hperform : perform .rebuildTotals (run (calls ++ [.loadPairs [1] [5]]) e)
      = .ok (.total 9) e' := Stage.map_eq_ok_iff.mpr ⟨9, hrun, rfl⟩
  obtain ⟨hruns, hrebuilds⟩ := books_in_step (α := ℚ)
  refine ⟨e, e', he, (hruns e calls (.inl ⟨_, he⟩) ?_ ?_).1, htotal, hperform,
    (hrebuilds _ e' _ ?_ ?_ hperform).1⟩
  · simp [calls, Call.KeepsBooks]
  · rw [massOf, hcounts]
    norm_num
  · intro row hrow
    have hcount := List.mem_map_of_mem (f := PairRow.count) hrow
    rw [hloaded] at hcount
    simp only [List.mem_cons, List.not_mem_nil, or_false] at hcount
    rcases hcount with hcount | hcount | hcount | hcount
    · exact ⟨2, by exact_mod_cast hcount⟩
    · exact ⟨5, by exact_mod_cast hcount⟩
    · exact ⟨1, by exact_mod_cast hcount⟩
    · exact ⟨1, by exact_mod_cast hcount⟩
  · rw [massOf, hloaded]
    norm_num

end Engine

end CorpusStats
