import CorpusStats.Proofs.Engine.Logs
import CorpusStats.Proofs.Engine.Sizes
import CorpusStats.Proofs.Similarity.Room
/-!
# CorpusStats.Proofs.Engine.Passes

The similarity pass forgets its past.

A pass starts by emptying its working state, and what emptying leaves depends on sizes alone
(`Similarity.SameSizes.reset_eq`). Passes do not change sizes, wherever they stop
(`Similarity.reset_afterPasses`). So norms, chains, links that lead in circles, candidates and the
marked keys of earlier passes have no influence on what a pass answers and leaves
(`Similarity.run_forgets`).
-/

namespace CorpusStats

open Stage

variable {α : Type} [Weight α]

namespace Similarity

/-- Two working states of the same sizes, with whatever contents. -/
structure SameSizes (w w' : Similarity α) : Prop where
  norms : w'.norms.size = w.norms.size
  heads_name : w'.heads.name = w.heads.name
  heads : w'.heads.capacity = w.heads.capacity
  next : w'.next.size = w.next.size
  candidates_name : w'.candidates.name = w.candidates.name
  candidates : w'.candidates.capacity = w.candidates.capacity
  index_name : w'.candidates.index.name = w.candidates.index.name
  index : w'.candidates.index.capacity = w.candidates.index.capacity

theorem SameSizes.reset_eq {w w' : Similarity α} (h : SameSizes w w') : w'.reset = w.reset :=
  reset_congr h.norms (Index.clear_congr h.heads_name h.heads) h.next
    (Pool.reset_congr h.candidates_name h.candidates (Index.clear_congr h.index_name h.index))

/-- What passes over these sections leave, one after the other, answered or not. -/
def afterPasses (before : List (SectionPool α)) (s : Logged (Similarity α)) :
    Logged (Similarity α) :=
  before.foldl (fun s sections => (outcome (run sections) s).2) s

/-- What a pass answers, and the working state that it leaves. -/
def resultOf (sections : SectionPool α) (s : Logged (Similarity α)) :
    Except Error SimilarityReport × Similarity α :=
  ((outcome (run sections) s).1, (outcome (run sections) s).2.state)

variable {sections : SectionPool α}

theorem reset_run (s : Logged (Similarity α)) :
    (outcome (run sections) s).2.state.reset = s.state.reset :=
  keeps_run s rfl

theorem reset_afterPasses (before : List (SectionPool α)) (s : Logged (Similarity α)) :
    (afterPasses before s).state.reset = s.state.reset := by
  induction before generalizing s with
  | nil => rfl
  | cons sections before ih => exact (ih _).trans (reset_run s)

theorem resultOf_put (w : Similarity α) (log log' : Log) :
    resultOf sections ⟨w, log⟩ = resultOf sections ⟨w, log'⟩ := by
  obtain ⟨answer, w', hrun⟩ := starts_run sections w
  have hresult (log : Log) : resultOf sections (Logged.put log w) = (answer, w') := by
    rw [resultOf, hrun.outcome_eq]
    rfl
  exact (hresult log).trans (hresult log').symm

/-- A pass depends on what emptying leaves of the working state, and on nothing else of it. -/
theorem resultOf_congr {s s' : Logged (Similarity α)} (h : s'.state.reset = s.state.reset) :
    resultOf sections s' = resultOf sections s := by
  have hemptied (s : Logged (Similarity α)) :
      resultOf sections s = resultOf sections ⟨s.state.reset, s.log⟩ := by
    rw [resultOf, resultOf, outcome, outcome, run_eq, run_eq, reset_reset]
  rw [hemptied s', hemptied s, h]
  exact resultOf_put s.state.reset s'.log s.log

/-- **The similarity pass forgets its past.** On two working states of the same sizes, whatever is
in them and whatever passes were made on each of them before, complete ones and ones that failed, a
pass over the same sections answers the same, or fails in the same way, and leaves the same norms,
chains and candidates. Another pass over these sections answers and leaves the same again. -/
theorem run_forgets {w w' : Similarity α} (h : SameSizes w w')
    (before before' : List (SectionPool α)) (log log' : Log) (sections : SectionPool α) :
    resultOf sections (afterPasses before' ⟨w', log'⟩)
        = resultOf sections (afterPasses before ⟨w, log⟩)
      ∧ resultOf sections (afterPasses (before ++ [sections]) ⟨w, log⟩)
        = resultOf sections (afterPasses before ⟨w, log⟩) := by
  refine ⟨resultOf_congr ?_, resultOf_congr ?_⟩
  · rw [reset_afterPasses, reset_afterPasses]
    exact h.reset_eq
  · rw [reset_afterPasses, reset_afterPasses]

/-- Links that lead in a circle, and a pass that ran out of room for candidates, leave no trace in a
pass over two sections. -/
theorem run_forgets_overflow :
    let crowd : List (Call ℚ) :=
      [.sectionSlots [0, 1, 2, 3] [5, 5, 5, 5], .countSections [0, 1, 2, 3]]
    let few : List (Call ℚ) := [.sectionSlots [0, 1] [5, 5], .countSections [0, 1]]
    let tangle (w : Similarity ℚ) : Similarity ℚ := { w with
      norms := Array.replicate w.norms.size 7
      next := Array.replicate w.next.size 0 }
    ∃ e : Engine ℚ, Engine.ofConfig .tiny = .ok e
      ∧ SameSizes e.store.similarity (tangle e.store.similarity)
      ∧ overflowed (resultOf (Engine.run crowd e).store.sections
          ⟨tangle e.store.similarity, .empty⟩).1 = true
      ∧ (resultOf (Engine.run few e).store.sections ⟨e.store.similarity, .empty⟩).1.toOption
        = some ⟨2, 1, 1⟩
      ∧ resultOf (Engine.run few e).store.sections (afterPasses
          [(Engine.run crowd e).store.sections] ⟨tangle e.store.similarity, .empty⟩)
        = resultOf (Engine.run few e).store.sections ⟨e.store.similarity, .empty⟩ := by
  intro crowd few tangle
  obtain ⟨e, he, hcrowd, hfew⟩ := Engine.exists_ofConfig_of_mem .tiny (P := fun e : Engine ℚ =>
    overflowed (resultOf (Engine.run crowd e).store.sections
        ⟨tangle e.store.similarity, .empty⟩).1 = true
      ∧ (resultOf (Engine.run few e).store.sections ⟨e.store.similarity, .empty⟩).1.toOption
        = some ⟨2, 1, 1⟩) (by decide +kernel)
  have hsizes : SameSizes e.store.similarity (tangle e.store.similarity) :=
    ⟨Array.size_replicate, rfl, rfl, Array.size_replicate, rfl, rfl, rfl, rfl⟩
  exact ⟨e, he, hsizes, hcrowd, hfew, (run_forgets hsizes []
    [(Engine.run crowd e).store.sections] .empty .empty (Engine.run few e).store.sections).1⟩

end Similarity

end CorpusStats
