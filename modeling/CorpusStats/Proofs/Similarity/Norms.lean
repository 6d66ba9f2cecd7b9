import CorpusStats.Proofs.Exact
import CorpusStats.Proofs.Pool
import CorpusStats.Proofs.Similarity.Meeting
import CorpusStats.Similarity
/-!
# CorpusStats.Proofs.Similarity.Norms

The sections that take part in a similarity pass, and the first of its stages.

* `Fits` is what the pass asks of the sizes of its working state, and nothing else. Every engine
  that a run can reach has it (`Engine.fits_run`).
* A section is **live** if it has a count. `live` lists the rows of live sections in the order
  of their slots, and `liveTo` those among the first `k` slots, which is what a stage over
  the slots has done after `k` steps.
* After the norms are computed, every word has its squared norm, and nothing else changed
  (`computeNorms_eq_ok`).
-/

namespace CorpusStats

namespace Similarity

variable {α : Type}

/-- The working state was made for a pool of sections: there is a link for every slot, and no
slot has a reserved number. -/
structure Fits (sections : SectionPool α) (w : Similarity α) : Prop where
  sections_le : sections.capacity ≤ maxPoolCapacity.toNat
  links_le : sections.capacity ≤ w.next.size
  candidates_le : w.candidates.capacity ≤ maxPoolCapacity.toNat

theorem Fits.congr {sections sections' : SectionPool α} {w w' : Similarity α}
    (h : Fits sections w) (hsections : sections'.capacity = sections.capacity)
    (hnext : w'.next.size = w.next.size)
    (hcandidates : w'.candidates.capacity = w.candidates.capacity) : Fits sections' w' :=
  ⟨hsections ▸ h.sections_le, by rw [hsections, hnext]; exact h.links_le,
    hcandidates ▸ h.candidates_le⟩

/-- A stage of the candidates answers what it answers, and changes nothing else. -/
theorem outcome_onCandidates {β : Type} (act : Stage (CandidatePool α) β) (w : Similarity α) :
    Stage.outcome (onCandidates act) w = ((Stage.outcome act w.candidates).1,
      { w with candidates := (Stage.outcome act w.candidates).2 }) := by
  obtain ⟨norms, heads, next, candidates⟩ := w
  unfold Stage.outcome onCandidates
  dsimp only
  cases act candidates <;> rfl

/-! ### Live sections -/

section Live

variable [Weight α]

def live (sections : SectionPool α) : List (SectionRow α) :=
  sections.liveRows.filter SectionRow.isLive

/-- The rows of the sections with count among the first `k` slots. -/
def liveTo (sections : SectionPool α) (k : ℕ) : List (SectionRow α) :=
  (sections.liveRows.take k).filter SectionRow.isLive

variable {sections : SectionPool α} {k slot : ℕ} {row : SectionRow α}

@[simp] theorem liveTo_used (sections : SectionPool α) :
    liveTo sections sections.used = live sections := by
  rw [liveTo, live, List.take_of_length_le (Pool.length_liveRows sections).le]

theorem liveTo_succ (hk : k < sections.used) :
    liveTo sections (k + 1) = liveTo sections k ++ (liveRow? sections k).toList := by
  rw [liveTo, List.take_add_one, List.filter_append, Pool.liveRows_getElem? hk, liveRow?,
    Option.toList_filter, liveTo]

theorem liveTo_succ_of_none (hk : k < sections.used) (hrow : liveRow? sections k = none) :
    liveTo sections (k + 1) = liveTo sections k := by
  rw [liveTo_succ hk, hrow, Option.toList_none, List.append_nil]

theorem liveTo_succ_of_some (hk : k < sections.used) (hrow : liveRow? sections k = some row) :
    liveTo sections (k + 1) = liveTo sections k ++ [row] := by
  rw [liveTo_succ hk, hrow, Option.toList_some]

theorem liveRow?_eq_some_iff :
    liveRow? sections slot = some row ↔ sections.row? slot = some row ∧ 0 < row.count := by
  rw [liveRow?, Option.filter_eq_some_iff, SectionRow.isLive, decide_eq_true_iff]

theorem count_pos_of_mem_live (hrow : row ∈ live sections) : 0 < row.count :=
  of_decide_eq_true (List.mem_filter.mp hrow).2

end Live

/-! ### Norms -/

variable [Field α]

/-- Adding to the norm of a word that has one adds to no other. -/
theorem getD_modify_add (norms : Array α) {word : UInt32} (hword : word.toNat < norms.size)
    (x : α) (word' : UInt32) :
    (norms.modify word.toNat (· + x)).getD word'.toNat 0
      = norms.getD word'.toNat 0 + if word = word' then x else 0 := by
  rw [Array.getD_eq_getD_getElem?, Array.getD_eq_getD_getElem?, Array.getElem?_modify]
  by_cases hsame : word = word'
  · subst hsame
    rw [if_pos rfl, if_pos rfl, Array.getElem?_eq_getElem hword]
    rfl
  · rw [if_neg fun heq => hsame (UInt32.toNat_inj.mp heq), if_neg hsame, add_zero]

variable [LinearOrder α] [FloorSemiring α] [RootLog α]

/-- The stage of norms leaves every word its squared norm, if it left off from none. -/
theorem computeNorms_eq_ok {sections : SectionPool α} {s s' : Logged (Similarity α)}
    (hnone : ∀ word, s.state.normSquared word = 0) (h : computeNorms sections s = .ok () s') :
    s'.state.heads = s.state.heads ∧ s'.state.next = s.state.next
      ∧ s'.state.candidates = s.state.candidates
      ∧ ∀ word, s'.state.normSquared word = squaredNorm (live sections) word := by
  obtain ⟨_, _, hrun, hpure⟩ := Stage.bind_eq_ok_iff.mp h
  cases hpure
  obtain ⟨hloop, -⟩ := dispatch_eq_ok_iff.mp hrun
  have hall := mapM_range_ok_induction (P := fun k _ (w : Similarity α) =>
      w.heads = s.state.heads ∧ w.next = s.state.next ∧ w.candidates = s.state.candidates
        ∧ ∀ word, w.normSquared word = squaredNorm (liveTo sections k) word)
    hloop ⟨rfl, rfl, rfl, hnone⟩ ?_
  · rwa [liveTo_used] at hall
  · intro k _ w _ w' hk hdone hstep
    obtain ⟨norms, heads, next, candidates⟩ := w
    obtain ⟨hheads, hnext, hcandidates, hnorms⟩ := hdone
    cases hrow : liveRow? sections k with
    | none =>
      simp only [addNorm, hrow] at hstep
      cases hstep
      exact ⟨hheads, hnext, hcandidates, liveTo_succ_of_none hk hrow ▸ hnorms⟩
    | some row =>
      simp only [addNorm, hrow] at hstep
      by_cases hword : row.word.toNat < norms.size
      · rw [if_pos hword] at hstep
        cases hstep
        refine ⟨hheads, hnext, hcandidates, fun word => ?_⟩
        rw [liveTo_succ_of_some hk hrow, squaredNorm_concat, ← hnorms word]
        exact getD_modify_add norms hword _ word
      · rw [if_neg hword] at hstep
        cases hstep

end Similarity

end CorpusStats
