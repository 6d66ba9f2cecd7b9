import CorpusStats.Proofs.Checks
import CorpusStats.Proofs.Emptied
import CorpusStats.Proofs.Engine.Parts
import CorpusStats.Proofs.Engine.Start
import CorpusStats.Proofs.Similarity.Norms
/-!
# CorpusStats.Proofs.Engine.Sizes

Arenas keep their sizes: no stage of the sections and none of the similarity pass changes what
emptying leaves, whether it answers or fails, and with it how many slots there are. So the working
state of the pass fits the sections in every engine that a run can reach (`Engine.fits_run`), and
what is shown of a pass under that condition holds in all of them.
-/

namespace CorpusStats

open Stage

variable {α : Type} [Weight α]

/-! ### Sections -/

namespace SectionPool

open Pool

variable {empty : SectionPool α}

theorem keeps_loadCount (slot : UInt32) (count : α) :
    Keeps (EmptiesTo empty) (loadCount slot count) :=
  (writes_loadCount slot count).keeps fun _ _ _ hsections => hsections

theorem keeps_slotOf (word : UInt32) (disjunct : UInt64) :
    Keeps (EmptiesTo empty) (slotOf word disjunct : Stage (SectionPool α) _) :=
  keeps_findOrCreate empty _ _

theorem reset_foldWords (words : WordPool α) (s : Logged (SectionPool α)) :
    (foldWords words s).2.state.reset = s.state.reset :=
  foldl_range_induction (P := fun _ sections => EmptiesTo s.state.reset sections) rfl
    fun _ _ _ hsections => hsections

theorem keeps_observe (slot : ℕ) : Keeps (EmptiesTo empty) (observe slot) :=
  fun _ hsections => hsections

theorem keeps_observeSlot (slot : UInt32) : Keeps (EmptiesTo empty) (observeSlot slot) :=
  (writes_observeSlot slot).keeps fun _ _ _ hsections => hsections

theorem keeps_extractPosition (b : Parses) (locator : Locator) (i : ℕ) :
    Keeps (EmptiesTo empty) (extractPosition b locator i) := by
  unfold extractPosition
  dsimp only
  split
  · exact .throw _
  · split
    · exact fun _ hsections => hsections
    · split
      · exact .pure _
      · exact (keeps_slotOf _ _).bind fun _ => (keeps_observe _).bind fun _ => .pure _

end SectionPool

/-! ### Candidates -/

namespace CandidatePool

theorem keeps_addProduct (empty : CandidatePool α) (a b : UInt32) (product : α) :
    Keeps (Pool.EmptiesTo empty) (addProduct a b product) := by
  intro candidates hcandidates
  have hkept := Pool.keeps_findOrCreate empty (WordPair.of a b).key
    (fun row : CandidateRow α => { row with wordA := a, wordB := b })
  unfold outcome addProduct
  cases hfind : Pool.findOrCreate (WordPair.of a b).key
      (fun row : CandidateRow α => { row with wordA := a, wordB := b }) candidates with
  | ok found candidates' =>
    have hfound : Pool.EmptiesTo empty candidates' := hkept.ok hcandidates hfind
    exact hfound
  | error e candidates' => exact hkept.error hcandidates hfind

end CandidatePool

/-! ### The similarity pass -/

namespace Similarity

/-- Emptying the working state leaves this one. -/
def EmptiesTo (empty w : Similarity α) : Prop := w.reset = empty

theorem reset_congr {w w' : Similarity α} (hnorms : w'.norms.size = w.norms.size)
    (hheads : w'.heads.clear = w.heads.clear) (hnext : w'.next.size = w.next.size)
    (hcandidates : w'.candidates.reset = w.candidates.reset) : w'.reset = w.reset := by
  rw [reset, hnorms, hheads, hnext, hcandidates, reset]

@[simp] theorem reset_reset (w : Similarity α) : w.reset.reset = w.reset :=
  reset_congr Array.size_replicate w.heads.clear_clear Array.size_replicate w.candidates.reset_reset

/-- What fits after emptying fits before. -/
theorem Fits.of_reset {sections sections' : SectionPool α} {w w' : Similarity α}
    (h : Fits sections w) (hsections : sections'.reset = sections.reset)
    (hw : w'.reset = w.reset) : Fits sections' w' := by
  refine h.congr (Pool.capacity_eq_of_reset hsections) ?_ (Pool.capacity_eq_of_reset ?_)
  · simpa [reset] using congrArg (fun w : Similarity α => w.next.size) hw
  · exact congrArg Similarity.candidates hw

theorem fits_reset {sections : SectionPool α} {w : Similarity α} (h : Fits sections w) :
    Fits sections w.reset :=
  h.of_reset rfl w.reset_reset

variable {sections : SectionPool α} {empty : Similarity α}

theorem keeps_addNorm (slot : ℕ) : Keeps (EmptiesTo empty) (addNorm sections slot) := by
  rintro ⟨norms, heads, next, candidates⟩ rfl
  unfold outcome addNorm
  dsimp only
  cases liveRow? sections slot with
  | none => exact rfl
  | some row =>
    dsimp only
    by_cases hword : row.word.toNat < norms.size
    · rw [if_pos hword]
      exact reset_congr Array.size_modify rfl rfl rfl
    · rw [if_neg hword]
      exact rfl

theorem keeps_link (slot : ℕ) : Keeps (EmptiesTo empty) (link sections slot) := by
  rintro ⟨norms, heads, next, candidates⟩ rfl
  unfold outcome link
  dsimp only
  cases liveRow? sections slot with
  | none => exact rfl
  | some row =>
    have hclear := heads.clear_pushFront row.disjunct slot.toUInt32
    dsimp only
    cases hpush : Index.pushFront row.disjunct slot.toUInt32 heads with
    | ok previous heads' =>
      rw [outcome_of_ok hpush] at hclear
      exact reset_congr rfl hclear Array.size_setIfInBounds rfl
    | error e heads' =>
      rw [outcome_of_error hpush] at hclear
      exact reset_congr rfl hclear rfl rfl

theorem keeps_meet (row : SectionRow α) (other : ℕ) :
    Keeps (EmptiesTo empty) (meet sections row other) := by
  unfold meet
  cases sections.row? other with
  | none => exact .pure _
  | some row' =>
    dsimp only
    by_cases hlt : row.word < row'.word
    · rw [if_pos hlt]
      rintro w rfl
      rw [outcome_onCandidates]
      exact reset_congr rfl rfl rfl (CandidatePool.keeps_addProduct _ _ _ _ w.candidates rfl)
    · rw [if_neg hlt]
      exact .pure _

theorem keeps_addProducts (slot : ℕ) : Keeps (EmptiesTo empty) (addProducts sections slot) := by
  intro w hw
  unfold outcome addProducts
  cases liveRow? sections slot with
  | none => exact hw
  | some row =>
    dsimp only
    have hwalk : Keeps (EmptiesTo empty) ((w.walk row.disjunct).visited.forM (meet sections row)) :=
      .forM fun other _ => keeps_meet row other
    cases hrun : (w.walk row.disjunct).visited.forM (meet sections row) w with
    | ok _ w' =>
      dsimp only
      -- Whether the links came to an end decides the answer only.
      have hw' := hwalk.ok hw hrun
      cases (w.walk row.disjunct).ended <;> exact hw'
    | error e w' => exact hwalk.error hw hrun

theorem emptiesTo_computeCosines {s : Logged (Similarity α)} (h : EmptiesTo empty s.state) :
    EmptiesTo empty (computeCosines s).state := by
  obtain ⟨w, log⟩ := s
  exact foldl_range_induction (P := fun _ (w : Similarity α) => EmptiesTo empty w) h
    fun _ _ _ hw => hw

/-- The pass leaves the sizes of its working state, whether it answers or fails. -/
theorem keeps_run :
    Keeps (fun s : Logged (Similarity α) => EmptiesTo empty s.state) (run sections) := by
  refine .bind (fun s hs => s.state.reset_reset.trans hs) fun _ => ?_
  refine .bind (.bind (.dispatch fun slot _ => keeps_addNorm slot) fun _ => .pure _) fun _ => ?_
  refine .bind (.bind (.dispatch fun slot _ => keeps_link slot) fun _ => .pure _) fun _ => ?_
  refine .bind (.bind (.dispatch fun slot _ => keeps_addProducts slot) fun _ => .pure _) fun _ => ?_
  exact .bind (fun _ hs => emptiesTo_computeCosines hs) fun _ => .bind .get fun _ => .pure _

/-! ### Stores and engines -/

/-- The property is about the working state of the pass and what emptying leaves of the sections,
and passes and resets keep it. -/
structure Persists (Q : SectionPool α → Similarity α → Prop) : Prop where
  congr : ∀ sections sections' w, sections'.reset = sections.reset → Q sections w → Q sections' w
  run : ∀ sections, Keeps (fun s : Logged (Similarity α) => Q sections s.state)
    (Similarity.run sections)
  reset : ∀ sections w, Q sections w → Q sections w.reset

theorem persists_fits : Persists (Fits (α := α)) where
  congr _ _ _ hsections h := h.of_reset hsections rfl
  run _ s h := h.of_reset rfl (keeps_run s rfl)
  reset _ _ h := fits_reset h

/-- What emptying leaves of either stays the same. -/
theorem persists_emptiesTo (sections₀ : SectionPool α) (w₀ : Similarity α) :
    Persists fun sections w => Pool.EmptiesTo sections₀ sections ∧ EmptiesTo w₀ w where
  congr _ _ _ hsections h := ⟨hsections.trans h.1, h.2⟩
  run _ s h := ⟨h.1, keeps_run s h.2⟩
  reset _ w h := ⟨h.1, w.reset_reset.trans h.2⟩

end Similarity

namespace Store

variable {β : Type} {Q : SectionPool α → Similarity α → Prop}

def Fits (s : Store α) : Prop := s.similarity.Fits s.sections

variable (hQ : Similarity.Persists Q)
include hQ

theorem keeps_sizes_onSections {act : Stage (Logged (SectionPool α)) β}
    (h : ∀ empty, Keeps (fun l => Pool.EmptiesTo empty l.state) act) :
    Keeps (fun s : Store α => Q s.sections s.similarity) (onSections act) := by
  intro s hs
  rw [outcome_onSections]
  exact hQ.congr _ _ _ (h _ ⟨s.sections, s.log⟩ rfl) hs

theorem keeps_sizes_foldSections :
    Keeps (fun s : Store α => Q s.sections s.similarity) foldSections := by
  intro s hs
  obtain ⟨tally, sections, similarity, log⟩ := s
  exact hQ.congr _ _ _ (SectionPool.reset_foldWords tally.words ⟨sections, log⟩) hs

omit hQ [Weight α] in
/-- A stage of the similarity pass keeps what it keeps of its working state. -/
theorem keeps_rest_onSimilarity
    {act : SectionPool α → Stage (Logged (Similarity α)) β}
    (h : ∀ sections, Keeps (fun l => Q sections l.state) (act sections)) :
    Keeps (fun s : Store α => Q s.sections s.similarity) (onSimilarity act) := by
  intro s hs
  rw [outcome_onSimilarity]
  exact h _ ⟨s.similarity, s.log⟩ hs

end Store

namespace Engine

variable {Q : SectionPool α → Similarity α → Prop}

/-- Calls keep what is about the working state of the pass and the sizes of the sections, whether
they answer or fail. -/
theorem keeps_sizes (hQ : Similarity.Persists Q) (call : Call α) :
    Keeps (fun e : Engine α => Q e.store.sections e.store.similarity) (perform call) := by
  have onSections {β : Type} {act : Stage (Logged (SectionPool α)) β}
      (h : ∀ empty, Keeps (fun l => Pool.EmptiesTo empty l.state) act) :
      Keeps (fun e : Engine α => Q e.store.sections e.store.similarity)
        (onStore (Store.onSections act)) :=
    keeps_onStore (P := fun s => Q s.sections s.similarity) (Store.keeps_sizes_onSections hQ h)
  cases call with
  | sectionSlots words disjuncts =>
    refine (onSections fun empty => ?_).map
    refine .bind (.lift _) fun _ => .dispatch fun pair _ => ?_
    exact (SectionPool.keeps_slotOf _ _).bind fun _ => .pure _
  | countSections slots =>
    refine (onSections fun empty => ?_).map
    exact .bind (.dispatch fun slot _ => SectionPool.keeps_observeSlot slot) fun _ => .pure _
  | extractSections batch =>
    refine Keeps.map (.bind .get fun e => .bind (.lift _) fun _ => .bind .get fun e' => ?_)
    refine .bind (onSections fun empty => ?_) fun _ => .bind .get fun _ => .pure _
    refine .bind (.dispatch fun i _ => ?_) fun _ => .pure _
    exact SectionPool.keeps_extractPosition batch _ i
  | loadSections slots counts =>
    refine Keeps.map (.bind (.lift _) fun _ e he => ?_)
    rw [outcome_onSectionsState]
    refine hQ.congr _ _ _ ?_ he
    exact Keeps.forM (P := Pool.EmptiesTo e.store.sections.reset)
      (fun pair _ => SectionPool.keeps_loadCount _ _) _ rfl
  | computeSimilarity =>
    refine (keeps_onStore (P := fun s => Q s.sections s.similarity) ?_).map
    exact Store.keeps_rest_onSimilarity hQ.run
  | filterCandidates threshold limit =>
    refine (keeps_onStore (P := fun s => Q s.sections s.similarity) ?_).map
    exact Store.keeps_rest_onSimilarity fun sections => .modifyGet fun _ hs => hs
  | foldSections =>
    refine (keeps_onStore (P := fun s => Q s.sections s.similarity) ?_).map
    exact Store.keeps_sizes_foldSections hQ
  | fold =>
    refine (keeps_onStore (P := fun s => Q s.sections s.similarity) ?_).map
    refine .bind (Store.keeps_rest_onTally _) fun _ => .bind (Store.keeps_rest_onTally _) fun _ => ?_
    exact (Store.keeps_sizes_foldSections hQ).bind fun _ => .pure _
  | reset =>
    exact Keeps.map fun e he =>
      hQ.congr e.store.sections _ _ e.store.sections.reset_reset (hQ.reset _ _ he)
  | _ => exact keeps_rest trivial

/-- The working state of the pass fits the sections in every engine that a run can reach. -/
theorem fits_run {config : Config} {e : Engine α} (he : ofConfig config = .ok e)
    (calls : List (Call α)) : (run calls e).store.Fits := by
  refine run_keeps (P := fun e => e.store.Fits)
    (fun call _ => keeps_sizes Similarity.persists_fits call) ?_
  have hnew := new_of_ofConfig he
  obtain ⟨-, -, hsections, hcandidates⟩ := hnew.capacities_le
  refine ⟨hsections, ?_, hcandidates⟩
  rw [hnew.capacity_sections, hnew.size_next]

end Engine

end CorpusStats
