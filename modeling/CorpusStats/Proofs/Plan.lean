import CorpusStats.Proofs.Failing
import CorpusStats.Proofs.Logging
/-!
# CorpusStats.Proofs.Plan

A stage as the **plan** of its dispatches, so that one can speak of the states in between.

* What a plan does is a stage again (`Plan.run`). What it leaves after each of its work-items is its
  trail (`Plan.trail`), which goes up to the item that fails if one does.
* Only the dispatches of a plan write to the log (`Plan.log_run`). The trail of a plan that answers
  is as long as its dispatches are wide (`Plan.length_trail`), so no work-item is left out.
* `Plan.Meets` says what holds after every work-item and at the end. There is one rule for each way
  to make a plan. The invariant of a dispatch may depend on the items that are done. A plan that
  `Plan.Stays` in a property starts and ends in it too.
-/

namespace CorpusStats

open Stage

variable {σ τ ι α β : Type}

/-! ### Parts -/

/-- A part of a state that can be read and replaced. -/
structure Part (σ τ : Type) where
  get : σ → τ
  put : τ → σ → σ

namespace Part

/-- Run a stage on a part. -/
def lift (part : Part σ τ) (act : Stage τ α) : Stage σ α := fun s =>
  match act (part.get s) with
  | .ok a t => .ok a (part.put t s)
  | .error e t => .error e (part.put t s)

theorem outcome_lift (part : Part σ τ) (act : Stage τ α) (s : σ) : outcome (part.lift act) s
    = ((outcome act (part.get s)).1, part.put (outcome act (part.get s)).2 s) := by
  unfold outcome lift
  cases act (part.get s) <;> rfl

theorem lift_eq_ok_iff {part : Part σ τ} {act : Stage τ α} {s s' : σ} {a : α} :
    part.lift act s = .ok a s' ↔ ∃ t, act (part.get s) = .ok a t ∧ s' = part.put t s :=
  eq_ok_iff_of_outcome (outcome_lift part act s)

theorem lift_map (part : Part σ τ) (f : α → β) (act : Stage τ α) :
    part.lift (f <$> act) = f <$> part.lift act := by
  funext s
  simp only [map_eq_pure_bind]
  unfold lift
  simp only [Bind.bind, EStateM.bind]
  cases act (part.get s) <;> rfl

/-- A state without its log. -/
def state : Part (Logged σ) σ := ⟨Logged.state, fun t s => ⟨t, s.log⟩⟩

/-- A part with the log of the whole. -/
def logged (part : Part σ τ) : Part (Logged σ) (Logged τ) :=
  ⟨fun s => ⟨part.get s.state, s.log⟩, fun t s => ⟨part.put t.state s.state, t.log⟩⟩

end Part

/-! ### Plans -/

/-- A stage, taken apart into its dispatches and what the host does between them. -/
inductive Plan : Type → Type → Type 1
  /-- What runs outside any dispatch, on a state without log. -/
  | host {σ α : Type} (act : Stage σ α) : Plan σ α
  | dispatch {σ ι α : Type} (items : List ι) (step : ι → Stage σ α) : Plan σ (List α)
  | bind {σ α β : Type} (first : Plan σ α) (next : α → Plan σ β) : Plan σ β
  | within {σ τ α : Type} (part : Part σ τ) (plan : Plan τ α) : Plan σ α

/-- The states after each step of a loop, up to the step that fails. -/
def trailFrom (step : ι → Stage σ α) : List ι → σ → List σ
  | [], _ => []
  | i :: items, s =>
    match step i s with
    | .ok _ s' => s' :: trailFrom step items s'
    | .error _ s' => [s']

namespace Plan

instance : Monad (Plan σ) where
  pure a := .host (pure a)
  bind := .bind

instance : MonadLift (EStateM Error σ) (Plan σ) := ⟨.host⟩

/-- What a plan does. -/
def run {σ α : Type} : Plan σ α → Stage (Logged σ) α
  | .host act => Part.state.lift act
  | .dispatch items step => CorpusStats.dispatch items step
  | .bind first next => first.run >>= fun a => (next a).run
  | .within part plan => part.logged.lift plan.run

/-- What a plan leaves after each of its work-items. -/
def trail {σ α : Type} : Plan σ α → Logged σ → List (Logged σ)
  | .host _, _ => []
  | .dispatch items step, s =>
    (trailFrom step items s.state).map fun state => ⟨state, s.log.start items.length⟩
  | .bind first next, s => first.trail s ++
    match first.run s with
    | .ok a s' => (next a).trail s'
    | .error _ _ => []
  | .within part plan, s => (plan.trail (part.logged.get s)).map (part.logged.put · s)

/-- The widths of the dispatches that a plan starts, in order. -/
def widths {σ α : Type} : Plan σ α → Logged σ → List ℕ
  | .host _, _ => []
  | .dispatch items _, _ => [items.length]
  | .bind first next, s => first.widths s ++
    match first.run s with
    | .ok a s' => (next a).widths s'
    | .error _ _ => []
  | .within part plan, s => plan.widths (part.logged.get s)

/-- A dispatch whose steps cannot fail. -/
def sweep (items : List ι) (step : σ → ι → σ) : Plan σ Unit := do
  let _ ← dispatch items fun i => modify (step · i)

/-- A dispatch that only reads. -/
def survey (width : ℕ) : Plan σ Unit := sweep (List.range width) fun s _ => s

/-! ### What plans do -/

@[simp] theorem run_dispatch (items : List ι) (step : ι → Stage σ α) :
    (dispatch items step).run = CorpusStats.dispatch items step := rfl

@[simp] theorem run_bind (first : Plan σ α) (next : α → Plan σ β) :
    (first >>= next).run = first.run >>= fun a => (next a).run := rfl

theorem trail_bind (first : Plan σ α) (next : α → Plan σ β) (s : Logged σ) :
    (first >>= next).trail s = first.trail s ++
      match first.run s with
      | .ok a s' => (next a).trail s'
      | .error _ _ => [] := by
  show (bind first next).trail s = _
  rw [trail]

theorem run_map (f : α → β) (plan : Plan σ α) : (f <$> plan).run = f <$> plan.run := by
  rw [map_eq_pure_bind f plan.run]
  rfl

@[simp] theorem run_check (check : Except Error α) : (liftM check : Plan σ α).run = liftM check := by
  cases check <;> rfl

theorem mapM_modify (items : List ι) (step : σ → ι → σ) (s : σ) :
    (items.mapM fun i => (modify (step · i) : Stage σ Unit)) s
      = .ok (items.map fun _ => ()) (items.foldl step s) := by
  induction items generalizing s with
  | nil => rfl
  | cons i items ih =>
    rw [List.mapM_cons, bind_eq_ok_iff]
    refine ⟨(), step s i, rfl, ?_⟩
    rw [bind_eq_ok_iff]
    exact ⟨_, _, ih _, rfl⟩

@[simp] theorem run_sweep (items : List ι) (step : σ → ι → σ) :
    (sweep items step).run = modify (CorpusStats.sweep items step) := by
  funext s
  show (CorpusStats.dispatch items _ >>= fun _ => pure ()) s = _
  simp only [Bind.bind, EStateM.bind, dispatch_eq, mapM_modify]
  rfl

@[simp] theorem run_survey (width : ℕ) :
    (survey width : Plan σ Unit).run = modify (CorpusStats.survey width) := by
  funext s
  have hfold : (List.range width).foldl (fun s _ => s) s.state = s.state :=
    List.foldlRecOn (motive := (· = s.state)) _ _ rfl fun _ h _ _ => h
  rw [survey, run_sweep]
  show EStateM.Result.ok () (⟨_, s.log.start _⟩ : Logged σ) = _
  rw [hfold, List.length_range]
  rfl

/-! ### The length of a trail -/

theorem length_trailFrom {step : ι → Stage σ α} {items : List ι} {s s' : σ} {as : List α}
    (h : items.mapM step s = .ok as s') : (trailFrom step items s).length = items.length := by
  induction items generalizing s as with
  | nil => rfl
  | cons i items ih =>
    rw [List.mapM_cons, bind_eq_ok_iff] at h
    obtain ⟨a, t, hi, h⟩ := h
    obtain ⟨bs, t', hrest, hpure⟩ := bind_eq_ok_iff.mp h
    cases hpure
    simp only [trailFrom, hi, List.length_cons, ih hrest]

/-- A plan that answers has one state in its trail for each work-item of its dispatches. -/
theorem length_trail (plan : Plan σ α) {s s' : Logged σ} {a : α} (h : plan.run s = .ok a s') :
    (plan.trail s).length = (plan.widths s).sum := by
  induction plan with
  | host act => rfl
  | dispatch items step =>
    obtain ⟨hloop, -⟩ := dispatch_eq_ok_iff.mp h
    rw [trail, List.length_map, length_trailFrom hloop, widths, List.sum_singleton]
  | bind first next hfirst hnext =>
    obtain ⟨b, t, hb, hrest⟩ := bind_eq_ok_iff.mp h
    rw [trail, widths, hb, List.length_append, List.sum_append, hfirst hb, hnext b hrest]
  | within part plan ih =>
    obtain ⟨t, hrun, -⟩ := Part.lift_eq_ok_iff.mp h
    rw [trail, List.length_map, widths, ih hrun]

/-- The dispatches of a plan that answers are what it enters in the log. -/
theorem log_run (plan : Plan σ α) {s s' : Logged σ} {a : α} (h : plan.run s = .ok a s') :
    s'.log = s.log.record (plan.widths s) false := by
  induction plan with
  | host act =>
    obtain ⟨t, -, rfl⟩ := Part.lift_eq_ok_iff.mp h
    exact (Log.record_nil _).symm
  | dispatch items step =>
    obtain ⟨-, hlog⟩ := dispatch_eq_ok_iff.mp h
    rw [hlog, Log.start_eq_record, widths]
  | bind first next hfirst hnext =>
    obtain ⟨b, t, hb, hrest⟩ := bind_eq_ok_iff.mp h
    rw [hnext b hrest, hfirst hb, widths, hb, Log.record_record]
  | within part plan ih =>
    obtain ⟨t, hrun, rfl⟩ := Part.lift_eq_ok_iff.mp h
    exact ih hrun

/-! ### What holds along a trail -/

/-- A plan that starts in `pre` leaves `P` after every work-item. It ends in `post`, or fails with
an error in `R` and leaves `P`. -/
def Meets (P : σ → Prop) (R : Error → Prop) (pre : σ → Prop) (plan : Plan σ α)
    (post : α → σ → Prop) : Prop :=
  ∀ s, pre s.state → (∀ t ∈ plan.trail s, P t.state) ∧
    match plan.run s with
    | .ok a t => post a t.state
    | .error e t => P t.state ∧ R e

variable {P pre : σ → Prop} {R : Error → Prop} {post : α → σ → Prop} {plan : Plan σ α}

theorem Meets.host {act : Stage σ α} (h : ∀ s, pre s →
    match act s with
    | .ok a t => post a t
    | .error e t => P t ∧ R e) : Meets P R pre (.host act) post := by
  intro s hs
  have hact := h s.state hs
  refine ⟨fun t ht => absurd ht List.not_mem_nil, ?_⟩
  unfold run Part.lift
  dsimp only [Part.state]
  cases hrun : act s.state <;> rwa [hrun] at hact

section Dispatch

variable {items : List ι} {step : ι → Stage σ α} (Inv : List ι → σ → Prop)
  (hstep : ∀ done i rest s, items = done ++ i :: rest → Inv done s →
    match step i s with
    | .ok _ t => Inv (done ++ [i]) t
    | .error e t => P t ∧ R e)
  (hP : ∀ done s, Inv done s → P s)
include hstep hP

/-- The invariant of a loop may depend on the items that are done. -/
theorem trailFrom_induction (rest : List ι) {done : List ι} {s : σ} (hitems : items = done ++ rest)
    (hs : Inv done s) : (∀ t ∈ trailFrom step rest s, P t)
      ∧ (∀ as t, rest.mapM step s = .ok as t → Inv items t)
      ∧ ∀ e t, rest.mapM step s = .error e t → P t ∧ R e := by
  induction rest generalizing done s with
  | nil =>
    rw [List.append_nil] at hitems
    refine ⟨fun t ht => absurd ht List.not_mem_nil, fun as t hrun => ?_, fun e t hrun => ?_⟩ <;>
      cases hrun
    exact hitems ▸ hs
  | cons i rest ih =>
    have hi := hstep done i rest s hitems hs
    cases hrun : step i s with
    | ok a t =>
      rw [hrun] at hi
      obtain ⟨htrail, hok, herror⟩ := ih (show items = (done ++ [i]) ++ rest by simp [hitems]) hi
      rw [trailFrom, hrun, mapM_cons_of_ok hrun]
      refine ⟨List.forall_mem_cons.mpr ⟨hP _ t hi, htrail⟩, ?_⟩
      cases hrest : rest.mapM step t with
      | ok as t' => exact ⟨fun _ _ heq => by cases heq; exact hok as t' hrest, nofun⟩
      | error e t' => exact ⟨nofun, fun _ _ heq => by cases heq; exact herror e t' hrest⟩
    | error e t =>
      rw [hrun] at hi
      rw [trailFrom, hrun, mapM_cons_of_error hrun]
      refine ⟨List.forall_mem_singleton.mpr hi.1, nofun, fun _ _ heq => ?_⟩
      cases heq
      exact hi

/-- So may the invariant of a dispatch. -/
theorem Meets.dispatch : Meets P R (Inv []) (.dispatch items step) fun _ => Inv items := by
  intro s hs
  obtain ⟨htrail, hok, herror⟩ := trailFrom_induction Inv hstep hP items rfl hs
  refine ⟨fun t ht => ?_, ?_⟩
  · obtain ⟨state, hmem, rfl⟩ := List.mem_map.mp ht
    exact htrail state hmem
  · rw [run_dispatch, dispatch_eq]
    cases hrun : items.mapM step s.state with
    | ok as t => exact hok as t hrun
    | error e t => exact herror e t hrun

end Dispatch

theorem Meets.bind {mid : α → σ → Prop} {next : α → Plan σ β} {post : β → σ → Prop}
    (h : Meets P R pre plan mid) (hnext : ∀ a, Meets P R (mid a) (next a) post) :
    Meets P R pre (plan >>= next) post := by
  intro s hs
  obtain ⟨htrail, hend⟩ := h s hs
  rw [trail_bind, run_bind, List.forall_mem_append]
  simp only [Bind.bind, EStateM.bind]
  cases hrun : plan.run s with
  | ok a t =>
    rw [hrun] at hend
    obtain ⟨htrail', hend'⟩ := hnext a t hend
    exact ⟨⟨htrail, htrail'⟩, hend'⟩
  | error e t =>
    rw [hrun] at hend
    exact ⟨⟨htrail, fun t ht => absurd ht List.not_mem_nil⟩, hend⟩

theorem Meets.mono (h : Meets P R pre plan post) {pre' : σ → Prop} {post' : α → σ → Prop}
    (hpre : ∀ s, pre' s → pre s) (hpost : ∀ a s, post a s → post' a s) :
    Meets P R pre' plan post' := by
  intro s hs
  obtain ⟨htrail, hend⟩ := h s (hpre _ hs)
  refine ⟨htrail, ?_⟩
  cases hrun : plan.run s <;> rw [hrun] at hend
  · exact hpost _ _ hend
  · exact hend

theorem Meets.pure (a : α) (h : ∀ s, pre s → post a s) : Meets P R pre (Pure.pure a) post := .host h

theorem Meets.get : Meets P R pre (MonadState.get : Plan σ σ) fun a s => a = s ∧ pre s :=
  .host fun _ hs => ⟨rfl, hs⟩

/-- What a plan does to a part, it does to the whole. -/
theorem Meets.within {part : Part σ τ} {plan : Plan τ α} {P' pre' : τ → Prop}
    {post' : α → τ → Prop} (h : Meets P' R pre' plan post') (hget : ∀ s, pre s → pre' (part.get s))
    (hP : ∀ s t, pre s → P' t → P (part.put t s))
    (hpost : ∀ s a t, pre s → post' a t → post a (part.put t s)) :
    Meets P R pre (.within part plan) post := by
  intro s hs
  obtain ⟨htrail, hend⟩ := h (part.logged.get s) (hget _ hs)
  refine ⟨fun t ht => ?_, ?_⟩
  · obtain ⟨t', hmem, rfl⟩ := List.mem_map.mp ht
    exact hP _ _ hs (htrail t' hmem)
  · unfold run Part.lift
    cases hrun : plan.run (part.logged.get s) <;> rw [hrun] at hend
    · exact hpost _ _ _ hs hend
    · exact ⟨hP _ _ hs hend.1, hend.2⟩

/-! ### What plans keep -/

/-- The plan leaves `P` after every work-item and at the end, and fails with an error in `R` if it
fails. -/
def Stays (P : σ → Prop) (R : Error → Prop) (plan : Plan σ α) : Prop := Meets P R P plan fun _ => P

theorem Stays.host {act : Stage σ α} (h : KeepsOr P (fun e s => P s ∧ R e) act) :
    Stays P R (.host act) := Meets.host h

theorem Stays.dispatch {items : List ι} {step : ι → Stage σ α}
    (h : ∀ i ∈ items, KeepsOr P (fun e s => P s ∧ R e) (step i)) :
    Stays P R (.dispatch items step) :=
  Meets.dispatch (fun _ => P) (fun _ i _ s hitems hs => h i (by simp [hitems]) s hs)
    fun _ _ hs => hs

theorem Stays.bind {next : α → Plan σ β} (h : Stays P R plan) (hnext : ∀ a, Stays P R (next a)) :
    Stays P R (plan >>= next) := Meets.bind h hnext

theorem Stays.pure (a : α) : Stays P R (Pure.pure a) := Meets.pure a fun _ hs => hs

theorem Stays.map {f : α → β} (h : Stays P R plan) : Stays P R (f <$> plan) :=
  Meets.bind h fun a => Meets.pure (f a) fun _ hs => hs

theorem Stays.get : Stays P R (MonadState.get : Plan σ σ) := Meets.get.mono (fun _ hs => hs)
  fun _ _ hs => hs.2

theorem Stays.check {check : Except Error α} (h : ∀ e, check = .error e → R e) :
    Stays P R (liftM check : Plan σ α) := by
  refine Meets.host fun s hs => ?_
  cases check with
  | ok a => exact hs
  | error e => exact ⟨hs, h e rfl⟩

theorem Stays.sweep {items : List ι} {step : σ → ι → σ} (h : ∀ i ∈ items, ∀ s, P s → P (step s i)) :
    Stays P R (sweep items step) := .bind (.dispatch fun i hi s hs => h i hi s hs) fun _ => .pure _

theorem Stays.survey {width : ℕ} : Stays P R (survey width) := .sweep fun _ _ _ hs => hs

theorem Stays.within {part : Part σ τ} {plan : Plan τ α} {P' : τ → Prop} (h : Stays P' R plan)
    (hget : ∀ s, P s → P' (part.get s)) (hput : ∀ s t, P s → P' t → P (part.put t s)) :
    Stays P R (.within part plan) := Meets.within h hget hput fun s _ t => hput s t

end Plan

end CorpusStats
