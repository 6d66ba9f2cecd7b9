import CorpusStats.Stage
import Mathlib
/-!
# CorpusStats.Proofs.Stage

How to reason about stages without running them.

* A stage **keeps** a property of the state if it leaves the property whether it answers
  or fails (`Stage.Keeps`). Loops and dispatches keep what their steps keep.
* A loop that comes to its end has made every step, so a property indexed by the items
  done so far holds of all items (`mapM_ok_induction`, `mapM_range_ok_induction`).
* Two machines that answer alike and stay related step by step do so over every list of
  requests (`replay_related`).
-/

namespace CorpusStats

variable {σ τ ι α β : Type}

namespace Stage

/-- What a stage answers and what it leaves behind. -/
def outcome (act : Stage σ α) (s : σ) : Except Error α × σ :=
  match act s with
  | .ok a s => (.ok a, s)
  | .error e s => (.error e, s)

/-- The stage leaves a property of the state, whether it answers or fails. -/
def Keeps (P : σ → Prop) (act : Stage σ α) : Prop := ∀ s, P s → P (outcome act s).2

variable {P : σ → Prop} {act : Stage σ α} {s s' : σ}

theorem outcome_of_ok {a : α} (h : act s = .ok a s') : outcome act s = (.ok a, s') := by
  rw [outcome, h]

theorem outcome_of_error {e : Error} (h : act s = .error e s') :
    outcome act s = (.error e, s') := by
  rw [outcome, h]

theorem outcome_eq_ok_iff {a : α} : outcome act s = (.ok a, s') ↔ act s = .ok a s' := by
  unfold outcome
  cases act s <;> simp

/-- A stage that runs another one on a part of its state answers what that one answers. -/
theorem eq_ok_iff_of_outcome {act' : Stage τ α} {t t' : τ} {f : σ → τ} {a : α}
    (h : outcome act' t = ((outcome act s).1, f (outcome act s).2)) :
    act' t = .ok a t' ↔ ∃ s', act s = .ok a s' ∧ t' = f s' := by
  rw [← outcome_eq_ok_iff, h]
  unfold outcome
  cases act s with
  | ok b s' =>
    constructor
    · intro heq
      cases heq
      exact ⟨s', rfl, rfl⟩
    · intro h
      obtain ⟨_, hact, rfl⟩ := h
      cases hact
      rfl
  | error e s' => simp

theorem outcome_eq_error_iff {e : Error} :
    outcome act s = (.error e, s') ↔ act s = .error e s' := by
  unfold outcome
  cases act s <;> simp

/-- A stage that runs another one on a part of its state fails as that one does. -/
theorem eq_error_iff_of_outcome {act' : Stage τ α} {t t' : τ} {f : σ → τ} {e : Error}
    (h : outcome act' t = ((outcome act s).1, f (outcome act s).2)) :
    act' t = .error e t' ↔ ∃ s', act s = .error e s' ∧ t' = f s' := by
  rw [← outcome_eq_error_iff, h]
  unfold outcome
  cases act s with
  | ok b s' => simp
  | error e s' =>
    constructor
    · intro heq
      cases heq
      exact ⟨s', rfl, rfl⟩
    · intro h
      obtain ⟨_, hact, rfl⟩ := h
      cases hact
      rfl

/-- What a stage answers, if that is all one looks at. -/
theorem exists_eq_ok_of_toOption {a : α} (h : (outcome act s).1.toOption = some a) :
    ∃ s', act s = .ok a s' := by
  unfold outcome at h
  cases hact : act s with
  | ok b s' =>
    rw [hact] at h
    cases h
    exact ⟨s', rfl⟩
  | error e s' =>
    rw [hact] at h
    cases h

theorem eq_ok_of_outcome {a : α} (h : (outcome act s).1 = .ok a) :
    act s = .ok a (outcome act s).2 := outcome_eq_ok_iff.mp (Prod.ext h rfl)

theorem exists_eq_error_of_outcome {e : Error} (h : (outcome act s).1 = .error e) :
    ∃ s', act s = .error e s' :=
  ⟨(outcome act s).2, outcome_eq_error_iff.mp (Prod.ext h rfl)⟩

theorem outcome_bind (act : Stage σ α) (f : α → Stage σ β) (s : σ) :
    outcome (act >>= f) s =
      match outcome act s with
      | (.ok a, s') => outcome (f a) s'
      | (.error e, s') => (.error e, s') := by
  simp only [outcome, Bind.bind, EStateM.bind]
  cases act s <;> rfl

theorem outcome_map (f : α → β) (act : Stage σ α) (s : σ) :
    outcome (f <$> act) s = ((outcome act s).1.map f, (outcome act s).2) := by
  rw [map_eq_pure_bind]
  simp only [outcome, Bind.bind, EStateM.bind]
  cases act s <;> rfl

theorem Keeps.ok (h : Keeps P act) {a : α} (hs : P s) (hact : act s = .ok a s') : P s' := by
  have := h s hs
  rwa [outcome_of_ok hact] at this

theorem Keeps.error (h : Keeps P act) {e : Error} (hs : P s) (hact : act s = .error e s') :
    P s' := by
  have := h s hs
  rwa [outcome_of_error hact] at this

theorem Keeps.pure (a : α) : Keeps P (pure a : Stage σ α) := fun _ hs => hs

theorem Keeps.throw (e : Error) : Keeps P (throw e : Stage σ α) := fun _ hs => hs

/-- What the first of two stages answers may say more about the state it leaves. -/
theorem Keeps.bind_of {Q : α → σ → Prop} {f : α → Stage σ β}
    (hok : ∀ s a s', P s → act s = .ok a s' → Q a s')
    (herror : ∀ s e s', P s → act s = .error e s' → P s')
    (hf : ∀ a s, Q a s → P (outcome (f a) s).2) : Keeps P (act >>= f) := by
  intro s hs
  cases h : act s with
  | ok a s' =>
    rw [show outcome (act >>= f) s = outcome (f a) s' by
      simp only [outcome, Bind.bind, EStateM.bind, h]]
    exact hf a s' (hok s a s' hs h)
  | error e s' =>
    rw [show outcome (act >>= f) s = (.error e, s') by
      simp only [outcome, Bind.bind, EStateM.bind, h]]
    exact herror s e s' hs h

theorem Keeps.bind {f : α → Stage σ β} (hact : Keeps P act) (hf : ∀ a, Keeps P (f a)) :
    Keeps P (act >>= f) :=
  .bind_of (fun _ _ _ hs h => hact.ok hs h) (fun _ _ _ hs h => hact.error hs h) hf

/-- Keeping is about the state only, so the answer may be changed at will. -/
theorem Keeps.map {f : α → β} (hact : Keeps P act) : Keeps P (f <$> act) := by
  rw [map_eq_pure_bind]
  exact hact.bind fun a => .pure _

theorem Keeps.mapM {items : List ι} {step : ι → Stage σ α} (h : ∀ i ∈ items, Keeps P (step i)) :
    Keeps P (items.mapM step) := by
  induction items with
  | nil => exact .pure _
  | cons i items ih =>
    rw [List.mapM_cons]
    refine (h i List.mem_cons_self).bind fun a => .bind (ih fun j hj => ?_) fun as => .pure _
    exact h j (List.mem_cons_of_mem _ hj)

theorem Keeps.forM {items : List ι} {step : ι → Stage σ Unit} (h : ∀ i ∈ items, Keeps P (step i)) :
    Keeps P (items.forM step) := by
  induction items with
  | nil => exact .pure _
  | cons i items ih =>
    show Keeps P (step i >>= fun _ => items.forM step)
    exact (h i List.mem_cons_self).bind fun _ => ih fun j hj => h j (List.mem_cons_of_mem _ hj)

theorem Keeps.modifyGet {f : σ → α × σ} (h : ∀ s, P s → P (f s).2) :
    Keeps P (modifyGet f : Stage σ α) := h

theorem Keeps.get : Keeps P (get : Stage σ σ) := fun _ hs => hs

theorem Keeps.dispatch {items : List ι} {step : ι → Stage σ α}
    (h : ∀ i ∈ items, Keeps P (step i)) :
    Keeps (fun s : Logged σ => P s.state) (dispatch items step) := by
  intro s hs
  have hmap := (Keeps.mapM h) s.state hs
  rw [outcome, dispatch_eq]
  cases hm : items.mapM step s.state with
  | ok as s' => rwa [outcome_of_ok hm] at hmap
  | error e s' => rwa [outcome_of_error hm] at hmap

theorem Keeps.lift (check : Except Error α) : Keeps P (liftM check : Stage σ α) := by
  cases check with
  | ok a => exact .pure a
  | error e => exact .throw e

theorem bind_eq_ok_iff {f : α → Stage σ β} {b : β} {s'' : σ} :
    (act >>= f) s = .ok b s'' ↔ ∃ a s', act s = .ok a s' ∧ f a s' = .ok b s'' := by
  constructor
  · intro h
    cases ha : act s with
    | ok a s' => exact ⟨a, s', rfl, by simpa only [Bind.bind, EStateM.bind, ha] using h⟩
    | error e s' => simp only [Bind.bind, EStateM.bind, ha] at h; cases h
  · intro h
    obtain ⟨a, s', ha, hf⟩ := h
    simpa only [Bind.bind, EStateM.bind, ha] using hf

theorem map_eq_ok_iff {f : α → β} {b : β} :
    (f <$> act) s = .ok b s' ↔ ∃ a, act s = .ok a s' ∧ f a = b := by
  rw [map_eq_pure_bind, bind_eq_ok_iff]
  constructor
  · intro h
    obtain ⟨a, t, ha, hpure⟩ := h
    cases hpure
    exact ⟨a, ha, rfl⟩
  · intro h
    obtain ⟨a, ha, rfl⟩ := h
    exact ⟨a, s', ha, rfl⟩

theorem map_eq_error_iff {f : α → β} {e : Error} :
    (f <$> act) s = .error e s' ↔ act s = .error e s' := by
  rw [map_eq_pure_bind]
  simp only [Bind.bind, EStateM.bind]
  cases act s <;> simp [pure, EStateM.pure]

/-- A stage behind it that only reads what is answered. -/
theorem map_eq_ok_of_toOption {a : α} (f : α → β) (h : (outcome act s).1.toOption = some a) :
    (f <$> act) s = .ok (f a) (outcome act s).2 := by
  obtain ⟨s', hact⟩ := exists_eq_ok_of_toOption h
  rw [outcome_of_ok hact]
  exact map_eq_ok_iff.mpr ⟨a, hact, rfl⟩

end Stage

/-! ### Loops that come to their end -/

/-- What holds before a loop and passes from each item to the next holds of all items when
the loop comes to its end. -/
theorem mapM_ok_induction {P : List ι → List α → σ → Prop} {step : ι → Stage σ α}
    {items : List ι} {s s' : σ} {as : List α} (h : items.mapM step s = .ok as s')
    (hstart : P [] [] s)
    (hstep : ∀ (done : List ι) (i : ι) (rest : List ι) (bs : List α) (t : σ) (b : α) (t' : σ),
      items = done ++ i :: rest → P done bs t → step i t = .ok b t' →
        P (done ++ [i]) (bs ++ [b]) t') :
    P items as s' := by
  suffices ∀ (rest done : List ι) (bs cs : List α) (t : σ), items = done ++ rest → P done bs t →
      rest.mapM step t = .ok cs s' → P items (bs ++ cs) s' by
    simpa using this items [] [] as s rfl hstart h
  intro rest
  induction rest with
  | nil =>
    intro done bs cs t hitems hP hrest
    cases hrest
    simpa [hitems] using hP
  | cons i rest ih =>
    intro done bs cs t hitems hP hrest
    rw [List.mapM_cons, Stage.bind_eq_ok_iff] at hrest
    obtain ⟨b, t', hb, hrest⟩ := hrest
    rw [Stage.bind_eq_ok_iff] at hrest
    obtain ⟨cs', t'', hcs, hpure⟩ := hrest
    cases hpure
    have := ih (done ++ [i]) (bs ++ [b]) cs' t' (by simp [hitems])
      (hstep done i rest bs t b t' hitems hP hb) hcs
    simpa using this

/-- A loop that fails stopped at an item, after the items before it were answered. -/
theorem exists_of_mapM_eq_error {step : ι → Stage σ α} {items : List ι} {s s' : σ} {e : Error}
    (h : items.mapM step s = .error e s') :
    ∃ done i rest as t, items = done ++ i :: rest ∧ done.mapM step s = .ok as t
      ∧ step i t = .error e s' := by
  induction items generalizing s with
  | nil => cases h
  | cons i items ih =>
    cases hi : step i s with
    | error e' t =>
      rw [mapM_cons_of_error hi] at h
      cases h
      exact ⟨[], i, items, [], s, rfl, rfl, hi⟩
    | ok a t =>
      rw [mapM_cons_of_ok hi] at h
      cases hrest : items.mapM step t with
      | ok as t' =>
        rw [hrest] at h
        cases h
      | error e' t' =>
        rw [hrest] at h
        cases h
        obtain ⟨done, j, rest, as, t', rfl, hdone, hj⟩ := ih hrest
        refine ⟨i :: done, j, rest, a :: as, t', rfl, ?_, hj⟩
        rw [mapM_cons_of_ok hi, hdone]

/-- In front of a number below a bound are the numbers below it. -/
theorem of_range_eq_append_cons {n k : ℕ} {done rest : List ℕ}
    (h : List.range n = done ++ k :: rest) : k < n ∧ done = List.range k := by
  have hlt : done.length < n := by
    have hlength := congrArg List.length h
    simp at hlength
    omega
  have hk : k = done.length := by
    have hget := congrArg (fun l => l[done.length]?) h
    simpa [List.getElem?_range hlt, eq_comm] using hget
  have htake := congrArg (List.take done.length) h
  rw [List.take_range, min_eq_left hlt.le, List.take_left] at htake
  exact ⟨hk ▸ hlt, hk ▸ htake.symm⟩

/-- A loop over the numbers below a bound that fails stopped at one of them. -/
theorem exists_of_mapM_range_eq_error {step : ℕ → Stage σ α} {n : ℕ} {s s' : σ} {e : Error}
    (h : (List.range n).mapM step s = .error e s') :
    ∃ k as t, k < n ∧ (List.range k).mapM step s = .ok as t ∧ step k t = .error e s' := by
  obtain ⟨done, k, rest, as, t, hitems, hdone, hk⟩ := exists_of_mapM_eq_error h
  obtain ⟨hlt, rfl⟩ := of_range_eq_append_cons hitems
  exact ⟨k, as, t, hlt, hdone, hk⟩

theorem mapM_range_ok_induction {P : ℕ → List α → σ → Prop} {step : ℕ → Stage σ α} {n : ℕ}
    {s s' : σ} {as : List α} (h : (List.range n).mapM step s = .ok as s') (hstart : P 0 [] s)
    (hstep : ∀ (k : ℕ) (bs : List α) (t : σ) (b : α) (t' : σ), k < n → P k bs t →
      step k t = .ok b t' → P (k + 1) (bs ++ [b]) t') :
    P n as s' := by
  have hall := mapM_ok_induction (P := fun done => P done.length) h hstart ?_
  · simpa using hall
  · intro done i rest bs t b t' hitems hP hb
    obtain ⟨hlt, rfl⟩ := of_range_eq_append_cons hitems
    simpa using hstep i bs t b t' hlt (by simpa using hP) hb

theorem forM_ok_induction {P : List ι → σ → Prop} {step : ι → Stage σ Unit} {items : List ι}
    {s s' : σ} (h : items.forM step s = .ok () s') (hstart : P [] s)
    (hstep : ∀ (done : List ι) (i : ι) (rest : List ι) (t t' : σ),
      items = done ++ i :: rest → P done t → step i t = .ok () t' → P (done ++ [i]) t') :
    P items s' := by
  suffices ∀ (rest done : List ι) (t : σ), items = done ++ rest → P done t →
      rest.forM step t = .ok () s' → P items s' from this items [] s rfl hstart h
  intro rest
  induction rest with
  | nil =>
    intro done t hitems hP hrest
    cases hrest
    simpa [hitems] using hP
  | cons i rest ih =>
    intro done t hitems hP hrest
    obtain ⟨⟨⟩, t', hi, hrest⟩ := Stage.bind_eq_ok_iff.mp hrest
    exact ih (done ++ [i]) t' (by simp [hitems]) (hstep done i rest t t' hitems hP hi) hrest

/-- A loop whose steps answer and change nothing answers what they do, and changes nothing. -/
theorem mapM_eq_ok_of_forall₂ {step : ι → Stage σ α} {items : List ι} {as : List α} {s : σ}
    (h : List.Forall₂ (fun i a => step i s = .ok a s) items as) : items.mapM step s = .ok as s := by
  induction h with
  | nil => rfl
  | cons hstep _ ih => rw [mapM_cons_of_ok hstep, ih]

/-- A loop over the numbers below a bound comes to its end if every step on the way answers. -/
theorem mapM_range_ok_exists {P : ℕ → List α → σ → Prop} {f : ℕ → Stage σ α} {n : ℕ} {s : σ}
    (hstart : P 0 [] s)
    (hstep : ∀ (k : ℕ) (bs : List α) (t : σ), k < n → P k bs t →
      ∃ b t', f k t = .ok b t' ∧ P (k + 1) (bs ++ [b]) t') :
    ∃ as s', (List.range n).mapM f s = .ok as s' ∧ P n as s' := by
  induction n with
  | zero => exact ⟨[], s, rfl, hstart⟩
  | succ n ih =>
    obtain ⟨as, t, hrun, hP⟩ := ih fun k bs t hk => hstep k bs t (hk.trans n.lt_succ_self)
    obtain ⟨b, t', hb, hP'⟩ := hstep n as t n.lt_succ_self hP
    refine ⟨as ++ [b], t', ?_, hP'⟩
    rw [List.range_succ, List.mapM_append, Stage.bind_eq_ok_iff]
    refine ⟨as, t, hrun, ?_⟩
    rw [Stage.bind_eq_ok_iff]
    refine ⟨[b], t', ?_, rfl⟩
    rw [mapM_cons_of_ok hb]
    rfl

theorem foldl_range_induction {P : ℕ → σ → Prop} {f : σ → ℕ → σ} {n : ℕ} {s : σ}
    (hstart : P 0 s) (hstep : ∀ (k : ℕ) (t : σ), k < n → P k t → P (k + 1) (f t k)) :
    P n ((List.range n).foldl f s) := by
  induction n with
  | zero => exact hstart
  | succ n ih =>
    rw [List.range_succ, List.foldl_append]
    exact hstep n _ n.lt_succ_self (ih fun k t hk => hstep k t (hk.trans n.lt_succ_self))

/-- What every step of a sweep keeps, the sweep keeps. -/
theorem sweep_induction {P : σ → Prop} {items : List ι} {step : σ → ι → σ}
    (hstep : ∀ s, ∀ i ∈ items, P s → P (step s i)) {s : Logged σ} (h : P s.state) :
    P (sweep items step s).state := by
  obtain ⟨state, log⟩ := s
  exact List.foldlRecOn items step h fun s hs i hi => hstep s i hi hs

/-- A dispatch answers exactly if its loop comes to the end. -/
theorem dispatch_eq_ok_iff {items : List ι} {step : ι → Stage σ α} {s s' : Logged σ}
    {as : List α} : dispatch items step s = .ok as s' ↔
      items.mapM step s.state = .ok as s'.state ∧ s'.log = s.log.start items.length := by
  rw [dispatch_eq]
  cases h : items.mapM step s.state with
  | ok bs t =>
    constructor
    · rintro ⟨⟩
      exact ⟨rfl, rfl⟩
    · intro h
      obtain ⟨hs, hlog⟩ := h
      cases hs
      rw [← hlog]
  | error e t => simp

/-- A dispatch fails exactly if its loop does. -/
theorem dispatch_eq_error_iff {items : List ι} {step : ι → Stage σ α} {s s' : Logged σ}
    {e : Error} : dispatch items step s = .error e s' ↔
      items.mapM step s.state = .error e s'.state
        ∧ s'.log = (s.log.start items.length).fail e := by
  rw [dispatch_eq]
  cases h : items.mapM step s.state with
  | ok bs t => simp
  | error e' t =>
    constructor
    · rintro ⟨⟩
      exact ⟨rfl, rfl⟩
    · intro h
      obtain ⟨hs, hlog⟩ := h
      cases hs
      dsimp only
      rw [← hlog]

/-! ### Stages that are asked for things -/

/-- What the stage is asked for comes behind what was asked for before. Once it fails, nothing
that is asked for behind matters, so the rest of a loop may be taken as asked for too. -/
def Stage.Asks {κ : Type} (P : List κ → σ → Prop) (act : Stage σ α) (asked : List κ) : Prop :=
  ∀ before s, P before s →
    match act s with
    | .ok _ s' => P (before ++ asked) s'
    | .error _ s' => ∀ more, P (before ++ asked ++ more) s'

namespace Stage

variable {κ : Type} {P : List κ → σ → Prop} {act : Stage σ α} {asked before : List κ} {s s' : σ}

theorem Asks.ok (h : Asks P act asked) (hs : P before s) {a : α} (hact : act s = .ok a s') :
    P (before ++ asked) s' := by
  have := h before s hs
  rwa [hact] at this

theorem Asks.error (h : Asks P act asked) (hs : P before s) {e : Error}
    (hact : act s = .error e s') (more : List κ) : P (before ++ asked ++ more) s' := by
  have := h before s hs
  rw [hact] at this
  exact this more

theorem Asks.outcome (h : Asks P act asked) (hs : P before s) :
    P (before ++ asked) (outcome act s).2 := by
  cases hact : act s with
  | ok a s' =>
    rw [outcome_of_ok hact]
    exact h.ok hs hact
  | error e s' =>
    rw [outcome_of_error hact]
    simpa using h.error hs hact []

theorem Asks.pure (a : α) : Asks P (pure a : Stage σ α) [] := by
  intro before s hs
  show P (before ++ []) s
  rwa [List.append_nil]

/-- A stage behind it that cannot fail asks for nothing, and may use what the first one answers. -/
theorem Asks.bind_of {Q : α → List κ → σ → Prop} {f : α → Stage σ β} (h : Asks P act asked)
    (hok : ∀ before s a s', P before s → act s = .ok a s' → Q a (before ++ asked) s')
    (hf : ∀ a before s, Q a before s → ∃ b s', f a s = .ok b s' ∧ P before s') :
    Asks P (act >>= f) asked := by
  intro before s hs
  cases hact : act s with
  | ok a s' =>
    obtain ⟨b, s'', hb, hP⟩ := hf a _ s' (hok before s a s' hs hact)
    rw [show (act >>= f) s = .ok b s'' from bind_eq_ok_iff.mpr ⟨a, s', hact, hb⟩]
    exact hP
  | error e s' =>
    rw [show (act >>= f) s = .error e s' by simp only [Bind.bind, EStateM.bind, hact]]
    exact h.error hs hact

theorem Asks.map {f : α → β} (h : Asks P act asked) : Asks P (f <$> act) asked := by
  rw [map_eq_pure_bind]
  exact h.bind_of (Q := fun _ => P) (fun _ _ _ _ hs hact => h.ok hs hact)
    fun a _ s hs => ⟨f a, s, rfl, hs⟩

theorem Asks.mapM {items : List ι} {step : ι → Stage σ α} {ask : ι → List κ}
    (h : ∀ i ∈ items, Asks P (step i) (ask i)) :
    Asks P (items.mapM step) (items.flatMap ask) := by
  induction items with
  | nil => exact .pure _
  | cons i items ih =>
    have hfirst := h i List.mem_cons_self
    have hrest := ih fun j hj => h j (List.mem_cons_of_mem _ hj)
    intro before s hs
    rw [List.flatMap_cons, ← List.append_assoc]
    cases hi : step i s with
    | ok a t =>
      rw [mapM_cons_of_ok hi]
      have ht := hfirst.ok hs hi
      cases hm : items.mapM step t with
      | ok as t' => exact hrest.ok ht hm
      | error e t' => exact hrest.error ht hm
    | error e t =>
      rw [mapM_cons_of_error hi]
      intro more
      rw [List.append_assoc]
      exact hfirst.error hs hi _

theorem Asks.dispatch {items : List ι} {step : ι → Stage σ α} {ask : ι → List κ}
    (h : ∀ i ∈ items, Asks P (step i) (ask i)) {s : Logged σ} (hs : P before s.state) :
    P (before ++ items.flatMap ask) (Stage.outcome (dispatch items step) s).2.state := by
  have hmap := (Asks.mapM h).outcome hs
  rw [Stage.outcome, dispatch_eq]
  cases hm : items.mapM step s.state with
  | ok as s' => rwa [outcome_of_ok hm] at hmap
  | error e s' => rwa [outcome_of_error hm] at hmap

end Stage

/-! ### Machines -/

/-- Make requests one after the other, each on what the one before left behind, and
collect the answers. -/
def replay {ρ : Type} (step : ρ → σ → Except Error α × σ) : List ρ → σ → List (Except Error α) × σ
  | [], s => ([], s)
  | r :: rs, s =>
    let (a, s) := step r s
    let (as, s) := replay step rs s
    (a :: as, s)

/-- Each request is made on what the requests before it leave behind. -/
theorem getElem?_replay {ρ : Type} (step : ρ → σ → Except Error α × σ) (rs : List ρ) (s : σ)
    (i : ℕ) :
    (replay step rs s).1[i]? = rs[i]?.map fun r => (step r (replay step (rs.take i) s).2).1 := by
  induction rs generalizing s i with
  | nil => rfl
  | cons r rs ih =>
    cases i with
    | zero => rfl
    | succ i => exact ih (step r s).2 i

theorem state_replay_concat {ρ : Type} (step : ρ → σ → Except Error α × σ) (rs : List ρ) (r : ρ)
    (s : σ) : (replay step (rs ++ [r]) s).2 = (step r (replay step rs s).2).2 := by
  induction rs generalizing s with
  | nil => rfl
  | cons r' rs ih => exact ih (step r' s).2

/-- Machines that stay related and answer alike on every request answer alike on every
list of requests. -/
theorem replay_related {ρ : Type} {R : σ → τ → Prop} {step : ρ → σ → Except Error α × σ}
    {step' : ρ → τ → Except Error α × τ}
    (hstep : ∀ r s t, R s t → (step r s).1 = (step' r t).1 ∧ R (step r s).2 (step' r t).2)
    (requests : List ρ) {s : σ} {t : τ} (h : R s t) :
    (replay step requests s).1 = (replay step' requests t).1
      ∧ R (replay step requests s).2 (replay step' requests t).2 := by
  induction requests generalizing s t with
  | nil => exact ⟨rfl, h⟩
  | cons r rs ih =>
    obtain ⟨hanswer, hR⟩ := hstep r s t h
    obtain ⟨hanswers, hend⟩ := ih hR
    exact ⟨by simp only [replay, hanswer, hanswers], hend⟩

end CorpusStats
