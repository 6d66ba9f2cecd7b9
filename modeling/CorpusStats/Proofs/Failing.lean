import CorpusStats.Proofs.Stage
/-!
# CorpusStats.Proofs.Failing

What stages leave when they fail.

* `Stage.KeepsOr P Q` is `Stage.Keeps P` with a second property for failures, which may speak of
  the failure as well as of the state. Loops and dispatches inherit it from their steps: a
  loop fails with its step, in the state that its step leaves.
* Stages that only check what they are given are refused and never run out of room
  (`Stage.OnlyRefuses`).
* A loop whose steps fail without changing anything (`Stage.Atomic`) is not atomic itself: it leaves
  what the items before the one that failed did (`Stage.StopsAtItem`).
-/

namespace CorpusStats

variable {σ τ ι α β : Type}

namespace Stage

/-- The stage leaves `P` if it answers, and `Q` if it fails. -/
def KeepsOr (P : σ → Prop) (Q : Error → σ → Prop) (act : Stage σ α) : Prop :=
  ∀ s, P s →
    match act s with
    | .ok _ s' => P s'
    | .error e s' => Q e s'

variable {P : σ → Prop} {Q : Error → σ → Prop} {act : Stage σ α} {s s' : σ} {e : Error}

theorem KeepsOr.ok (h : KeepsOr P Q act) (hs : P s) {a : α} (hact : act s = .ok a s') : P s' := by
  have := h s hs
  rwa [hact] at this

theorem KeepsOr.error (h : KeepsOr P Q act) (hs : P s) (hact : act s = .error e s') : Q e s' := by
  have := h s hs
  rwa [hact] at this

theorem KeepsOr.intro (hok : ∀ s a s', P s → act s = .ok a s' → P s')
    (herror : ∀ s e s', P s → act s = .error e s' → Q e s') : KeepsOr P Q act := by
  intro s hs
  cases hact : act s with
  | ok a s' => exact hok s a s' hs hact
  | error e s' => exact herror s e s' hs hact

/-- Failures may be said less about. -/
theorem KeepsOr.mono (h : KeepsOr P Q act) {Q' : Error → σ → Prop} (hQ : ∀ e s, Q e s → Q' e s) :
    KeepsOr P Q' act :=
  .intro (fun _ _ _ hs hact => h.ok hs hact) fun _ e s' hs hact => hQ e s' (h.error hs hact)

/-- If failures leave the property too, the stage keeps it. -/
theorem KeepsOr.keeps (h : KeepsOr P Q act) (hQ : ∀ e s, Q e s → P s) : Keeps P act := by
  intro s hs
  cases hact : act s with
  | ok a s' =>
    rw [outcome_of_ok hact]
    exact h.ok hs hact
  | error e s' =>
    rw [outcome_of_error hact]
    exact hQ e s' (h.error hs hact)

theorem KeepsOr.pure (a : α) : KeepsOr P Q (pure a : Stage σ α) := fun _ hs => hs

theorem KeepsOr.throw (h : ∀ s, P s → Q e s) : KeepsOr P Q (throw e : Stage σ α) := h

/-- What the first of two stages answers may say more about the state it leaves. -/
theorem KeepsOr.bind_of {R : α → σ → Prop} {f : α → Stage σ β}
    (hok : ∀ s a s', P s → act s = .ok a s' → R a s')
    (herror : ∀ s e s', P s → act s = .error e s' → Q e s')
    (hf : ∀ a s, R a s → match f a s with
      | .ok _ s' => P s'
      | .error e s' => Q e s') : KeepsOr P Q (act >>= f) := by
  intro s hs
  cases hact : act s with
  | ok a s' =>
    simp only [Bind.bind, EStateM.bind, hact]
    exact hf a s' (hok s a s' hs hact)
  | error e s' =>
    simp only [Bind.bind, EStateM.bind, hact]
    exact herror s e s' hs hact

theorem KeepsOr.bind {f : α → Stage σ β} (hact : KeepsOr P Q act) (hf : ∀ a, KeepsOr P Q (f a)) :
    KeepsOr P Q (act >>= f) :=
  .bind_of (fun _ _ _ hs h => hact.ok hs h) (fun _ _ _ hs h => hact.error hs h) hf

theorem KeepsOr.map {f : α → β} (hact : KeepsOr P Q act) : KeepsOr P Q (f <$> act) := by
  rw [map_eq_pure_bind]
  exact hact.bind fun a => .pure _

theorem KeepsOr.mapM {items : List ι} {step : ι → Stage σ α}
    (h : ∀ i ∈ items, KeepsOr P Q (step i)) : KeepsOr P Q (items.mapM step) := by
  induction items with
  | nil => exact .pure _
  | cons i items ih =>
    rw [List.mapM_cons]
    refine (h i List.mem_cons_self).bind fun a => .bind (ih fun j hj => ?_) fun as => .pure _
    exact h j (List.mem_cons_of_mem _ hj)

theorem KeepsOr.forM {items : List ι} {step : ι → Stage σ Unit}
    (h : ∀ i ∈ items, KeepsOr P Q (step i)) : KeepsOr P Q (items.forM step) := by
  induction items with
  | nil => exact .pure _
  | cons i items ih =>
    show KeepsOr P Q (step i >>= fun _ => items.forM step)
    exact (h i List.mem_cons_self).bind fun _ => ih fun j hj => h j (List.mem_cons_of_mem _ hj)

/-- A dispatch fails with its step. -/
theorem KeepsOr.dispatch {items : List ι} {step : ι → Stage σ α}
    (h : ∀ i ∈ items, KeepsOr P Q (step i)) :
    KeepsOr (fun s : Logged σ => P s.state) (fun e s => Q e s.state) (dispatch items step) := by
  intro s hs
  have hmap := KeepsOr.mapM h s.state hs
  rw [dispatch_eq]
  cases hm : items.mapM step s.state with
  | ok as s' => rwa [hm] at hmap
  | error e s' => rwa [hm] at hmap

theorem KeepsOr.get : KeepsOr P Q (get : Stage σ σ) := fun _ hs => hs

theorem KeepsOr.modifyGet {f : σ → α × σ} (h : ∀ s, P s → P (f s).2) :
    KeepsOr P Q (modifyGet f : Stage σ α) := h

theorem KeepsOr.lift {check : Except Error α} (h : ∀ e s, check = .error e → P s → Q e s) :
    KeepsOr P Q (liftM check : Stage σ α) := by
  cases check with
  | ok a => exact .pure a
  | error e => exact .throw fun s hs => h e s rfl hs

/-- A stage that runs another one on a part of its state fails as that one does. -/
theorem KeepsOr.of_part {part : Stage τ α} (view : σ → τ) {P : τ → Prop} {Q : Error → τ → Prop}
    (h : KeepsOr P Q part) (hview : ∀ s, (outcome act s).1 = (outcome part (view s)).1
      ∧ view (outcome act s).2 = (outcome part (view s)).2) :
    KeepsOr (fun s => P (view s)) (fun e s => Q e (view s)) act := by
  intro s hs
  obtain ⟨hanswer, hstate⟩ := hview s
  cases hrun : part (view s) with
  | ok a t =>
    rw [outcome_of_ok hrun] at hanswer hstate
    cases hact : act s with
    | ok b s' =>
      rw [outcome_of_ok hact] at hstate
      obtain rfl : view s' = t := hstate
      exact h.ok hs hrun
    | error e s' =>
      rw [outcome_of_error hact] at hanswer
      cases hanswer
  | error e t =>
    rw [outcome_of_error hrun] at hanswer hstate
    cases hact : act s with
    | ok b s' =>
      rw [outcome_of_ok hact] at hanswer
      cases hanswer
    | error e' s' =>
      rw [outcome_of_error hact] at hanswer hstate
      cases hanswer
      obtain rfl : view s' = t := hstate
      exact h.error hs hrun

/-! ### Stages that check what they are given -/

/-- The stage fails for what it is given only. -/
def OnlyRefuses (act : Stage σ α) : Prop :=
  KeepsOr (fun _ => True) (fun e _ => ∃ fault, e = .malformed fault) act

theorem OnlyRefuses.error (h : OnlyRefuses act) (hact : act s = .error e s') :
    ∃ fault, e = .malformed fault := KeepsOr.error h trivial hact

/-- What is refused has not run out of room. -/
theorem OnlyRefuses.not_isOverflow (h : OnlyRefuses act) (hact : act s = .error e s') :
    e.isOverflow = false := by
  obtain ⟨fault, rfl⟩ := h.error hact
  rfl

/-- A stage that keeps `P` and is refused at most leaves what `P` says about refusals. -/
theorem OnlyRefuses.keepsOr (h : OnlyRefuses act) (hkeeps : Keeps P act)
    (hQ : ∀ fault s, P s → Q (.malformed fault) s) : KeepsOr P Q act := by
  refine .intro (fun s a s' hs hact => hkeeps.ok hs hact) fun s e s' hs hact => ?_
  obtain ⟨fault, rfl⟩ := h.error hact
  exact hQ fault s' (hkeeps.error hs hact)

/-! ### Loops that stop -/

/-- A failure changes nothing. -/
def Atomic (act : Stage σ α) : Prop := ∀ s e s', act s = .error e s' → s' = s

/-- If the stage fails, it fails at one of its items, and what it leaves is in `R` to what it leaves
when it is given the items before that one, which it accepts. -/
def StopsAtItem (R : σ → σ → Prop) (act : List ι → Stage σ α) : Prop :=
  ∀ items s e s', act items s = .error e s' → ∃ n a s₁, act (items.take n) s = .ok a s₁
    ∧ R s₁ s' ∧ ∃ s₂, act (items.take (n + 1)) s = .error e s₂

theorem take_of_eq_append_cons {items done rest : List ι} {i : ι} (h : items = done ++ i :: rest) :
    items.take done.length = done ∧ items.take (done.length + 1) = done ++ [i] := by
  subst h
  exact ⟨List.take_left, by simp [List.take_append]⟩

theorem stopsAtItem_mapM {step : ι → Stage σ α} (h : ∀ i, Atomic (step i)) :
    StopsAtItem Eq fun items => items.mapM step := by
  intro items s e s' hrun
  obtain ⟨done, i, rest, as, t, hitems, hdone, hi⟩ := exists_of_mapM_eq_error hrun
  obtain ⟨htake, htake'⟩ := take_of_eq_append_cons hitems
  obtain rfl := h i t e s' hi
  dsimp only
  refine ⟨done.length, as, s', by rwa [htake], rfl, s', ?_⟩
  rw [htake', List.mapM_append]
  simp only [Bind.bind, EStateM.bind, hdone, mapM_cons_of_error hi]

theorem stopsAtItem_forM {step : ι → Stage σ Unit} (h : ∀ i, Atomic (step i)) :
    StopsAtItem Eq fun items => items.forM step := by
  intro items s e s' hrun
  dsimp only at hrun ⊢
  induction items generalizing s with
  | nil => cases hrun
  | cons i items ih =>
    have hcons rest : (i :: rest).forM step = (step i >>= fun _ => rest.forM step) := rfl
    cases hi : step i s with
    | error e' t =>
      have hfail rest : (i :: rest).forM step s = .error e' t := by
        simp only [hcons, Bind.bind, EStateM.bind, hi]
      rw [hfail] at hrun
      cases hrun
      exact ⟨0, (), s, rfl, (h i s e s' hi).symm, s', hfail _⟩
    | ok _ t =>
      have hgo rest : (i :: rest).forM step s = rest.forM step t := by
        simp only [hcons, Bind.bind, EStateM.bind, hi]
      rw [hgo] at hrun
      obtain ⟨n, a, s₁, hok, heq, s₂, herror⟩ := ih t hrun
      exact ⟨n + 1, a, s₁, by rwa [List.take_succ_cons, hgo], heq, s₂,
        by rwa [List.take_succ_cons, hgo]⟩

/-- A dispatch is entered in the log with all its items, also if it stops at one. -/
theorem stopsAtItem_dispatch {step : ι → Stage σ α} (h : ∀ i, Atomic (step i)) :
    StopsAtItem (fun s s' : Logged σ => s.state = s'.state) fun items => dispatch items step := by
  intro items s e s' hrun
  obtain ⟨state, log⟩ := s
  obtain ⟨hloop, -⟩ := dispatch_eq_error_iff.mp hrun
  obtain ⟨n, as, t, hok, hstate, t', herror⟩ := stopsAtItem_mapM h items state e s'.state hloop
  exact ⟨n, as, ⟨t, log.start (items.take n).length⟩, dispatch_eq_ok_iff.mpr ⟨hok, rfl⟩, hstate,
    ⟨t', _⟩, dispatch_eq_error_iff.mpr ⟨herror, rfl⟩⟩

/-- What is done with the answer does not matter. -/
theorem StopsAtItem.map {R : σ → σ → Prop} {act : List ι → Stage σ α} (h : StopsAtItem R act)
    (f : α → β) : StopsAtItem R fun items => f <$> act items := by
  intro items s e s' hrun
  obtain ⟨n, a, s₁, hok, hR, s₂, herror⟩ := h items s e s' (map_eq_error_iff.mp hrun)
  exact ⟨n, f a, s₁, map_eq_ok_iff.mpr ⟨a, hok, rfl⟩, hR, s₂, map_eq_error_iff.mpr herror⟩

/-- A stage that runs another one on a part of its state stops as that one does. -/
theorem StopsAtItem.of_part {R : σ → σ → Prop} {R' : τ → τ → Prop} {act : List ι → Stage σ α}
    {act' : List ι → Stage τ α} (h : StopsAtItem R act) (view : τ → σ) (put : τ → σ → τ)
    (houtcome : ∀ items t, outcome (act' items) t
      = ((outcome (act items) (view t)).1, put t (outcome (act items) (view t)).2))
    (hR : ∀ t s s', R s s' → R' (put t s) (put t s')) : StopsAtItem R' act' := by
  intro items t e t' hrun
  obtain ⟨s', hact, rfl⟩ := (eq_error_iff_of_outcome (houtcome items t)).mp hrun
  obtain ⟨n, a, s₁, hok, hsame, s₂, herror⟩ := h items (view t) e s' hact
  exact ⟨n, a, put t s₁, (eq_ok_iff_of_outcome (houtcome _ t)).mpr ⟨s₁, hok, rfl⟩, hR t s₁ s' hsame,
    put t s₂, (eq_error_iff_of_outcome (houtcome _ t)).mpr ⟨s₂, herror, rfl⟩⟩

end Stage

end CorpusStats
