import CorpusStats.Proofs.Failing
/-!
# CorpusStats.Proofs.Logging

What stages write into the log.

A stage **enters** the widths of the dispatches it starts (`Stage.Enters`): on a given state it
gives one answer and leaves one state whatever the log says, and the log grows by these widths
and, if the answer is an overflow, by one overflow (`Log.record`). An overflow comes out of a
dispatch, so a stage that starts none never overflows.

Stages behind each other enter their widths behind each other, and stop where one of them fails
(`Stage.Enters.bind`, `Stage.Enters.bind_error`). So the log of a call is found by going through
its dispatches, and nothing else a call does comes up.
-/

namespace CorpusStats

variable {σ τ υ ι α β : Type}

/-- Whether an answer is that there is no room. -/
def overflowed : Except Error α → Bool
  | .error e => e.isOverflow
  | .ok _ => false

@[simp] theorem overflowed_ok (a : α) : overflowed (.ok a) = false := rfl

@[simp] theorem overflowed_map (f : α → β) (answer : Except Error α) :
    overflowed (answer.map f) = overflowed answer := by
  cases answer <;> rfl

/-- What is started behind a stage that gave this answer: nothing if it failed. -/
def behind (answer : Except Error α) (widths : List ℕ) : List ℕ :=
  match answer with
  | .ok _ => widths
  | .error _ => []

@[simp] theorem behind_map (f : α → β) (answer : Except Error α) (widths : List ℕ) :
    behind (answer.map f) widths = behind answer widths := by
  cases answer <;> rfl

@[simp] theorem behind_nil (answer : Except Error α) : behind answer [] = [] := by
  cases answer <;> rfl

/-- What is refused has not overflowed. -/
theorem overflowed_of_malformed {answer : Except Error α}
    (h : ∀ e, answer = .error e → ∃ fault, e = .malformed fault) : overflowed answer = false := by
  cases answer with
  | ok a => rfl
  | error e =>
    obtain ⟨fault, rfl⟩ := h e rfl
    rfl

namespace Log

/-- What a counter of 64 bits shows after counting to `n`: it wraps around at `2 ^ 64`, and below
that it shows `n`. -/
structure Shows (counter : UInt64) (n : ℕ) : Prop where
  toNat_eq_mod : counter.toNat = n % 2 ^ 64
  toNat_eq : n < 2 ^ 64 → counter.toNat = n

theorem shows_toUInt64 (n : ℕ) : Shows n.toUInt64 n :=
  ⟨UInt64.toNat_ofNat', UInt64.toNat_ofNat_of_lt'⟩

/-- Enter dispatches of these widths, and whether the last of them overflowed. -/
def record (widths : List ℕ) (overflow : Bool) (log : Log) : Log :=
  ⟨log.dispatches + widths.length.toUInt64, log.workItems + widths.sum.toUInt64,
    log.overflows + overflow.toNat.toUInt64⟩

@[simp] theorem record_nil (log : Log) : log.record [] false = log := by
  simp [record]

/-- Dispatches are entered one after the other. -/
theorem record_record (widths widths' : List ℕ) (overflow : Bool) (log : Log) :
    (log.record widths false).record widths' overflow
      = log.record (widths ++ widths') overflow := by
  simp [record, UInt64.add_assoc]

theorem start_eq_record (width : ℕ) (log : Log) : log.start width = log.record [width] false := by
  simp [start, record]

theorem fail_start_eq_record (width : ℕ) (e : Error) (log : Log) :
    (log.start width).fail e = log.record [width] e.isOverflow := by
  rw [fail, start_eq_record]
  cases e.isOverflow with
  | true => simp [record]
  | false => rfl

end Log

/-- A state with a log put next to it. -/
def Logged.put (log : Log) (state : σ) : Logged σ := ⟨state, log⟩

namespace Stage

/-- On this state, whatever the log is, the stage starts dispatches of these widths, gives this
answer and leaves that state. The function says how a log is put into a state. -/
structure Enters (put : Log → τ → σ) (act : Stage σ α) (t : τ) (widths : List ℕ)
    (answer : Except Error α) (t' : τ) : Prop where
  outcome_eq : ∀ log,
    outcome act (put log t) = (answer, put (log.record widths (overflowed answer)) t')
  /-- An overflow is the failure of a dispatch. -/
  started_of_overflowed : overflowed answer = true → widths ≠ []

variable {put : Log → τ → σ} {act : Stage σ α} {t t' t'' : τ} {widths widths' : List ℕ}
  {answer : Except Error α}

theorem Enters.of_ok {a : α}
    (h : ∀ log, outcome act (put log t) = (.ok a, put (log.record widths false) t')) :
    Enters put act t widths (.ok a) t' :=
  ⟨h, fun h => by cases h⟩

theorem Enters.pure (a : α) : Enters put (pure a) t [] (.ok a) t :=
  .of_ok fun log => by rw [Log.record_nil]; rfl

theorem Enters.modifyGet {f : σ → α × σ} {a : α}
    (h : ∀ log, f (put log t) = (a, put (log.record widths false) t')) :
    Enters put (modifyGet f) t widths (.ok a) t' := by
  refine .of_ok fun log => ?_
  show (Except.ok (f (put log t)).1, (f (put log t)).2) = _
  rw [h]

theorem Enters.answer_eq (hact : Enters put act t widths answer t') (log : Log) :
    (outcome act (put log t)).1 = answer := by rw [hact.outcome_eq]

/-- A check in front of a stage starts nothing, and what it refuses is no overflow. -/
theorem Enters.lift {check : Except Error α}
    (h : ∀ e, check = .error e → ∃ fault, e = .malformed fault) :
    Enters put (liftM check) t [] check t := by
  cases check with
  | ok a => exact .pure a
  | error e =>
    obtain ⟨fault, rfl⟩ := h e rfl
    refine ⟨fun log => ?_, fun h => by cases h⟩
    show _ = (_, put (log.record [] false) t)
    rw [Log.record_nil]
    rfl

theorem Enters.bind {f : α → Stage σ β} {a : α} {answer : Except Error β}
    (hact : Enters put act t widths (.ok a) t') (hf : Enters put (f a) t' widths' answer t'') :
    Enters put (act >>= f) t (widths ++ widths') answer t'' := by
  refine ⟨fun log => ?_, fun h => ?_⟩
  · rw [outcome_bind, hact.outcome_eq]
    dsimp only
    rw [hf.outcome_eq, overflowed_ok, Log.record_record]
  · exact List.append_ne_nil_of_right_ne_nil _ (hf.started_of_overflowed h)

theorem Enters.bind_error {f : α → Stage σ β} {e : Error}
    (hact : Enters put act t widths (.error e) t') :
    Enters put (act >>= f) t widths (.error e) t' := by
  refine ⟨fun log => ?_, hact.started_of_overflowed⟩
  rw [outcome_bind, hact.outcome_eq]
  rfl

theorem Enters.map {f : α → β} (hact : Enters put act t widths answer t') :
    Enters put (f <$> act) t widths (answer.map f) t' := by
  refine ⟨fun log => ?_, fun h => hact.started_of_overflowed (by simpa using h)⟩
  rw [outcome_map, hact.outcome_eq, overflowed_map]

theorem Enters.dispatch (items : List ι) (step : ι → Stage σ α) (s : σ) :
    Enters Logged.put (dispatch items step) s [items.length] (outcome (items.mapM step) s).1
      (outcome (items.mapM step) s).2 := by
  refine ⟨fun log => ?_, fun _ => List.cons_ne_nil _ _⟩
  unfold outcome
  rw [dispatch_eq, Logged.put]
  cases items.mapM step s with
  | ok as s' =>
    dsimp only
    rw [Log.start_eq_record]
    rfl
  | error e s' =>
    dsimp only
    rw [Log.fail_start_eq_record]
    rfl

/-- A stage that runs another one on a part of its state, and has one log with it. -/
theorem Enters.of_part {ρ : Type} {put' : Log → υ → ρ} {act' : Stage ρ α} {u : υ}
    (hact : Enters put act t widths answer t') (u' : υ) (insert : σ → ρ)
    (houtcome : ∀ log, outcome act' (put' log u)
      = ((outcome act (put log t)).1, insert (outcome act (put log t)).2))
    (hinsert : ∀ log, insert (put log t') = put' log u') : Enters put' act' u widths answer u' := by
  refine ⟨fun log => ?_, hact.started_of_overflowed⟩
  rw [houtcome, hact.outcome_eq, hinsert]

/-- The stage starts dispatches of these widths on this state. -/
def Starts (put : Log → τ → σ) (act : Stage σ α) (t : τ) (widths : List ℕ) : Prop :=
  ∃ answer t', Enters put act t widths answer t'

theorem Enters.starts (h : Enters put act t widths answer t') : Starts put act t widths :=
  ⟨answer, t', h⟩

/-- What follows is started only if the first stage answers. -/
theorem Enters.bind_starts {f : α → Stage σ β} (hact : Enters put act t widths answer t')
    (hf : ∀ a, Starts put (f a) t' widths') :
    Starts put (act >>= f) t (widths ++ behind answer widths') := by
  cases answer with
  | ok a =>
    obtain ⟨answer, t'', hfa⟩ := hf a
    exact (hact.bind hfa).starts
  | error e =>
    rw [behind, List.append_nil]
    exact hact.bind_error.starts

/-- What follows starts nothing. -/
theorem Starts.bind {f : α → Stage σ β} (h : Starts put act t widths)
    (hf : ∀ a t', Starts put (f a) t' []) : Starts put (act >>= f) t widths := by
  obtain ⟨answer, t', hact⟩ := h
  have hbind := hact.bind_starts fun a => hf a t'
  rwa [behind_nil, List.append_nil] at hbind

theorem Starts.map {f : α → β} (h : Starts put act t widths) : Starts put (f <$> act) t widths := by
  obtain ⟨answer, t', hact⟩ := h
  exact hact.map.starts

/-- A stage that reads the state first, but not the log. -/
theorem Starts.get_bind {f : σ → Stage σ β} (hf : ∀ log, f (put log t) = f (put .empty t))
    (hg : Starts put (f (put .empty t)) t widths) : Starts put (get >>= f) t widths := by
  obtain ⟨answer, t', hg⟩ := hg
  refine ⟨answer, t', fun log => ?_, hg.started_of_overflowed⟩
  rw [outcome_bind, ← hg.outcome_eq log, ← hf log]
  rfl

/-- A change outside any dispatch. -/
theorem Starts.modify_bind {f : σ → σ} {g : PUnit → Stage σ β} (t' : τ)
    (hf : ∀ log, f (put log t) = put log t') (hg : Starts put (g ⟨⟩) t' widths) :
    Starts put (modify f >>= g) t widths := by
  obtain ⟨answer, t'', hg⟩ := hg
  have hmodify : Enters put (modify f) t [] (.ok ⟨⟩) t' :=
    Enters.modifyGet fun log => by rw [hf, Log.record_nil]
  exact (hmodify.bind hg).starts

/-- A stage outside any dispatch that is refused at most. -/
theorem OnlyRefuses.starts {ρ : Type} {put' : Log → υ → ρ} {act' : Stage ρ α} {act : Stage τ α}
    {u : υ} (hact : OnlyRefuses act) (insert : τ → υ)
    (houtcome : ∀ log, outcome act' (put' log u)
      = ((outcome act t).1, put' log (insert (outcome act t).2))) : Starts put' act' u [] := by
  have hoverflow : overflowed (outcome act t).1 = false := by
    refine overflowed_of_malformed fun e he => ?_
    obtain ⟨t', ht'⟩ := exists_eq_error_of_outcome he
    exact hact.error ht'
  refine ⟨(outcome act t).1, insert (outcome act t).2, fun log => ?_, fun h => ?_⟩
  · rw [houtcome, hoverflow, Log.record_nil]
  · rw [hoverflow] at h
    cases h

end Stage

end CorpusStats
