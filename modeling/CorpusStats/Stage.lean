import CorpusStats.Error
/-!
# CorpusStats.Stage

How a stage runs. A **dispatch** runs one step per work-item, in the order of the
items, and returns when all are done.

* A step is a `Stage`: it changes a state and answers or fails. A failing step
  **keeps** what it changed before it failed, and so does a dispatch: the first
  failure ends it, later items do not run, and the effects of earlier ones stay.
* Every dispatch is entered in a `Log` with its full width, whether or not it comes
  to the end. An overflow that ends a dispatch is counted there too; other failures
  are not. The log counts in 64-bit words, which wrap around.
* A **sweep** is a dispatch whose steps cannot fail, and a **survey** one whose steps
  change nothing.

`Logged σ` is a state with its log, so that a stage says which log it writes to.
-/

namespace CorpusStats

/-- A computation on a state that answers or fails, and keeps its changes when it
fails. -/
abbrev Stage (σ α : Type) := EStateM Error σ α

/-- A check is a stage that changes nothing. -/
instance {σ : Type} : MonadLift (Except Error) (EStateM Error σ) where
  monadLift
    | .ok a => pure a
    | .error e => throw e

/-- What a store counts about its dispatches. -/
structure Log where
  /-- Dispatches started. -/
  dispatches : UInt64 := 0
  /-- Work-items of all dispatches started. -/
  workItems : UInt64 := 0
  /-- Dispatches that an overflow ended. -/
  overflows : UInt64 := 0
  deriving Repr, DecidableEq, Inhabited

namespace Log

/-- The log of a store that has run nothing. -/
def empty : Log := {}

/-- Enter a dispatch of `width` work-items. -/
def start (width : Nat) (log : Log) : Log :=
  { log with dispatches := log.dispatches + 1, workItems := log.workItems + width.toUInt64 }

/-- Enter the failure that ended a dispatch. -/
def fail (e : Error) (log : Log) : Log :=
  if e.isOverflow then { log with overflows := log.overflows + 1 } else log

end Log

/-- A state together with the log of its dispatches. -/
structure Logged (σ : Type) where
  /-- The state the work-items change. -/
  state : σ
  log : Log

variable {σ ι α : Type}

/-- Run `step` on every item, in order, collecting the answers. -/
def dispatch (items : List ι) (step : ι → Stage σ α) : Stage (Logged σ) (List α) :=
  fun ⟨state, log⟩ =>
    let log := log.start items.length
    match items.mapM step state with
    | .ok answers state => .ok answers ⟨state, log⟩
    | .error e state => .error e ⟨state, log.fail e⟩

/-- Run a step that cannot fail on every item, in order. -/
def sweep (items : List ι) (step : σ → ι → σ) : Logged σ → Logged σ :=
  fun ⟨state, log⟩ => ⟨items.foldl step state, log.start items.length⟩

/-- Enter a dispatch that only reads the state. -/
def survey (width : Nat) : Logged σ → Logged σ :=
  fun ⟨state, log⟩ => ⟨state, log.start width⟩

/-! ### What a dispatch leaves -/

/-- The state after a dispatch is the state its steps leave, failed or not. -/
theorem dispatch_eq (items : List ι) (step : ι → Stage σ α) (s : Logged σ) :
    dispatch items step s =
      match items.mapM step s.state with
      | .ok answers state => .ok answers ⟨state, s.log.start items.length⟩
      | .error e state => .error e ⟨state, (s.log.start items.length).fail e⟩ := rfl

theorem sweep_eq (items : List ι) (step : σ → ι → σ) (s : Logged σ) :
    sweep items step s = ⟨items.foldl step s.state, s.log.start items.length⟩ := rfl

theorem mapM_cons_of_error {step : ι → Stage σ α} {i : ι} {items : List ι} {s s' : σ} {e : Error}
    (h : step i s = .error e s') : (i :: items).mapM step s = .error e s' := by
  simp [bind, EStateM.bind, h]

theorem mapM_cons_of_ok {step : ι → Stage σ α} {i : ι} {items : List ι} {s s' : σ} {a : α}
    (h : step i s = .ok a s') :
    (i :: items).mapM step s =
      match items.mapM step s' with
      | .ok as s'' => .ok (a :: as) s''
      | .error e s'' => .error e s'' := by
  simp only [List.mapM_cons, bind, EStateM.bind, h]
  cases items.mapM step s' <;> rfl

end CorpusStats
