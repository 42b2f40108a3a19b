import LibraryService.Application.Exceptions
import Mathlib.Logic.Function.Basic

/-!
# `AsyncReducer`

The reducer of `application/reduced.py` on one event loop. Code between two awaits is one step,
and the labels are what the loop and the outside can do next, in any order. Call number `n` hands
in coroutine `n` and gets waiter `n`; when it creates a future, that is future `n`, of runner `n`.
-/

namespace LibraryService.Reduced

variable {V : Type}

/-! ## Futures -/

abbrev Outcome (V : Type) := Except Exc V

/-- An `asyncio.Future`. `done` is its state after `set_result` or `set_exception`. -/
inductive Future (V : Type)
  | pending
  | done (o : Outcome V)
  | cancelled

namespace Future

def set (o : Outcome V) : Future V → Except Exc (Future V)
  | pending => .ok (done o)
  | _ => .error .invalidStateError

def result : Future V → Outcome V
  | pending => .error .invalidStateError
  | done o => o
  | cancelled => .error .cancelledError

def cancel : Future V → Future V
  | pending => cancelled
  | f => f

end Future

/-- An `except (Exception, asyncio.CancelledError)` clause or the `else` clause takes it. -/
def taken : Outcome V → Bool
  | .ok _ => true
  | .error e => e.ordinary

/-! ## The objects -/

inductive RunnerState
  | created
  | awaiting
  | finished
  deriving DecidableEq

/-- A future of the reducer and the `_runner` task that is to resolve it. -/
structure Runner (V : Type) where
  ident : String
  coro : Nat
  state : RunnerState
  /-- `task.cancel()` was called, and the task has not run since. -/
  cancelRequested : Bool
  future : Future V
  /-- The waiters whose callback is registered on the future. -/
  callbacks : List Nat

structure Coro (V : Type) where
  steps : Nat
  closed : Bool
  outcome : Option (Outcome V)

inductive WaiterState (V : Type)
  | unstarted
  | awaiting
  | returned (o : Outcome V)
  | cancelled

/-- A `_waiter` coroutine: `ident` is what its call named, `future` the number of the shared future. -/
structure Waiter (V : Type) where
  ident : String
  future : Nat
  state : WaiterState V
  waitFuture : Future V

structure State (V : Type) where
  running : String → Option Nat
  tasks : List Nat
  calls : Nat
  coros : Nat → Option (Coro V)
  runners : Nat → Option (Runner V)
  waiters : Nat → Option (Waiter V)
  /-- The callbacks the loop is to run, by waiter. -/
  ready : List Nat

/-- `AsyncReducer()`. -/
def State.init : State V where
  running _ := none
  tasks := []
  calls := 0
  coros _ := none
  runners _ := none
  waiters _ := none
  ready := []

/-! ## `__call__` -/

/-- `_get_or_create_future`: the future, and whether it was created. -/
def getOrCreateFuture (running : String → Option Nat) (fresh : Nat) (ident : String) : Nat × Bool :=
  match running ident with
  | some f => (f, false)
  | none => (fresh, true)

/-- `__call__`. Joining closes the coroutine, creating starts a `_runner` task for it. -/
def State.call (s : State V) (ident : String) : State V :=
  let n := s.calls
  let (future, created) := getOrCreateFuture s.running n ident
  let s := { s with
    calls := n + 1
    waiters := Function.update s.waiters n (some ⟨ident, future, .unstarted, .pending⟩) }
  if created then
    { s with
      running := Function.update s.running ident (some future)
      tasks := future :: s.tasks
      coros := Function.update s.coros n (some ⟨0, false, none⟩)
      runners := Function.update s.runners future
        (some ⟨ident, n, .created, false, .pending, []⟩) }
  else
    { s with coros := Function.update s.coros n (some ⟨0, true, none⟩) }

/-! ## `_runner` -/

/-- The `except` and `else` clauses: the future is set, and its callbacks are scheduled. An
exception that no clause takes leaves it as it is. -/
def Runner.settle (r : Runner V) (o : Outcome V) : Runner V × List Nat :=
  if taken o then
    match r.future.set o with
    | .ok f => ({ r with future := f, callbacks := [] }, r.callbacks)
    | .error _ => (r, [])
  else (r, [])

def Coro.advance (c : Coro V) (o : Option (Outcome V)) : Coro V := ⟨c.steps + 1, c.closed, o⟩

def State.setRunner (s : State V) (n : Nat) (r : Runner V) : State V :=
  { s with runners := Function.update s.runners n (some r) }

/-- The rest of `_runner` once `await coro` ended, with the `finally` clause. -/
def State.finish (s : State V) (n : Nat) (r : Runner V) (o : Outcome V) : State V :=
  { s with
    running := Function.update s.running r.ident none
    ready := s.ready ++ (r.settle o).2 }.setRunner n { (r.settle o).1 with state := .finished }

def State.advance (s : State V) (n : Nat) (r : Runner V) (o : Option (Outcome V)) : State V :=
  let r := { r with cancelRequested := false }
  let s := { s with coros := Function.update s.coros r.coro ((s.coros r.coro).map (Coro.advance · o)) }
  match o with
  | none => s.setRunner n { r with state := .awaiting }
  | some o => s.finish n r o

/-- The first step of a task that was cancelled before: the `CancelledError` is thrown where the
coroutine function starts, so neither the `try` nor its `finally` is entered. -/
def State.abort (s : State V) (n : Nat) (r : Runner V) : State V :=
  s.setRunner n { r with state := .finished }

/-! ## `_waiter` -/

/-- `add_done_callback`: on a future that is done the callback is scheduled at once. -/
def State.addDoneCallback (s : State V) (n : Nat) (r : Runner V) (w : Nat) : State V :=
  match r.future with
  | .pending => s.setRunner n { r with callbacks := r.callbacks ++ [w] }
  | _ => { s with ready := s.ready ++ [w] }

def setWaitFutureResult (resultFuture waitFuture : Future V) : Future V :=
  match waitFuture with
  | .cancelled => waitFuture
  | _ =>
    if taken resultFuture.result then
      match waitFuture.set resultFuture.result with
      | .ok f => f
      | .error _ => waitFuture
    -- The exception leaves the callback for the loop's exception handler.
    else waitFuture

def State.setWaiter (s : State V) (w : Nat) (x : Waiter V) : State V :=
  { s with waiters := Function.update s.waiters w (some x) }

/-! ## Steps -/

inductive Label (V : Type)
  | call (ident : String)
  /-- The first and the later steps of a runner task. The coroutine ends in the step, or not. -/
  | startRunner (n : Nat) (o : Option (Outcome V))
  | stepRunner (n : Nat) (o : Option (Outcome V))
  /-- `task.cancel()` on a runner task. At its next step a started runner throws it into the
  coroutine, which may then end in any way or go on. -/
  | cancelRunner (n : Nat)
  | discardTask (n : Nat)
  | startWaiter (w : Nat)
  | deliver (w : Nat)
  | resumeWaiter (w : Nat)
  | cancelWaiter (w : Nat)

/-- One step of the loop or of the outside. `none`: the label is not enabled. -/
def step (s : State V) : Label V → Option (State V)
  | .call ident => some (s.call ident)
  | .startRunner n o => do
    let r ← s.runners n
    guard (r.state = .created)
    return if r.cancelRequested then s.abort n r else s.advance n r o
  | .stepRunner n o => do
    let r ← s.runners n
    guard (r.state = .awaiting)
    return s.advance n r o
  | .cancelRunner n => do
    let r ← s.runners n
    guard (r.state ≠ .finished)
    return s.setRunner n { r with cancelRequested := true }
  | .discardTask n => do
    let r ← s.runners n
    guard (r.state = .finished ∧ n ∈ s.tasks)
    return { s with tasks := s.tasks.erase n }
  | .startWaiter w => do
    let x ← s.waiters w
    let r ← s.runners x.future
    match x.state with
    | .unstarted =>
      return (s.setWaiter w { x with state := .awaiting, waitFuture := .pending }).addDoneCallback
        x.future r w
    | _ => none
  | .deliver w => do
    let x ← s.waiters w
    let r ← s.runners x.future
    guard (w ∈ s.ready)
    return { s with ready := s.ready.erase w }.setWaiter w
      { x with waitFuture := setWaitFutureResult r.future x.waitFuture }
  | .resumeWaiter w => do
    let x ← s.waiters w
    match x.state, x.waitFuture with
    | .awaiting, .done o => return s.setWaiter w { x with state := .returned o }
    | _, _ => none
  | .cancelWaiter w => do
    let x ← s.waiters w
    match x.state with
    | .unstarted => return s.setWaiter w { x with state := .cancelled }
    | .awaiting => return s.setWaiter w { x with state := .cancelled, waitFuture := x.waitFuture.cancel }
    | _ => none

end LibraryService.Reduced
