import LibraryService.General.Gather
import LibraryService.Application.Exceptions

/-!
# Readiness checks

`ReadinessRunner` over any checks, each of which waits and fails as it likes, and the three checks
of the service.
-/

open Transition

namespace LibraryService.Healthcheck

/-- An exception object, with the name of its class. -/
structure Raised where
  kind : ExcKind
  typeName : String
  deriving DecidableEq, Repr

def cancelledError : Raised := ⟨.cancelledError, "CancelledError"⟩

def timeoutError : Raised := ⟨.exception, "TimeoutError"⟩

def runtimeError : Raised := ⟨.exception, "RuntimeError"⟩

structure CheckResult where
  name : String
  healthy : Bool
  detail : String := "ok"
  deriving DecidableEq, Repr

/-- What an `await` comes to. -/
abbrev Answer := Except Raised Unit

/-- What a check waits for: an answer to what it asked, or that a resource is given back. -/
inductive Awaited
  | answer
  | close

/-- How the coroutine of a check ended, or what it does with the answer that it awaits. -/
inductive Coroutine
  | ends (how : Except Raised CheckResult)
  | awaits (awaited : Awaited) (resume : Answer → Coroutine)

/-- The coroutine after these answers. -/
def Coroutine.feed (c : Coroutine) (as : List Answer) : Option Coroutine :=
  match as, c with
  | [], c => some c
  | a :: as, .awaits _ resume => (resume a).feed as
  | _ :: _, .ends _ => none
termination_by structural as

structure HealthCheck where
  name : String
  check : Coroutine

/-! ## The checks -/

/-- The connection is opened, the statement executed, and the connection given back in any case. -/
def PostgresHealthCheck : HealthCheck where
  name := "postgres"
  check := .awaits .answer fun
    | .error e => .ends (.error e)
    | .ok () => .awaits .answer fun executed => .awaits .close fun closed => .ends do
      closed
      executed
      return { name := "postgres", healthy := true }

def RedisHealthCheck : HealthCheck where
  name := "redis"
  check := .awaits .answer fun pinged => .ends do
    pinged
    return { name := "redis", healthy := true }

/-- The broker's connection, and whether its `is_connected`, where it has one, is not `False`. -/
structure NatsConnection where
  isConnected : Option Bool

def NatsHealthCheck (connection : Option NatsConnection) : HealthCheck where
  name := "nats"
  check := .ends <|
    match connection with
    | none => .error runtimeError
    | some c =>
      if c.isConnected = some false then .error runtimeError
      else .ok { name := "nats", healthy := true }

/-- The checks of the provider's runner, in its order. -/
def readinessChecks (connection : Option NatsConnection) : Fin 3 → HealthCheck
  | 0 => PostgresHealthCheck
  | 1 => RedisHealthCheck
  | 2 => NatsHealthCheck connection

/-! ## The runner -/

inductive Phase
  | created
  | checking (awaited : Awaited) (resume : Answer → Coroutine)
  | ended

/-- The task of one `_safe_check`: whether its timer has fired, how often it was asked to cancel,
whether that is still to be thrown into its check, and what the check's awaits came to. -/
structure CheckTask where
  phase : Phase
  expired : Bool
  cancelRequests : Nat
  cancelDue : Bool
  heard : List Answer

def CheckTask.cancel (task : CheckTask) : CheckTask :=
  match task.phase with
  | .ended => task
  | _ => { task with cancelRequests := task.cancelRequests + 1, cancelDue := true }

/-- The check goes on with an answer. What its task was asked for is thrown into the await that is
under way, once. -/
def CheckTask.hear (task : CheckTask) (a : Answer) : CheckTask :=
  { task with cancelDue := false, heard := task.heard ++ [a] }

/-- The timer of `asyncio.timeout` fires, and cancels its task. -/
def CheckTask.expire (task : CheckTask) : CheckTask := { task.cancel with expired := true }

/-- `__aexit__` of `asyncio.timeout`: a cancellation that nobody else asked for is the timer's. -/
def leaveTimeout (expired : Bool) (cancelRequests : Nat) :
    Except Raised CheckResult → Except Raised CheckResult
  | .error e =>
    if expired && decide (cancelRequests - 1 ≤ 0) && e.kind == .cancelledError then
      .error timeoutError
    else .error e
  | .ok r => .ok r

/-- `except Exception` in `_safe_check`. -/
def exceptException (name : String) : Except Raised CheckResult → Except Raised CheckResult
  | .error e =>
    if e.kind = .exception then
      .ok { name := name, healthy := false, detail := "error: " ++ e.typeName }
    else .error e
  | .ok r => .ok r

structure State (n : Nat) where
  tasks : Fin n → CheckTask
  gather : Gather.State n Raised CheckResult

def init {n : Nat} : State n := ⟨fun _ => ⟨.created, false, 0, false, []⟩, Gather.init⟩

/-- A step of a check's task, a timer, a done callback, `cancel()` on the task of the request, and
its going on after the gather. -/
inductive Label (n : Nat)
  | start (i : Fin n)
  | resume (i : Fin n) (a : Answer)
  | expire (i : Fin n)
  | callback (i : Fin n)
  | cancel
  | wake

section Step

variable {n : Nat} (checks : Fin n → HealthCheck)

def State.setTask (s : State n) (i : Fin n) (task : CheckTask) : State n :=
  { s with tasks := Function.update s.tasks i task }

def State.endTask (s : State n) (i : Fin n) (task : CheckTask) (r : Except Raised CheckResult) :
    State n :=
  ⟨Function.update s.tasks i { task with phase := .ended }, s.gather.endTask i r⟩

/-- `_safe_check` goes on until its check awaits again or ends. -/
def State.goOn (s : State n) (i : Fin n) (task : CheckTask) : Coroutine → State n
  | .awaits awaited resume => s.setTask i { task with phase := .checking awaited resume }
  | .ends how => s.endTask i task
    (exceptException (checks i).name (leaveTimeout task.expired task.cancelRequests how))

def step (s : State n) : Label n → Option (State n)
  | .start i =>
    match (s.tasks i).phase with
    | .created =>
      -- a task that was cancelled before its first step never enters `_safe_check`
      if 0 < (s.tasks i).cancelRequests then some (s.endTask i (s.tasks i) (.error cancelledError))
      else some (s.goOn checks i (s.tasks i) (checks i).check)
    | _ => none
  | .resume i a =>
    match (s.tasks i).phase with
    | .checking _ resume => some (s.goOn checks i ((s.tasks i).hear a) (resume a))
    | _ => none
  | .expire i =>
    match (s.tasks i).phase, (s.tasks i).expired with
    | .checking _ _, false => some (s.setTask i (s.tasks i).expire)
    | _, _ => none
  | .callback i => (s.gather.step cancelledError (.callback i)).map fun g => { s with gather := g }
  | .cancel => some
    { tasks := if s.gather.passesOn then fun i => (s.tasks i).cancel else s.tasks
      gather := s.gather.cancel }
  | .wake => (s.gather.step cancelledError .wake).map fun g => { s with gather := g }

end Step

/-! ## How a task stands -/

variable {n : Nat} {checks : Fin n → HealthCheck} {s t : State n} {i j : Fin n} {task : CheckTask}

theorem Coroutine.feed_snoc {c : Coroutine} {as : List Answer} {awaited : Awaited}
    {resume : Answer → Coroutine} (h : c.feed as = some (.awaits awaited resume)) (a : Answer) :
    c.feed (as ++ [a]) = some (resume a) := by
  induction as generalizing c with
  | nil =>
    cases h
    rfl
  | cons b as ih =>
    cases c with
    | ends how => cases h
    | awaits _ resume' => exact ih h

theorem leaveTimeout_error (expired : Bool) (cancelRequests : Nat) (e : Raised) :
    ∃ e', leaveTimeout expired cancelRequests (.error e) = .error e' ∧
      (e' = timeoutError ∧ expired = true ∨
        e' = e ∧ ¬ (expired = true ∧ cancelRequests ≤ 1 ∧ e.kind = .cancelledError)) := by
  simp only [leaveTimeout]
  split
  · rename_i hif
    simp only [Bool.and_eq_true] at hif
    exact ⟨_, rfl, .inl ⟨rfl, hif.1.1⟩⟩
  · rename_i hif
    refine ⟨_, rfl, .inr ⟨rfl, ?_⟩⟩
    rintro ⟨hexpired, hcancels, hkind⟩
    apply hif
    simp [hexpired, hkind]
    omega

theorem exceptException_ok {name : String} {e : Raised} {r : CheckResult}
    (h : exceptException name (.error e) = .ok r) :
    e.kind = .exception ∧ r = ⟨name, false, "error: " ++ e.typeName⟩ := by
  simp only [exceptException] at h
  split at h
  · rename_i hkind
    cases h
    exact ⟨hkind, rfl⟩
  · cases h

theorem exceptException_error {name : String} {x : Except Raised CheckResult} {e : Raised}
    (h : exceptException name x = .error e) : x = .error e ∧ e.kind ≠ .exception := by
  unfold exceptException at h
  split at h
  · split at h
    · cases h
    · rename_i hkind
      cases h
      exact ⟨rfl, hkind⟩
  · cases h

/-- How a task ended: it was cancelled before it began, or its check ended on what it heard. -/
def EndedAs (c : HealthCheck) (task : CheckTask) (r : Except Raised CheckResult) : Prop :=
  r = .error cancelledError ∧ task.expired = false ∧ 0 < task.cancelRequests ∨
    ∃ how, c.check.feed task.heard = some (.ends how) ∧
      r = exceptException c.name (leaveTimeout task.expired task.cancelRequests how)

/-- A task, its check and what the gather has of it fit together. -/
def Stands (c : HealthCheck) (task : CheckTask) (r : Option (Except Raised CheckResult)) : Prop :=
  match task.phase with
  | .created => r = none ∧ task.heard = [] ∧ task.expired = false
  | .checking awaited resume =>
    r = none ∧ c.check.feed task.heard = some (.awaits awaited resume)
  | .ended => ∃ x, r = some x ∧ EndedAs c task x

structure Inv (checks : Fin n → HealthCheck) (s : State n) : Prop where
  stands : ∀ i, Stands (checks i) (s.tasks i) (s.gather.ended i)
  gather : Gather.Inv cancelledError s.gather

theorem inv_init : Inv checks (init : State n) :=
  ⟨fun _ => ⟨rfl, rfl, rfl⟩, Gather.inv_init⟩

theorem inv_setTask (h : Inv checks s) (hi : Stands (checks i) task (s.gather.ended i)) :
    Inv checks (s.setTask i task) := by
  refine ⟨fun j => ?_, h.gather⟩
  unfold State.setTask
  by_cases hji : j = i
  · subst hji
    simpa using hi
  · simpa [hji] using h.stands j

theorem inv_endTask {r : Except Raised CheckResult} (h : Inv checks s)
    (hopen : s.gather.ended i = none) (hi : EndedAs (checks i) task r) :
    Inv checks (s.endTask i task r) := by
  refine ⟨fun j => ?_, Gather.inv_endTask h.gather hopen⟩
  unfold State.endTask Gather.State.endTask
  by_cases hji : j = i
  · subst hji
    simp only [Function.update_self]
    exact ⟨r, rfl, hi⟩
  · simpa [hji] using h.stands j

theorem inv_goOn {c : Coroutine} (h : Inv checks s) (hopen : s.gather.ended i = none)
    (hc : (checks i).check.feed task.heard = some c) : Inv checks (s.goOn checks i task c) := by
  cases c with
  | awaits awaited resume => exact inv_setTask h ⟨hopen, hc⟩
  | ends how => exact inv_endTask h hopen (.inr ⟨how, hc, rfl⟩)

theorem stands_cancel {c : HealthCheck} {r : Option (Except Raised CheckResult)}
    (h : Stands c task r) : Stands c task.cancel r := by
  obtain ⟨phase, expired, cancelRequests, cancelDue, heard⟩ := task
  cases phase <;> exact h

theorem inv_gather {g : Gather.State n Raised CheckResult} (h : Inv checks s)
    (hg : Gather.Inv cancelledError g) (hended : g.ended = s.gather.ended) :
    Inv checks { s with gather := g } :=
  ⟨fun i => by simpa [hended] using h.stands i, hg⟩

theorem inv_step {a : Label n} (h : Inv checks s) (hs : step checks s a = some t) :
    Inv checks t := by
  cases a with
  | start i =>
    have hi := h.stands i
    simp only [step] at hs
    split at hs
    · rename_i hphase
      simp only [Stands, hphase] at hi
      obtain ⟨hopen, hheard, hexpired⟩ := hi
      split at hs
      · rename_i hcancelled
        cases hs
        exact inv_endTask h hopen (.inl ⟨rfl, hexpired, hcancelled⟩)
      · cases hs
        exact inv_goOn h hopen (by rw [hheard]; rfl)
    · cases hs
  | resume i a =>
    have hi := h.stands i
    simp only [step] at hs
    split at hs
    · rename_i hphase
      simp only [Stands, hphase] at hi
      cases hs
      exact inv_goOn h hi.1 (Coroutine.feed_snoc hi.2 a)
    · cases hs
  | expire i =>
    have hi := h.stands i
    simp only [step] at hs
    split at hs
    · rename_i hphase _
      cases hs
      refine inv_setTask h ?_
      simp only [Stands, CheckTask.expire, CheckTask.cancel, hphase] at hi ⊢
      exact hi
    · cases hs
  | callback i =>
    obtain ⟨g, hg, rfl⟩ := Option.map_eq_some_iff.mp hs
    obtain ⟨-, -, rfl⟩ := Gather.callback_step.mp hg
    exact inv_gather h (Gather.inv_step h.gather hg) Gather.callback_ended
  | cancel =>
    cases hs
    refine ⟨fun i => ?_, Gather.inv_cancel h.gather⟩
    rw [Gather.cancel_ended]
    dsimp only
    split
    · exact stands_cancel (h.stands i)
    · exact h.stands i
  | wake =>
    obtain ⟨g, hg, rfl⟩ := Option.map_eq_some_iff.mp hs
    obtain ⟨r, -, -, rfl⟩ := Gather.wake_step.mp hg
    exact inv_gather h (Gather.inv_step h.gather hg) rfl

theorem ended_as {x : Except Raised CheckResult} (h : Inv checks s)
    (hi : s.gather.ended i = some x) : EndedAs (checks i) (s.tasks i) x := by
  have hstands := h.stands i
  unfold Stands at hstands
  split at hstands
  · rw [hi] at hstands
    cases hstands.1
  · rw [hi] at hstands
    cases hstands.1
  · obtain ⟨y, hy, hended⟩ := hstands
    rw [hi] at hy
    cases hy
    exact hended

/-! ## Requests that nobody cancels -/

/-- Only timers have asked for a cancellation. -/
structure Undisturbed (s : State n) : Prop where
  tasks : ∀ i, (s.tasks i).cancelRequests = if (s.tasks i).expired then 1 else 0
  gather : Gather.Uncancelled s.gather

theorem undisturbed_init : Undisturbed (init : State n) := ⟨fun _ => rfl, rfl, rfl⟩

theorem undisturbed_update {task : CheckTask} {g : Gather.State n Raised CheckResult}
    (h : Undisturbed s) (hg : Gather.Uncancelled g)
    (htask : task.cancelRequests = if task.expired then 1 else 0) :
    Undisturbed ⟨Function.update s.tasks i task, g⟩ := by
  refine ⟨fun j => ?_, hg⟩
  by_cases hji : j = i
  · subst hji
    simpa using htask
  · simpa [hji] using h.tasks j

theorem undisturbed_goOn {c : Coroutine} (h : Undisturbed s)
    (htask : task.cancelRequests = if task.expired then 1 else 0) :
    Undisturbed (s.goOn checks i task c) := by
  cases c with
  | awaits awaited resume => exact undisturbed_update h h.gather htask
  | ends how => exact undisturbed_update h h.gather htask

theorem undisturbed_step {a : Label n} (h : Undisturbed s) (hs : step checks s a = some t)
    (ha : a ≠ .cancel) : Undisturbed t := by
  cases a with
  | start i =>
    simp only [step] at hs
    split at hs
    · split at hs
      · cases hs
        exact undisturbed_update h h.gather (h.tasks i)
      · cases hs
        exact undisturbed_goOn h (h.tasks i)
    · cases hs
  | resume i a =>
    simp only [step] at hs
    split at hs
    · cases hs
      exact undisturbed_goOn h (h.tasks i)
    · cases hs
  | expire i =>
    have hi := h.tasks i
    simp only [step] at hs
    split at hs
    · rename_i hphase hexpired
      cases hs
      refine undisturbed_update h h.gather ?_
      simp [CheckTask.expire, CheckTask.cancel, hphase, hi, hexpired]
    · cases hs
  | callback i =>
    obtain ⟨g, hg, rfl⟩ := Option.map_eq_some_iff.mp hs
    obtain ⟨-, -, rfl⟩ := Gather.callback_step.mp hg
    exact ⟨h.tasks, Gather.callback_uncancelled h.gather⟩
  | cancel => exact absurd rfl ha
  | wake =>
    obtain ⟨g, hg, rfl⟩ := Option.map_eq_some_iff.mp hs
    obtain ⟨r, -, -, rfl⟩ := Gather.wake_step.mp hg
    exact ⟨h.tasks, h.gather⟩

/-! ## Checks that give way -/

/-- All that the check still waits for is that its resources are given back. -/
def Coroutine.Closes : Coroutine → Prop
  | .ends _ => True
  | .awaits .answer _ => False
  | .awaits .close resume => ∀ a, (resume a).Closes

/-- Where an await raises, the check goes on to give its resources back. -/
def Coroutine.GivesWay : Coroutine → Prop
  | .ends _ => True
  | .awaits _ resume => (∀ e, (resume (.error e)).Closes) ∧ (resume (.ok ())).GivesWay

theorem Coroutine.Closes.resume {awaited : Awaited} {resume : Answer → Coroutine}
    (h : (Coroutine.awaits awaited resume).Closes) (a : Answer) : (resume a).Closes := by
  cases awaited with
  | answer => exact h.elim
  | close => exact h a

theorem Coroutine.Closes.givesWay {c : Coroutine} (h : c.Closes) : c.GivesWay := by
  induction c with
  | ends how => trivial
  | awaits awaited resume ih => exact ⟨fun e => h.resume (.error e), ih (.ok ()) (h.resume (.ok ()))⟩

theorem readinessChecks_giveWay (connection : Option NatsConnection) (i : Fin 3) :
    (readinessChecks connection i).check.GivesWay := by
  match i with
  | 0 => exact ⟨fun _ => trivial, fun _ _ => trivial, fun _ => trivial, trivial⟩
  | 1 => exact ⟨fun _ => trivial, trivial⟩
  | 2 => trivial

/-- No await returns a value where its check's timer has it cancelled. -/
def Heeds (s : State n) : Label n → Prop
  | .resume i (.ok ()) => ¬ ((s.tasks i).expired = true ∧ (s.tasks i).cancelDue = true)
  | _ => True

instance (s : State n) (a : Label n) : Decidable (Heeds s a) :=
  match a with
  | .resume _ (.ok ()) => inferInstanceAs (Decidable ¬ _)
  | .resume _ (.error _) | .start _ | .expire _ | .callback _ | .cancel | .wake => isTrue trivial

def HeedingStep (checks : Fin n → HealthCheck) (s : State n) (a : Label n) (t : State n) : Prop :=
  ofStep (step checks) s a t ∧ Heeds s a

/-- Once its timer has fired, the check is cancelled where it waits, or only closes. -/
def Yielding (task : CheckTask) : Prop :=
  match task.phase with
  | .created => task.expired = false
  | .checking awaited resume => (Coroutine.awaits awaited resume).GivesWay ∧
    (task.expired = true → task.cancelDue = true ∨ (Coroutine.awaits awaited resume).Closes)
  | .ended => True

theorem yielding_checking {awaited : Awaited} {resume : Answer → Coroutine}
    (hphase : task.phase = .checking awaited resume)
    (hgives : (Coroutine.awaits awaited resume).GivesWay)
    (h : task.expired = true → task.cancelDue = true ∨ (Coroutine.awaits awaited resume).Closes) :
    Yielding task := by
  unfold Yielding
  rw [hphase]
  exact ⟨hgives, h⟩

theorem yielding_ended (hphase : task.phase = .ended) : Yielding task := by
  unfold Yielding
  rw [hphase]
  trivial

@[simp] theorem expire_phase : task.expire.phase = task.phase := by
  unfold CheckTask.expire CheckTask.cancel
  split <;> rfl

theorem expire_cancelDue (h : task.phase ≠ .ended) : task.expire.cancelDue = true := by
  unfold CheckTask.expire CheckTask.cancel
  split
  · contradiction
  · rfl

theorem yielding_init (i : Fin n) : Yielding ((init : State n).tasks i) := rfl

theorem yielding_update {g : Gather.State n Raised CheckResult} (h : ∀ j, Yielding (s.tasks j))
    (htask : Yielding task) (j : Fin n) :
    Yielding ((⟨Function.update s.tasks i task, g⟩ : State n).tasks j) := by
  by_cases hji : j = i
  · subst hji
    simpa using htask
  · simpa [hji] using h j

theorem yielding_goOn {c : Coroutine} (h : ∀ j, Yielding (s.tasks j)) (hc : c.GivesWay)
    (hcloses : task.expired = true → c.Closes) (j : Fin n) :
    Yielding ((s.goOn checks i task c).tasks j) := by
  cases c with
  | awaits awaited resume =>
    have hnext : Yielding { task with phase := .checking awaited resume } :=
      yielding_checking rfl hc fun hexpired => .inr (hcloses hexpired)
    exact yielding_update h hnext j
  | ends how => exact yielding_update h (yielding_ended rfl) j

theorem yielding_cancel (h : Yielding task) : Yielding task.cancel := by
  obtain ⟨phase, expired, cancelRequests, cancelDue, heard⟩ := task
  cases phase with
  | created => exact h
  | checking awaited resume => exact ⟨h.1, fun _ => .inl rfl⟩
  | ended => exact h

theorem yielding_step {a : Label n} (hchecks : ∀ i, (checks i).check.GivesWay)
    (h : ∀ i, Yielding (s.tasks i)) (hs : HeedingStep checks s a t) : ∀ i, Yielding (t.tasks i) := by
  obtain ⟨hs, hheeds⟩ := hs
  cases a with
  | start i =>
    have hi := h i
    simp only [ofStep, step] at hs
    split at hs
    · rename_i hphase
      simp only [Yielding, hphase] at hi
      split at hs
      · cases hs
        exact yielding_update h (yielding_ended rfl)
      · cases hs
        exact yielding_goOn h (hchecks i) fun hexpired => by simp [hi] at hexpired
    · cases hs
  | resume i a =>
    have hi := h i
    simp only [ofStep, step] at hs
    split at hs
    · rename_i hphase
      simp only [Yielding, hphase] at hi
      obtain ⟨hgives, hexpired⟩ := hi
      cases hs
      cases a with
      | error e => exact yielding_goOn h (hgives.1 e).givesWay fun _ => hgives.1 e
      | ok =>
        refine yielding_goOn h hgives.2 fun hfired => ?_
        rcases hexpired hfired with hdue | hcloses
        · exact absurd ⟨hfired, hdue⟩ hheeds
        · exact hcloses.resume (.ok ())
    · cases hs
  | expire i =>
    have hi := h i
    simp only [ofStep, step] at hs
    split at hs
    · rename_i hphase _
      cases hs
      simp only [Yielding, hphase] at hi
      have hdue : (s.tasks i).expire.cancelDue = true := expire_cancelDue (by simp [hphase])
      exact yielding_update h
        (yielding_checking (by rw [expire_phase, hphase]) hi.1 fun _ => .inl hdue)
    · cases hs
  | callback i =>
    obtain ⟨g, -, rfl⟩ := Option.map_eq_some_iff.mp hs
    exact h
  | cancel =>
    cases hs
    intro i
    dsimp only
    split
    · exact yielding_cancel (h i)
    · exact h i
  | wake =>
    obtain ⟨g, -, rfl⟩ := Option.map_eq_some_iff.mp hs
    exact h

/-! ## No check keeps a request -/

/-- Steps that come of themselves: those of the loop, timers, an await that ends with the
cancellation that is due, and the answer `closed` where a resource is given back. -/
def OfItself (closed : Fin n → Answer) (s : State n) : Label n → Prop
  | .resume i a => (s.tasks i).cancelDue = true ∧ a = .error cancelledError ∨
    (s.tasks i).cancelDue = false ∧ (∃ resume, (s.tasks i).phase = .checking .close resume) ∧
      a = closed i
  | .cancel => False
  | _ => True

def OwnStep (checks : Fin n → HealthCheck) (closed : Fin n → Answer) (s : State n) (a : Label n)
    (t : State n) : Prop :=
  ofStep (step checks) s a t ∧ OfItself closed s a

variable {closed : Fin n → Answer}

theorem own_heeds {a : Label n} (h : OwnStep checks closed s a t) : HeedingStep checks s a t := by
  refine ⟨h.1, ?_⟩
  cases a with
  | resume i a =>
    rcases h.2 with ⟨-, rfl⟩ | ⟨hdue, -, -⟩
    · trivial
    · cases a with
      | error e => trivial
      | ok => exact fun hboth => by simp [hdue] at hboth
  | start | expire | callback | cancel | wake => trivial

structure Further (s t : State n) : Prop where
  result : t.gather.result = s.gather.result
  ended : ∀ j, (s.gather.ended j).isSome = true → (t.gather.ended j).isSome = true

theorem Further.refl (s : State n) : Further s s := ⟨rfl, fun _ h => h⟩

theorem Further.trans {u : State n} (h : Further s t) (h' : Further t u) : Further s u :=
  ⟨h'.result.trans h.result, fun j hj => h'.ended j (h.ended j hj)⟩

theorem further_endTask {r : Except Raised CheckResult} : Further s (s.endTask i task r) := by
  refine ⟨rfl, fun j hj => ?_⟩
  unfold State.endTask Gather.State.endTask
  by_cases hji : j = i
  · simp [hji]
  · simpa [hji] using hj

theorem further_goOn {c : Coroutine} : Further s (s.goOn checks i task c) := by
  cases c with
  | awaits awaited resume => exact ⟨rfl, fun _ h => h⟩
  | ends how => exact further_endTask

theorem goOn_phase {awaited : Awaited} {resume : Answer → Coroutine} :
    (s.goOn checks i task (.awaits awaited resume)).tasks i =
      { task with phase := .checking awaited resume } := by
  simp [State.goOn, State.setTask]

theorem isSome_endTask {r : Except Raised CheckResult} :
    ((s.endTask i task r).gather.ended i).isSome = true := by
  simp [State.endTask, Gather.State.endTask]

theorem closing_ends (checks : Fin n → HealthCheck) (closed : Fin n → Answer) (s : State n)
    (i : Fin n) (task : CheckTask) {c : Coroutine} (hcloses : c.Closes)
    (hdue : task.cancelDue = false) :
    ∃ ls t, Run (OwnStep checks closed) (s.goOn checks i task c) ls t ∧
      Further (s.goOn checks i task c) t ∧ (t.gather.ended i).isSome = true := by
  induction c generalizing s task with
  | ends how => exact ⟨[], _, .nil, .refl _, isSome_endTask⟩
  | awaits awaited resume ih =>
    cases awaited with
    | answer => exact hcloses.elim
    | close =>
      have hstep : OwnStep checks closed (s.goOn checks i task (.awaits .close resume))
          (.resume i (closed i)) (State.goOn checks (s.goOn checks i task (.awaits .close resume)) i
            (CheckTask.hear { task with phase := .checking .close resume } (closed i))
            (resume (closed i))) := by
        refine ⟨?_, .inr ?_⟩
        · simp [ofStep, step, goOn_phase]
        · rw [goOn_phase]
          exact ⟨hdue, ⟨resume, rfl⟩, rfl⟩
      obtain ⟨ls, t, hrun, hfurther, hended⟩ := ih (closed i) (s.goOn checks i task
        (.awaits .close resume)) (CheckTask.hear { task with phase := .checking .close resume }
          (closed i)) (hcloses (closed i)) rfl
      exact ⟨_, t, hrun.cons hstep, further_goOn.trans hfurther, hended⟩

section Ends

variable {awaited : Awaited} {resume : Answer → Coroutine}

theorem cancelled_ends (checks : Fin n → HealthCheck) (closed : Fin n → Answer)
    (hphase : (s.tasks i).phase = .checking awaited resume)
    (hgives : (Coroutine.awaits awaited resume).GivesWay) (hdue : (s.tasks i).cancelDue = true) :
    ∃ ls t, Run (OwnStep checks closed) s ls t ∧ Further s t ∧ (t.gather.ended i).isSome = true := by
  have hstep : OwnStep checks closed s (.resume i (.error cancelledError)) (s.goOn checks i
      ((s.tasks i).hear (.error cancelledError)) (resume (.error cancelledError))) :=
    ⟨by simp [ofStep, step, hphase], .inl ⟨hdue, rfl⟩⟩
  obtain ⟨ls, t, hrun, hfurther, hended⟩ := closing_ends checks closed s i
    ((s.tasks i).hear (.error cancelledError)) (hgives.1 cancelledError) rfl
  exact ⟨_, t, hrun.cons hstep, further_goOn.trans hfurther, hended⟩

/-- A check that waits comes to its end: its timer fires, its await is cancelled, it gives back what
it holds. -/
theorem checking_ends (checks : Fin n → HealthCheck) (closed : Fin n → Answer)
    (hphase : (s.tasks i).phase = .checking awaited resume)
    (hyields : Yielding (s.tasks i)) :
    ∃ ls t, Run (OwnStep checks closed) s ls t ∧ Further s t ∧ (t.gather.ended i).isSome = true := by
  have hi := hyields
  simp only [Yielding, hphase] at hi
  obtain ⟨hgives, hfired⟩ := hi
  cases hexpired : (s.tasks i).expired with
  | true =>
    by_cases hdue : (s.tasks i).cancelDue = true
    · exact cancelled_ends checks closed hphase hgives hdue
    · have hsame : s.goOn checks i (s.tasks i) (.awaits awaited resume) = s := by
        simp only [State.goOn, State.setTask]
        rw [← hphase, Function.update_eq_self]
      have hends := closing_ends checks closed s i (s.tasks i)
        ((hfired hexpired).resolve_left hdue) (by simpa using hdue)
      rwa [hsame] at hends
  | false =>
    have hstep : OwnStep checks closed s (.expire i) (s.setTask i (s.tasks i).expire) :=
      ⟨by simp [ofStep, step, hphase, hexpired], trivial⟩
    have htask : (s.setTask i (s.tasks i).expire).tasks i = (s.tasks i).expire := by
      simp [State.setTask]
    obtain ⟨ls, t, hrun, hfurther, hended⟩ := cancelled_ends checks closed
      (s := s.setTask i (s.tasks i).expire) (i := i) (by rw [htask, expire_phase, hphase]) hgives
      (by rw [htask]; exact expire_cancelDue (by simp [hphase]))
    exact ⟨_, t, hrun.cons hstep, ⟨hfurther.result, hfurther.ended⟩, hended⟩

end Ends

theorem task_ends (hchecks : ∀ i, (checks i).check.GivesWay) (closed : Fin n → Answer)
    (h : Inv checks s) (hy : ∀ i, Yielding (s.tasks i)) (i : Fin n) :
    ∃ ls t, Run (OwnStep checks closed) s ls t ∧ Further s t ∧ (t.gather.ended i).isSome = true := by
  have hi := h.stands i
  unfold Stands at hi
  split at hi
  · rename_i hphase
    by_cases hcancelled : 0 < (s.tasks i).cancelRequests
    · have hstep : step checks s (.start i) =
          some (s.endTask i (s.tasks i) (.error cancelledError)) := by
        simp [step, hphase, hcancelled]
      exact ⟨_, _, .single ⟨hstep, trivial⟩, further_endTask, isSome_endTask⟩
    · have hstep : OwnStep checks closed s (.start i)
          (s.goOn checks i (s.tasks i) (checks i).check) :=
        ⟨by simp [ofStep, step, hphase, hcancelled], trivial⟩
      have hnext := yielding_step hchecks hy (own_heeds hstep)
      cases hc : (checks i).check with
      | ends how =>
        rw [hc] at hstep
        exact ⟨_, _, .single hstep, further_goOn, isSome_endTask⟩
      | awaits awaited resume =>
        rw [hc] at hstep hnext
        have hphase : ((s.goOn checks i (s.tasks i) (.awaits awaited resume)).tasks i).phase =
            .checking awaited resume := by rw [goOn_phase]
        obtain ⟨ls, t, hrun, hfurther, hended⟩ := checking_ends checks closed hphase (hnext i)
        exact ⟨_, t, hrun.cons hstep, further_goOn.trans hfurther, hended⟩
  · rename_i hphase
    exact checking_ends checks closed hphase (hy i)
  · obtain ⟨r, hr, -⟩ := hi
    exact ⟨[], s, .nil, .refl s, by simp [hr]⟩

theorem own_inv {ls : List (Label n)} (h : Inv checks s)
    (hrun : Run (OwnStep checks closed) s ls t) : Inv checks t :=
  hrun.invariant h fun _ _ _ hx hstep => inv_step hx hstep.1

theorem own_yielding {ls : List (Label n)} (hchecks : ∀ i, (checks i).check.GivesWay)
    (hy : ∀ i, Yielding (s.tasks i)) (hrun : Run (OwnStep checks closed) s ls t) :
    ∀ i, Yielding (t.tasks i) :=
  hrun.invariant (I := fun s => ∀ i, Yielding (s.tasks i)) hy
    fun _ _ _ hx hstep => yielding_step hchecks hx (own_heeds hstep)

theorem tasks_end (hchecks : ∀ i, (checks i).check.GivesWay) (closed : Fin n → Answer)
    (h : Inv checks s) (hy : ∀ i, Yielding (s.tasks i)) (is : List (Fin n)) :
    ∃ ls t, Run (OwnStep checks closed) s ls t ∧ Further s t ∧
      ∀ i ∈ is, (t.gather.ended i).isSome = true := by
  induction is generalizing s with
  | nil => exact ⟨[], s, .nil, .refl s, fun _ hi => absurd hi List.not_mem_nil⟩
  | cons i is ih =>
    obtain ⟨ls, t, hrun, hfurther, hended⟩ := task_ends hchecks closed h hy i
    obtain ⟨ks, u, hrun', hfurther', hrest⟩ :=
      ih (own_inv h hrun) (own_yielding hchecks hy hrun)
    exact ⟨_, u, hrun.append hrun', hfurther.trans hfurther',
      List.forall_mem_cons.mpr ⟨hfurther'.ended i hended, hrest⟩⟩

theorem own_of_gather (checks : Fin n → HealthCheck) (closed : Fin n → Answer)
    {g g' : Gather.State n Raised CheckResult} {ls : List (Gather.Label n Raised CheckResult)}
    (tasks : Fin n → CheckTask)
    (h : Run (ofStep (Gather.State.step cancelledError)) g ls g') (hls : ∀ a ∈ ls, a.OfLoop) :
    ∃ ks, Run (OwnStep checks closed) ⟨tasks, g⟩ ks ⟨tasks, g'⟩ := by
  induction h with
  | nil => exact ⟨[], .nil⟩
  | @snoc ls x a y hrun hstep ih =>
    obtain ⟨ks, hks⟩ := ih fun a ha => hls a (by simp [ha])
    have hloop := hls a (by simp)
    cases a with
    | callback i =>
      have hown : OwnStep checks closed ⟨tasks, x⟩ (.callback i) ⟨tasks, y⟩ :=
        ⟨Option.map_eq_some_iff.mpr ⟨y, hstep, rfl⟩, trivial⟩
      exact ⟨_, hks.snoc hown⟩
    | wake =>
      have hown : OwnStep checks closed ⟨tasks, x⟩ .wake ⟨tasks, y⟩ :=
        ⟨Option.map_eq_some_iff.mpr ⟨y, hstep, rfl⟩, trivial⟩
      exact ⟨_, hks.snoc hown⟩
    | ends i r => cases hloop
    | cancel => cases hloop

/-- Whatever its checks wait for, a request comes to an end by timers, the loop and the closing of
what the checks hold. -/
theorem comes_to_end (hchecks : ∀ i, (checks i).check.GivesWay) (closed : Fin n → Answer)
    (h : Inv checks s) (hy : ∀ i, Yielding (s.tasks i)) (hr : s.gather.result = none) :
    ∃ ls t, Run (OwnStep checks closed) s ls t ∧ t.gather.result.isSome = true := by
  obtain ⟨ls, t, hrun, hfurther, hended⟩ := tasks_end hchecks closed h hy (List.finRange n)
  obtain ⟨ks, g, hks, hgather, hresult⟩ := Gather.finishes (own_inv h hrun).gather
    (fun i => hended i (List.mem_finRange i)) (hfurther.result.trans hr)
  obtain ⟨ks', hrun'⟩ := own_of_gather checks closed t.tasks hgather hks
  exact ⟨_, _, hrun.append hrun', hresult⟩

end LibraryService.Healthcheck
