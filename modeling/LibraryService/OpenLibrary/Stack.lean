import LibraryService.General.Transition
import LibraryService.Application.Keys
import LibraryService.Application.Reduced
import Mathlib.Data.Option.Basic

/-!
# The client stack

`CachedOpenLibraryClient` over `ReducedOpenLibraryClient` on one event loop and one cache. Code
between two awaits is one step; a request to the cache takes effect in a step of its own.
-/

open Transition LibraryService.Reduced

namespace LibraryService.OpenLibrary

/-! ## Calls of `search` -/

structure SearchArgs where
  query : String
  limit : Int
  offset : Int
  deriving DecidableEq, Repr

def SearchArgs.kwargs (args : SearchArgs) : Kwargs :=
  [("query", .str args.query), ("limit", .int args.limit), ("offset", .int args.offset)]

/-- The arguments by keyword, in the order of the caller. -/
structure SearchCall where
  args : SearchArgs
  kwargs : Kwargs
  perm : kwargs.Perm args.kwargs

variable (printable : Char → Bool)

def cacheKey (call : SearchCall) : String :=
  defaultKey printable "CachedOpenLibraryClient" "search" [] call.kwargs

/-- The cached client passes its arguments on in the order of its signature. -/
def reducedKey (args : SearchArgs) : String :=
  defaultKey printable "ReducedOpenLibraryClient" "search" [] args.kwargs

/-! ## The objects -/

/-- Where a call of the cached client stands. Results are never `None`. -/
inductive Phase (V : Type)
  /-- `await self._cache.get(key)`, before and after the cache has looked. -/
  | reading
  | looked (cachedResult : Option V)
  /-- `await self._reducer(...)`, with the number of its waiter. -/
  | joining (w : Nat)
  | setting (result : V)
  | returned (result : V)
  | raised (e : Exc)

/-- What a call has asked the cache to set. The request stays out when the call is gone. -/
inductive Write (V : Type)
  | none
  | sent (result : V)
  | stored (result : V)

structure Call (V : Type) where
  search : SearchCall
  phase : Phase V
  write : Write V

structure Stack (V : Type) where
  cache : String → Option V
  reducer : State V
  /-- What the upstream client is asked for by each coroutine that is handed to the reducer. -/
  requests : Nat → Option SearchArgs
  calls : List (Call V)

variable {V : Type}

def Stack.init (cache : String → Option V) : Stack V :=
  { cache, reducer := State.init, requests := fun _ => none, calls := [] }

def Stack.setCall (s : Stack V) (i : Nat) (c : Call V) : Stack V := { s with calls := s.calls.set i c }

/-! ## Steps -/

inductive StackLabel (V : Type)
  | search (call : SearchCall)
  | cacheGet (i : Nat)
  | resumeGet (i : Nat)
  /-- The loop runs something of the reducer other than a waiter. A step of a runner is where the
  upstream client answers or fails. -/
  | loop (a : Label V)
  | resumeWaiter (i : Nat)
  | cacheSet (i : Nat)
  | resumeSet (i : Nat)
  | cacheFails (i : Nat) (e : Exc)
  | expire (key : String)
  | cancel (i : Nat)

def isLoop : Label V → Bool
  | .startRunner _ _ | .stepRunner _ _ | .cancelRunner _ | .discardTask _ | .deliver _ => true
  | .call _ | .startWaiter _ | .resumeWaiter _ | .cancelWaiter _ => false

def Call.proceed (c : Call V) : Outcome V → Call V
  | .ok result => { c with phase := .setting result, write := .sent result }
  | .error e => { c with phase := .raised e }

/-- `await self._reducer(func(self, ...), ident=key)`, up to where the waiter awaits. -/
def Stack.join (s : Stack V) (i : Nat) (c : Call V) : Option (Stack V) := do
  let w := s.reducer.calls
  let reducer ← exec step s.reducer [.call (reducedKey printable c.search.args), .startWaiter w]
  return { s with
    reducer
    requests := Function.update s.requests w (some c.search.args) }.setCall i
      { c with phase := .joining w }

/-- One step of the stack. `none`: the label is not enabled. -/
def Stack.step (s : Stack V) : StackLabel V → Option (Stack V)
  | .search call => some { s with calls := s.calls ++ [⟨call, .reading, .none⟩] }
  | .cacheGet i => do
    let c ← s.calls[i]?
    match c.phase with
    | .reading => return s.setCall i { c with phase := .looked (s.cache (cacheKey printable c.search)) }
    | _ => none
  | .resumeGet i => do
    let c ← s.calls[i]?
    match c.phase with
    | .looked (some result) => return s.setCall i { c with phase := .returned result }
    | .looked none => s.join printable i c
    | _ => none
  | .loop a => do
    guard (isLoop a)
    let reducer ← Reduced.step s.reducer a
    return { s with reducer }
  | .resumeWaiter i => do
    let c ← s.calls[i]?
    match c.phase with
    | .joining w =>
      let reducer ← Reduced.step s.reducer (.resumeWaiter w)
      let x ← reducer.waiters w
      match x.state with
      | .returned o => return { s with reducer }.setCall i (c.proceed o)
      | _ => none
    | _ => none
  | .cacheSet i => do
    let c ← s.calls[i]?
    match c.write with
    | .sent result =>
      return { s with
        cache := Function.update s.cache (cacheKey printable c.search) (some result) }.setCall i
          { c with write := .stored result }
    | _ => none
  | .resumeSet i => do
    let c ← s.calls[i]?
    match c.phase, c.write with
    | .setting result, .stored _ => return s.setCall i { c with phase := .returned result }
    | _, _ => none
  | .cacheFails i e => do
    let c ← s.calls[i]?
    match c.phase with
    | .reading | .setting _ => return s.setCall i { c with phase := .raised e }
    | _ => none
  | .expire key => some { s with cache := Function.update s.cache key none }
  | .cancel i => do
    let c ← s.calls[i]?
    -- A request that is on its way to the cache is not called back: `write` stays.
    match c.phase with
    | .reading | .looked _ | .setting _ =>
      return s.setCall i { c with phase := .raised .cancelledError }
    | .joining w =>
      let reducer ← Reduced.step s.reducer (.cancelWaiter w)
      return { s with reducer }.setCall i { c with phase := .raised .cancelledError }
    | _ => none

/-! ## What a step does -/

variable {printable : Char → Bool} {s t : Stack V} {i : Nat}

theorem cacheGet_eq_some (h : s.step printable (.cacheGet i) = some t) :
    ∃ c, s.calls[i]? = some c ∧ c.phase = .reading ∧
      t = s.setCall i { c with phase := .looked (s.cache (cacheKey printable c.search)) } := by
  obtain ⟨c, hc, h⟩ := Option.bind_eq_some_iff.mp h
  split at h
  · exact ⟨c, hc, by assumption, (Option.some.inj h).symm⟩
  · cases h

theorem join_eq_some {c : Call V} : s.join printable i c = some t ↔
    ∃ reducer, Reduced.step (s.reducer.call (reducedKey printable c.search.args))
        (.startWaiter s.reducer.calls) = some reducer ∧
      t = { s with
        reducer
        requests := Function.update s.requests s.reducer.calls (some c.search.args) }.setCall i
          { c with phase := .joining s.reducer.calls } := by
  constructor
  · intro h
    obtain ⟨reducer, hexec, h⟩ := Option.bind_eq_some_iff.mp h
    obtain ⟨u, hu, hexec⟩ := Option.bind_eq_some_iff.mp hexec
    obtain rfl := Option.some.inj hu
    obtain ⟨r, hstart, hexec⟩ := Option.bind_eq_some_iff.mp hexec
    obtain rfl := Option.some.inj hexec
    exact ⟨r, hstart, (Option.some.inj h).symm⟩
  · rintro ⟨reducer, hstart, rfl⟩
    have hexec : exec Reduced.step s.reducer [.call (reducedKey printable c.search.args),
        .startWaiter s.reducer.calls] = some reducer := by
      simp only [exec, Option.bind_eq_some_iff]
      exact ⟨_, rfl, reducer, hstart, rfl⟩
    simp only [Stack.join, hexec]
    rfl

theorem resumeGet_eq_some (h : s.step printable (.resumeGet i) = some t) :
    ∃ c, s.calls[i]? = some c ∧ ((∃ result, c.phase = .looked (some result) ∧
      t = s.setCall i { c with phase := .returned result }) ∨
        c.phase = .looked none ∧ s.join printable i c = some t) := by
  obtain ⟨c, hc, h⟩ := Option.bind_eq_some_iff.mp h
  refine ⟨c, hc, ?_⟩
  split at h
  · exact .inl ⟨_, by assumption, (Option.some.inj h).symm⟩
  · exact .inr ⟨by assumption, h⟩
  · cases h

theorem loop_eq_some {a : Label V} (h : s.step printable (.loop a) = some t) :
    isLoop a = true ∧ ∃ reducer, Reduced.step s.reducer a = some reducer ∧ t = { s with reducer } := by
  obtain ⟨_, hloop, h⟩ := Option.bind_eq_some_iff.mp h
  obtain ⟨reducer, hstep, h⟩ := Option.bind_eq_some_iff.mp h
  exact ⟨by simpa [Option.guard_eq_some'] using hloop, reducer, hstep, (Option.some.inj h).symm⟩

theorem resumeWaiter_eq_some (h : s.step printable (.resumeWaiter i) = some t) :
    ∃ c w reducer x o, s.calls[i]? = some c ∧ c.phase = .joining w ∧
      Reduced.step s.reducer (.resumeWaiter w) = some reducer ∧ reducer.waiters w = some x ∧
      x.state = .returned o ∧ t = { s with reducer }.setCall i (c.proceed o) := by
  obtain ⟨c, hc, h⟩ := Option.bind_eq_some_iff.mp h
  split at h
  · obtain ⟨reducer, hstep, h⟩ := Option.bind_eq_some_iff.mp h
    obtain ⟨x, hx, h⟩ := Option.bind_eq_some_iff.mp h
    split at h
    · exact ⟨c, _, reducer, x, _, hc, by assumption, hstep, hx, by assumption,
        (Option.some.inj h).symm⟩
    · cases h
  · cases h

theorem cacheSet_eq_some (h : s.step printable (.cacheSet i) = some t) :
    ∃ c result, s.calls[i]? = some c ∧ c.write = .sent result ∧
      t = { s with
        cache := Function.update s.cache (cacheKey printable c.search) (some result) }.setCall i
          { c with write := .stored result } := by
  obtain ⟨c, hc, h⟩ := Option.bind_eq_some_iff.mp h
  split at h
  · exact ⟨c, _, hc, by assumption, (Option.some.inj h).symm⟩
  · cases h

theorem resumeSet_eq_some (h : s.step printable (.resumeSet i) = some t) :
    ∃ c result, s.calls[i]? = some c ∧ c.phase = .setting result ∧
      t = s.setCall i { c with phase := .returned result } := by
  obtain ⟨c, hc, h⟩ := Option.bind_eq_some_iff.mp h
  split at h
  · exact ⟨c, _, hc, by assumption, (Option.some.inj h).symm⟩
  · cases h

theorem cacheFails_eq_some {e : Exc} (h : s.step printable (.cacheFails i e) = some t) :
    ∃ c, s.calls[i]? = some c ∧ t = s.setCall i { c with phase := .raised e } := by
  obtain ⟨c, hc, h⟩ := Option.bind_eq_some_iff.mp h
  split at h
  · exact ⟨c, hc, (Option.some.inj h).symm⟩
  · exact ⟨c, hc, (Option.some.inj h).symm⟩
  · cases h

theorem cancel_eq_some (h : s.step printable (.cancel i) = some t) :
    ∃ c, s.calls[i]? = some c ∧ (t = s.setCall i { c with phase := .raised .cancelledError } ∨
      ∃ w reducer, Reduced.step s.reducer (.cancelWaiter w) = some reducer ∧
        t = { s with reducer }.setCall i { c with phase := .raised .cancelledError }) := by
  obtain ⟨c, hc, h⟩ := Option.bind_eq_some_iff.mp h
  refine ⟨c, hc, ?_⟩
  split at h
  · exact .inl (Option.some.inj h).symm
  · exact .inl (Option.some.inj h).symm
  · exact .inl (Option.some.inj h).symm
  · obtain ⟨reducer, hstep, h⟩ := Option.bind_eq_some_iff.mp h
    exact .inr ⟨_, reducer, hstep, (Option.some.inj h).symm⟩
  · cases h

end LibraryService.OpenLibrary
