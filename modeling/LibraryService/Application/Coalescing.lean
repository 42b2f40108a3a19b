import LibraryService.Application.ReducedRuns

/-!
# What callers of `AsyncReducer` get

Coalescing is exact, and no ident is left stuck, as long as tasks and coroutines end in order.
-/

open PartialMap
open Transition (Run ofStep exec run_of_exec guarded run_of_guarded)

namespace LibraryService.Reduced

variable {V : Type} {s t : State V}

/-! ## Coalescing -/

/-- Runner tasks are not cancelled from outside, and coroutines end with a value, an `Exception`
or a `CancelledError`. -/
def Undisturbed : Label V → Prop
  | .startRunner _ (some o) => taken o = true
  | .stepRunner _ (some o) => taken o = true
  | .cancelRunner _ => False
  | _ => True

def UndisturbedStep (s : State V) (a : Label V) (t : State V) : Prop :=
  ofStep step s a t ∧ Undisturbed a

/-- Runner `n` is for `ident` and has not finished. -/
def Live (s : State V) (ident : String) (n : Nat) : Prop :=
  ∃ r, s.runners n = some r ∧ r.ident = ident ∧ r.state ≠ .finished

def Executing (s : State V) (ident : String) (n : Nat) : Prop :=
  ∃ r, s.runners n = some r ∧ r.ident = ident ∧ r.state = .awaiting

def Executes (s : State V) (n c : Nat) : Prop := ∃ r, s.runners n = some r ∧ r.coro = c

/-- Runner `n` has finished, and its coroutine ended with `o`. -/
def RanTo (s : State V) (n : Nat) (o : Outcome V) : Prop :=
  ∃ r c, s.runners n = some r ∧ r.state = .finished ∧ s.coros r.coro = some c ∧ c.outcome = some o

structure Coalesced (s : State V) : Prop where
  key_iff : ∀ ident, (∃ n, s.running ident = some n) ↔ ∃! n, Live s ident n
  key_pending : ∀ ident n, s.running ident = some n →
    Live s ident n ∧ ∃ r, s.runners n = some r ∧ r.future = .pending
  one_executing : ∀ ident m n, Executing s ident m → Executing s ident n → m = n
  coro : ∀ k < s.calls, ∃ c, s.coros k = some c ∧
    ((∃! n, Executes s n k) ∧ c.closed = false ∨
      (∀ n, ¬ Executes s n k) ∧ c.closed = true ∧ c.steps = 0)
  received : ∀ w x o, s.waiters w = some x → x.state = .returned o → RanTo s x.future o
  /-- Once its run is over, all that is left between a waiter and the outcome is its own callback
  and its own wakeup, and the loop can run both. -/
  delivery : ∀ w x o, s.waiters w = some x → RanTo s x.future o → x.state = .awaiting →
    ∃ ls t y, (∀ a ∈ ls, a = .deliver w ∨ a = .resumeWaiter w) ∧ exec step s ls = some t ∧
      t.waiters w = some y ∧ y.state = .returned o

theorem Undisturbed.orderly {a : Label V} (h : Undisturbed a) : Orderly s a := by
  cases a with
  | startRunner n o => cases o <;> exact h
  | stepRunner n o => cases o <;> exact h
  | cancelRunner n => exact h.elim
  | _ => trivial

theorem undisturbed_inv {ls : List (Label V)} (h : Run UndisturbedStep s ls t) (hi : Inv s) :
    Inv t :=
  h.invariant hi fun _ _ _ hx hstep => step_inv hx hstep.1 hstep.2.orderly

theorem live_unique {ident : String} {m n : Nat} (hi : Inv s) (hm : Live s ident m)
    (hn : Live s ident n) : m = n := by
  obtain ⟨q, hq, rfl, hqst⟩ := hm
  obtain ⟨r, hr, hid, hrst⟩ := hn
  have hkm := (hi.live m q hq hqst).1
  have hkn := (hi.live n r hr hrst).1
  rw [hid, hkm] at hkn
  exact Option.some.inj hkn

theorem deliver_then_resume {w : Nat} {x : Waiter V} {r : Runner V} {o : Outcome V}
    (hx : s.waiters w = some x) (hr : s.runners x.future = some r) (ho : r.future = .done o)
    (htk : taken o = true) (hst : x.state = .awaiting) (hp : x.waitFuture = .pending)
    (hmem : w ∈ s.ready) :
    ∃ t y, exec step s [.deliver w, .resumeWaiter w] = some t ∧ t.waiters w = some y ∧
      y.state = .returned o := by
  have hset : setWaitFutureResult r.future x.waitFuture = .done o := by
    simp [setWaitFutureResult, ho, hp, Future.result, Future.set, htk]
  have hdel := deliver_iff.mpr ⟨x, r, hx, hr, hmem, rfl⟩
  rw [hset] at hdel
  generalize ht : ({ s with ready := s.ready.erase w }.setWaiter w
    { x with waitFuture := .done o } : State V) = t at hdel
  have hx' : t.waiters w = some { x with waitFuture := .done o } := by
    rw [← ht]; exact Function.update_self ..
  have hres := resumeWaiter_iff.mpr ⟨_, o, hx', hst, rfl, rfl⟩
  refine ⟨t.setWaiter w { x with waitFuture := .done o, state := .returned o }, _, ?_,
    Function.update_self .., rfl⟩
  simp only [exec, Option.bind_eq_some_iff]
  exact ⟨_, hdel, _, hres, rfl⟩

theorem coalesced_of_inv (hi : Inv s) : Coalesced s where
  key_iff ident := by
    constructor
    · rintro ⟨n, hn⟩
      exact ⟨n, hi.key ident n hn, fun m hm => live_unique hi hm (hi.key ident n hn)⟩
    · rintro ⟨n, ⟨r, hr, rfl, hst⟩, -⟩
      exact ⟨n, (hi.live n r hr hst).1⟩
  key_pending ident n hn := by
    obtain ⟨r, hr, hid, hst⟩ := hi.key ident n hn
    exact ⟨⟨r, hr, hid, hst⟩, r, hr, (hi.live n r hr hst).2.1⟩
  one_executing ident m n := by
    rintro ⟨q, hq, hqid, hqst⟩ ⟨r, hr, hrid, hrst⟩
    exact live_unique hi ⟨q, hq, hqid, by simp [hqst]⟩ ⟨r, hr, hrid, by simp [hrst]⟩
  coro k hk := by
    obtain ⟨⟨c, hc⟩, -⟩ := hi.known k hk
    refine ⟨c, hc, ?_⟩
    cases hr : s.runners k with
    | some r =>
      left
      obtain ⟨hco, d, hd, hcl⟩ := hi.coro k r hr
      rw [hc] at hd; cases hd
      refine ⟨⟨k, ⟨r, hr, hco⟩, ?_⟩, hcl⟩
      rintro n ⟨q, hq, hqc⟩
      exact (hi.coro n q hq).1.symm.trans hqc
    | none =>
      right
      refine ⟨?_, hi.closed k c hc hr⟩
      rintro n ⟨q, hq, hqc⟩
      have hnk : n = k := (hi.coro n q hq).1.symm.trans hqc
      rw [hnk, hr] at hq; cases hq
  received w x o hx hst := by
    obtain ⟨r, hr, -, hwait⟩ := hi.waiter w x hx
    simp only [Waits, hst] at hwait
    have hfin := finished_of_done hi hr hwait
    obtain ⟨o', c, ho', -, hc, hco⟩ := hi.ended _ r hr hfin
    rw [hwait] at ho'; cases ho'
    exact ⟨r, c, hr, hfin, by rw [(hi.coro _ r hr).1]; exact hc, hco⟩
  delivery w x o hx := by
    rintro ⟨r, c, hr, hfin, hc, hco⟩ hst
    obtain ⟨o', c', ho', htk, hc', hco'⟩ := hi.ended _ r hr hfin
    rw [(hi.coro _ r hr).1, hc'] at hc; cases hc
    rw [hco'] at hco; cases hco
    obtain ⟨q, hq, -, hwait⟩ := hi.waiter w x hx
    rw [hr] at hq; cases hq
    simp only [Waits, hst] at hwait
    rcases hwait with ⟨_, _, hp, _⟩ | ⟨o'', ho'', hwf⟩
    · rw [ho'] at hp; cases hp
    rw [ho'] at ho''; cases ho''
    rcases hwf with ⟨hp, hmem⟩ | hd
    · obtain ⟨t, y, h, hy, hyst⟩ := deliver_then_resume hx hr ho' htk hst hp hmem
      exact ⟨_, t, y, by simp, h, hy, hyst⟩
    · refine ⟨[.resumeWaiter w], s.setWaiter w { x with state := .returned o }, _, by simp, ?_,
        Function.update_self .., rfl⟩
      simp only [exec, Option.bind_eq_some_iff]
      exact ⟨_, resumeWaiter_iff.mpr ⟨x, o, hx, hst, hd, rfl⟩, rfl⟩

/-! ## Which run a call joins -/

theorem waiter_keeps {a : Label V} {w : Nat} {x : Waiter V} (hfresh : s.waiters s.calls = none)
    (h : step s a = some t) (hx : s.waiters w = some x) :
    ∃ y, t.waiters w = some y ∧ y.ident = x.ident ∧ y.future = x.future := by
  have hset : ∀ (u : State V) (v : Nat) (y y' : Waiter V), u.waiters = s.waiters →
      s.waiters v = some y → y'.ident = y.ident → y'.future = y.future →
      ∃ z, (u.setWaiter v y').waiters w = some z ∧ z.ident = x.ident ∧ z.future = x.future := by
    intro u v y y' hu hy hid hf
    simp only [State.setWaiter, hu]
    refine exists_update ⟨x, hx, rfl, rfl⟩ fun z hz hkeep => ?_
    obtain ⟨hzid, hzf⟩ := hkeep
    rw [hy] at hz; cases hz
    exact ⟨hid.trans hzid, hf.trans hzf⟩
  cases a with
  | call ident =>
    cases h
    refine ⟨x, ?_, rfl, rfl⟩
    cases hk : s.running ident with
    | none => rw [call_create hk]; exact update_fresh hfresh hx
    | some n => rw [call_join hk]; exact update_fresh hfresh hx
  | startRunner n o =>
    obtain ⟨r, -, -, rfl⟩ := startRunner_iff.mp h
    refine ⟨x, ?_, rfl, rfl⟩
    split
    · exact hx
    · cases o <;> exact hx
  | stepRunner n o =>
    obtain ⟨r, -, -, rfl⟩ := stepRunner_iff.mp h
    exact ⟨x, by cases o <;> exact hx, rfl, rfl⟩
  | cancelRunner n =>
    obtain ⟨r, -, -, rfl⟩ := cancelRunner_iff.mp h
    exact ⟨x, hx, rfl, rfl⟩
  | discardTask n =>
    obtain ⟨r, -, -, -, rfl⟩ := discardTask_iff.mp h
    exact ⟨x, hx, rfl, rfl⟩
  | startWaiter v =>
    obtain ⟨y, r, hy, -, -, rfl⟩ := startWaiter_iff.mp h
    rw [addDoneCallback_setWaiter]
    refine hset _ v y _ ?_ hy rfl rfl
    unfold State.addDoneCallback
    cases r.future <;> rfl
  | deliver v =>
    obtain ⟨y, r, hy, -, -, rfl⟩ := deliver_iff.mp h
    exact hset _ v y _ rfl hy rfl rfl
  | resumeWaiter v =>
    obtain ⟨y, o, hy, -, -, rfl⟩ := resumeWaiter_iff.mp h
    exact hset _ v y _ rfl hy rfl rfl
  | cancelWaiter v =>
    obtain ⟨y, hy, ⟨-, rfl⟩ | ⟨-, rfl⟩⟩ := cancelWaiter_iff.mp h
    · exact hset _ v y _ rfl hy rfl rfl
    · exact hset _ v y _ rfl hy rfl rfl

theorem call_joins_live (ident : String) (hi : Inv s) :
    ∃ x, (s.call ident).waiters s.calls = some x ∧ x.ident = ident ∧
      Live (s.call ident) ident x.future := by
  cases hk : s.running ident with
  | none =>
    rw [call_create hk]
    exact ⟨_, Function.update_self .., rfl, _, Function.update_self .., rfl, by simp⟩
  | some n =>
    rw [call_join hk]
    exact ⟨_, Function.update_self .., rfl, hi.key ident n hk⟩

/-- The future a call's waiter waits for, in every later state, is one of a runner of the call's
ident that had not finished when the call was made. -/
def JoinsLive (s : State V) : Prop :=
  ∀ ident ls t, Run UndisturbedStep (s.call ident) ls t →
    ∃ x, t.waiters s.calls = some x ∧ x.ident = ident ∧ Live (s.call ident) ident x.future

/-- **Coalescing is exact**, in every state that a run without outside cancellation reaches. -/
theorem reducer_coalesces {ls : List (Label V)} (h : Run UndisturbedStep State.init ls s) :
    Coalesced s ∧ JoinsLive s := by
  have hi := undisturbed_inv h init_inv
  refine ⟨coalesced_of_inv hi, fun ident ls' t h' => ?_⟩
  obtain ⟨x, hx, hid, hlive⟩ := call_joins_live ident hi
  have hi' : Inv (s.call ident) := step_inv hi (a := .call ident) rfl trivial
  have hkeep := h'.invariant
    (I := fun u => Inv u ∧ ∃ y, u.waiters s.calls = some y ∧ y.ident = x.ident ∧
      y.future = x.future) ⟨hi', x, hx, rfl, rfl⟩ (by
    rintro u a v ⟨hu, y, hy, hyid, hyf⟩ ⟨hstep, hok⟩
    obtain ⟨z, hz, hzid, hzf⟩ := waiter_keeps (hu.fresh _ (Nat.le_refl _)).2.2 hstep hy
    exact ⟨step_inv hu hstep hok.orderly, z, hz, hzid.trans hyid, hzf.trans hyf⟩)
  obtain ⟨-, y, hy, hyid, hyf⟩ := hkeep
  exact ⟨y, hy, hyid.trans hid, by rw [hyf]; exact hlive⟩

/-- Two calls share one run, and a third comes after it. -/
def sharedRun : List (Label Nat) :=
  [.call "k", .startWaiter 0, .startRunner 0 none, .call "k", .startWaiter 1,
    .stepRunner 0 (some (.ok 7)), .deliver 0, .call "k", .deliver 1, .resumeWaiter 1]

theorem reducer_coalesces_shared :
    ∃ s, exec step State.init sharedRun = some s ∧ Coalesced s ∧ JoinsLive s := by
  obtain ⟨s, hs⟩ := Option.isSome_iff_exists.mp
    (by decide : (exec step State.init sharedRun).isSome = true)
  refine ⟨s, hs, reducer_coalesces ((run_of_exec hs).restrict ?_)⟩
  simp [sharedRun, Undisturbed, taken]

/-! ## No ident is stuck -/

structure NeverStuck (s : State V) : Prop where
  key : ∀ ident n, s.running ident = some n → Live s ident n
  ended : ∀ n r, s.runners n = some r → r.state = .finished → ∃ o, r.future = .done o
  /-- A waiter that still waits has a live runner, or its callback is scheduled. -/
  waiting : ∀ w x, s.waiters w = some x → x.state = .awaiting → x.waitFuture = .pending →
    Live s x.ident x.future ∨ w ∈ s.ready

def OrderlyStep (s : State V) (a : Label V) (t : State V) : Prop :=
  ofStep step s a t ∧ Orderly s a

theorem neverStuck_of_inv (hi : Inv s) : NeverStuck s where
  key := hi.key
  ended n r hr hst := by
    obtain ⟨o, -, ho, -⟩ := hi.ended n r hr hst
    exact ⟨o, ho⟩
  waiting w x hx hst hp := by
    obtain ⟨r, hr, hid, hwait⟩ := hi.waiter w x hx
    by_cases hfin : r.state = .finished
    · right
      obtain ⟨o, -, ho, -⟩ := hi.ended _ r hr hfin
      simp only [Waits, hst] at hwait
      rcases hwait with ⟨_, _, hp', _⟩ | ⟨_, _, ⟨_, hmem⟩ | hd⟩
      · rw [ho] at hp'; cases hp'
      · exact hmem
      · rw [hp] at hd; cases hd
    · exact .inl ⟨r, hr, hid, hfin⟩

/-- **No ident is left stuck** in a run in which no runner task is cancelled before its first step
and no coroutine raises an exception outside `Exception` and `CancelledError`. -/
theorem reducer_never_stuck {ls : List (Label V)} (h : Run OrderlyStep State.init ls s) :
    NeverStuck s :=
  neverStuck_of_inv (h.invariant init_inv fun _ _ _ hx hstep => step_inv hx hstep.1 hstep.2)

def cancelledRun : List (Label Nat) :=
  [.call "k", .startWaiter 0, .startRunner 0 none, .cancelRunner 0,
    .stepRunner 0 (some (.error .cancelledError)), .deliver 0]

theorem reducer_never_stuck_cancelled :
    ∃ s, exec (guarded step Orderly) State.init cancelledRun = some s ∧ NeverStuck s := by
  obtain ⟨s, hs⟩ := Option.isSome_iff_exists.mp
    (by decide : (exec (guarded step Orderly) State.init cancelledRun).isSome = true)
  exact ⟨s, hs, reducer_never_stuck (run_of_guarded hs)⟩

/-- A runner is cancelled before its first step. -/
def earlyCancel : List (Label Nat) :=
  [.call "k", .startWaiter 0, .cancelRunner 0, .startRunner 0 none]

/-- The first runner is gone, its key is not, and a later call waits for it. -/
theorem reducer_stuck_after_early_cancel :
    ¬ ∀ (ls : List (Label Nat)) (s : State Nat), Run (ofStep step) State.init ls s →
      NeverStuck s := by
  intro h
  obtain ⟨s, hs⟩ := Option.isSome_iff_exists.mp
    (by decide : (exec step State.init earlyCancel).isSome = true)
  have hkey : (exec step State.init earlyCancel).map (·.running "k") = some (some 0) := by decide
  have hfin : (exec step State.init earlyCancel).map (fun s => (s.runners 0).map (·.state)) =
      some (some .finished) := by decide
  rw [hs] at hkey hfin
  simp only [Option.map_some, Option.some.injEq, Option.map_eq_some_iff] at hkey hfin
  obtain ⟨r, hr, -, hlive⟩ := (h _ s (run_of_exec hs)).key "k" 0 hkey
  obtain ⟨r', hr', hst⟩ := hfin
  rw [hr] at hr'; cases hr'
  exact hlive hst

end LibraryService.Reduced
