import LibraryService.Application.ReducedRuns
import Mathlib.Data.List.Nodup

/-!
# The callbacks of `AsyncReducer`

In every run, whoever is cancelled in it, a callback runs at most once, and on a future that is
done.
-/

open Function (update update_apply)
open PartialMap

namespace LibraryService.Reduced

variable {V : Type} {s t : State V} {n w : Nat}

/-- The callback of `w` is registered or scheduled. -/
def Outstanding (s : State V) (w : Nat) : Prop :=
  w ∈ s.ready ∨ ∃ n r, s.runners n = some r ∧ w ∈ r.callbacks

/-- The waiter was started, and no callback has resolved its wait future. -/
def Unresolved (x : Waiter V) : Prop := x.state ≠ .unstarted ∧ ∀ o, x.waitFuture ≠ .done o

structure CallbackInv (s : State V) : Prop where
  fresh : ∀ n, s.calls ≤ n → s.runners n = none ∧ s.waiters n = none
  live : ∀ n r, s.runners n = some r → r.state ≠ .finished → r.future = .pending
  resolved : ∀ n r, s.runners n = some r → r.future = .pending ∨
    ∃ o, r.future = .done o ∧ taken o = true
  registered : ∀ n r, s.runners n = some r → r.callbacks.Nodup ∧ ∀ w ∈ r.callbacks,
    r.future = .pending ∧ ∃ x, s.waiters w = some x ∧ x.future = n ∧ Unresolved x
  ready : s.ready.Nodup
  scheduled : ∀ w ∈ s.ready, ∃ x r, s.waiters w = some x ∧ s.runners x.future = some r ∧
    r.future ≠ .pending ∧ Unresolved x

theorem init_callbackInv : CallbackInv (State.init : State V) := by
  constructor <;> simp [State.init]

/-! ## Each step keeps it -/

theorem call_callbackInv (hi : CallbackInv s) (ident : String) : CallbackInv (s.call ident) := by
  obtain ⟨hrun, hw⟩ := hi.fresh s.calls (Nat.le_refl _)
  have hfresh : ∀ n, s.calls + 1 ≤ n → n ≠ s.calls ∧ s.runners n = none ∧ s.waiters n = none := by
    intro n hn
    exact ⟨by omega, hi.fresh n (by omega)⟩
  cases hk : s.running ident with
  | some m =>
    rw [call_join hk]
    refine { hi with fresh := ?_, registered := ?_, scheduled := ?_ }
    · intro n hn
      obtain ⟨hne, hrest⟩ := hfresh n hn
      simpa [update_apply, hne] using hrest
    · intro n r hr
      obtain ⟨hnd, hcb⟩ := hi.registered n r hr
      refine ⟨hnd, fun v hv => ?_⟩
      obtain ⟨hp, x, hx, hrest⟩ := hcb v hv
      exact ⟨hp, x, update_fresh hw hx, hrest⟩
    · intro v hv
      obtain ⟨x, r, hx, hrest⟩ := hi.scheduled v hv
      exact ⟨x, r, update_fresh hw hx, hrest⟩
  | none =>
    rw [call_create hk]
    constructor
    case fresh =>
      intro n hn
      obtain ⟨hne, hrest⟩ := hfresh n hn
      simpa [update_apply, hne] using hrest
    case live =>
      intro n r hr hst
      rcases update_eq_some hr with ⟨-, rfl⟩ | ⟨-, hr⟩
      · rfl
      · exact hi.live n r hr hst
    case resolved =>
      intro n r hr
      rcases update_eq_some hr with ⟨-, rfl⟩ | ⟨-, hr⟩
      · exact .inl rfl
      · exact hi.resolved n r hr
    case registered =>
      intro n r hr
      rcases update_eq_some hr with ⟨-, rfl⟩ | ⟨-, hr⟩
      · simp
      · obtain ⟨hnd, hcb⟩ := hi.registered n r hr
        refine ⟨hnd, fun v hv => ?_⟩
        obtain ⟨hp, x, hx, hrest⟩ := hcb v hv
        exact ⟨hp, x, update_fresh hw hx, hrest⟩
    case ready => exact hi.ready
    case scheduled =>
      intro v hv
      obtain ⟨x, r, hx, hr, hrest⟩ := hi.scheduled v hv
      exact ⟨x, r, update_fresh hw hx, update_fresh hrun hr, hrest⟩

theorem CallbackInv.setWaiter {x x' : Waiter V} (hi : CallbackInv s) (hx : s.waiters w = some x)
    (hf : x'.future = x.future) (hopen : Outstanding s w → Unresolved x → Unresolved x') :
    CallbackInv (s.setWaiter w x') := by
  have hkeep : ∀ v y, Outstanding s v → s.waiters v = some y → Unresolved y →
      ∃ z, update s.waiters w (some x') v = some z ∧ z.future = y.future ∧ Unresolved z := by
    intro v y hv hy ho
    by_cases hvw : v = w
    · subst hvw
      rw [hx] at hy
      cases hy
      exact ⟨x', Function.update_self .., hf, hopen hv ho⟩
    · exact ⟨y, (Function.update_of_ne hvw _ _).trans hy, rfl, ho⟩
  refine { hi with fresh := ?_, registered := ?_, scheduled := ?_ }
  · intro n hn
    obtain ⟨hr, hnone⟩ := hi.fresh n hn
    exact ⟨hr, update_unused hx hnone⟩
  · intro n r hr
    obtain ⟨hnd, hcb⟩ := hi.registered n r hr
    refine ⟨hnd, fun v hv => ?_⟩
    obtain ⟨hp, y, hy, hyf, ho⟩ := hcb v hv
    obtain ⟨z, hz, hzf, hzo⟩ := hkeep v y (.inr ⟨n, r, hr, hv⟩) hy ho
    exact ⟨hp, z, hz, hzf.trans hyf, hzo⟩
  · intro v hv
    obtain ⟨y, r, hy, hr, hp, ho⟩ := hi.scheduled v hv
    obtain ⟨z, hz, hzf, hzo⟩ := hkeep v y (.inl hv) hy ho
    exact ⟨z, r, hz, (congrArg s.runners hzf).trans hr, hp, hzo⟩

theorem CallbackInv.setRunner {r r' : Runner V} (hi : CallbackInv s) (hr : s.runners n = some r)
    (hf : r'.future = r.future) (hst : r'.state ≠ .finished → r.state ≠ .finished)
    (hcb : r'.callbacks.Nodup ∧ ∀ w ∈ r'.callbacks, r.future = .pending ∧
      ∃ x, s.waiters w = some x ∧ x.future = n ∧ Unresolved x) :
    CallbackInv (s.setRunner n r') := by
  refine { hi with fresh := ?_, live := ?_, resolved := ?_, registered := ?_, scheduled := ?_ }
  · intro m hm
    obtain ⟨hnone, hw⟩ := hi.fresh m hm
    exact ⟨update_unused hr hnone, hw⟩
  · intro m q hq hqst
    rcases update_eq_some hq with ⟨-, rfl⟩ | ⟨-, hq⟩
    · rw [hf]
      exact hi.live n r hr (hst hqst)
    · exact hi.live m q hq hqst
  · intro m q hq
    rcases update_eq_some hq with ⟨-, rfl⟩ | ⟨-, hq⟩
    · rw [hf]
      exact hi.resolved n r hr
    · exact hi.resolved m q hq
  · intro m q hq
    rcases update_eq_some hq with ⟨rfl, rfl⟩ | ⟨-, hq⟩
    · rw [hf]
      exact hcb
    · exact hi.registered m q hq
  · intro v hv
    obtain ⟨x, q, hx, hq, hp, ho⟩ := hi.scheduled v hv
    obtain ⟨q', hq', hp'⟩ := exists_update (P := fun q => q.future ≠ .pending) ⟨q, hq, hp⟩
      fun b hb hbp => by
        rw [hr] at hb
        cases hb
        rwa [hf]
    exact ⟨x, q', hx, hq', hp', ho⟩

theorem CallbackInv.finish {r q : Runner V} (hi : CallbackInv s) (hr : s.runners n = some r)
    (hlive : r.state ≠ .finished) (hf : q.future = r.future) (hcb : q.callbacks = r.callbacks)
    (o : Outcome V) : CallbackInv (s.finish n q o) := by
  have hp := hi.live n r hr hlive
  obtain ⟨hnd, hreg⟩ := hi.registered n r hr
  unfold State.finish
  cases htk : taken o with
  | false =>
    have hset : q.settle o = (q, []) := by simp [Runner.settle, htk]
    rw [hset, List.append_nil]
    have hi' : CallbackInv { s with running := update s.running q.ident none } := { hi with }
    exact hi'.setRunner hr hf (by simp) ⟨hcb ▸ hnd, fun v hv => hreg v (hcb ▸ hv)⟩
  | true =>
    rw [settle_of_pending (hf.trans hp) htk]
    constructor
    case fresh =>
      intro m hm
      obtain ⟨hnone, hw⟩ := hi.fresh m hm
      exact ⟨update_unused hr hnone, hw⟩
    case live =>
      intro m p hpr hst
      rcases update_eq_some hpr with ⟨-, rfl⟩ | ⟨-, hpr⟩
      · exact absurd rfl hst
      · exact hi.live m p hpr hst
    case resolved =>
      intro m p hpr
      rcases update_eq_some hpr with ⟨-, rfl⟩ | ⟨-, hpr⟩
      · exact .inr ⟨o, rfl, htk⟩
      · exact hi.resolved m p hpr
    case registered =>
      intro m p hpr
      rcases update_eq_some hpr with ⟨-, rfl⟩ | ⟨-, hpr⟩
      · simp
      · exact hi.registered m p hpr
    case ready =>
      -- What is scheduled already waits on a future that was done before.
      have hdisj : List.Disjoint s.ready q.callbacks := by
        intro v hv hv'
        rw [hcb] at hv'
        obtain ⟨x, p, hx, hpr, hdone, -⟩ := hi.scheduled v hv
        obtain ⟨-, y, hy, hyf, -⟩ := hreg v hv'
        rw [hx] at hy
        cases hy
        rw [hyf, hr] at hpr
        cases hpr
        exact hdone hp
      exact hi.ready.append (hcb ▸ hnd) hdisj
    case scheduled =>
      intro v hv
      rcases List.mem_append.mp hv with hv | hv
      · obtain ⟨x, p, hx, hpr, hdone, ho⟩ := hi.scheduled v hv
        have hxn : x.future ≠ n := by
          intro hxn
          rw [hxn, hr] at hpr
          cases hpr
          exact hdone hp
        exact ⟨x, p, hx, (Function.update_of_ne hxn _ _).trans hpr, hdone, ho⟩
      · rw [hcb] at hv
        obtain ⟨-, x, hx, rfl, ho⟩ := hreg v hv
        exact ⟨x, _, hx, Function.update_self .., by simp, ho⟩

theorem advance_callbackInv {r : Runner V} (hi : CallbackInv s) (hr : s.runners n = some r)
    (hlive : r.state ≠ .finished) (o : Option (Outcome V)) : CallbackInv (s.advance n r o) := by
  have hi' : CallbackInv
      { s with coros := update s.coros r.coro ((s.coros r.coro).map (Coro.advance · o)) } :=
    { hi with }
  unfold State.advance
  cases o with
  | none => exact hi'.setRunner hr rfl (fun _ => hlive) (hi.registered n r hr)
  | some o =>
    apply hi'.finish hr hlive
    · rfl
    · rfl

theorem not_outstanding {x : Waiter V} (hi : CallbackInv s) (hx : s.waiters w = some x)
    (hst : ¬ Unresolved x) : ¬ Outstanding s w := by
  rintro (hmem | ⟨n, r, hr, hmem⟩)
  · obtain ⟨y, -, hy, -, -, ho⟩ := hi.scheduled w hmem
    rw [hx] at hy
    cases hy
    exact hst ho
  · obtain ⟨-, y, hy, -, ho⟩ := (hi.registered n r hr).2 w hmem
    rw [hx] at hy
    cases hy
    exact hst ho

theorem startWaiter_callbackInv (hi : CallbackInv s) (h : step s (.startWaiter w) = some t) :
    CallbackInv t := by
  obtain ⟨x, r, hx, hr, hst, rfl⟩ := startWaiter_iff.mp h
  have hnot : ¬ Unresolved x := fun ho => ho.1 hst
  have hout := not_outstanding hi hx hnot
  have hi' : CallbackInv (s.setWaiter w { x with state := .awaiting, waitFuture := .pending }) := by
    refine hi.setWaiter hx ?_ fun _ ho => absurd ho hnot
    rfl
  have hx' : (s.setWaiter w { x with state := .awaiting, waitFuture := .pending }).waiters w =
      some { x with state := .awaiting, waitFuture := .pending } := Function.update_self ..
  unfold State.addDoneCallback
  cases hf : r.future with
  | pending =>
    obtain ⟨hnd, hcb⟩ := hi'.registered _ r hr
    refine hi'.setRunner hr hf.symm id ⟨?_, fun v hv => ?_⟩
    · refine hnd.append (List.nodup_singleton w) ?_
      rw [List.disjoint_singleton]
      exact fun hmem => hout (.inr ⟨_, r, hr, hmem⟩)
    · rcases List.mem_append.mp hv with hv | hv
      · exact hcb v hv
      · rw [List.mem_singleton.mp hv]
        exact ⟨hf, _, hx', rfl, by simp [Unresolved]⟩
  | _ =>
    refine { hi' with ready := ?_, scheduled := ?_ }
    · refine hi'.ready.append (List.nodup_singleton w) ?_
      rw [List.disjoint_singleton]
      exact fun hmem => hout (.inl hmem)
    · intro v hv
      rcases List.mem_append.mp hv with hv | hv
      · exact hi'.scheduled v hv
      · rw [List.mem_singleton.mp hv]
        exact ⟨_, r, hx', hr, by simp [hf], by simp [Unresolved]⟩

theorem deliver_callbackInv (hi : CallbackInv s) (h : step s (.deliver w) = some t) :
    CallbackInv t := by
  obtain ⟨x, r, hx, hr, hmem, rfl⟩ := deliver_iff.mp h
  have hi' : CallbackInv { s with ready := s.ready.erase w } :=
    { hi with
      ready := hi.ready.erase w
      scheduled := fun v hv => hi.scheduled v (List.mem_of_mem_erase hv) }
  refine hi'.setWaiter hx rfl fun hout _ => absurd hout ?_
  -- It was scheduled once, and the future it waits on has no callbacks.
  rintro (hmem' | ⟨n, q, hq, hmem'⟩)
  · exact hi.ready.not_mem_erase hmem'
  · obtain ⟨hp, y, hy, hyf, -⟩ := (hi.registered n q hq).2 w hmem'
    obtain ⟨z, p, hz, hpr, hdone, -⟩ := hi.scheduled w hmem
    rw [hy] at hz
    cases hz
    rw [hyf, show s.runners n = some q from hq] at hpr
    cases hpr
    exact hdone hp

theorem step_callbackInv {a : Label V} (hi : CallbackInv s) (h : step s a = some t) :
    CallbackInv t := by
  cases a with
  | call ident =>
    cases h
    exact call_callbackInv hi ident
  | startRunner n o =>
    obtain ⟨r, hr, hst, rfl⟩ := startRunner_iff.mp h
    split
    · exact hi.setRunner hr rfl (by simp) (hi.registered n r hr)
    · exact advance_callbackInv hi hr (by simp [hst]) o
  | stepRunner n o =>
    obtain ⟨r, hr, hst, rfl⟩ := stepRunner_iff.mp h
    exact advance_callbackInv hi hr (by simp [hst]) o
  | cancelRunner n =>
    obtain ⟨r, hr, hst, rfl⟩ := cancelRunner_iff.mp h
    exact hi.setRunner hr rfl id (hi.registered n r hr)
  | discardTask n =>
    obtain ⟨r, -, -, -, rfl⟩ := discardTask_iff.mp h
    exact { hi with }
  | startWaiter w => exact startWaiter_callbackInv hi h
  | deliver w => exact deliver_callbackInv hi h
  | resumeWaiter w =>
    obtain ⟨x, o, hx, hst, hdone, rfl⟩ := resumeWaiter_iff.mp h
    exact hi.setWaiter hx rfl fun _ ho => absurd hdone (ho.2 o)
  | cancelWaiter w =>
    obtain ⟨x, hx, ⟨hst, rfl⟩ | ⟨-, rfl⟩⟩ := cancelWaiter_iff.mp h
    · exact hi.setWaiter hx rfl fun _ ho => absurd hst ho.1
    · refine hi.setWaiter hx rfl fun _ ho => ⟨by simp, ?_⟩
      have := ho.2
      cases hf : x.waitFuture <;> simp_all [Future.cancel]

/-- What a callback finds: it resolves a pending wait future, or leaves a cancelled one. -/
theorem CallbackInv.deliver (hi : CallbackInv s) (h : step s (.deliver w) = some t) :
    ∃ x r y, s.waiters w = some x ∧ s.runners x.future = some r ∧ t.waiters w = some y ∧
      (x.waitFuture = .cancelled ∧ y.waitFuture = .cancelled ∨
        x.waitFuture = .pending ∧ x.waitFuture.set r.future.result = .ok y.waitFuture) := by
  obtain ⟨x, r, hx, hr, hmem, rfl⟩ := deliver_iff.mp h
  refine ⟨x, r, _, hx, hr, Function.update_self .., ?_⟩
  obtain ⟨x', r', hx', hr', hp, ho⟩ := hi.scheduled w hmem
  rw [hx] at hx'
  cases hx'
  rw [hr] at hr'
  cases hr'
  obtain hp' | ⟨o, hdone, htk⟩ := hi.resolved _ r hr
  · exact absurd hp' hp
  cases hf : x.waitFuture with
  | pending =>
    right
    simp [setWaitFutureResult, hdone, Future.result, Future.set, htk]
  | done o => exact absurd hf (ho.2 o)
  | cancelled => exact .inl ⟨rfl, rfl⟩

end LibraryService.Reduced
