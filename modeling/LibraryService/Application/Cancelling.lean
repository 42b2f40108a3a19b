import LibraryService.General.Noninterference
import LibraryService.Application.Callbacks

/-!
# Cancelled waiters of `AsyncReducer`

A cancelled waiter is the only one that is affected: all else goes as in the same run without the
cancellations.
-/

open Function (update update_apply)
open PartialMap
open Transition (Run ofStep exec run_of_exec Unwinding)

namespace LibraryService.Reduced

variable {V : Type} {s t : State V} {C : List Nat} {n w : Nat}

/-! ## What is left without some waiters -/

def Runner.without (C : List Nat) (r : Runner V) : Runner V :=
  { r with callbacks := r.callbacks.filter (· ∉ C) }

/-- The state without the waiters in `C` and their callbacks. -/
def State.without (C : List Nat) (s : State V) : State V :=
  { s with
    runners := fun n => (s.runners n).map (Runner.without C)
    waiters := fun w => if w ∈ C then none else s.waiters w
    ready := s.ready.filter (· ∉ C) }

/-- The waiter whose own step it is, the loop's call of its callback included. -/
def Label.waiter : Label V → Option Nat
  | .startWaiter w | .deliver w | .resumeWaiter w | .cancelWaiter w => some w
  | _ => none

/-- It is no step of a waiter in `C`. -/
def Label.apart (C : List Nat) (a : Label V) : Bool := a.waiter.all (· ∉ C)

@[simp] theorem without_runners : (s.without C).runners n = (s.runners n).map (Runner.without C) :=
  rfl

theorem without_waiters (hw : w ∉ C) : (s.without C).waiters w = s.waiters w := if_neg hw

@[simp] theorem Runner.without_comp :
    (Runner.without C ∘ Runner.without C : Runner V → Runner V) = Runner.without C := by
  funext r
  simp [Runner.without]

@[simp] theorem State.without_without (s : State V) : (s.without C).without C = s.without C := by
  unfold State.without
  simp only [Option.map_map, List.filter_filter, Bool.and_self, State.mk.injEq, true_and, and_true]
  constructor
  · simp
  · funext w
    split <;> rfl

theorem mem_ready_without (hw : w ∉ C) : w ∈ (s.without C).ready ↔ w ∈ s.ready := by
  simp [State.without, hw]

/-! ## Steps apart from them -/

theorem setRunner_without (n : Nat) (r : Runner V) :
    (s.setRunner n r).without C = (s.without C).setRunner n (r.without C) := by
  simp only [State.setRunner, State.without, State.mk.injEq, true_and, and_true]
  funext m
  simp only [update_apply]
  split <;> rfl

theorem setWaiter_without (hw : w ∉ C) (x : Waiter V) :
    (s.setWaiter w x).without C = (s.without C).setWaiter w x := by
  simp only [State.setWaiter, State.without, State.mk.injEq, true_and, and_true]
  funext v
  by_cases hv : v = w
  · subst hv
    simp [hw]
  · simp [hv]

theorem setWaiter_hidden (hw : w ∈ C) (x : Waiter V) :
    (s.setWaiter w x).without C = s.without C := by
  simp only [State.setWaiter, State.without, State.mk.injEq, true_and, and_true]
  funext v
  by_cases hv : v = w
  · subst hv
    simp [hw]
  · simp [hv]

theorem eraseReady_without : ({ s with ready := s.ready.erase w } : State V).without C =
    { s.without C with ready := (s.without C).ready.erase w } := by
  simp [State.without, List.erase_filter]

theorem settle_without (r : Runner V) (o : Outcome V) : (r.without C).settle o =
    ((r.settle o).1.without C, (r.settle o).2.filter (· ∉ C)) := by
  unfold Runner.settle
  split
  · simp only [Runner.without]
    split <;> simp
  · simp

theorem finish_without (n : Nat) (r : Runner V) (o : Outcome V) :
    (s.finish n r o).without C = (s.without C).finish n (r.without C) o := by
  unfold State.finish
  rw [setRunner_without, settle_without]
  simp [State.without, Runner.without]

theorem advance_without (n : Nat) (r : Runner V) (o : Option (Outcome V)) :
    (s.advance n r o).without C = (s.without C).advance n (r.without C) o := by
  cases o with
  | none => exact setRunner_without n _
  | some o => exact finish_without n _ o

theorem addDoneCallback_without (hw : w ∉ C) (r : Runner V) :
    (s.addDoneCallback n r w).without C = (s.without C).addDoneCallback n (r.without C) w := by
  unfold State.addDoneCallback
  cases hf : r.future with
  | pending =>
    rw [setRunner_without]
    simp [Runner.without, hf, hw]
  | _ => simp [State.without, Runner.without, hf, hw]

theorem addDoneCallback_hidden {r : Runner V} (hw : w ∈ C) (hr : s.runners n = some r) :
    (s.addDoneCallback n r w).without C = s.without C := by
  unfold State.addDoneCallback
  cases hf : r.future with
  | pending =>
    rw [setRunner_without]
    simp only [State.setRunner, State.without, State.mk.injEq, true_and, and_true]
    funext m
    by_cases hm : m = n
    · subst hm
      simp [hr, hf, Runner.without, hw]
    · simp [hm]
  | _ => simp [State.without, hw]

theorem call_without (ident : String) :
    ((s.without C).call ident).without C = (s.call ident).without C := by
  have hwaiters : ∀ x : Waiter V,
      (fun v => if v ∈ C then none else update (s.without C).waiters s.calls (some x) v) =
        fun v => if v ∈ C then none else update s.waiters s.calls (some x) v := by
    intro x
    funext v
    by_cases hv : v ∈ C
    · simp [hv]
    · simp [hv, update_apply, without_waiters]
  cases hk : s.running ident with
  | some m =>
    have hk' : (s.without C).running ident = some m := hk
    rw [call_join hk, call_join hk']
    simp only [State.without, State.mk.injEq, true_and] at hwaiters ⊢
    refine ⟨?_, hwaiters _, ?_⟩
    · simp
    · simp
  | none =>
    have hk' : (s.without C).running ident = none := hk
    rw [call_create hk, call_create hk']
    simp only [State.without, State.mk.injEq, true_and] at hwaiters ⊢
    refine ⟨?_, hwaiters _, ?_⟩
    · funext m
      simp only [update_apply]
      split
      · rfl
      · simp
    · simp

theorem step_hidden {a : Label V} (ha : a.apart C = false) (h : step s a = some t) :
    t.without C = s.without C := by
  have hmem : ∀ w, a.waiter = some w → w ∈ C := by
    intro w hw
    simpa [Label.apart, hw] using ha
  cases a with
  | startWaiter w =>
    have hw := hmem w rfl
    obtain ⟨x, r, hx, hr, -, rfl⟩ := startWaiter_iff.mp h
    rw [addDoneCallback_setWaiter, setWaiter_hidden hw, addDoneCallback_hidden hw hr]
  | deliver w =>
    have hw := hmem w rfl
    obtain ⟨x, r, -, -, -, rfl⟩ := deliver_iff.mp h
    rw [setWaiter_hidden hw]
    simp [State.without, ← List.erase_filter, hw]
  | resumeWaiter w =>
    obtain ⟨x, o, -, -, -, rfl⟩ := resumeWaiter_iff.mp h
    exact setWaiter_hidden (hmem w rfl) _
  | cancelWaiter w =>
    obtain ⟨x, -, ⟨-, rfl⟩ | ⟨-, rfl⟩⟩ := cancelWaiter_iff.mp h
    · exact setWaiter_hidden (hmem w rfl) _
    · exact setWaiter_hidden (hmem w rfl) _
  | _ => simp [Label.apart, Label.waiter] at ha

theorem step_without {a : Label V} (ha : a.apart C = true) (hcall : ∀ ident, a ≠ .call ident) :
    step (s.without C) a = (step s a).map (State.without C) := by
  have hnot : ∀ w, a.waiter = some w → w ∉ C := by
    intro w hw
    simpa [Label.apart, hw] using ha
  cases a with
  | call ident => exact absurd rfl (hcall ident)
  | startRunner n o =>
    cases hr : s.runners n with
    | none => simp [step, hr]
    | some r =>
      by_cases hst : r.state = .created
      · by_cases hc : r.cancelRequested = true
        · simp [step, hr, hst, hc, Runner.without, State.abort, setRunner_without]
        · simp [step, hr, hst, hc, Runner.without, advance_without]
      · simp [step, hr, hst, Runner.without]
  | stepRunner n o =>
    cases hr : s.runners n with
    | none => simp [step, hr]
    | some r => by_cases hst : r.state = .awaiting <;> simp [step, hr, hst, Runner.without, advance_without]
  | cancelRunner n =>
    cases hr : s.runners n with
    | none => simp [step, hr]
    | some r => by_cases hst : r.state = .finished <;> simp [step, hr, hst, Runner.without, setRunner_without]
  | discardTask n =>
    cases hr : s.runners n with
    | none => simp [step, hr]
    | some r =>
      by_cases hst : r.state = .finished ∧ n ∈ s.tasks
      · simp [step, hr, hst, Runner.without, State.without]
      · simp [step, hr, hst, Runner.without, State.without]
  | startWaiter w =>
    have hw := hnot w rfl
    cases hx : s.waiters w with
    | none => simp [step, without_waiters hw, hx]
    | some x =>
      cases hr : s.runners x.future with
      | none => simp [step, without_waiters hw, hx, hr]
      | some r =>
        cases hst : x.state <;> simp [step, without_waiters hw, hx, hr, hst, addDoneCallback_setWaiter,
          setWaiter_without hw, addDoneCallback_without hw]
  | deliver w =>
    have hw := hnot w rfl
    cases hx : s.waiters w with
    | none => simp [step, without_waiters hw, hx]
    | some x =>
      cases hr : s.runners x.future with
      | none => simp [step, without_waiters hw, hx, hr]
      | some r =>
        by_cases hmem : w ∈ s.ready
        · simp [step, without_waiters hw, hx, hr, mem_ready_without hw, hmem, setWaiter_without hw,
            eraseReady_without, Runner.without]
        · simp [step, without_waiters hw, hx, mem_ready_without hw, hmem]
  | resumeWaiter w =>
    have hw := hnot w rfl
    cases hx : s.waiters w with
    | none => simp [step, without_waiters hw, hx]
    | some x =>
      cases hst : x.state <;> cases hf : x.waitFuture <;>
        simp [step, without_waiters hw, hx, hst, hf, setWaiter_without hw]
  | cancelWaiter w =>
    have hw := hnot w rfl
    cases hx : s.waiters w with
    | none => simp [step, without_waiters hw, hx]
    | some x =>
      cases hst : x.state <;> simp [step, without_waiters hw, hx, hst, setWaiter_without hw]

theorem unwinding (C : List Nat) :
    Unwinding (step (V := V)) (Label.apart C) (State.without C) where
  hidden _ _ _ := step_hidden
  consistent s x a ha hobs := by
    have hself : ∀ s : State V,
        (step (s.without C) a).map (State.without C) = (step s a).map (State.without C) := by
      intro s
      cases a with
      | call ident => exact congrArg some (call_without ident)
      | _ =>
        rw [step_without ha (by simp), Option.map_map]
        congr 1
        funext u
        simp
    rw [← hself s, ← hself x, hobs]

/-! ## The run without the cancellations -/

def Label.cancels : Label V → Option Nat
  | .cancelWaiter w => some w
  | _ => none

/-- The callers that are cancelled in a run. -/
def cancelled (l : List (Label V)) : List Nat := l.filterMap Label.cancels

def uncancelled (l : List (Label V)) : List (Label V) := l.filter (·.cancels.isNone)

/-- No caller is cancelled in `k`, and all but the callers cancelled in `l` do what they do in `l`. -/
def SameUncancelled (l k : List (Label V)) : Prop :=
  cancelled k = [] ∧ k.filter (Label.apart (cancelled l)) = l.filter (Label.apart (cancelled l))

theorem uncancelled_same (l : List (Label V)) : SameUncancelled l (uncancelled l) := by
  constructor
  · simp [cancelled, uncancelled, List.filterMap_eq_nil_iff]
  · unfold uncancelled
    rw [List.filter_filter]
    apply List.filter_congr
    intro a ha
    cases hc : a.cancels with
    | none => simp
    | some w =>
      -- A cancellation is the own step of a cancelled waiter.
      have hw : w ∈ cancelled l := List.mem_filterMap.mpr ⟨a, ha, hc⟩
      have : a.waiter = some w := by cases a <;> simp_all [Label.cancels, Label.waiter]
      simp [Label.apart, this, hw]

/-- The same waiters, but those that are cancelled in `f` are in any state in `g`. -/
def Spares (f g : Nat → Option (Waiter V)) : Prop := ∀ w, g w = f w ∨
  ∃ x y, f w = some x ∧ g w = some y ∧ x.state = .cancelled ∧ y.future = x.future

theorem Spares.write {f g : Nat → Option (Waiter V)} {x y : Waiter V} (h : Spares f g)
    (hst : x.state = .cancelled) (hf : y.future = x.future) :
    Spares (update f w (some x)) (update g w (some y)) := by
  intro v
  by_cases hv : v = w
  · subst hv
    simp [hst, hf]
  · simpa [hv] using h v

theorem Spares.cancel {f g : Nat → Option (Waiter V)} {x x' : Waiter V} (h : Spares f g)
    (hx : f w = some x) (hst : x'.state = .cancelled) (hf : x'.future = x.future) :
    Spares (update f w (some x')) g := by
  intro v
  by_cases hv : v = w
  · subst hv
    rcases h v with hw | ⟨y, z, hy, hz, -, hzf⟩
    · exact .inr ⟨x', x, Function.update_self .., hw.trans hx, hst, hf.symm⟩
    · rw [hx] at hy
      cases hy
      exact .inr ⟨x', z, Function.update_self .., hz, hst, hzf.trans hf.symm⟩
  · simpa [hv] using h v

theorem Spares.update {f g : Nat → Option (Waiter V)} (h : Spares f g) (w : Nat)
    (x : Option (Waiter V)) : Spares (Function.update f w x) (Function.update g w x) := by
  intro v
  by_cases hv : v = w
  · subst hv
    simp
  · simpa [hv] using h v

theorem Spares.same {f g : Nat → Option (Waiter V)} {x : Waiter V} (h : Spares f g)
    (hx : f w = some x) (hst : x.state ≠ .cancelled) : g w = some x := by
  rcases h w with hw | ⟨y, z, hy, -, hyst, -⟩
  · exact hw.trans hx
  · rw [hx] at hy
    cases hy
    exact absurd hyst hst

theorem step_spares {g : Nat → Option (Waiter V)} {a : Label V} (hg : Spares s.waiters g)
    (h : step s a = some t) (ha : a.cancels = none) :
    ∃ g', step { s with waiters := g } a = some { t with waiters := g' } ∧ Spares t.waiters g' := by
  have hadvance : ∀ n r o, ({ s with waiters := g } : State V).advance n r o =
      { s.advance n r o with waiters := g } ∧ (s.advance n r o).waiters = s.waiters := by
    intro n r o
    cases o <;> exact ⟨rfl, rfl⟩
  cases a with
  | call ident =>
    cases h
    cases hk : s.running ident with
    | some m =>
      have hk' : ({ s with waiters := g } : State V).running ident = some m := hk
      refine ⟨update g s.calls (some ⟨ident, m, .unstarted, .pending⟩), ?_, ?_⟩
      · rw [call_join hk, step, call_join hk']
      · rw [call_join hk]
        exact hg.update _ _
    | none =>
      have hk' : ({ s with waiters := g } : State V).running ident = none := hk
      refine ⟨update g s.calls (some ⟨ident, s.calls, .unstarted, .pending⟩), ?_, ?_⟩
      · rw [call_create hk, step, call_create hk']
      · rw [call_create hk]
        exact hg.update _ _
  | startRunner n o =>
    obtain ⟨r, hr, hst, rfl⟩ := startRunner_iff.mp h
    obtain ⟨hadv, hw⟩ := hadvance n r o
    refine ⟨g, startRunner_iff.mpr ⟨r, hr, hst, ?_⟩, ?_⟩
    · split
      · rfl
      · exact hadv
    · split
      · exact hg
      · rwa [hw]
  | stepRunner n o =>
    obtain ⟨r, hr, hst, rfl⟩ := stepRunner_iff.mp h
    obtain ⟨hadv, hw⟩ := hadvance n r o
    exact ⟨g, stepRunner_iff.mpr ⟨r, hr, hst, hadv⟩, by rwa [hw]⟩
  | cancelRunner n =>
    obtain ⟨r, hr, hst, rfl⟩ := cancelRunner_iff.mp h
    exact ⟨g, cancelRunner_iff.mpr ⟨r, hr, hst, rfl⟩, hg⟩
  | discardTask n =>
    obtain ⟨r, hr, hst, hn, rfl⟩ := discardTask_iff.mp h
    exact ⟨g, discardTask_iff.mpr ⟨r, hr, hst, hn, rfl⟩, hg⟩
  | startWaiter w =>
    obtain ⟨x, r, hx, hr, hst, rfl⟩ := startWaiter_iff.mp h
    have hx' := hg.same hx (by simp [hst])
    refine ⟨update g w (some { x with state := .awaiting, waitFuture := .pending }),
      startWaiter_iff.mpr ⟨x, r, hx', hr, hst, ?_⟩, ?_⟩
    · unfold State.addDoneCallback
      cases r.future <;> rfl
    · unfold State.addDoneCallback
      cases r.future <;> exact hg.update _ _
  | deliver w =>
    obtain ⟨x, r, hx, hr, hmem, rfl⟩ := deliver_iff.mp h
    rcases hg w with hw | ⟨y, z, hy, hz, hyst, hf⟩
    · refine ⟨_, deliver_iff.mpr ⟨x, r, hw.trans hx, hr, hmem, rfl⟩, ?_⟩
      exact hg.update _ _
    · rw [hx] at hy
      cases hy
      exact ⟨_, deliver_iff.mpr ⟨z, r, hz, hf ▸ hr, hmem, rfl⟩, hg.write hyst hf⟩
  | resumeWaiter w =>
    obtain ⟨x, o, hx, hst, hdone, rfl⟩ := resumeWaiter_iff.mp h
    have hx' := hg.same hx (by simp [hst])
    exact ⟨_, resumeWaiter_iff.mpr ⟨x, o, hx', hst, hdone, rfl⟩, hg.update _ _⟩
  | cancelWaiter w => simp [Label.cancels] at ha

theorem cancel_spares {g : Nat → Option (Waiter V)} {a : Label V} (hg : Spares s.waiters g)
    (h : step s a = some t) (ha : a.cancels ≠ none) :
    t = { s with waiters := t.waiters } ∧ Spares t.waiters g := by
  cases a with
  | cancelWaiter w =>
    obtain ⟨x, hx, ⟨-, rfl⟩ | ⟨-, rfl⟩⟩ := cancelWaiter_iff.mp h
    · exact ⟨rfl, hg.cancel hx rfl rfl⟩
    · exact ⟨rfl, hg.cancel hx rfl rfl⟩
  | _ => exact absurd rfl ha

theorem run_uncancelled {l : List (Label V)} (h : Run (ofStep step) s l t) :
    ∃ u, Run (ofStep step) s (uncancelled l) u := by
  have hsim : ∃ u, Run (ofStep step) s (uncancelled l) u ∧
      ∃ g, u = { t with waiters := g } ∧ Spares t.waiters g := by
    refine h.filter (S := fun s x => ∃ g, x = { s with waiters := g } ∧ Spares s.waiters g) ?_ ?_
      ⟨s.waiters, rfl, fun w => .inl rfl⟩
    · rintro s a t x ⟨g, rfl, hg⟩ hstep ha
      obtain ⟨ht, hg'⟩ := cancel_spares hg hstep (by simpa [Option.isSome_iff_ne_none] using ha)
      exact ⟨g, by rw [ht], hg'⟩
    · rintro s a t x ⟨g, rfl, hg⟩ hstep ha
      obtain ⟨g', hstep', hg'⟩ := step_spares hg hstep (by simpa using ha)
      exact ⟨_, hstep', g', rfl, hg'⟩
  obtain ⟨u, hu, -⟩ := hsim
  exact ⟨u, hu⟩

/-! ## What a cancellation does to the others -/

/-- The future of a run is never cancelled, and a callback that calls `set_result` or
`set_exception` finds a pending wait future. -/
structure Resolves (s : State V) : Prop where
  future : ∀ n r, s.runners n = some r → r.future ≠ .cancelled
  callback : ∀ w t, step s (.deliver w) = some t → ∃ x r y, s.waiters w = some x ∧
    s.runners x.future = some r ∧ t.waiters w = some y ∧
      (x.waitFuture = .cancelled ∧ y.waitFuture = .cancelled ∨
        x.waitFuture = .pending ∧ x.waitFuture.set r.future.result = .ok y.waitFuture)

/-- Between `s` and `t` only the waiters in `C` differ. -/
structure OnlyDiffer (C : List Nat) (s t : State V) : Prop where
  coros : s.coros = t.coros
  /-- Keys, tasks and runners are the same, and so are the callbacks of the other waiters. -/
  rest : s.without C = t.without C
  waiters : ∀ w ∉ C, s.waiters w = t.waiters w
  /-- Whatever can be done next in the one can be done in the other. -/
  enabled : ∀ a : Label V, a.apart C = true → (step s a).isSome = (step t a).isSome

theorem onlyDiffer_of_without (h : s.without C = t.without C) : OnlyDiffer C s t where
  coros := congrArg (fun u => u.coros) h
  rest := h
  waiters w hw := by rw [← without_waiters hw, h, without_waiters hw]
  enabled _ ha := (unwinding C).enabled h ha

theorem CallbackInv.resolves (hi : CallbackInv s) : Resolves s where
  future n r hr := by
    rcases hi.resolved n r hr with hp | ⟨o, ho, -⟩
    · simp [hp]
    · simp [ho]
  callback w t h := hi.deliver h

/-- **A cancelled waiter is the only one that is affected**: any run is a run without its
cancellations, and however the cancelled callers go on in that, the states reached differ in these
callers' waiters only. -/
theorem cancelling_affects_no_other {l : List (Label V)} (h : Run (ofStep step) State.init l s) :
    Resolves s ∧ (∃ t, Run (ofStep step) State.init (uncancelled l) t) ∧
      SameUncancelled l (uncancelled l) ∧
      ∀ k t, SameUncancelled l k → Run (ofStep step) State.init k t →
        OnlyDiffer (cancelled l) s t := by
  have hi : CallbackInv s := h.invariant init_callbackInv fun _ _ _ => step_callbackInv
  refine ⟨hi.resolves, run_uncancelled h, uncancelled_same l, fun k t hk ht => ?_⟩
  exact onlyDiffer_of_without ((unwinding _).noninterference h ht hk.2.symm)

/-- The creator is cancelled before its waiter starts, another caller while its run goes on, and a
third between completion and callback. -/
def cancellingRun : List (Label Nat) :=
  [.call "k", .call "k", .startWaiter 1, .startRunner 0 none, .cancelWaiter 0, .call "k",
    .startWaiter 2, .call "k", .startWaiter 3, .cancelWaiter 1, .stepRunner 0 (some (.ok 7)),
    .cancelWaiter 2, .deliver 1, .deliver 3, .deliver 2, .resumeWaiter 3]

theorem cancelling_affects_no_other_three :
    ∃ s, exec step State.init cancellingRun = some s ∧ cancelled cancellingRun = [0, 1, 2] ∧
      Resolves s ∧ (∃ t, Run (ofStep step) State.init (uncancelled cancellingRun) t) ∧
      SameUncancelled cancellingRun (uncancelled cancellingRun) ∧
      ∀ k t, SameUncancelled cancellingRun k → Run (ofStep step) State.init k t →
        OnlyDiffer (cancelled cancellingRun) s t := by
  obtain ⟨s, hs⟩ := Option.isSome_iff_exists.mp
    (by decide : (exec step State.init cancellingRun).isSome = true)
  exact ⟨s, hs, rfl, cancelling_affects_no_other (run_of_exec hs)⟩

end LibraryService.Reduced
