import LibraryService.General.PartialMap
import LibraryService.General.Transition
import LibraryService.Application.Reduced
import Mathlib.Data.Option.Basic

/-!
# Runs of `AsyncReducer`

What one step can do, the invariant it keeps, and what follows for every run.
-/

open Function (update update_apply)
open PartialMap

namespace LibraryService.Reduced

variable {V : Type} {s t : State V}

/-! ## What a step does -/

theorem call_join {ident : String} {n : Nat} (h : s.running ident = some n) :
    s.call ident = { s with
      calls := s.calls + 1
      waiters := update s.waiters s.calls (some ⟨ident, n, .unstarted, .pending⟩)
      coros := update s.coros s.calls (some ⟨0, true, none⟩) } := by
  simp [State.call, getOrCreateFuture, h]

theorem call_create {ident : String} (h : s.running ident = none) :
    s.call ident = { s with
      calls := s.calls + 1
      waiters := update s.waiters s.calls (some ⟨ident, s.calls, .unstarted, .pending⟩)
      running := update s.running ident (some s.calls)
      tasks := s.calls :: s.tasks
      coros := update s.coros s.calls (some ⟨0, false, none⟩)
      runners := update s.runners s.calls
        (some ⟨ident, s.calls, .created, false, .pending, []⟩) } := by
  simp [State.call, getOrCreateFuture, h]

theorem startRunner_iff {n : Nat} {o : Option (Outcome V)} :
    step s (.startRunner n o) = some t ↔ ∃ r, s.runners n = some r ∧ r.state = .created ∧
      (if r.cancelRequested then s.abort n r else s.advance n r o) = t := by
  simp [step, Option.bind_eq_some_iff, Option.guard_eq_some']

theorem stepRunner_iff {n : Nat} {o : Option (Outcome V)} :
    step s (.stepRunner n o) = some t ↔
      ∃ r, s.runners n = some r ∧ r.state = .awaiting ∧ s.advance n r o = t := by
  simp [step, Option.bind_eq_some_iff, Option.guard_eq_some']

theorem cancelRunner_iff {n : Nat} :
    step s (.cancelRunner n) = some t ↔ ∃ r, s.runners n = some r ∧ r.state ≠ .finished ∧
      s.setRunner n { r with cancelRequested := true } = t := by
  simp [step, Option.bind_eq_some_iff, Option.guard_eq_some']

theorem discardTask_iff {n : Nat} :
    step s (.discardTask n) = some t ↔ ∃ r, s.runners n = some r ∧ r.state = .finished ∧
      n ∈ s.tasks ∧ { s with tasks := s.tasks.erase n } = t := by
  simp [step, Option.bind_eq_some_iff, Option.guard_eq_some', and_assoc]

theorem startWaiter_iff {w : Nat} :
    step s (.startWaiter w) = some t ↔ ∃ x r, s.waiters w = some x ∧ s.runners x.future = some r ∧
      x.state = .unstarted ∧
      (s.setWaiter w { x with state := .awaiting, waitFuture := .pending }).addDoneCallback
        x.future r w = t := by
  simp only [step, Option.bind_eq_bind, Option.bind_eq_some_iff]
  constructor
  · rintro ⟨x, hx, r, hr, h⟩
    split at h
    · rename_i hs
      exact ⟨x, r, hx, hr, hs, Option.some.inj h⟩
    · cases h
  · rintro ⟨x, r, hx, hr, hs, rfl⟩
    exact ⟨x, hx, r, hr, by simp [hs]⟩

theorem deliver_iff {w : Nat} :
    step s (.deliver w) = some t ↔ ∃ x r, s.waiters w = some x ∧ s.runners x.future = some r ∧
      w ∈ s.ready ∧
      { s with ready := s.ready.erase w }.setWaiter w
        { x with waitFuture := setWaitFutureResult r.future x.waitFuture } = t := by
  simp [step, Option.bind_eq_some_iff, Option.guard_eq_some']

theorem resumeWaiter_iff {w : Nat} :
    step s (.resumeWaiter w) = some t ↔ ∃ x o, s.waiters w = some x ∧ x.state = .awaiting ∧
      x.waitFuture = .done o ∧ s.setWaiter w { x with state := .returned o } = t := by
  simp only [step, Option.bind_eq_bind, Option.bind_eq_some_iff]
  constructor
  · rintro ⟨x, hx, h⟩
    split at h
    · rename_i o hs hf
      exact ⟨x, o, hx, hs, hf, Option.some.inj h⟩
    · cases h
  · rintro ⟨x, o, hx, hs, hf, rfl⟩
    exact ⟨x, hx, by simp [hs, hf]⟩

theorem cancelWaiter_iff {w : Nat} :
    step s (.cancelWaiter w) = some t ↔ ∃ x, s.waiters w = some x ∧
      ((x.state = .unstarted ∧ s.setWaiter w { x with state := .cancelled } = t) ∨
        (x.state = .awaiting ∧ s.setWaiter w
          { x with state := .cancelled, waitFuture := x.waitFuture.cancel } = t)) := by
  simp only [step, Option.bind_eq_bind, Option.bind_eq_some_iff]
  constructor
  · rintro ⟨x, hx, h⟩
    split at h
    · rename_i hs
      exact ⟨x, hx, .inl ⟨hs, Option.some.inj h⟩⟩
    · rename_i hs
      exact ⟨x, hx, .inr ⟨hs, Option.some.inj h⟩⟩
    · cases h
  · rintro ⟨x, hx, ⟨hs, rfl⟩ | ⟨hs, rfl⟩⟩ <;> exact ⟨x, hx, by simp [hs]⟩

/-! ## The invariant -/

/-- Where a waiter stands, next to the future it joined. -/
def Waits (s : State V) (w : Nat) (x : Waiter V) (f : Future V) : Prop :=
  match x.state with
  | .awaiting =>
    (∃ r, s.runners x.future = some r ∧ f = .pending ∧ x.waitFuture = .pending ∧ w ∈ r.callbacks) ∨
      ∃ o, f = .done o ∧ (x.waitFuture = .pending ∧ w ∈ s.ready ∨ x.waitFuture = .done o)
  | .returned o => f = .done o
  | _ => True

theorem Waits.mono {w : Nat} {x : Waiter V} {f : Future V} (h : Waits s w x f)
    (hcall : ∀ q, s.runners x.future = some q → w ∈ q.callbacks →
      ∃ q', t.runners x.future = some q' ∧ w ∈ q'.callbacks)
    (hready : w ∈ s.ready → w ∈ t.ready) : Waits t w x f := by
  cases hst : x.state <;> simp only [Waits, hst] at h ⊢
  · rcases h with ⟨q, hq, hf, hx, hmem⟩ | ⟨o, hf, ⟨hx, hmem⟩ | hx⟩
    · obtain ⟨q', hq', hmem'⟩ := hcall q hq hmem
      exact .inl ⟨q', hq', hf, hx, hmem'⟩
    · exact .inr ⟨o, hf, .inl ⟨hx, hready hmem⟩⟩
    · exact .inr ⟨o, hf, .inr hx⟩
  · exact h

structure Inv (s : State V) : Prop where
  fresh : ∀ n, s.calls ≤ n → s.coros n = none ∧ s.runners n = none ∧ s.waiters n = none
  known : ∀ n < s.calls, (∃ c, s.coros n = some c) ∧ ∃ x, s.waiters n = some x
  key : ∀ i n, s.running i = some n → ∃ r, s.runners n = some r ∧ r.ident = i ∧ r.state ≠ .finished
  live : ∀ n r, s.runners n = some r → r.state ≠ .finished →
    s.running r.ident = some n ∧ r.future = .pending ∧ n ∈ s.tasks
  created : ∀ n r, s.runners n = some r → r.state = .created → r.cancelRequested = false
  ended : ∀ n r, s.runners n = some r → r.state = .finished →
    ∃ o c, r.future = .done o ∧ taken o = true ∧ s.coros n = some c ∧ c.outcome = some o
  coro : ∀ n r, s.runners n = some r → r.coro = n ∧ ∃ c, s.coros n = some c ∧ c.closed = false
  closed : ∀ n c, s.coros n = some c → s.runners n = none → c.closed = true ∧ c.steps = 0
  callback : ∀ n r w, s.runners n = some r → w ∈ r.callbacks →
    ∃ x, s.waiters w = some x ∧ x.future = n
  scheduled : ∀ w ∈ s.ready, ∃ x r o, s.waiters w = some x ∧ s.runners x.future = some r ∧
    r.future = .done o
  waiter : ∀ w x, s.waiters w = some x →
    ∃ r, s.runners x.future = some r ∧ r.ident = x.ident ∧ Waits s w x r.future

theorem init_inv : Inv (State.init : State V) := by
  refine ⟨?_, ?_, ?_, ?_, ?_, ?_, ?_, ?_, ?_, ?_, ?_⟩ <;> intros <;> simp_all [State.init]

/-! ## Each step keeps it -/

theorem update_known {α : Type} {f : Nat → Option α} {c m : Nat} {y : α}
    (h : m < c → ∃ x, f m = some x) (hm : m < c + 1) : ∃ x, update f c (some y) m = some x := by
  rcases Nat.lt_succ_iff_lt_or_eq.mp hm with hm | rfl
  · exact update_used (h hm)
  · exact ⟨y, Function.update_self ..⟩

theorem call_fresh (ident : String)
    (h : ∀ n, s.calls ≤ n → s.coros n = none ∧ s.runners n = none ∧ s.waiters n = none) :
    ∀ n, (s.call ident).calls ≤ n → (s.call ident).coros n = none ∧
      (s.call ident).runners n = none ∧ (s.call ident).waiters n = none := by
  intro n hn
  cases hk : s.running ident with
  | none =>
    rw [call_create hk] at hn ⊢
    have hne : n ≠ s.calls := by simp at hn; omega
    simpa [update_apply, hne] using h n (by simp at hn; omega)
  | some m =>
    rw [call_join hk] at hn ⊢
    have hne : n ≠ s.calls := by simp at hn; omega
    simpa [update_apply, hne] using h n (by simp at hn; omega)

theorem call_join_inv {ident : String} {n : Nat} (hi : Inv s) (h : s.running ident = some n) :
    Inv (s.call ident) := by
  obtain ⟨r, hr, hid, -⟩ := hi.key ident n h
  obtain ⟨hc, hrun, hw⟩ := hi.fresh s.calls (Nat.le_refl _)
  have hfresh := call_fresh ident hi.fresh
  rw [call_join h] at hfresh ⊢
  constructor
  case fresh => exact hfresh
  case known =>
    intro m hm
    exact ⟨update_known (fun h => (hi.known m h).1) hm, update_known (fun h => (hi.known m h).2) hm⟩
  case key => exact hi.key
  case live => exact hi.live
  case created => exact hi.created
  case ended =>
    intro m q hq hfin
    obtain ⟨o, c, ho, htk, hc', hco⟩ := hi.ended m q hq hfin
    exact ⟨o, c, ho, htk, update_fresh hc hc', hco⟩
  case coro =>
    intro m q hq
    obtain ⟨hcoro, c, hc', hcl⟩ := hi.coro m q hq
    exact ⟨hcoro, c, update_fresh hc hc', hcl⟩
  case closed =>
    intro m c hm hnone
    rcases update_eq_some hm with ⟨-, rfl⟩ | ⟨-, hm⟩
    · exact ⟨rfl, rfl⟩
    · exact hi.closed m c hm hnone
  case callback =>
    intro m q w hq hmem
    obtain ⟨x, hx, hxf⟩ := hi.callback m q w hq hmem
    exact ⟨x, update_fresh hw hx, hxf⟩
  case scheduled =>
    intro w hmem
    obtain ⟨x, q, o, hx, hq⟩ := hi.scheduled w hmem
    exact ⟨x, q, o, update_fresh hw hx, hq⟩
  case waiter =>
    intro w x hx
    rcases update_eq_some hx with ⟨-, rfl⟩ | ⟨-, hx⟩
    · exact ⟨r, hr, hid, trivial⟩
    · exact hi.waiter w x hx

theorem call_create_inv {ident : String} (hi : Inv s) (h : s.running ident = none) :
    Inv (s.call ident) := by
  -- No map has the number of the call yet, so every old entry stays.
  obtain ⟨hc, hrun, hw⟩ := hi.fresh s.calls (Nat.le_refl _)
  have hfresh := call_fresh ident hi.fresh
  rw [call_create h] at hfresh ⊢
  constructor
  case fresh => exact hfresh
  case known =>
    intro m hm
    exact ⟨update_known (fun h => (hi.known m h).1) hm, update_known (fun h => (hi.known m h).2) hm⟩
  case key =>
    intro i n hn
    rcases update_eq_some hn with ⟨hid, rfl⟩ | ⟨-, hn⟩
    · exact ⟨_, Function.update_self .., hid.symm, by simp⟩
    · obtain ⟨r, hr, hrest⟩ := hi.key i n hn
      exact ⟨r, update_fresh hrun hr, hrest⟩
  case live =>
    intro n r hr hfin
    rcases update_eq_some hr with ⟨rfl, rfl⟩ | ⟨-, hr⟩
    · exact ⟨Function.update_self .., rfl, List.mem_cons_self⟩
    · obtain ⟨hkey, hpend, htask⟩ := hi.live n r hr hfin
      exact ⟨update_fresh h hkey, hpend, List.mem_cons_of_mem _ htask⟩
  case created =>
    intro n r hr hst
    rcases update_eq_some hr with ⟨-, rfl⟩ | ⟨-, hr⟩
    · rfl
    · exact hi.created n r hr hst
  case ended =>
    intro n r hr hfin
    rcases update_eq_some hr with ⟨-, rfl⟩ | ⟨-, hr⟩
    · cases hfin
    · obtain ⟨o, c, ho, htk, hc', hco⟩ := hi.ended n r hr hfin
      exact ⟨o, c, ho, htk, update_fresh hc hc', hco⟩
  case coro =>
    intro n r hr
    rcases update_eq_some hr with ⟨rfl, rfl⟩ | ⟨-, hr⟩
    · exact ⟨rfl, _, Function.update_self .., rfl⟩
    · obtain ⟨hcoro, c, hc', hcl⟩ := hi.coro n r hr
      exact ⟨hcoro, c, update_fresh hc hc', hcl⟩
  case closed =>
    intro n c hn hnone
    obtain ⟨hne, hnone⟩ := update_eq_none hnone
    rcases update_eq_some hn with ⟨rfl, -⟩ | ⟨-, hn⟩
    · exact absurd rfl hne
    · exact hi.closed n c hn hnone
  case callback =>
    intro n r w hr hmem
    rcases update_eq_some hr with ⟨-, rfl⟩ | ⟨-, hr⟩
    · simp at hmem
    · obtain ⟨x, hx, hxf⟩ := hi.callback n r w hr hmem
      exact ⟨x, update_fresh hw hx, hxf⟩
  case scheduled =>
    intro w hmem
    obtain ⟨x, r, o, hx, hr, ho⟩ := hi.scheduled w hmem
    exact ⟨x, r, o, update_fresh hw hx, update_fresh hrun hr, ho⟩
  case waiter =>
    intro w x hx
    rcases update_eq_some hx with ⟨-, rfl⟩ | ⟨-, hx⟩
    · exact ⟨_, Function.update_self .., rfl, trivial⟩
    · obtain ⟨r, hr, hid, hwait⟩ := hi.waiter w x hx
      exact ⟨r, update_fresh hrun hr, hid,
        hwait.mono (fun q hq hmem => ⟨q, update_fresh hrun hq, hmem⟩) id⟩

theorem Inv.setWaiter {w : Nat} {x x' : Waiter V} (hi : Inv s) (hx : s.waiters w = some x)
    (hf : x'.future = x.future) (hid : x'.ident = x.ident)
    (hw : ∀ r, s.runners x.future = some r → Waits s w x r.future → Waits s w x' r.future) :
    Inv (s.setWaiter w x') := by
  have hfut : ∀ z, s.waiters w = some z → x'.future = z.future := by
    intro z hz
    obtain rfl := Option.some.inj (hx.symm.trans hz)
    exact hf
  unfold State.setWaiter
  refine { hi with fresh := ?_, known := ?_, callback := ?_, scheduled := ?_, waiter := ?_ }
  · intro n hn
    obtain ⟨hc, hr, hnone⟩ := hi.fresh n hn
    exact ⟨hc, hr, update_unused hx hnone⟩
  · intro n hn
    obtain ⟨hc, hz⟩ := hi.known n hn
    exact ⟨hc, update_used hz⟩
  · intro n r v hr hmem
    exact exists_update (hi.callback n r v hr hmem) fun z hz hzf => (hfut z hz).trans hzf
  · intro v hmem
    obtain ⟨z, r, o, hz, hr, ho⟩ := hi.scheduled v hmem
    obtain ⟨y, hy, hyr⟩ := exists_update (P := fun y => s.runners y.future = some r) ⟨z, hz, hr⟩
      fun b hb hbr => (congrArg s.runners (hfut b hb)).trans hbr
    exact ⟨y, r, o, hy, hyr, ho⟩
  · intro v y hy
    rcases update_eq_some hy with ⟨rfl, rfl⟩ | ⟨-, hy⟩
    · obtain ⟨r, hr, hrid, hwait⟩ := hi.waiter v x hx
      exact ⟨r, by rw [hf]; exact hr, by rw [hid]; exact hrid, hw r hr hwait⟩
    · exact hi.waiter v y hy

theorem resumeWaiter_inv {w : Nat} (hi : Inv s) (h : step s (.resumeWaiter w) = some t) : Inv t := by
  obtain ⟨x, o, hx, hst, hdone, rfl⟩ := resumeWaiter_iff.mp h
  refine hi.setWaiter hx rfl rfl fun r _ hwait => ?_
  simp only [Waits, hst] at hwait
  rcases hwait with ⟨_, _, _, hp, _⟩ | ⟨o', ho', ⟨hp, _⟩ | hd⟩
  · rw [hp] at hdone; cases hdone
  · rw [hp] at hdone; cases hdone
  · rw [hd] at hdone; cases hdone; exact ho'

theorem cancelWaiter_inv {w : Nat} (hi : Inv s) (h : step s (.cancelWaiter w) = some t) : Inv t := by
  obtain ⟨x, hx, ⟨-, rfl⟩ | ⟨-, rfl⟩⟩ := cancelWaiter_iff.mp h
  · exact hi.setWaiter hx rfl rfl fun r _ _ => trivial
  · exact hi.setWaiter hx rfl rfl fun r _ _ => trivial

theorem Inv.eraseReady {w : Nat} (hi : Inv s)
    (hw : ∀ x, s.waiters w = some x → x.state = .awaiting → x.waitFuture ≠ .pending) :
    Inv { s with ready := s.ready.erase w } := by
  refine { hi with scheduled := fun v hv => hi.scheduled v (List.mem_of_mem_erase hv), waiter := ?_ }
  intro v x hx
  obtain ⟨r, hr, hid, hwait⟩ := hi.waiter v x hx
  refine ⟨r, hr, hid, ?_⟩
  by_cases hv : v = w
  · subst hv
    have hne := hw x hx
    cases hst : x.state <;> simp only [Waits, hst] at hwait hne ⊢
    · rcases hwait with h | ⟨o, ho, ⟨hp, -⟩ | hd⟩
      · exact .inl h
      · exact absurd hp (hne trivial)
      · exact .inr ⟨o, ho, .inr hd⟩
    · exact hwait
  · exact hwait.mono (fun q hq hmem => ⟨q, hq, hmem⟩) (List.mem_erase_of_ne hv).mpr

theorem finished_of_done {n : Nat} {r : Runner V} {o : Outcome V} (hi : Inv s)
    (hr : s.runners n = some r) (ho : r.future = .done o) : r.state = .finished := by
  by_contra hst
  obtain ⟨-, hp, -⟩ := hi.live n r hr hst
  rw [hp] at ho
  cases ho

theorem setWaitFutureResult_done {f : Future V} {o : Outcome V} (htk : taken o = true) :
    f = .pending ∧ setWaitFutureResult (.done o) f = .done o ∨
      f ≠ .pending ∧ setWaitFutureResult (.done o) f = f := by
  cases f <;> simp [setWaitFutureResult, Future.result, Future.set, htk]

theorem deliver_inv {w : Nat} (hi : Inv s) (h : step s (.deliver w) = some t) : Inv t := by
  obtain ⟨x, r, hx, hr, hmem, rfl⟩ := deliver_iff.mp h
  obtain ⟨x', r', o, hx', hr', ho⟩ := hi.scheduled w hmem
  rw [hx] at hx'; cases hx'
  rw [hr] at hr'; cases hr'
  obtain ⟨o', -, ho', htk, -⟩ := hi.ended _ r hr (finished_of_done hi hr ho)
  rw [ho] at ho'; cases ho'
  have hset := setWaitFutureResult_done (f := x.waitFuture) htk
  rw [ho]
  generalize hg : setWaitFutureResult (.done o) x.waitFuture = g at hset ⊢
  have hi' : Inv (s.setWaiter w { x with waitFuture := g }) := by
    refine hi.setWaiter hx rfl rfl fun q hq hwait => ?_
    rw [hr] at hq; cases hq
    cases hst : x.state <;> simp only [Waits, hst] at hwait ⊢
    · rcases hwait with ⟨_, _, hp, _⟩ | ⟨o', ho', hwf⟩
      · rw [ho] at hp; cases hp
      · rw [ho] at ho'; cases ho'
        refine .inr ⟨o, ho, .inr ?_⟩
        rcases hset with ⟨-, hg⟩ | ⟨hne, hg⟩
        · exact hg
        · rcases hwf with ⟨hp, -⟩ | hd
          · exact absurd hp hne
          · exact hg.trans hd
    · exact hwait
  refine hi'.eraseReady fun y hy _ => ?_
  simp only [State.setWaiter, Function.update_self, Option.some.injEq] at hy
  subst hy
  rcases hset with ⟨-, hg⟩ | ⟨hne, hg⟩
  · simp [hg]
  · rw [hg]; exact hne

theorem Inv.setRunner {n : Nat} {r r' : Runner V} (hi : Inv s) (hr : s.runners n = some r)
    (hid : r'.ident = r.ident) (hco : r'.coro = r.coro) (hf : r'.future = r.future)
    (hlive : r.state ≠ .finished) (hlive' : r'.state ≠ .finished)
    (hcr : r'.state = .created → r'.cancelRequested = false)
    (hsub : ∀ w ∈ r.callbacks, w ∈ r'.callbacks)
    (hcb : ∀ w ∈ r'.callbacks, ∃ x, s.waiters w = some x ∧ x.future = n) :
    Inv (s.setRunner n r') := by
  have hold : ∀ q, s.runners n = some q → q = r := fun q hq => Option.some.inj (hq.symm.trans hr)
  obtain ⟨hkey, hpend, htask⟩ := hi.live n r hr hlive
  unfold State.setRunner
  constructor
  case fresh =>
    intro m hm
    obtain ⟨hc, hrun, hw⟩ := hi.fresh m hm
    exact ⟨hc, update_unused hr hrun, hw⟩
  case known => exact hi.known
  case key =>
    intro i m hm
    refine exists_update (hi.key i m hm) fun q hq ⟨hqid, _⟩ => ?_
    obtain rfl := hold q hq
    exact ⟨hid.trans hqid, hlive'⟩
  case live =>
    intro m q hq hst
    rcases update_eq_some hq with ⟨rfl, rfl⟩ | ⟨-, hq⟩
    · exact ⟨by rw [hid]; exact hkey, hf.trans hpend, htask⟩
    · exact hi.live m q hq hst
  case created =>
    intro m q hq hst
    rcases update_eq_some hq with ⟨-, rfl⟩ | ⟨-, hq⟩
    · exact hcr hst
    · exact hi.created m q hq hst
  case ended =>
    intro m q hq hst
    rcases update_eq_some hq with ⟨-, rfl⟩ | ⟨-, hq⟩
    · exact absurd hst hlive'
    · exact hi.ended m q hq hst
  case coro =>
    intro m q hq
    rcases update_eq_some hq with ⟨rfl, rfl⟩ | ⟨-, hq⟩
    · rw [hco]
      exact hi.coro m r hr
    · exact hi.coro m q hq
  case closed =>
    intro m c hm hnone
    obtain ⟨-, hnone⟩ := update_eq_none hnone
    exact hi.closed m c hm hnone
  case callback =>
    intro m q w hq hmem
    rcases update_eq_some hq with ⟨rfl, rfl⟩ | ⟨-, hq⟩
    · exact hcb w hmem
    · exact hi.callback m q w hq hmem
  case scheduled =>
    intro w hmem
    obtain ⟨x, q, o, hx, hq, ho⟩ := hi.scheduled w hmem
    have hxn : x.future ≠ n := by
      intro hxn
      rw [hold q (hxn ▸ hq), hpend] at ho
      cases ho
    exact ⟨x, q, o, hx, (Function.update_of_ne hxn _ _).trans hq, ho⟩
  case waiter =>
    intro w x hx
    obtain ⟨q, hq, hqid, hwait⟩ := hi.waiter w x hx
    have hmono : Waits _ w x q.future :=
      hwait.mono (t := { s with runners := update s.runners n (some r') })
        (fun p hp hmem => exists_update ⟨p, hp, hmem⟩ fun p hp hmem => hsub w (hold p hp ▸ hmem)) id
    by_cases hxn : x.future = n
    · obtain rfl := hold q (hxn ▸ hq)
      exact ⟨r', hxn ▸ Function.update_self .., hid.trans hqid, hf ▸ hmono⟩
    · exact ⟨q, (Function.update_of_ne hxn _ _).trans hq, hqid, hmono⟩

theorem addDoneCallback_setWaiter (n w : Nat) (r : Runner V) (x : Waiter V) :
    (s.setWaiter w x).addDoneCallback n r w = (s.addDoneCallback n r w).setWaiter w x := by
  unfold State.addDoneCallback
  cases r.future <;> rfl

theorem startWaiter_inv {w : Nat} (hi : Inv s) (h : step s (.startWaiter w) = some t) : Inv t := by
  obtain ⟨x, r, hx, hr, hst, rfl⟩ := startWaiter_iff.mp h
  rw [addDoneCallback_setWaiter]
  by_cases hfin : r.state = .finished
  · -- The future is done: the callback goes straight to the loop.
    obtain ⟨o, -, ho, -⟩ := hi.ended _ r hr hfin
    have hadd : s.addDoneCallback x.future r w = { s with ready := s.ready ++ [w] } := by
      simp [State.addDoneCallback, ho]
    rw [hadd]
    have hi' : Inv { s with ready := s.ready ++ [w] } := by
      refine { hi with scheduled := ?_, waiter := ?_ }
      · intro v hv
        rcases List.mem_append.mp hv with hv | hv
        · exact hi.scheduled v hv
        · rw [List.mem_singleton.mp hv]
          exact ⟨x, r, o, hx, hr, ho⟩
      · intro v y hy
        obtain ⟨q, hq, hid, hwait⟩ := hi.waiter v y hy
        exact ⟨q, hq, hid, hwait.mono (fun p hp hmem => ⟨p, hp, hmem⟩) (List.mem_append_left _)⟩
    refine hi'.setWaiter hx rfl rfl fun q hq _ => ?_
    rw [show s.runners x.future = some q from hq] at hr; cases hr
    exact .inr ⟨o, ho, .inl ⟨rfl, by simp⟩⟩
  · -- The future is pending: the callback waits on it.
    obtain ⟨-, hp, -⟩ := hi.live _ r hr hfin
    have hadd : s.addDoneCallback x.future r w =
        s.setRunner x.future { r with callbacks := r.callbacks ++ [w] } := by
      simp [State.addDoneCallback, hp]
    rw [hadd]
    have hi' : Inv (s.setRunner x.future { r with callbacks := r.callbacks ++ [w] }) := by
      refine hi.setRunner hr rfl rfl rfl hfin hfin (hi.created _ r hr)
        (fun v hv => List.mem_append_left _ hv) fun v hv => ?_
      rcases List.mem_append.mp hv with hv | hv
      · exact hi.callback _ r v hr hv
      · rw [List.mem_singleton.mp hv]
        exact ⟨x, hx, rfl⟩
    refine hi'.setWaiter hx rfl rfl fun q hq _ => ?_
    have hq' : some { r with callbacks := r.callbacks ++ [w] } = some q := by
      simpa [State.setRunner] using hq
    cases hq'
    exact .inl ⟨_, Function.update_self .., hp, rfl, by simp⟩

theorem cancelRunner_inv {n : Nat} (hi : Inv s) (h : step s (.cancelRunner n) = some t)
    (hok : ∀ r, s.runners n = some r → r.state ≠ .created) : Inv t := by
  obtain ⟨r, hr, hfin, rfl⟩ := cancelRunner_iff.mp h
  exact hi.setRunner hr rfl rfl rfl hfin hfin (fun hcr => absurd hcr (hok r hr)) (fun _ h => h)
    fun w hw => hi.callback n r w hr hw

theorem discardTask_inv {n : Nat} (hi : Inv s) (h : step s (.discardTask n) = some t) : Inv t := by
  obtain ⟨r, hr, hfin, -, rfl⟩ := discardTask_iff.mp h
  refine { hi with live := fun m q hq hst => ?_ }
  obtain ⟨hkey, hp, htask⟩ := hi.live m q hq hst
  refine ⟨hkey, hp, (List.mem_erase_of_ne ?_).mpr htask⟩
  rintro rfl
  rw [hr] at hq; cases hq
  exact hst hfin

theorem Inv.advanceCoro {n : Nat} {r : Runner V} {c : Coro V} (hi : Inv s) (hr : s.runners n = some r)
    (hlive : r.state ≠ .finished) (hc : s.coros n = some c) (o : Option (Outcome V)) :
    Inv { s with coros := update s.coros n (some (c.advance o)) } := by
  refine { hi with fresh := ?_, known := ?_, ended := ?_, coro := ?_, closed := ?_ }
  · intro m hm
    obtain ⟨hcm, hrest⟩ := hi.fresh m hm
    exact ⟨update_unused hc hcm, hrest⟩
  · intro m hm
    obtain ⟨hd, hx⟩ := hi.known m hm
    exact ⟨update_used hd, hx⟩
  · intro m q hq hfin
    obtain ⟨o', d, ho, htk, hd, hdo⟩ := hi.ended m q hq hfin
    have hmn : m ≠ n := by
      rintro rfl
      rw [hr] at hq; cases hq
      exact hlive hfin
    exact ⟨o', d, ho, htk, (Function.update_of_ne hmn _ _).trans hd, hdo⟩
  · intro m q hq
    obtain ⟨hco, hd⟩ := hi.coro m q hq
    refine ⟨hco, exists_update hd fun d hd hcl => ?_⟩
    rw [hc] at hd; cases hd
    exact hcl
  · intro m d hd hnone
    rcases update_eq_some hd with ⟨rfl, -⟩ | ⟨-, hd⟩
    · rw [hr] at hnone; cases hnone
    · exact hi.closed m d hd hnone

theorem settle_of_pending {r : Runner V} {o : Outcome V} (hp : r.future = .pending)
    (htk : taken o = true) :
    r.settle o = ({ r with future := .done o, callbacks := [] }, r.callbacks) := by
  simp [Runner.settle, htk, hp, Future.set]

theorem Waits.resolve {w : Nat} {x : Waiter V} (h : Waits s w x .pending)
    (hcall : ∀ q, s.runners x.future = some q → w ∈ q.callbacks → w ∈ t.ready) (o : Outcome V) :
    Waits t w x (.done o) := by
  cases hst : x.state <;> simp only [Waits, hst] at h ⊢
  · rcases h with ⟨q, hq, -, hx, hmem⟩ | ⟨o', ho', -⟩
    · exact .inr ⟨o, rfl, .inl ⟨hx, hcall q hq hmem⟩⟩
    · cases ho'
  · cases h

theorem Inv.finish {n : Nat} {r : Runner V} {c : Coro V} {o : Outcome V} (hi : Inv s)
    (hr : s.runners n = some r) (hlive : r.state ≠ .finished) (htk : taken o = true)
    (hc : s.coros n = some c) (hco : c.outcome = some o) : Inv (s.finish n r o) := by
  obtain ⟨hkey, hp, -⟩ := hi.live n r hr hlive
  -- A runner other than `n` that is still live has another ident.
  have hother : ∀ m q, s.runners m = some q → m ≠ n → q.state ≠ .finished → q.ident ≠ r.ident := by
    intro m q hq hmn hst hid
    obtain ⟨hkey', -, -⟩ := hi.live m q hq hst
    rw [hid, hkey] at hkey'
    exact hmn (Option.some.inj hkey').symm
  have hold : ∀ q, s.runners n = some q → q = r := fun q hq => Option.some.inj (hq.symm.trans hr)
  simp only [State.finish, State.setRunner, settle_of_pending hp htk]
  constructor
  case fresh =>
    intro m hm
    obtain ⟨hcm, hrun, hw⟩ := hi.fresh m hm
    exact ⟨hcm, update_unused hr hrun, hw⟩
  case known => exact hi.known
  case key =>
    intro i m hm
    obtain ⟨hne, hm⟩ := erase_eq_some hm
    obtain ⟨q, hq, hid, hst⟩ := hi.key i m hm
    have hmn : m ≠ n := by
      rintro rfl
      exact hne (hold q hq ▸ hid.symm)
    exact ⟨q, (Function.update_of_ne hmn _ _).trans hq, hid, hst⟩
  case live =>
    intro m q hq hst
    rcases update_eq_some hq with ⟨-, rfl⟩ | ⟨hmn, hq⟩
    · exact absurd rfl hst
    · obtain ⟨hkey', hp', htask⟩ := hi.live m q hq hst
      exact ⟨(Function.update_of_ne (hother m q hq hmn hst) _ _).trans hkey', hp', htask⟩
  case created =>
    intro m q hq hst
    rcases update_eq_some hq with ⟨-, rfl⟩ | ⟨-, hq⟩
    · cases hst
    · exact hi.created m q hq hst
  case ended =>
    intro m q hq hst
    rcases update_eq_some hq with ⟨rfl, rfl⟩ | ⟨-, hq⟩
    · exact ⟨o, c, rfl, htk, hc, hco⟩
    · exact hi.ended m q hq hst
  case coro =>
    intro m q hq
    rcases update_eq_some hq with ⟨rfl, rfl⟩ | ⟨-, hq⟩
    · exact hi.coro m r hr
    · exact hi.coro m q hq
  case closed =>
    intro m d hd hnone
    obtain ⟨-, hnone⟩ := update_eq_none hnone
    exact hi.closed m d hd hnone
  case callback =>
    intro m q w hq hmem
    rcases update_eq_some hq with ⟨-, rfl⟩ | ⟨-, hq⟩
    · simp at hmem
    · exact hi.callback m q w hq hmem
  case scheduled =>
    intro w hmem
    rcases List.mem_append.mp hmem with hmem | hmem
    · obtain ⟨x, q, o', hx, hq, ho⟩ := hi.scheduled w hmem
      have hxn : x.future ≠ n := by
        intro hxn
        rw [hold q (hxn ▸ hq), hp] at ho
        cases ho
      exact ⟨x, q, o', hx, (Function.update_of_ne hxn _ _).trans hq, ho⟩
    · obtain ⟨x, hx, rfl⟩ := hi.callback n r w hr hmem
      exact ⟨x, _, o, hx, Function.update_self .., rfl⟩
  case waiter =>
    intro w x hx
    obtain ⟨q, hq, hid, hwait⟩ := hi.waiter w x hx
    -- A waiter on `n` has its callback among those that are scheduled now.
    by_cases hxn : x.future = n
    · obtain rfl := hold q (hxn ▸ hq)
      refine ⟨_, (congrArg _ hxn).trans (Function.update_self n _ s.runners), hid, ?_⟩
      rw [hp] at hwait
      refine hwait.resolve (fun p hpr hmem => ?_) o
      rw [hold p (hxn ▸ hpr)] at hmem
      exact List.mem_append_right _ hmem
    · refine ⟨q, (Function.update_of_ne hxn _ _).trans hq, hid, ?_⟩
      exact hwait.mono (fun p hpr hmem => ⟨p, (Function.update_of_ne hxn _ _).trans hpr, hmem⟩)
        (List.mem_append_left _)

theorem advance_inv {n : Nat} {r : Runner V} {o : Option (Outcome V)} (hi : Inv s)
    (hr : s.runners n = some r) (hlive : r.state ≠ .finished)
    (htk : ∀ o', o = some o' → taken o' = true) : Inv (s.advance n r o) := by
  obtain ⟨hco, c, hc, -⟩ := hi.coro n r hr
  have hi' := hi.advanceCoro hr hlive hc o
  have hcb := fun w hw => hi.callback n r w hr hw
  unfold State.advance
  simp only [hco, hc, Option.map_some]
  cases o with
  | none =>
    exact hi'.setRunner hr rfl hco.symm rfl hlive (by simp) (by simp) (fun _ h => h) hcb
  | some o =>
    have hi'' : Inv (State.setRunner _ n { r with cancelRequested := false }) :=
      hi'.setRunner hr rfl rfl rfl hlive hlive (fun _ => rfl) (fun _ h => h) hcb
    have := hi''.finish (o := o) (c := c.advance (some o)) (Function.update_self ..) hlive
      (htk o rfl) (Function.update_self ..) rfl
    simpa [State.finish, State.setRunner, hco] using this

/-- No runner is cancelled before its first step, and no coroutine raises an exception that is
neither an `Exception` nor a `CancelledError`. -/
def Orderly (s : State V) : Label V → Prop
  | .startRunner _ (some o) => taken o = true
  | .stepRunner _ (some o) => taken o = true
  | .cancelRunner n => ∀ r ∈ s.runners n, r.state ≠ .created
  | _ => True

instance (s : State V) : DecidablePred (Orderly s)
  | .startRunner _ (some _) | .stepRunner _ (some _) | .cancelRunner _ =>
    by unfold Orderly; infer_instance
  | .startRunner _ none | .stepRunner _ none | .call _ | .discardTask _ | .startWaiter _
  | .deliver _ | .resumeWaiter _ | .cancelWaiter _ => .isTrue trivial

theorem step_inv {a : Label V} (hi : Inv s) (h : step s a = some t) (hok : Orderly s a) : Inv t := by
  cases a with
  | call ident =>
    cases h
    cases hk : s.running ident with
    | none => exact call_create_inv hi hk
    | some n => exact call_join_inv hi hk
  | startRunner n o =>
    obtain ⟨r, hr, hst, rfl⟩ := startRunner_iff.mp h
    rw [hi.created n r hr hst, if_neg (by simp)]
    exact advance_inv hi hr (by simp [hst]) fun o' ho => by subst ho; exact hok
  | stepRunner n o =>
    obtain ⟨r, hr, hst, rfl⟩ := stepRunner_iff.mp h
    exact advance_inv hi hr (by simp [hst]) fun o' ho => by subst ho; exact hok
  | cancelRunner n => exact cancelRunner_inv hi h hok
  | discardTask n => exact discardTask_inv hi h
  | startWaiter w => exact startWaiter_inv hi h
  | deliver w => exact deliver_inv hi h
  | resumeWaiter w => exact resumeWaiter_inv hi h
  | cancelWaiter w => exact cancelWaiter_inv hi h

end LibraryService.Reduced
