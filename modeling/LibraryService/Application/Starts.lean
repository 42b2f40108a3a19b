import LibraryService.Application.Answers

/-!
# Which runs of `AsyncReducer` there are

Runners that stay, coroutines that were run, and the calls that start them.
-/

open Function (update update_apply)
open PartialMap
open Transition (Run ofStep)

namespace LibraryService.Reduced

variable {V : Type} {s t x y : State V} {l : List (Label V)} {n : Nat} {ident : String}

/-! ## Which coroutines have been run -/

theorem step_runners {a : Label V} (h : step s a = some t) :
    t.runners = s.runners ∨ ∃ n r, t.runners = update s.runners n (some r) := by
  cases a with
  | call ident =>
    cases h
    cases hk : s.running ident with
    | some n => rw [call_join hk]; exact .inl rfl
    | none => rw [call_create hk]; exact .inr ⟨_, _, rfl⟩
  | startRunner n o =>
    obtain ⟨r, -, -, rfl⟩ := startRunner_iff.mp h
    split
    · exact .inr ⟨_, _, rfl⟩
    · cases o <;> exact .inr ⟨_, _, rfl⟩
  | stepRunner n o =>
    obtain ⟨r, -, -, rfl⟩ := stepRunner_iff.mp h
    cases o <;> exact .inr ⟨_, _, rfl⟩
  | cancelRunner n =>
    obtain ⟨r, -, -, rfl⟩ := cancelRunner_iff.mp h
    exact .inr ⟨_, _, rfl⟩
  | discardTask n =>
    obtain ⟨r, -, -, -, rfl⟩ := discardTask_iff.mp h
    exact .inl rfl
  | startWaiter w =>
    obtain ⟨x, r, -, -, -, rfl⟩ := startWaiter_iff.mp h
    unfold State.addDoneCallback
    split
    · exact .inr ⟨_, _, rfl⟩
    · exact .inl rfl
  | deliver w =>
    obtain ⟨x, r, -, -, -, rfl⟩ := deliver_iff.mp h
    exact .inl rfl
  | resumeWaiter w =>
    obtain ⟨x, o, -, -, -, rfl⟩ := resumeWaiter_iff.mp h
    exact .inl rfl
  | cancelWaiter w =>
    obtain ⟨x, -, ⟨-, rfl⟩ | ⟨-, rfl⟩⟩ := cancelWaiter_iff.mp h
    · exact .inl rfl
    · exact .inl rfl

theorem runner_stays {a : Label V} {r : Runner V} (h : step s a = some t)
    (hr : s.runners n = some r) : ∃ q, t.runners n = some q := by
  rcases step_runners h with hsame | ⟨m, q, hupd⟩
  · exact ⟨r, hsame ▸ hr⟩
  · rw [hupd]
    exact update_used ⟨r, hr⟩

/-- A runner past its start has run its coroutine. -/
def Started (s : State V) : Prop := ∀ n r, s.runners n = some r → r.state ≠ .created →
  ∃ c, s.coros n = some c ∧ 0 < c.steps

theorem init_started : Started (State.init : State V) := nofun

theorem Started.setRunner {n : Nat} {r r' : Runner V} (h : Started s) (hr : s.runners n = some r)
    (hst : r'.state ≠ .created → r.state ≠ .created) : Started (s.setRunner n r') := by
  intro m q hq hqst
  rcases update_eq_some hq with ⟨rfl, rfl⟩ | ⟨-, hq⟩
  · exact h m r hr (hst hqst)
  · exact h m q hq hqst

theorem advance_started {n : Nat} {r : Runner V} (o : Option (Outcome V)) (hi : Honest s)
    (h : Started s) (hr : s.runners n = some r) (hlive : r.state ≠ .finished) :
    Started (s.advance n r o) := by
  obtain ⟨-, -, -, c, hc, -⟩ := hi.live n r hr hlive
  have hcoros : (s.advance n r o).coros = update s.coros n (some (c.advance o)) := by
    have hmap : (s.advance n r o).coros =
        update s.coros r.coro ((s.coros r.coro).map (Coro.advance · o)) := by cases o <;> rfl
    rw [hmap, hi.coro n r hr, hc]
    rfl
  have hrunners : ∃ q, (s.advance n r o).runners = update s.runners n (some q) := by
    cases o <;> exact ⟨_, rfl⟩
  obtain ⟨r', hrunners⟩ := hrunners
  intro m q hq hst
  rw [hcoros]
  rw [hrunners] at hq
  rcases update_eq_some hq with ⟨rfl, -⟩ | ⟨hmn, hq⟩
  · exact ⟨_, Function.update_self .., Nat.succ_pos _⟩
  · obtain ⟨d, hd, hsteps⟩ := h m q hq hst
    exact ⟨d, (Function.update_of_ne hmn _ _).trans hd, hsteps⟩

theorem step_started {a : Label V} (hi : Honest s) (h : Started s) (hstep : step s a = some t)
    (hok : Uncancelled a) : Started t := by
  cases a with
  | call ident =>
    cases hstep
    obtain ⟨hc, hrun, -⟩ := hi.fresh s.calls (Nat.le_refl _)
    cases hk : s.running ident with
    | some n =>
      rw [call_join hk]
      intro m q hq hst
      obtain ⟨d, hd, hsteps⟩ := h m q hq hst
      exact ⟨d, update_fresh hc hd, hsteps⟩
    | none =>
      rw [call_create hk]
      intro m q hq hst
      rcases update_eq_some hq with ⟨-, rfl⟩ | ⟨-, hq⟩
      · exact absurd rfl hst
      · obtain ⟨d, hd, hsteps⟩ := h m q hq hst
        exact ⟨d, update_fresh hc hd, hsteps⟩
  | startRunner n o =>
    obtain ⟨r, hr, hlive, rfl⟩ := hi.startRunner hstep
    exact advance_started o hi h hr hlive
  | stepRunner n o =>
    obtain ⟨r, hr, hst, rfl⟩ := stepRunner_iff.mp hstep
    exact advance_started o hi h hr (by simp [hst])
  | cancelRunner n => exact hok.elim
  | discardTask n =>
    obtain ⟨r, -, -, -, rfl⟩ := discardTask_iff.mp hstep
    exact h
  | startWaiter w =>
    obtain ⟨x, r, -, hr, -, rfl⟩ := startWaiter_iff.mp hstep
    unfold State.addDoneCallback
    split
    · exact h.setRunner hr id
    · exact h
  | deliver w =>
    obtain ⟨x, r, -, -, -, rfl⟩ := deliver_iff.mp hstep
    exact h
  | resumeWaiter w =>
    obtain ⟨x, o, -, -, -, rfl⟩ := resumeWaiter_iff.mp hstep
    exact h
  | cancelWaiter w =>
    obtain ⟨x, -, ⟨-, rfl⟩ | ⟨-, rfl⟩⟩ := cancelWaiter_iff.mp hstep
    · exact h
    · exact h

theorem Started.of_outcome {n : Nat} {c : Coro V} {o : Outcome V} (h : Started s) (hi : Honest s)
    (hc : s.coros n = some c) (ho : c.outcome = some o) : 0 < c.steps := by
  cases hr : s.runners n with
  | none =>
    rw [hi.idle n c hc hr] at ho
    cases ho
  | some r =>
    by_cases hst : r.state = .created
    · obtain ⟨-, -, -, d, hd, hnone⟩ := hi.live n r hr (by simp [hst])
      rw [hc] at hd
      cases hd
      rw [hnone] at ho
      cases ho
    · obtain ⟨d, hd, hsteps⟩ := h n r hr hst
      rw [hc] at hd
      cases hd
      exact hsteps

/-! ## Runs that are there -/

/-- Steps of the reducer that start no run. -/
def Quiet (b : Label V) : Prop := Undisturbed b ∧ ∀ ident, b ≠ .call ident

structure ReducerInv (x : State V) : Prop where
  inv : Inv x
  honest : Honest x
  started : Started x

theorem Undisturbed.uncancelled {b : Label V} (h : Undisturbed b) : Uncancelled b := by
  cases b with
  | cancelRunner n => exact h
  | _ => trivial

theorem ReducerInv.step {b : Label V} (h : ReducerInv x) (hstep : step x b = some y)
    (hb : Undisturbed b) : ReducerInv y :=
  ⟨step_inv h.inv hstep hb.orderly, step_honest h.honest hstep hb.uncancelled,
    step_started h.honest h.started hstep hb.uncancelled⟩

theorem ReducerInv.call (h : ReducerInv x) (ident : String) : ReducerInv (x.call ident) :=
  h.step (b := .call ident) rfl trivial

theorem quiet_keeps {b : Label V} (h : ReducerInv x) (hstep : step x b = some y)
    (hb : Quiet b) {r : Runner V} (hr : y.runners n = some r) :
    ∃ q, x.runners n = some q ∧ q.ident = r.ident := by
  rcases (step_keeps h.honest hstep hb.1.uncancelled).runner n r hr with hq | ⟨hcall, -⟩
  · exact hq
  · exact absurd hcall (hb.2 _)

theorem quiet_run (h : ReducerInv x) (hrun : Run (ofStep step) x l y)
    (hl : ∀ b ∈ l, Quiet b) : ReducerInv y ∧
      (∀ n r, y.runners n = some r → ∃ q, x.runners n = some q ∧ q.ident = r.ident) ∧
      ∀ n r, x.runners n = some r → ∃ q, y.runners n = some q := by
  refine (hrun.restrict hl).invariant (I := fun y => ReducerInv y ∧
    (∀ n r, y.runners n = some r → ∃ q, x.runners n = some q ∧ q.ident = r.ident) ∧
    ∀ n r, x.runners n = some r → ∃ q, y.runners n = some q) ?_ ?_
  · exact ⟨h, fun _ r hr => ⟨r, hr, rfl⟩, fun _ r hr => ⟨r, hr⟩⟩
  · rintro y b z ⟨hy, hold, hstay⟩ ⟨hstep, hb⟩
    refine ⟨hy.step hstep hb.1, fun n r hr => ?_, fun n r hr => ?_⟩
    · obtain ⟨q, hq, hqid⟩ := quiet_keeps hy hstep hb hr
      obtain ⟨p, hp, hpid⟩ := hold n q hq
      exact ⟨p, hp, hpid.trans hqid⟩
    · obtain ⟨q, hq⟩ := hstay n r hr
      exact runner_stays hstep hq

theorem call_runner {r : Runner V} (hr : (x.call ident).runners n = some r) :
    (∃ q, x.runners n = some q ∧ q.ident = r.ident) ∨
      x.running ident = none ∧ n = x.calls ∧ r.ident = ident := by
  cases hk : x.running ident with
  | some m =>
    rw [call_join hk] at hr
    exact .inl ⟨r, hr, rfl⟩
  | none =>
    rw [call_create hk] at hr
    rcases update_eq_some hr with ⟨hn, rfl⟩ | ⟨-, hr⟩
    · exact .inr ⟨rfl, hn, rfl⟩
    · exact .inl ⟨r, hr, rfl⟩

theorem join_runner {r : Runner V} (h : ReducerInv x)
    (hstart : step (x.call ident) (.startWaiter x.calls) = some y)
    (hr : y.runners n = some r) : (∃ q, x.runners n = some q ∧ q.ident = r.ident) ∨
      x.running ident = none ∧ n = x.calls ∧ r.ident = ident := by
  obtain ⟨q, hq, hqid⟩ := quiet_keeps (h.call ident) hstart ⟨trivial, nofun⟩ hr
  rcases call_runner hq with ⟨p, hp, hpid⟩ | ⟨hk, hn, hid⟩
  · exact .inl ⟨p, hp, hpid.trans hqid⟩
  · exact .inr ⟨hk, hn, hqid.symm.trans hid⟩

theorem join_stays {r : Runner V}
    (hstart : step (x.call ident) (.startWaiter x.calls) = some y)
    (hr : x.runners n = some r) : ∃ q, y.runners n = some q := by
  obtain ⟨q, hq⟩ := runner_stays (a := .call ident) rfl hr
  exact runner_stays hstart hq

end LibraryService.Reduced
