import LibraryService.Application.Coalescing

/-!
# What the waiters of `AsyncReducer` return

The values that waiters return, whatever the coroutines raise, while no runner task is cancelled.
-/

open Function (update update_apply)
open PartialMap

namespace LibraryService.Reduced

variable {V : Type} {s t : State V}

/-- Every value stands for a coroutine that returned it, and every key for a run that goes on. -/
structure Honest (s : State V) : Prop where
  fresh : ∀ n, s.calls ≤ n → s.coros n = none ∧ s.runners n = none ∧ s.waiters n = none
  key : ∀ i n, s.running i = some n → ∃ r, s.runners n = some r ∧ r.ident = i ∧ r.state ≠ .finished
  live : ∀ n r, s.runners n = some r → r.state ≠ .finished → s.running r.ident = some n ∧
    r.cancelRequested = false ∧ r.future = .pending ∧ ∃ c, s.coros n = some c ∧ c.outcome = none
  coro : ∀ n r, s.runners n = some r → r.coro = n
  idle : ∀ n c, s.coros n = some c → s.runners n = none → c.outcome = none
  resolved : ∀ n r v, s.runners n = some r → r.future = .done (.ok v) →
    ∃ c, s.coros n = some c ∧ c.outcome = some (.ok v)
  waiter : ∀ w x, s.waiters w = some x → ∃ r, s.runners x.future = some r ∧ r.ident = x.ident ∧
    ∀ v, x.waitFuture = .done (.ok v) ∨ x.state = .returned (.ok v) → r.future = .done (.ok v)

theorem init_honest : Honest (State.init : State V) := by
  refine ⟨?_, ?_, ?_, ?_, ?_, ?_, ?_⟩ <;> intros <;> simp_all [State.init]

/-! ## Each step keeps it -/

theorem Honest.call_join {ident : String} {n : Nat} (hi : Honest s) (h : s.running ident = some n) :
    Honest (s.call ident) := by
  obtain ⟨r, hr, hid, -⟩ := hi.key ident n h
  obtain ⟨hc, hrun, hw⟩ := hi.fresh s.calls (Nat.le_refl _)
  have hfresh := call_fresh ident hi.fresh
  rw [Reduced.call_join h] at hfresh ⊢
  constructor
  case fresh => exact hfresh
  case key => exact hi.key
  case live =>
    intro m q hq hst
    obtain ⟨hkey, hreq, hp, c, hc', ho⟩ := hi.live m q hq hst
    exact ⟨hkey, hreq, hp, c, update_fresh hc hc', ho⟩
  case coro => exact hi.coro
  case idle =>
    intro m c hm hnone
    rcases update_eq_some hm with ⟨-, rfl⟩ | ⟨-, hm⟩
    · rfl
    · exact hi.idle m c hm hnone
  case resolved =>
    intro m q v hq hv
    obtain ⟨c, hc', ho⟩ := hi.resolved m q v hq hv
    exact ⟨c, update_fresh hc hc', ho⟩
  case waiter =>
    intro w x hx
    rcases update_eq_some hx with ⟨-, rfl⟩ | ⟨-, hx⟩
    · exact ⟨r, hr, hid, by simp⟩
    · exact hi.waiter w x hx

theorem Honest.call_create {ident : String} (hi : Honest s) (h : s.running ident = none) :
    Honest (s.call ident) := by
  obtain ⟨hc, hrun, hw⟩ := hi.fresh s.calls (Nat.le_refl _)
  have hfresh := call_fresh ident hi.fresh
  rw [Reduced.call_create h] at hfresh ⊢
  constructor
  case fresh => exact hfresh
  case key =>
    intro i n hn
    rcases update_eq_some hn with ⟨hid, rfl⟩ | ⟨-, hn⟩
    · exact ⟨_, Function.update_self .., hid.symm, by simp⟩
    · obtain ⟨r, hr, hrest⟩ := hi.key i n hn
      exact ⟨r, update_fresh hrun hr, hrest⟩
  case live =>
    intro n r hr hst
    rcases update_eq_some hr with ⟨rfl, rfl⟩ | ⟨-, hr⟩
    · exact ⟨Function.update_self .., rfl, rfl, _, Function.update_self .., rfl⟩
    · obtain ⟨hkey, hreq, hp, c, hc', ho⟩ := hi.live n r hr hst
      have hne : r.ident ≠ ident := by rintro rfl; rw [h] at hkey; cases hkey
      exact ⟨(Function.update_of_ne hne _ _).trans hkey, hreq, hp, c, update_fresh hc hc', ho⟩
  case coro =>
    intro n r hr
    rcases update_eq_some hr with ⟨hn, rfl⟩ | ⟨-, hr⟩
    · exact hn.symm
    · exact hi.coro n r hr
  case idle =>
    intro n c hn hnone
    obtain ⟨-, hnone⟩ := update_eq_none hnone
    rcases update_eq_some hn with ⟨-, rfl⟩ | ⟨-, hn⟩
    · rfl
    · exact hi.idle n c hn hnone
  case resolved =>
    intro n r v hr hv
    rcases update_eq_some hr with ⟨-, rfl⟩ | ⟨-, hr⟩
    · cases hv
    · obtain ⟨c, hc', ho⟩ := hi.resolved n r v hr hv
      exact ⟨c, update_fresh hc hc', ho⟩
  case waiter =>
    intro w x hx
    rcases update_eq_some hx with ⟨-, rfl⟩ | ⟨-, hx⟩
    · exact ⟨_, Function.update_self .., rfl, by simp⟩
    · obtain ⟨r, hr, hid, hvals⟩ := hi.waiter w x hx
      exact ⟨r, update_fresh hrun hr, hid, hvals⟩

theorem Honest.setWaiter {w : Nat} {x x' : Waiter V} (hi : Honest s) (hx : s.waiters w = some x)
    (hf : x'.future = x.future) (hid : x'.ident = x.ident)
    (hvals : ∀ r v, s.runners x.future = some r →
      x'.waitFuture = .done (.ok v) ∨ x'.state = .returned (.ok v) →
        x.waitFuture = .done (.ok v) ∨ x.state = .returned (.ok v) ∨ r.future = .done (.ok v)) :
    Honest (s.setWaiter w x') := by
  refine { hi with fresh := ?_, waiter := ?_ }
  · intro n hn
    obtain ⟨hc, hr, hnone⟩ := hi.fresh n hn
    exact ⟨hc, hr, update_unused hx hnone⟩
  · intro v y hy
    rcases update_eq_some hy with ⟨-, rfl⟩ | ⟨-, hy⟩
    · obtain ⟨r, hr, hrid, hold⟩ := hi.waiter w x hx
      refine ⟨r, by rw [hf]; exact hr, by rw [hid]; exact hrid, fun v hv => ?_⟩
      rcases hvals r v hr hv with h | h | h
      · exact hold v (.inl h)
      · exact hold v (.inr h)
      · exact h
    · exact hi.waiter v y hy

theorem Honest.setRunner {n : Nat} {r r' : Runner V} (hi : Honest s) (hr : s.runners n = some r)
    (hid : r'.ident = r.ident) (hco : r'.coro = r.coro) (hf : r'.future = r.future)
    (hst : r'.state = .finished ↔ r.state = .finished)
    (hreq : r'.cancelRequested = r.cancelRequested) : Honest (s.setRunner n r') := by
  have hold : ∀ q, s.runners n = some q → q = r := fun q hq => Option.some.inj (hq.symm.trans hr)
  unfold State.setRunner
  constructor
  case fresh =>
    intro m hm
    obtain ⟨hc, hrun, hw⟩ := hi.fresh m hm
    exact ⟨hc, update_unused hr hrun, hw⟩
  case key =>
    intro i m hm
    refine exists_update (hi.key i m hm) fun q hq ⟨hqid, hqst⟩ => ?_
    obtain rfl := hold q hq
    exact ⟨hid.trans hqid, fun h => hqst (hst.mp h)⟩
  case live =>
    intro m q hq hqst
    rcases update_eq_some hq with ⟨rfl, rfl⟩ | ⟨-, hq⟩
    · rw [hid, hreq, hf]
      exact hi.live m r hr fun h => hqst (hst.mpr h)
    · exact hi.live m q hq hqst
  case coro =>
    intro m q hq
    rcases update_eq_some hq with ⟨hmn, rfl⟩ | ⟨-, hq⟩
    · rw [hco, hmn]
      exact hi.coro n r hr
    · exact hi.coro m q hq
  case idle =>
    intro m c hm hnone
    obtain ⟨-, hnone⟩ := update_eq_none hnone
    exact hi.idle m c hm hnone
  case resolved =>
    intro m q v hq hv
    rcases update_eq_some hq with ⟨hmn, rfl⟩ | ⟨-, hq⟩
    · rw [hmn]
      exact hi.resolved n r v hr (hf ▸ hv)
    · exact hi.resolved m q v hq hv
  case waiter =>
    intro w x hx
    refine exists_update (hi.waiter w x hx) fun q hq ⟨hqid, hvals⟩ => ?_
    obtain rfl := hold q hq
    exact ⟨hid.trans hqid, fun v hv => hf.trans (hvals v hv)⟩

theorem Honest.addDoneCallback {n w : Nat} {r : Runner V} (hi : Honest s)
    (hr : s.runners n = some r) : Honest (s.addDoneCallback n r w) := by
  unfold State.addDoneCallback
  cases hf : r.future with
  | pending => exact hi.setRunner hr rfl rfl hf.symm Iff.rfl rfl
  | done o => exact { hi with }
  | cancelled => exact { hi with }

theorem Honest.advanceCoro {n : Nat} {r : Runner V} {c : Coro V} (hi : Honest s)
    (hr : s.runners n = some r) (hlive : r.state ≠ .finished) :
    Honest { s with coros := update s.coros n (some (c.advance none)) } := by
  obtain ⟨-, -, hpend, b, hc, -⟩ := hi.live n r hr hlive
  refine { hi with fresh := ?_, live := ?_, idle := ?_, resolved := ?_ }
  · intro m hm
    obtain ⟨hcm, hrest⟩ := hi.fresh m hm
    exact ⟨update_unused hc hcm, hrest⟩
  · intro m q hq hst
    obtain ⟨hkey, hreq, hp, d, hd, ho⟩ := hi.live m q hq hst
    exact ⟨hkey, hreq, hp, exists_update ⟨d, hd, ho⟩ fun _ _ _ => rfl⟩
  · intro m d hd hnone
    rcases update_eq_some hd with ⟨rfl, -⟩ | ⟨-, hd⟩
    · rw [hr] at hnone; cases hnone
    · exact hi.idle m d hd hnone
  · intro m q v hq hv
    have hmn : m ≠ n := by
      rintro rfl
      rw [hr] at hq; cases hq
      rw [hpend] at hv; cases hv
    obtain ⟨d, hd, ho⟩ := hi.resolved m q v hq hv
    exact ⟨d, (Function.update_of_ne hmn _ _).trans hd, ho⟩

theorem Honest.finish {n : Nat} {r : Runner V} {c : Coro V} {o : Outcome V} (hi : Honest s)
    (hr : s.runners n = some r) (hlive : r.state ≠ .finished) :
    Honest ({ s with coros := update s.coros n (some (c.advance (some o))) }.finish n r o) := by
  obtain ⟨hkey, -, hp, -⟩ := hi.live n r hr hlive
  -- A runner other than `n` that is still live has another ident.
  have hother : ∀ m q, s.runners m = some q → m ≠ n → q.state ≠ .finished → q.ident ≠ r.ident := by
    intro m q hq hmn hst hid
    have hkey' := (hi.live m q hq hst).1
    rw [hid, hkey] at hkey'
    exact hmn (Option.some.inj hkey').symm
  have hsettle : (r.settle o).1.ident = r.ident ∧ (r.settle o).1.coro = r.coro ∧
      ((r.settle o).1.future = .pending ∨ (r.settle o).1.future = .done o) := by
    unfold Runner.settle
    rw [hp]
    cases taken o
    · exact ⟨rfl, rfl, .inl hp⟩
    · exact ⟨rfl, rfl, .inr rfl⟩
  obtain ⟨hid, hco, hf⟩ := hsettle
  simp only [State.finish, State.setRunner]
  constructor
  case fresh =>
    intro m hm
    obtain ⟨hcm, hrun, hw⟩ := hi.fresh m hm
    have hmn : m ≠ n := by rintro rfl; rw [hr] at hrun; cases hrun
    exact ⟨(Function.update_of_ne hmn _ _).trans hcm, (Function.update_of_ne hmn _ _).trans hrun, hw⟩
  case key =>
    intro i m hm
    obtain ⟨hne, hm⟩ := erase_eq_some hm
    obtain ⟨q, hq, hqid, hst⟩ := hi.key i m hm
    have hmn : m ≠ n := by
      rintro rfl
      rw [hr] at hq; cases hq
      exact hne hqid.symm
    exact ⟨q, (Function.update_of_ne hmn _ _).trans hq, hqid, hst⟩
  case live =>
    intro m q hq hst
    rcases update_eq_some hq with ⟨-, rfl⟩ | ⟨hmn, hq⟩
    · exact absurd rfl hst
    · obtain ⟨hkey', hreq, hp', d, hd, ho⟩ := hi.live m q hq hst
      exact ⟨(Function.update_of_ne (hother m q hq hmn hst) _ _).trans hkey', hreq, hp', d,
        (Function.update_of_ne hmn _ _).trans hd, ho⟩
  case coro =>
    intro m q hq
    rcases update_eq_some hq with ⟨hmn, rfl⟩ | ⟨-, hq⟩
    · rw [hmn]
      exact hco.trans (hi.coro n r hr)
    · exact hi.coro m q hq
  case idle =>
    intro m d hd hnone
    obtain ⟨hmn, hnone⟩ := update_eq_none hnone
    rcases update_eq_some hd with ⟨rfl, -⟩ | ⟨-, hd⟩
    · exact absurd rfl hmn
    · exact hi.idle m d hd hnone
  case resolved =>
    intro m q v hq hv
    rcases update_eq_some hq with ⟨rfl, rfl⟩ | ⟨hmn, hq⟩
    · rcases hf with hf | hf
      · rw [hf] at hv; cases hv
      · rw [hf] at hv; cases hv
        exact ⟨_, Function.update_self .., rfl⟩
    · obtain ⟨d, hd, ho⟩ := hi.resolved m q v hq hv
      exact ⟨d, (Function.update_of_ne hmn _ _).trans hd, ho⟩
  case waiter =>
    intro w x hx
    obtain ⟨q, hq, hqid, hvals⟩ := hi.waiter w x hx
    by_cases hxn : x.future = n
    · rw [hxn, hr] at hq; cases hq
      refine ⟨_, (congrArg _ hxn).trans (Function.update_self n _ s.runners), hid.trans hqid,
        fun v hv => ?_⟩
      have hdone := hvals v hv
      rw [hp] at hdone; cases hdone
    · exact ⟨q, (Function.update_of_ne hxn _ _).trans hq, hqid, hvals⟩

theorem Honest.advance {n : Nat} {r : Runner V} {o : Option (Outcome V)} (hi : Honest s)
    (hr : s.runners n = some r) (hlive : r.state ≠ .finished) : Honest (s.advance n r o) := by
  obtain ⟨-, hreq, -, c, hc, -⟩ := hi.live n r hr hlive
  have hco := hi.coro n r hr
  obtain ⟨ident, coro, state, cancelRequested, future, callbacks⟩ := r
  dsimp only at hreq hco hlive
  subst hreq hco
  unfold State.advance
  simp only [hc, Option.map_some]
  cases o with
  | none => exact (hi.advanceCoro hr hlive).setRunner hr rfl rfl rfl (by simp [hlive]) rfl
  | some o => exact hi.finish hr hlive

theorem Honest.startRunner {n : Nat} {o : Option (Outcome V)} (hi : Honest s)
    (h : step s (.startRunner n o) = some t) :
    ∃ r, s.runners n = some r ∧ r.state ≠ .finished ∧ s.advance n r o = t := by
  obtain ⟨r, hr, hst, rfl⟩ := startRunner_iff.mp h
  have hlive : r.state ≠ .finished := by simp [hst]
  refine ⟨r, hr, hlive, ?_⟩
  rw [(hi.live n r hr hlive).2.1, if_neg (by simp)]

theorem setWaitFutureResult_ok {f g : Future V} {v : V}
    (h : setWaitFutureResult f g = .done (.ok v)) : g = .done (.ok v) ∨ f = .done (.ok v) := by
  cases g with
  | pending =>
    right
    cases f with
    | pending => cases h
    | done o =>
      unfold setWaitFutureResult at h
      cases htk : taken o <;> simp_all [Future.set, Future.result]
    | cancelled => cases h
  | done o =>
    left
    simpa [setWaitFutureResult, Future.set] using h
  | cancelled => exact .inl h

def Uncancelled : Label V → Prop
  | .cancelRunner _ => False
  | _ => True

theorem step_honest {a : Label V} (hi : Honest s) (h : step s a = some t) (hok : Uncancelled a) :
    Honest t := by
  cases a with
  | call ident =>
    cases h
    cases hk : s.running ident with
    | none => exact hi.call_create hk
    | some n => exact hi.call_join hk
  | startRunner n o =>
    obtain ⟨r, hr, hlive, rfl⟩ := hi.startRunner h
    exact hi.advance hr hlive
  | stepRunner n o =>
    obtain ⟨r, hr, hst, rfl⟩ := stepRunner_iff.mp h
    exact hi.advance hr (by simp [hst])
  | cancelRunner n => exact hok.elim
  | discardTask n =>
    obtain ⟨r, -, -, -, rfl⟩ := discardTask_iff.mp h
    exact { hi with }
  | startWaiter w =>
    obtain ⟨x, r, hx, hr, hst, rfl⟩ := startWaiter_iff.mp h
    rw [addDoneCallback_setWaiter]
    refine (hi.addDoneCallback hr).setWaiter (x := x) ?_ rfl rfl fun q v _ hv => ?_
    · rw [← hx]
      unfold State.addDoneCallback
      cases r.future <;> rfl
    · simp at hv
  | deliver w =>
    obtain ⟨x, r, hx, hr, -, rfl⟩ := deliver_iff.mp h
    have hi' : Honest { s with ready := s.ready.erase w } := { hi with }
    refine hi'.setWaiter hx rfl rfl fun q v hq hv => ?_
    rw [show s.runners x.future = some q from hq] at hr; cases hr
    rcases hv with hv | hv
    · rcases setWaitFutureResult_ok hv with h | h
      · exact .inl h
      · exact .inr (.inr h)
    · exact .inr (.inl hv)
  | resumeWaiter w =>
    obtain ⟨x, o, hx, -, hdone, rfl⟩ := resumeWaiter_iff.mp h
    refine hi.setWaiter hx rfl rfl fun q v _ hv => ?_
    rcases hv with hv | hv
    · exact .inl hv
    · cases hv; exact .inl hdone
  | cancelWaiter w =>
    obtain ⟨x, hx, ⟨-, rfl⟩ | ⟨-, rfl⟩⟩ := cancelWaiter_iff.mp h
    · refine hi.setWaiter hx rfl rfl fun q v _ hv => ?_
      rcases hv with hv | hv
      · exact .inl hv
      · cases hv
    · refine hi.setWaiter hx rfl rfl fun q v _ hv => ?_
      rcases hv with hv | hv
      · left
        cases hw : x.waitFuture <;> simp_all [Future.cancel]
      · cases hv

/-! ## What a step leaves -/

/-- Runners keep their idents, and coroutines their outcomes. -/
structure Keeps (s : State V) (a : Label V) (t : State V) : Prop where
  runner : ∀ n r, t.runners n = some r →
    (∃ q, s.runners n = some q ∧ q.ident = r.ident) ∨ a = .call r.ident ∧ n = s.calls
  outcome : ∀ n c o, s.coros n = some c → c.outcome = some o →
    ∃ d, t.coros n = some d ∧ d.outcome = some o

theorem keeps_of_same {a : Label V} (hr : t.runners = s.runners) (hc : t.coros = s.coros) :
    Keeps s a t :=
  ⟨fun _ r h => .inl ⟨r, hr ▸ h, rfl⟩, fun _ c _ h ho => ⟨c, hc ▸ h, ho⟩⟩

theorem keeps_of_setRunner {a : Label V} {n : Nat} {r r' : Runner V} (hr : s.runners n = some r)
    (hid : r'.ident = r.ident) (hrun : t.runners = update s.runners n (some r'))
    (hc : ∀ m c o, s.coros m = some c → c.outcome = some o →
      ∃ d, t.coros m = some d ∧ d.outcome = some o) : Keeps s a t := by
  refine ⟨fun m q hq => .inl ?_, hc⟩
  rw [hrun] at hq
  rcases update_eq_some hq with ⟨rfl, rfl⟩ | ⟨-, hq⟩
  · exact ⟨r, hr, hid.symm⟩
  · exact ⟨q, hq, rfl⟩

theorem advance_keeps {a : Label V} {n : Nat} {r : Runner V} {o : Option (Outcome V)}
    (hi : Honest s) (hr : s.runners n = some r) (hlive : r.state ≠ .finished) :
    Keeps s a (s.advance n r o) := by
  obtain ⟨-, -, -, c, hc, hnone⟩ := hi.live n r hr hlive
  have hcoros : ∀ m d o', s.coros m = some d → d.outcome = some o' →
      ∃ e, (s.advance n r o).coros m = some e ∧ e.outcome = some o' := by
    intro m d o' hd ho
    have hmn : m ≠ r.coro := by
      rw [hi.coro n r hr]
      rintro rfl
      rw [hc] at hd; cases hd
      rw [hnone] at ho; cases ho
    refine ⟨d, ?_, ho⟩
    unfold State.advance
    cases o <;> exact (Function.update_of_ne hmn _ _).trans hd
  cases o with
  | none =>
    refine keeps_of_setRunner hr ?_ rfl hcoros
    rfl
  | some o =>
    refine keeps_of_setRunner hr ?_ rfl hcoros
    unfold Runner.settle
    split
    · split <;> rfl
    · rfl

theorem call_keeps (hi : Honest s) (ident : String) : Keeps s (.call ident) (s.call ident) := by
  obtain ⟨hc, hrun, -⟩ := hi.fresh s.calls (Nat.le_refl _)
  cases hk : s.running ident with
  | some n =>
    rw [call_join hk]
    exact ⟨fun m r h => .inl ⟨r, h, rfl⟩, fun m c o h ho => ⟨c, update_fresh hc h, ho⟩⟩
  | none =>
    rw [call_create hk]
    refine ⟨fun m r h => ?_, fun m c o h ho => ⟨c, update_fresh hc h, ho⟩⟩
    rcases update_eq_some h with ⟨hm, rfl⟩ | ⟨-, h⟩
    · exact .inr ⟨rfl, hm⟩
    · exact .inl ⟨r, h, rfl⟩

theorem step_keeps {a : Label V} (hi : Honest s) (h : step s a = some t) (hok : Uncancelled a) :
    Keeps s a t := by
  cases a with
  | call ident => cases h; exact call_keeps hi ident
  | startRunner n o =>
    obtain ⟨r, hr, hlive, rfl⟩ := hi.startRunner h
    exact advance_keeps hi hr hlive
  | stepRunner n o =>
    obtain ⟨r, hr, hst, rfl⟩ := stepRunner_iff.mp h
    exact advance_keeps hi hr (by simp [hst])
  | cancelRunner n => exact hok.elim
  | discardTask n =>
    obtain ⟨r, -, -, -, rfl⟩ := discardTask_iff.mp h
    exact keeps_of_same rfl rfl
  | startWaiter w =>
    obtain ⟨x, r, -, hr, -, rfl⟩ := startWaiter_iff.mp h
    unfold State.addDoneCallback
    split
    · refine keeps_of_setRunner hr ?_ rfl fun _ c _ hc ho => ⟨c, hc, ho⟩
      rfl
    · exact keeps_of_same rfl rfl
  | deliver w =>
    obtain ⟨x, r, -, -, -, rfl⟩ := deliver_iff.mp h
    exact keeps_of_same rfl rfl
  | resumeWaiter w =>
    obtain ⟨x, o, -, -, -, rfl⟩ := resumeWaiter_iff.mp h
    exact keeps_of_same rfl rfl
  | cancelWaiter w =>
    obtain ⟨x, -, ⟨-, rfl⟩ | ⟨-, rfl⟩⟩ := cancelWaiter_iff.mp h <;> exact keeps_of_same rfl rfl

/-! ## Calls that are awaited -/

theorem Honest.call (hi : Honest s) (ident : String) : Honest (s.call ident) :=
  step_honest hi (a := .call ident) rfl trivial

theorem call_waiter (hi : Honest s) (ident : String) :
    ∃ n r, (s.call ident).waiters s.calls = some ⟨ident, n, .unstarted, .pending⟩ ∧
      (s.call ident).runners n = some r ∧ r.ident = ident ∧ r.state ≠ .finished ∧
      (s.running ident = none → n = s.calls) := by
  cases hk : s.running ident with
  | none =>
    rw [call_create hk]
    exact ⟨_, _, Function.update_self .., Function.update_self .., rfl, by simp, fun _ => rfl⟩
  | some n =>
    obtain ⟨r, hr, hid, hst⟩ := hi.key ident n hk
    rw [call_join hk]
    exact ⟨n, r, Function.update_self .., hr, hid, hst, fun h => by cases h⟩

theorem call_and_wait (hi : Honest s) (ident : String) :
    ∃ t n r, step (s.call ident) (.startWaiter s.calls) = some t ∧
      t.waiters s.calls = some ⟨ident, n, .awaiting, .pending⟩ ∧ t.runners n = some r ∧
      r.ident = ident ∧ r.state ≠ .finished ∧ (s.running ident = none → n = s.calls) := by
  obtain ⟨n, r, hx, hr, hid, hst, hown⟩ := call_waiter hi ident
  have hp := ((hi.call ident).live n r hr hst).2.2.1
  refine ⟨_, n, { r with callbacks := r.callbacks ++ [s.calls] },
    startWaiter_iff.mpr ⟨_, r, hx, hr, rfl, rfl⟩, ?_, ?_, hid, hst, hown⟩ <;>
    simp only [State.addDoneCallback, hp]
  · exact Function.update_self ..
  · exact Function.update_self ..

end LibraryService.Reduced
