import LibraryService.Application.Answers
import LibraryService.OpenLibrary.Stack

/-!
# Runs of the client stack

What the calls of the cached client return, and what reaches the upstream client.
-/

open PartialMap Transition LibraryService.Reduced LibraryService.Python

namespace LibraryService.OpenLibrary

variable {V : Type} {printable : Char → Bool} {earlier : SearchArgs → V → Prop} {s t : Stack V}
  {args : SearchArgs} {c c' : Call V}

/-! ## Keys -/

theorem kwargs_perm_injective {args args' : SearchArgs} (h : args.kwargs.Perm args'.kwargs) :
    args = args' := by
  have hmem : ∀ e ∈ args.kwargs, e ∈ args'.kwargs := fun e he => h.mem_iff.mp he
  simp [SearchArgs.kwargs] at hmem
  cases args; cases args'
  simpa using hmem

theorem cacheKey_args {call call' : SearchCall}
    (h : cacheKey printable call = cacheKey printable call') : call.args = call'.args := by
  have hkwargs := (defaultKey_injective h).2
  have hperm := call.perm.symm
  rw [hkwargs] at hperm
  exact kwargs_perm_injective (hperm.trans call'.perm)

theorem reducedKey_injective {args args' : SearchArgs}
    (h : reducedKey printable args = reducedKey printable args') : args = args' :=
  kwargs_perm_injective (.of_eq (defaultKey_injective h).2)

/-! ## The invariant -/

/-- A coroutine asked the upstream client for these arguments, and got this value. -/
def Produced (s : Stack V) (args : SearchArgs) (v : V) : Prop :=
  ∃ n c, s.requests n = some args ∧ s.reducer.coros n = some c ∧ c.outcome = some (.ok v)

/-- The value is one that the upstream client produced in the run, or earlier. -/
def Known (earlier : SearchArgs → V → Prop) (s : Stack V) (args : SearchArgs) (v : V) : Prop :=
  earlier args v ∨ Produced s args v

structure Call.Sound (printable : Char → Bool) (earlier : SearchArgs → V → Prop) (s : Stack V)
    (c : Call V) : Prop where
  answer : ∀ v, c.phase = .looked (some v) ∨ c.phase = .returned v → Known earlier s c.search.args v
  write : ∀ v, c.write = .sent v ∨ c.write = .stored v ∨ c.phase = .setting v →
    Produced s c.search.args v
  joining : ∀ w, c.phase = .joining w →
    ∃ x, s.reducer.waiters w = some x ∧ x.ident = reducedKey printable c.search.args

structure Sound (printable : Char → Bool) (earlier : SearchArgs → V → Prop) (s : Stack V) : Prop where
  reducer : Honest s.reducer
  requests : ∀ n r, s.reducer.runners n = some r →
    ∃ args, s.requests n = some args ∧ r.ident = reducedKey printable args
  cache : ∀ call v, s.cache (cacheKey printable call) = some v → Known earlier s call.args v
  calls : ∀ c ∈ s.calls, c.Sound printable earlier s

/-- What was produced stays so, and waiters keep what they wait for. -/
structure Grows (s t : Stack V) : Prop where
  produced : ∀ args v, Produced s args v → Produced t args v
  waiter : ∀ w x, s.reducer.waiters w = some x →
    ∃ y, t.reducer.waiters w = some y ∧ y.ident = x.ident

theorem Known.mono (h : Grows s t) {v : V} (hv : Known earlier s args v) : Known earlier t args v :=
  hv.imp_right (h.produced args v)

theorem Call.Sound.mono (h : Grows s t) (hc : c.Sound printable earlier s) :
    c.Sound printable earlier t := by
  refine ⟨fun v hv => (hc.answer v hv).mono h, fun v hv => h.produced _ _ (hc.write v hv), ?_⟩
  intro w hw
  obtain ⟨x, hx, hid⟩ := hc.joining w hw
  obtain ⟨y, hy, hyid⟩ := h.waiter w x hx
  exact ⟨y, hy, hyid.trans hid⟩

theorem Call.Sound.setPhase (hc : c.Sound printable earlier s) {p : Phase V}
    (hans : ∀ v, p = .looked (some v) ∨ p = .returned v → Known earlier s c.search.args v)
    (hset : ∀ v, p ≠ .setting v) (hjoin : ∀ w, p ≠ .joining w) :
    { c with phase := p }.Sound printable earlier s :=
  ⟨hans, fun v hv => hc.write v (hv.imp_right (·.imp_right fun h => absurd h (hset v))),
    fun w hw => absurd hw (hjoin w)⟩

theorem Sound.ofParts {cache : String → Option V} {calls : List (Call V)}
    (hs : Sound printable earlier s)
    (hcache : ∀ call v, cache (cacheKey printable call) = some v → Known earlier s call.args v)
    (hcalls : ∀ c ∈ calls, c.Sound printable earlier s) :
    Sound printable earlier { s with cache, calls } := by
  have hgrows : Grows s { s with cache, calls } := ⟨fun _ _ h => h, fun _ x h => ⟨x, h, rfl⟩⟩
  exact ⟨hs.reducer, hs.requests, fun call v hv => (hcache call v hv).mono hgrows,
    fun c hc => (hcalls c hc).mono hgrows⟩

theorem Sound.setCall {i : Nat} (hs : Sound printable earlier s) (hc : c.Sound printable earlier s) :
    Sound printable earlier (s.setCall i c) :=
  hs.ofParts hs.cache fun d hd => (List.mem_or_eq_of_mem_set hd).elim (hs.calls d) fun h => h ▸ hc

theorem Sound.call {i : Nat} (hs : Sound printable earlier s) (hc : s.calls[i]? = some c) :
    c.Sound printable earlier s :=
  hs.calls c (List.mem_of_getElem? hc)

theorem Sound.reducerStep {a : Label V} {reducer : State V} (hs : Sound printable earlier s)
    (h : Reduced.step s.reducer a = some reducer) (hok : Uncancelled a)
    (hcall : ∀ ident, a ≠ .call ident) :
    Grows s { s with reducer } ∧ Sound printable earlier { s with reducer } := by
  have hkeeps := step_keeps hs.reducer h hok
  have hgrows : Grows s { s with reducer } := by
    refine ⟨fun args v ⟨n, d, hreq, hd, ho⟩ => ?_, fun w x hx => ?_⟩
    · obtain ⟨e, he, ho'⟩ := hkeeps.outcome n d _ hd ho
      exact ⟨n, e, hreq, he, ho'⟩
    · obtain ⟨y, hy, hid, -⟩ := waiter_keeps (hs.reducer.fresh _ (Nat.le_refl _)).2.2 h hx
      exact ⟨y, hy, hid⟩
  refine ⟨hgrows, step_honest hs.reducer h hok, fun n r hr => ?_, fun call v hv =>
    (hs.cache call v hv).mono hgrows, fun d hd => (hs.calls d hd).mono hgrows⟩
  rcases hkeeps.runner n r hr with ⟨q, hq, hid⟩ | ⟨ha, -⟩
  · obtain ⟨args, hreq, hqid⟩ := hs.requests n q hq
    exact ⟨args, hreq, hid.symm.trans hqid⟩
  · exact absurd ha (hcall _)

theorem Sound.callReducer (hs : Sound printable earlier s) (args : SearchArgs) :
    let t : Stack V := { s with
      reducer := s.reducer.call (reducedKey printable args)
      requests := Function.update s.requests s.reducer.calls (some args) }
    Grows s t ∧ Sound printable earlier t := by
  intro t
  obtain ⟨hc, hrun, hw⟩ := hs.reducer.fresh _ (Nat.le_refl _)
  have hkeeps := call_keeps hs.reducer (reducedKey printable args)
  have hgrows : Grows s t := by
    refine ⟨fun args' v ⟨n, d, hreq, hd, ho⟩ => ?_, fun w x hx => ?_⟩
    · obtain ⟨e, he, ho'⟩ := hkeeps.outcome n d _ hd ho
      have hn : n ≠ s.reducer.calls := by rintro rfl; rw [hc] at hd; cases hd
      exact ⟨n, e, (Function.update_of_ne hn _ _).trans hreq, he, ho'⟩
    · obtain ⟨y, hy, hid, -⟩ := waiter_keeps (a := .call (reducedKey printable args)) hw rfl hx
      exact ⟨y, hy, hid⟩
  refine ⟨hgrows, step_honest (a := .call (reducedKey printable args)) hs.reducer rfl trivial,
    fun n r hr => ?_, fun call v hv => (hs.cache call v hv).mono hgrows,
    fun d hd => (hs.calls d hd).mono hgrows⟩
  rcases hkeeps.runner n r hr with ⟨q, hq, hid⟩ | ⟨ha, rfl⟩
  · obtain ⟨args', hreq, hqid⟩ := hs.requests n q hq
    have hn : n ≠ s.reducer.calls := by rintro rfl; rw [hrun] at hq; cases hq
    exact ⟨args', (Function.update_of_ne hn _ _).trans hreq, hid.symm.trans hqid⟩
  · exact ⟨args, Function.update_self .., (Label.call.inj ha).symm⟩

theorem join_sound {i : Nat} (hs : Sound printable earlier s) (hc : s.calls[i]? = some c)
    (h : s.join printable i c = some t) : Sound printable earlier t := by
  obtain ⟨reducer, hstart, rfl⟩ := join_eq_some.mp h
  -- The reducer takes two steps: it is called, and the waiter runs up to its `await`.
  obtain ⟨hgrows, hs'⟩ := hs.callReducer c.search.args
  obtain ⟨hgrows', hs''⟩ := hs'.reducerStep hstart trivial (by simp)
  obtain ⟨t, n, r, ht, hx, -⟩ := call_and_wait hs.reducer (reducedKey printable c.search.args)
  obtain rfl := Option.some.inj (ht.symm.trans hstart)
  have hc' := ((hs.call hc).mono hgrows).mono hgrows'
  refine hs''.setCall ⟨by simp, fun v hv => hc'.write v ?_, fun w hw => ?_⟩
  · exact hv.imp_right (·.imp_right fun h => by cases h)
  · cases hw
    exact ⟨_, hx, rfl⟩

theorem Sound.waiter_produced (hs : Sound printable earlier s) {w : Nat} {x : Waiter V} {v : V}
    (hx : s.reducer.waiters w = some x) (hid : x.ident = reducedKey printable args)
    (hst : x.state = .returned (.ok v)) : Produced s args v := by
  obtain ⟨r, hr, hrid, hvals⟩ := hs.reducer.waiter w x hx
  obtain ⟨d, hd, ho⟩ := hs.reducer.resolved _ r v hr (hvals v (.inr hst))
  obtain ⟨args', hreq, hkey⟩ := hs.requests _ r hr
  have hargs := reducedKey_injective (hkey.symm.trans (hrid.trans hid))
  exact ⟨x.future, d, hargs ▸ hreq, hd, ho⟩

theorem proceed_sound (hc : c.Sound printable earlier s) {o : Outcome V}
    (ho : ∀ v, o = .ok v → Produced s c.search.args v) : (c.proceed o).Sound printable earlier s := by
  cases o with
  | error e => exact hc.setPhase (by simp) (by simp) (by simp)
  | ok result =>
    refine ⟨by simp [Call.proceed], fun v hv => ?_, by simp [Call.proceed]⟩
    simp only [Call.proceed, Write.sent.injEq, Phase.setting.injEq, reduceCtorEq, false_or,
      or_self] at hv
    exact hv ▸ ho result rfl

theorem step_sound {a : StackLabel V} (hs : Sound printable earlier s)
    (h : s.step printable a = some t) (hok : ∀ n, a ≠ .loop (.cancelRunner n)) :
    Sound printable earlier t := by
  cases a with
  | search call =>
    cases h
    refine hs.ofParts hs.cache fun d hd => ?_
    rcases List.mem_append.mp hd with hd | hd
    · exact hs.calls d hd
    · rw [List.mem_singleton.mp hd]
      exact ⟨by simp, by simp, by simp⟩
  | cacheGet i =>
    obtain ⟨c, hc, -, rfl⟩ := cacheGet_eq_some h
    refine hs.setCall ((hs.call hc).setPhase (fun v hv => ?_) (by simp) (by simp))
    simp only [Phase.looked.injEq, reduceCtorEq, or_false] at hv
    exact hs.cache _ v hv
  | resumeGet i =>
    obtain ⟨c, hc, ⟨result, hp, rfl⟩ | ⟨-, hjoin⟩⟩ := resumeGet_eq_some h
    · refine hs.setCall ((hs.call hc).setPhase (fun v hv => ?_) (by simp) (by simp))
      simp only [Phase.returned.injEq, reduceCtorEq, false_or] at hv
      exact hv ▸ (hs.call hc).answer result (.inl hp)
    · exact join_sound hs hc hjoin
  | loop a =>
    obtain ⟨hloop, reducer, hstep, rfl⟩ := loop_eq_some h
    refine (hs.reducerStep hstep ?_ ?_).2
    · cases a <;> first | trivial | exact hok _ rfl
    · rintro ident rfl; cases hloop
  | resumeWaiter i =>
    obtain ⟨c, w, reducer, x, o, hc, hp, hstep, hx, hst, rfl⟩ := resumeWaiter_eq_some h
    obtain ⟨hgrows, hs'⟩ := hs.reducerStep hstep trivial (by simp)
    have hc' := (hs.call hc).mono hgrows
    obtain ⟨y, hy, hid⟩ := hc'.joining w hp
    obtain rfl := Option.some.inj (hx.symm.trans hy)
    exact hs'.setCall (proceed_sound hc' fun v ho => hs'.waiter_produced hx hid (ho ▸ hst))
  | cacheSet i =>
    obtain ⟨c, result, hc, hw, rfl⟩ := cacheSet_eq_some h
    have hresult := (hs.call hc).write result (.inl hw)
    refine hs.ofParts (fun call v hv => ?_) fun d hd => ?_
    · rcases update_eq_some hv with ⟨hkey, rfl⟩ | ⟨-, hv⟩
      · rw [cacheKey_args hkey]
        exact .inr hresult
      · exact hs.cache call v hv
    · rcases List.mem_or_eq_of_mem_set hd with hd | rfl
      · exact hs.calls d hd
      · refine { hs.call hc with write := fun v hv => ?_ }
        rcases hv with hv | hv | hv
        · cases hv
        · cases hv; exact hresult
        · exact (hs.call hc).write v (.inr (.inr hv))
  | resumeSet i =>
    obtain ⟨c, result, hc, hp, rfl⟩ := resumeSet_eq_some h
    refine hs.setCall ((hs.call hc).setPhase (fun v hv => ?_) (by simp) (by simp))
    simp only [Phase.returned.injEq, reduceCtorEq, false_or] at hv
    exact hv ▸ .inr ((hs.call hc).write result (.inr (.inr hp)))
  | cacheFails i e =>
    obtain ⟨c, hc, rfl⟩ := cacheFails_eq_some h
    exact hs.setCall ((hs.call hc).setPhase (by simp) (by simp) (by simp))
  | expire key =>
    cases h
    exact hs.ofParts (fun call v hv => hs.cache call v (erase_eq_some hv).2) hs.calls
  | cancel i =>
    obtain ⟨c, hc, rfl | ⟨w, reducer, hstep, rfl⟩⟩ := cancel_eq_some h
    · exact hs.setCall ((hs.call hc).setPhase (by simp) (by simp) (by simp))
    · obtain ⟨hgrows, hs'⟩ := hs.reducerStep hstep trivial (by simp)
      have hc' := (hs.call hc).mono hgrows
      exact hs'.setCall (hc'.setPhase (by simp) (by simp) (by simp))

/-! ## Transparency -/

/-- Run `n` asks the upstream client for these arguments, and has not ended. -/
def Searching (s : Stack V) (args : SearchArgs) (n : Nat) : Prop :=
  ∃ r, s.reducer.runners n = some r ∧ r.state ≠ .finished ∧ s.requests r.coro = some args

/-- The upstream request of run `n` is in flight. -/
def InFlight (s : Stack V) (args : SearchArgs) (n : Nat) : Prop :=
  ∃ r, s.reducer.runners n = some r ∧ r.state = .awaiting ∧ s.requests r.coro = some args

/-- Call `i` waits for run `n`. -/
def WaitsFor (s : Stack V) (i n : Nat) : Prop :=
  ∃ c w x, s.calls[i]? = some c ∧ c.phase = .joining w ∧ s.reducer.waiters w = some x ∧ x.future = n

structure Transparent (printable : Char → Bool) (earlier : SearchArgs → V → Prop) (s : Stack V) :
    Prop where
  returned : ∀ c ∈ s.calls, ∀ v, c.phase = .returned v → Known earlier s c.search.args v
  cached : ∀ call v, s.cache (cacheKey printable call) = some v → Known earlier s call.args v
  /-- What a step puts into the cache was produced for the call that wrote it. -/
  written : ∀ a t key v, s.step printable a = some t → t.cache key = some v →
    s.cache key = some v ∨
      ∃ c ∈ s.calls, key = cacheKey printable c.search ∧ Produced s c.search.args v
  one_in_flight : ∀ args m n, InFlight s args m → InFlight s args n → m = n
  /-- A call that missed the cache waits for a search that goes on, a new one if there is none. -/
  retries : ∀ i c, s.calls[i]? = some c → c.phase = .looked none →
    ∃ t n, s.step printable (.resumeGet i) = some t ∧ WaitsFor t i n ∧
      Searching t c.search.args n ∧
      ((∀ m, ¬ Searching s c.search.args m) → n = s.reducer.calls)

theorem Sound.request (hs : Sound printable earlier s) {n : Nat} {r : Runner V}
    (hr : s.reducer.runners n = some r) :
    s.requests r.coro = some args ↔ r.ident = reducedKey printable args := by
  obtain ⟨args', hreq, hid⟩ := hs.requests n r hr
  rw [hs.reducer.coro n r hr, hreq, hid, Option.some.injEq]
  exact ⟨fun h => by rw [h], reducedKey_injective⟩

theorem Sound.searching_iff (hs : Sound printable earlier s) {n : Nat} :
    Searching s args n ↔ s.reducer.running (reducedKey printable args) = some n := by
  constructor
  · rintro ⟨r, hr, hst, hreq⟩
    rw [← (hs.request hr).mp hreq]
    exact (hs.reducer.live n r hr hst).1
  · intro h
    obtain ⟨r, hr, hid, hst⟩ := hs.reducer.key _ n h
    exact ⟨r, hr, hst, (hs.request hr).mpr hid⟩

theorem Sound.one_in_flight (hs : Sound printable earlier s) {m n : Nat} (hm : InFlight s args m)
    (hn : InFlight s args n) : m = n := by
  obtain ⟨q, hq, hqst, hqreq⟩ := hm
  obtain ⟨r, hr, hrst, hrreq⟩ := hn
  have hkey := hs.searching_iff.mp ⟨q, hq, by simp [hqst], hqreq⟩
  rw [hs.searching_iff.mp ⟨r, hr, by simp [hrst], hrreq⟩] at hkey
  exact (Option.some.inj hkey).symm

theorem step_cache {a : StackLabel V} (h : s.step printable a = some t) :
    t.cache = s.cache ∨ (∃ key, t.cache = Function.update s.cache key none) ∨
      ∃ c ∈ s.calls, ∃ v, c.write = .sent v ∧
        t.cache = Function.update s.cache (cacheKey printable c.search) (some v) := by
  cases a with
  | search call => cases h; exact .inl rfl
  | expire key => cases h; exact .inr (.inl ⟨key, rfl⟩)
  | cacheGet i =>
    obtain ⟨c, -, -, rfl⟩ := cacheGet_eq_some h
    exact .inl rfl
  | resumeGet i =>
    obtain ⟨c, -, ⟨result, -, rfl⟩ | ⟨-, hjoin⟩⟩ := resumeGet_eq_some h
    · exact .inl rfl
    · obtain ⟨reducer, -, rfl⟩ := join_eq_some.mp hjoin
      exact .inl rfl
  | loop a =>
    obtain ⟨-, reducer, -, rfl⟩ := loop_eq_some h
    exact .inl rfl
  | resumeWaiter i =>
    obtain ⟨c, w, reducer, x, o, -, -, -, -, -, rfl⟩ := resumeWaiter_eq_some h
    exact .inl rfl
  | cacheSet i =>
    obtain ⟨c, result, hc, hw, rfl⟩ := cacheSet_eq_some h
    exact .inr (.inr ⟨c, List.mem_of_getElem? hc, result, hw, rfl⟩)
  | resumeSet i =>
    obtain ⟨c, result, -, -, rfl⟩ := resumeSet_eq_some h
    exact .inl rfl
  | cacheFails i e =>
    obtain ⟨c, -, rfl⟩ := cacheFails_eq_some h
    exact .inl rfl
  | cancel i =>
    obtain ⟨c, -, rfl | ⟨w, reducer, -, rfl⟩⟩ := cancel_eq_some h
    · exact .inl rfl
    · exact .inl rfl

theorem Sound.written (hs : Sound printable earlier s) {a : StackLabel V} {key : String} {v : V}
    (h : s.step printable a = some t) (hv : t.cache key = some v) :
    s.cache key = some v ∨
      ∃ c ∈ s.calls, key = cacheKey printable c.search ∧ Produced s c.search.args v := by
  rcases step_cache h with hsame | ⟨key', hexp⟩ | ⟨c, hc, result, hw, hset⟩
  · exact .inl (hsame ▸ hv)
  · rw [hexp] at hv
    exact .inl (erase_eq_some hv).2
  · rw [hset] at hv
    rcases update_eq_some hv with ⟨hkey, rfl⟩ | ⟨-, hv⟩
    · exact .inr ⟨c, hc, hkey, (hs.calls c hc).write _ (.inl hw)⟩
    · exact .inl hv

theorem Sound.retries (hs : Sound printable earlier s) {i : Nat} (hc : s.calls[i]? = some c)
    (hp : c.phase = .looked none) : ∃ t n, s.step printable (.resumeGet i) = some t ∧
      WaitsFor t i n ∧ Searching t c.search.args n ∧
      ((∀ m, ¬ Searching s c.search.args m) → n = s.reducer.calls) := by
  obtain ⟨reducer, n, r, hstart, hx, hr, hid, hst, hown⟩ :=
    call_and_wait hs.reducer (reducedKey printable c.search.args)
  have hjoin : s.join printable i c = some _ := join_eq_some.mpr ⟨reducer, hstart, rfl⟩
  have hstep : s.step printable (.resumeGet i) = s.join printable i c := by
    simp [Stack.step, hc, hp]
  refine ⟨_, n, hstep.trans hjoin, ⟨{ c with phase := .joining s.reducer.calls }, _, _, ?_, rfl, hx, rfl⟩,
    ⟨r, hr, hst, ((join_sound hs hc hjoin).request hr).mpr hid⟩, fun hnone => hown ?_⟩
  · obtain ⟨hi, -⟩ := List.getElem?_eq_some_iff.mp hc
    exact List.getElem?_set_self hi
  · cases hk : s.reducer.running (reducedKey printable c.search.args) with
    | none => rfl
    | some m => exact absurd (hs.searching_iff.mpr hk) (hnone m)

theorem transparent_of_sound (hs : Sound printable earlier s) : Transparent printable earlier s where
  returned c hc v hv := (hs.calls c hc).answer v (.inr hv)
  cached := hs.cache
  written _ _ _ _ h hv := hs.written h hv
  one_in_flight _ _ _ hm hn := hs.one_in_flight hm hn
  retries _ _ hc hp := hs.retries hc hp

/-- **The client stack is transparent**, in every state that a run without cancelled runner tasks
reaches from a cache of values that the upstream client produced earlier. -/
theorem client_stack_transparent {cache : String → Option V}
    (hcache : ∀ call v, cache (cacheKey printable call) = some v → earlier call.args v)
    {ls : List (StackLabel V)} (h : Run (ofStep (Stack.step printable)) (Stack.init cache) ls s)
    (hls : ∀ a ∈ ls, ∀ n, a ≠ .loop (.cancelRunner n)) : Transparent printable earlier s := by
  have hinit : Sound printable earlier (Stack.init cache) :=
    ⟨init_honest, fun n r hr => (by cases hr), fun call v hv => .inl (hcache call v hv),
      fun c hc => absurd hc List.not_mem_nil⟩
  exact transparent_of_sound ((h.restrict hls).invariant hinit fun _ _ _ hs hstep =>
    step_sound hs hstep.1 hstep.2)

def inOrder (args : SearchArgs) : SearchCall := ⟨args, args.kwargs, .refl _⟩

def reversed (args : SearchArgs) : SearchCall := ⟨args, args.kwargs.reverse, List.reverse_perm _⟩

def iliad : SearchArgs := ⟨"iliad", 10, 0⟩

def odyssey : SearchArgs := ⟨"odyssey", 10, 0⟩

def oldCache : String → Option Nat :=
  Function.update (fun _ => none) (cacheKey (fun _ => true) (inOrder odyssey)) (some 5)

/-- Two calls share a search, and a third finds the old entry. -/
def sharedSearch : List (StackLabel Nat) :=
  [.search (inOrder iliad), .search (reversed iliad), .cacheGet 0, .cacheGet 1, .resumeGet 0,
    .resumeGet 1, .loop (.startRunner 0 none), .loop (.stepRunner 0 (some (.ok 7))),
    .loop (.deliver 0), .resumeWaiter 0, .cacheSet 0, .resumeSet 0, .search (inOrder odyssey),
    .cacheGet 2, .resumeGet 2]

theorem client_stack_transparent_shared :
    ∃ s, exec (Stack.step fun _ => true) (Stack.init oldCache) sharedSearch = some s ∧
      Transparent (fun _ => true) (fun args v => args = odyssey ∧ v = 5) s := by
  obtain ⟨s, hs⟩ := Option.isSome_iff_exists.mp (by decide :
    (exec (Stack.step fun _ => true) (Stack.init oldCache) sharedSearch).isSome = true)
  refine ⟨s, hs, client_stack_transparent (fun call v hv => ?_) (run_of_exec hs) ?_⟩
  · rcases update_eq_some hv with ⟨hkey, rfl⟩ | ⟨-, hv⟩
    · exact ⟨cacheKey_args hkey, rfl⟩
    · cases hv
  · simp [sharedSearch]

end LibraryService.OpenLibrary
