import LibraryService.Application.Starts
import LibraryService.OpenLibrary.StackRuns

/-!
# How often the upstream client is asked

Calls of the cached client for one search, side by side.
-/

open PartialMap Transition LibraryService.Reduced

namespace LibraryService.OpenLibrary

variable {V : Type} {printable : Char → Bool} {earlier : SearchArgs → V → Prop} {args : SearchArgs}
  {s t : Stack V} {a : StackLabel V} {m n : Nat}

/-- Calls for these arguments only, nothing that expires, fails or is cancelled, and an upstream
client that always succeeds. -/
def Calm (args : SearchArgs) : StackLabel V → Prop
  | .search call => call.args = args
  | .loop (.startRunner _ (some o)) | .loop (.stepRunner _ (some o)) => ∃ v, o = .ok v
  | .loop (.cancelRunner _) | .cacheFails _ _ | .expire _ | .cancel _ => False
  | _ => True

/-- A call that missed the cache does not come to the reducer after a search has ended. -/
def InTime (s : Stack V) : StackLabel V → Prop
  | .resumeGet i => ∀ c, s.calls[i]? = some c → c.phase = .looked none →
      ∀ n r, s.reducer.runners n = some r → r.state ≠ .finished
  | _ => True

/-- The upstream request of coroutine `n` was made. -/
def Asked (s : Stack V) (n : Nat) : Prop := ∃ c, s.reducer.coros n = some c ∧ 0 < c.steps

/-- Every call has returned, and every task has come to its end. -/
structure Ended (s : Stack V) : Prop where
  calls : ∀ c ∈ s.calls, ∃ v, c.phase = .returned v
  runners : ∀ n r, s.reducer.runners n = some r → r.state = .finished

/-! ## The reducer below a step of the stack -/

theorem step_reducer (h : s.step printable a = some t) (ha : Calm args a) :
    (∃ l, Run (ofStep Reduced.step) s.reducer l t.reducer ∧ ∀ b ∈ l, Quiet b) ∨
      ∃ i c, a = .resumeGet i ∧ s.calls[i]? = some c ∧ c.phase = .looked none ∧
        Reduced.step (s.reducer.call (reducedKey printable c.search.args))
          (.startWaiter s.reducer.calls) = some t.reducer := by
  have hsame : ∀ {r}, r = s.reducer →
      ∃ l, Run (ofStep Reduced.step) s.reducer l r ∧ ∀ b ∈ l, Quiet b := by
    rintro r rfl
    exact ⟨[], .nil, by simp⟩
  cases a with
  | search call => cases h; exact .inl (hsame rfl)
  | cacheGet i =>
    obtain ⟨c, -, -, rfl⟩ := cacheGet_eq_some h
    exact .inl (hsame rfl)
  | resumeGet i =>
    obtain ⟨c, hc, ⟨result, -, rfl⟩ | ⟨hp, hjoin⟩⟩ := resumeGet_eq_some h
    · exact .inl (hsame rfl)
    · obtain ⟨reducer, hstart, rfl⟩ := join_eq_some.mp hjoin
      exact .inr ⟨i, c, rfl, hc, hp, hstart⟩
  | loop b =>
    obtain ⟨hloop, reducer, hstep, rfl⟩ := loop_eq_some h
    refine .inl ⟨[b], .single hstep, ?_⟩
    rw [List.forall_mem_singleton]
    constructor
    · cases b with
      | startRunner n o | stepRunner n o =>
        cases o with
        | none => trivial
        | some o => obtain ⟨v, rfl⟩ := ha; rfl
      | cancelRunner n => exact ha
      | _ => trivial
    · rintro ident rfl
      cases hloop
  | resumeWaiter i =>
    obtain ⟨c, w, reducer, x, o, -, -, hstep, -, -, rfl⟩ := resumeWaiter_eq_some h
    refine .inl ⟨[.resumeWaiter w], .single hstep, ?_⟩
    rw [List.forall_mem_singleton]
    exact ⟨trivial, nofun⟩
  | cacheSet i =>
    obtain ⟨c, result, -, -, rfl⟩ := cacheSet_eq_some h
    exact .inl (hsame rfl)
  | resumeSet i =>
    obtain ⟨c, result, -, -, rfl⟩ := resumeSet_eq_some h
    exact .inl (hsame rfl)
  | cacheFails i e => exact ha.elim
  | expire key => exact ha.elim
  | cancel i => exact ha.elim

theorem set_args {calls : List (Call V)} {i : Nat} {c c' : Call V}
    (h : ∀ d ∈ calls, d.search.args = args) (hc : calls[i]? = some c) (hsearch : c'.search = c.search) :
    ∀ d ∈ calls.set i c', d.search.args = args := by
  intro d hd
  rcases List.mem_or_eq_of_mem_set hd with hd | rfl
  · exact h d hd
  · rw [hsearch]
    exact h c (List.mem_of_getElem? hc)

theorem step_args (h : s.step printable a = some t) (ha : Calm args a)
    (hargs : ∀ c ∈ s.calls, c.search.args = args) : ∀ c ∈ t.calls, c.search.args = args := by
  cases a with
  | search call =>
    cases h
    intro c hc
    rcases List.mem_append.mp hc with hc | hc
    · exact hargs c hc
    · rw [List.mem_singleton.mp hc]
      exact ha
  | cacheGet i =>
    obtain ⟨c, hc, -, rfl⟩ := cacheGet_eq_some h
    exact set_args hargs hc rfl
  | resumeGet i =>
    obtain ⟨c, hc, ⟨result, -, rfl⟩ | ⟨-, hjoin⟩⟩ := resumeGet_eq_some h
    · exact set_args hargs hc rfl
    · obtain ⟨reducer, -, rfl⟩ := join_eq_some.mp hjoin
      exact set_args hargs hc rfl
  | loop b =>
    obtain ⟨-, reducer, -, rfl⟩ := loop_eq_some h
    exact hargs
  | resumeWaiter i =>
    obtain ⟨c, w, reducer, x, o, hc, -, -, -, -, rfl⟩ := resumeWaiter_eq_some h
    exact set_args hargs hc (by cases o <;> rfl)
  | cacheSet i =>
    obtain ⟨c, result, hc, -, rfl⟩ := cacheSet_eq_some h
    exact set_args hargs hc rfl
  | resumeSet i =>
    obtain ⟨c, result, hc, -, rfl⟩ := resumeSet_eq_some h
    exact set_args hargs hc rfl
  | cacheFails i e => exact ha.elim
  | expire key => exact ha.elim
  | cancel i => exact ha.elim

/-! ## One search -/

structure CalmInv (printable : Char → Bool) (earlier : SearchArgs → V → Prop) (args : SearchArgs)
    (s : Stack V) : Prop where
  sound : Sound printable earlier s
  reducer : ReducerInv s.reducer
  same : ∀ c ∈ s.calls, c.search.args = args
  idents : ∀ n r, s.reducer.runners n = some r → r.ident = reducedKey printable args

theorem Calm.uncancelled (h : Calm args a) (n : Nat) : a ≠ .loop (.cancelRunner n) := by
  rintro rfl
  exact h

theorem CalmInv.step (h : CalmInv printable earlier args s) (hstep : s.step printable a = some t)
    (ha : Calm args a) : CalmInv printable earlier args t := by
  refine ⟨step_sound h.sound hstep ha.uncancelled, ?_, step_args hstep ha h.same, ?_⟩
  · rcases step_reducer hstep ha with ⟨l, hrun, hl⟩ | ⟨i, c, -, -, -, hstart⟩
    · exact (quiet_run h.reducer hrun hl).1
    · exact (h.reducer.call _).step hstart trivial
  · intro n r hr
    rcases step_reducer hstep ha with ⟨l, hrun, hl⟩ | ⟨i, c, -, hc, -, hstart⟩
    · obtain ⟨q, hq, hqid⟩ := (quiet_run h.reducer hrun hl).2.1 n r hr
      rw [← hqid]
      exact h.idents n q hq
    · rcases join_runner h.reducer hstart hr with ⟨q, hq, hqid⟩ | ⟨-, -, hid⟩
      · rw [← hqid]
        exact h.idents n q hq
      · rw [hid, h.same c (List.mem_of_getElem? hc)]

def OneSearch (s : Stack V) : Prop :=
  ∀ m n q r, s.reducer.runners m = some q → s.reducer.runners n = some r → m = n

theorem CalmInv.running (h : CalmInv printable earlier args s) {r : Runner V}
    (hr : s.reducer.runners n = some r) (hlive : r.state ≠ .finished) :
    s.reducer.running (reducedKey printable args) = some n := by
  rw [← h.idents n r hr]
  exact (h.reducer.honest.live n r hr hlive).1

theorem step_oneSearch (h : CalmInv printable earlier args s) (hone : OneSearch s)
    (hstep : s.step printable a = some t) (ha : Calm args a) (hin : InTime s a) : OneSearch t := by
  intro m n q r hq hr
  rcases step_reducer hstep ha with ⟨l, hrun, hl⟩ | ⟨i, c, rfl, hc, hp, hstart⟩
  · obtain ⟨q', hq', -⟩ := (quiet_run h.reducer hrun hl).2.1 m q hq
    obtain ⟨r', hr', -⟩ := (quiet_run h.reducer hrun hl).2.1 n r hr
    exact hone m n q' r' hq' hr'
  · rw [h.same c (List.mem_of_getElem? hc)] at hstart
    -- A run that was there goes on, so the call joins it.
    have hnone : ∀ {k p}, s.reducer.runners k = some p →
        s.reducer.running (reducedKey printable args) ≠ none := by
      intro k p hk
      rw [h.running hk (hin c hc hp k p hk)]
      nofun
    rcases join_runner h.reducer hstart hq with ⟨q', hq', -⟩ | ⟨hk, rfl, -⟩ <;>
      rcases join_runner h.reducer hstart hr with ⟨r', hr', -⟩ | ⟨hk', rfl, -⟩
    · exact hone m n q' r' hq' hr'
    · exact absurd hk' (hnone hq')
    · exact absurd hk (hnone hr')
    · rfl

/-! ## Two searches -/

def TwoSearches (s : Stack V) : Prop :=
  ∃ m n q r, m ≠ n ∧ s.reducer.runners m = some q ∧ s.reducer.runners n = some r

theorem step_twoSearches (h : CalmInv printable earlier args s) (htwo : TwoSearches s)
    (hstep : s.step printable a = some t) (ha : Calm args a) : TwoSearches t := by
  have hstay : ∀ n r, s.reducer.runners n = some r → ∃ q, t.reducer.runners n = some q := by
    intro n r hr
    rcases step_reducer hstep ha with ⟨l, hrun, hl⟩ | ⟨i, c, -, -, -, hstart⟩
    · exact (quiet_run h.reducer hrun hl).2.2 n r hr
    · exact join_stays hstart hr
  obtain ⟨m, n, q, r, hne, hq, hr⟩ := htwo
  obtain ⟨q', hq'⟩ := hstay m q hq
  obtain ⟨r', hr'⟩ := hstay n r hr
  exact ⟨m, n, q', r', hne, hq', hr'⟩

/-- A call that comes late finds nothing under the key, and starts another run. -/
theorem late_twoSearches (h : CalmInv printable earlier args s)
    (hstep : s.step printable a = some t) (hlate : ¬ InTime s a) :
    TwoSearches t := by
  cases a with
  | resumeGet i =>
    simp only [InTime, not_forall, not_not] at hlate
    obtain ⟨c, hc, hp, m, r, hr, hfin⟩ := hlate
    obtain ⟨c', hc', ⟨result, hp', -⟩ | ⟨-, hjoin⟩⟩ := resumeGet_eq_some hstep
    · rw [hc] at hc'; cases hc'
      rw [hp] at hp'; cases hp'
    · rw [hc] at hc'; cases hc'
      obtain ⟨reducer, hstart, rfl⟩ := join_eq_some.mp hjoin
      obtain ⟨q, hq⟩ := join_stays hstart hr
      cases hk : s.reducer.running (reducedKey printable c.search.args) with
      | none =>
        obtain ⟨-, hfresh, -⟩ := h.reducer.honest.fresh s.reducer.calls (Nat.le_refl _)
        have hnew : (s.reducer.call (reducedKey printable c.search.args)).runners s.reducer.calls =
            some ⟨reducedKey printable c.search.args, s.reducer.calls, .created, false, .pending, []⟩ := by
          rw [call_create hk]
          exact Function.update_self ..
        obtain ⟨p, hp⟩ := runner_stays hstart hnew
        refine ⟨m, s.reducer.calls, q, p, ?_, hq, hp⟩
        rintro rfl
        rw [hfresh] at hr
        cases hr
      | some n =>
        obtain ⟨r', hr', -, hlive⟩ := h.reducer.honest.key _ n hk
        obtain ⟨p, hp⟩ := join_stays hstart hr'
        refine ⟨m, n, q, p, ?_, hq, hp⟩
        rintro rfl
        rw [hr] at hr'
        cases hr'
        exact hlive hfin
  | _ => exact absurd trivial hlate

/-! ## Whole runs -/

variable {cache : String → Option V} {ls : List (StackLabel V)}

/-- What the cache held for other arguments. -/
def Cached (printable : Char → Bool) (cache : String → Option V) (args : SearchArgs) (v : V) : Prop :=
  ∃ call : SearchCall, call.args = args ∧ cache (cacheKey printable call) = some v

theorem init_calmInv : CalmInv printable (Cached printable cache) args (Stack.init cache) where
  sound := ⟨init_honest, nofun, fun call _ hv => .inl ⟨call, rfl, hv⟩,
    fun _ hc => absurd hc List.not_mem_nil⟩
  reducer := ⟨init_inv, init_honest, init_started⟩
  same _ hc := absurd hc List.not_mem_nil
  idents := nofun

theorem run_calmInv (h : Run (ofStep (Stack.step printable)) (Stack.init cache) ls s)
    (hls : ∀ a ∈ ls, Calm args a) : CalmInv printable (Cached printable cache) args s :=
  (h.restrict hls).invariant init_calmInv fun _ _ _ hx hstep => hx.step hstep.1 hstep.2

theorem run_oneSearch
    (h : Run (fun x a y => ofStep (Stack.step printable) x a y ∧ InTime x a) (Stack.init cache) ls s)
    (hls : ∀ a ∈ ls, Calm args a) : OneSearch s := by
  refine ((h.restrict hls).invariant
    (I := fun s => CalmInv printable (Cached printable cache) args s ∧ OneSearch s) ?_ ?_).2
  · refine ⟨init_calmInv, ?_⟩
    intro m n q r hq
    cases hq
  · rintro x a y ⟨hx, hone⟩ ⟨⟨hstep, hin⟩, ha⟩
    exact ⟨hx.step hstep ha, step_oneSearch hx hone hstep ha hin⟩

/-- In a run with a call that comes late there are two searches. -/
theorem run_inTime_or_twoSearches
    (h : Run (ofStep (Stack.step printable)) (Stack.init cache) ls s) (hls : ∀ a ∈ ls, Calm args a) :
    Run (fun x a y => ofStep (Stack.step printable) x a y ∧ InTime x a) (Stack.init cache) ls s ∨
      TwoSearches s := by
  induction h with
  | nil => exact .inl .nil
  | @snoc l x a y hrun hstep ih =>
    have hl : ∀ b ∈ l, Calm args b := fun b hb => hls b (List.mem_append_left _ hb)
    have hx := run_calmInv hrun hl
    rcases ih hl with hin | htwo
    · by_cases ha : InTime x a
      · exact .inl (hin.snoc ⟨hstep, ha⟩)
      · exact .inr (late_twoSearches hx hstep ha)
    · exact .inr (step_twoSearches hx htwo hstep (hls a (List.mem_append_right _ List.mem_cons_self)))

theorem CalmInv.asked_of_runner (h : CalmInv printable earlier args s) (hended : Ended s)
    {r : Runner V} (hr : s.reducer.runners n = some r) : Asked s n :=
  h.reducer.started n r hr (by rw [hended.runners n r hr]; nofun)

theorem CalmInv.runner_of_asked (h : CalmInv printable earlier args s) (hasked : Asked s n) :
    ∃ r, s.reducer.runners n = some r := by
  obtain ⟨c, hc, hsteps⟩ := hasked
  cases hr : s.reducer.runners n with
  | some r => exact ⟨r, rfl⟩
  | none =>
    obtain ⟨-, hzero⟩ := h.reducer.inv.closed n c hc hr
    omega

theorem CalmInv.asked_of_returned (h : CalmInv printable earlier args s)
    (hearlier : ∀ v, ¬ earlier args v) {c : Call V} {v : V} (hc : c ∈ s.calls)
    (hv : c.phase = .returned v) : ∃ n, Asked s n := by
  have hknown := (h.sound.calls c hc).answer v (.inr hv)
  rw [h.same c hc] at hknown
  obtain ⟨n, d, -, hd, ho⟩ := hknown.resolve_left (hearlier v)
  exact ⟨n, d, hd, h.reducer.started.of_outcome h.reducer.honest hd ho⟩

/-- **The upstream client is asked exactly once** in a run from a cache without the search to the
end of all calls exactly where no call comes late. -/
theorem upstream_asked_once_iff
    (hcache : ∀ call : SearchCall, call.args = args → cache (cacheKey printable call) = none)
    (h : Run (ofStep (Stack.step printable)) (Stack.init cache) ls s) (hls : ∀ a ∈ ls, Calm args a)
    (hended : Ended s) (hcalls : s.calls ≠ []) :
    (∃! n, Asked s n) ↔
      Run (fun x a y => ofStep (Stack.step printable) x a y ∧ InTime x a) (Stack.init cache) ls s := by
  have hinv := run_calmInv h hls
  constructor
  · rintro ⟨n, -, hunique⟩
    rcases run_inTime_or_twoSearches h hls with hin | ⟨m, k, q, r, hne, hq, hr⟩
    · exact hin
    · have hm := hunique m (hinv.asked_of_runner hended hq)
      have hk := hunique k (hinv.asked_of_runner hended hr)
      exact absurd (hm.trans hk.symm) hne
  · intro hin
    obtain ⟨c, hc⟩ := List.exists_mem_of_ne_nil _ hcalls
    obtain ⟨v, hv⟩ := hended.calls c hc
    have hearlier : ∀ v, ¬ Cached printable cache args v := by
      rintro v ⟨call, hargs, hv⟩
      rw [hcache call hargs] at hv
      cases hv
    obtain ⟨n, hn⟩ := hinv.asked_of_returned hearlier hc hv
    refine ⟨n, hn, fun m hm => ?_⟩
    obtain ⟨q, hq⟩ := hinv.runner_of_asked hm
    obtain ⟨r, hr⟩ := hinv.runner_of_asked hn
    exact run_oneSearch hin hls m n q r hq hr

def Phase.isReturned : Phase V → Bool
  | .returned _ => true
  | _ => false

def Stack.allEnded (s : Stack V) : Bool :=
  s.calls.all (fun c => c.phase.isReturned) &&
    (List.range s.reducer.calls).all fun n => (s.reducer.runners n).all fun r => r.state = .finished

theorem CalmInv.ended (h : CalmInv printable earlier args s) (hs : s.allEnded = true) : Ended s := by
  simp only [Stack.allEnded, Bool.and_eq_true, List.all_eq_true, List.mem_range, Option.all_eq_true,
    decide_eq_true_eq] at hs
  constructor
  case calls =>
    intro c hc
    have hret := hs.1 c hc
    cases hp : c.phase with
    | returned v => exact ⟨v, rfl⟩
    | _ => simp [hp, Phase.isReturned] at hret
  case runners =>
    intro n r hr
    refine hs.2 n ?_ r hr
    by_contra hn
    rw [(h.reducer.honest.fresh n (Nat.le_of_not_lt hn)).2.1] at hr
    cases hr

def emptyCache : String → Option Nat := fun _ => none

/-- The second call looks at the cache before the first one writes to it, and comes to the reducer
when the search has ended. -/
def lateSearch : List (StackLabel Nat) :=
  [.search (inOrder iliad), .search (inOrder iliad), .cacheGet 0, .resumeGet 0, .cacheGet 1,
    .loop (.startRunner 0 (some (.ok 7))), .loop (.deliver 0), .resumeWaiter 0, .resumeGet 1,
    .cacheSet 0, .resumeSet 0, .loop (.startRunner 1 (some (.ok 7))), .loop (.deliver 1),
    .resumeWaiter 1, .cacheSet 1, .resumeSet 1]

theorem lateSearch_calm : ∀ a ∈ lateSearch, Calm iliad a := by
  simp [lateSearch, Calm, inOrder]

theorem late_search_asks_twice :
    ∃ s, Run (ofStep (Stack.step fun _ => true)) (Stack.init emptyCache) lateSearch s ∧
      (∀ a ∈ lateSearch, Calm iliad a) ∧ Ended s ∧ ¬ ∃! n, Asked s n := by
  have hexec : (exec (Stack.step fun _ => true) (Stack.init emptyCache) lateSearch).map (fun s =>
      (s.allEnded, (s.reducer.coros 0).map (·.steps), (s.reducer.coros 1).map (·.steps))) =
    some (true, some 1, some 1) := by decide
  obtain ⟨s, hs, h⟩ := Option.map_eq_some_iff.mp hexec
  simp only [Prod.mk.injEq, Option.map_eq_some_iff] at h
  obtain ⟨hended, ⟨c, hc, hcs⟩, d, hd, hds⟩ := h
  have hrun := run_of_exec hs
  refine ⟨s, hrun, lateSearch_calm, (run_calmInv hrun lateSearch_calm).ended hended, ?_⟩
  rintro ⟨n, -, hunique⟩
  have h0 := hunique 0 ⟨c, hc, by omega⟩
  have h1 := hunique 1 ⟨d, hd, by omega⟩
  omega

/-- The second call looks at the cache before the search has ended, and shares it. -/
def earlySearch : List (StackLabel Nat) :=
  [.search (inOrder iliad), .search (reversed iliad), .cacheGet 0, .cacheGet 1, .resumeGet 0,
    .loop (.startRunner 0 none), .resumeGet 1, .loop (.stepRunner 0 (some (.ok 7))),
    .loop (.deliver 1), .loop (.deliver 0), .resumeWaiter 0, .cacheSet 0, .resumeSet 0,
    .resumeWaiter 1, .cacheSet 1, .resumeSet 1]

theorem earlySearch_calm : ∀ a ∈ earlySearch, Calm iliad a := by
  simp [earlySearch, Calm, inOrder, reversed]

theorem upstream_asked_once_iff_early :
    ∃ s, exec (Stack.step fun _ => true) (Stack.init emptyCache) earlySearch = some s ∧
      ((∃! n, Asked s n) ↔
        Run (fun x a y => ofStep (Stack.step fun _ => true) x a y ∧ InTime x a)
          (Stack.init emptyCache) earlySearch s) := by
  have hexec : (exec (Stack.step fun _ => true) (Stack.init emptyCache) earlySearch).map (fun s =>
      (s.allEnded, s.calls.isEmpty)) = some (true, false) := by decide
  obtain ⟨s, hs, h⟩ := Option.map_eq_some_iff.mp hexec
  obtain ⟨hended, hcalls⟩ := Prod.mk.inj h
  have hinv := run_calmInv (run_of_exec hs) earlySearch_calm
  exact ⟨s, hs, upstream_asked_once_iff (fun _ _ => rfl) (run_of_exec hs) earlySearch_calm
    (hinv.ended hended) (by simpa using hcalls)⟩

end LibraryService.OpenLibrary
