import LibraryService.Application.Starts
import LibraryService.OpenLibrary.StackRuns

/-!
# What the calls of the stack end with

Every value and every exception of a call is traced to the upstream client, to the cache, or to a
cancellation of this call.
-/

open PartialMap Transition LibraryService.Reduced LibraryService.Python

namespace LibraryService.OpenLibrary

variable {V : Type} {printable : Char → Bool} {up : SearchArgs → Outcome V → Prop} {s t : Stack V}
  {a : StackLabel V} {ls : List (StackLabel V)} {c c' : Call V} {i : Nat} {e : Exc}

/-! ## Outcomes of coroutines -/

/-- The coroutine that ends in the step of its runner, and how. -/
def outcomeOf : Label V → Option (Nat × Outcome V)
  | .startRunner n (some o) => some (n, o)
  | .stepRunner n (some o) => some (n, o)
  | _ => none

section Reducer

variable {x y : State V} {b : Label V} {n : Nat} {d : Coro V} {o : Outcome V}

theorem advance_outcome {r : Runner V} {o' : Option (Outcome V)} (hcoro : r.coro = n)
    {m : Nat} (hd : (x.advance n r o').coros m = some d) (ho : d.outcome = some o) :
    (∃ c, x.coros m = some c ∧ c.outcome = some o) ∨ m = n ∧ o' = some o := by
  have hcoros : (x.advance n r o').coros =
      Function.update x.coros n ((x.coros n).map (Coro.advance · o')) := by
    unfold State.advance
    cases o' <;> simp only [hcoro] <;> rfl
  rw [hcoros] at hd
  by_cases hm : m = n
  · subst hm
    rw [Function.update_self, Option.map_eq_some_iff] at hd
    obtain ⟨c, -, rfl⟩ := hd
    exact .inr ⟨rfl, ho⟩
  · rw [Function.update_of_ne hm] at hd
    exact .inl ⟨d, hd, ho⟩

theorem step_outcome (hi : Honest x) (h : Reduced.step x b = some y) (hd : y.coros n = some d)
    (ho : d.outcome = some o) :
    (∃ c, x.coros n = some c ∧ c.outcome = some o) ∨ outcomeOf b = some (n, o) := by
  cases b with
  | call ident =>
    cases h
    cases hk : x.running ident with
    | some m =>
      rw [call_join hk] at hd
      rcases update_eq_some hd with ⟨-, rfl⟩ | ⟨-, hd⟩
      · cases ho
      · exact .inl ⟨d, hd, ho⟩
    | none =>
      rw [call_create hk] at hd
      rcases update_eq_some hd with ⟨-, rfl⟩ | ⟨-, hd⟩
      · cases ho
      · exact .inl ⟨d, hd, ho⟩
  | startRunner m o' =>
    obtain ⟨r, hr, -, rfl⟩ := startRunner_iff.mp h
    split at hd
    · exact .inl ⟨d, hd, ho⟩
    · rcases advance_outcome (hi.coro m r hr) hd ho with hold | ⟨rfl, rfl⟩
      · exact .inl hold
      · exact .inr rfl
  | stepRunner m o' =>
    obtain ⟨r, hr, -, rfl⟩ := stepRunner_iff.mp h
    rcases advance_outcome (hi.coro m r hr) hd ho with hold | ⟨rfl, rfl⟩
    · exact .inl hold
    · exact .inr rfl
  | cancelRunner m =>
    obtain ⟨r, -, -, rfl⟩ := cancelRunner_iff.mp h
    exact .inl ⟨d, hd, ho⟩
  | discardTask m =>
    obtain ⟨r, -, -, -, rfl⟩ := discardTask_iff.mp h
    exact .inl ⟨d, hd, ho⟩
  | startWaiter w =>
    obtain ⟨z, r, -, -, -, rfl⟩ := startWaiter_iff.mp h
    refine .inl ⟨d, ?_, ho⟩
    rw [← hd]
    unfold State.addDoneCallback
    split <;> rfl
  | deliver w =>
    obtain ⟨z, r, -, -, -, rfl⟩ := deliver_iff.mp h
    exact .inl ⟨d, hd, ho⟩
  | resumeWaiter w =>
    obtain ⟨z, o', -, -, -, rfl⟩ := resumeWaiter_iff.mp h
    exact .inl ⟨d, hd, ho⟩
  | cancelWaiter w =>
    obtain ⟨z, -, ⟨-, rfl⟩ | ⟨-, rfl⟩⟩ := cancelWaiter_iff.mp h
    · exact .inl ⟨d, hd, ho⟩
    · exact .inl ⟨d, hd, ho⟩

end Reducer

/-! ## Steps of the stack -/

/-- Runner tasks are not cancelled, and a coroutine ends as the upstream client may end the request
that it is for. -/
structure Regular (up : SearchArgs → Outcome V → Prop) (s : Stack V) (a : StackLabel V) : Prop where
  undisturbed : ∀ b, a = .loop b → Undisturbed b
  upstream : ∀ b n o args, a = .loop b → outcomeOf b = some (n, o) → s.requests n = some args →
    up args o

theorem Regular.uncancelled (h : Regular up s a) (n : Nat) : a ≠ .loop (.cancelRunner n) := by
  rintro rfl
  exact h.undisturbed _ rfl

theorem regular_search (call : SearchCall) : Regular up s (.search call) :=
  ⟨fun _ h => (by cases h), fun _ _ _ _ h => (by cases h)⟩

/-- A step is one of the reducer, or hands a new coroutine to it, or leaves it alone. -/
theorem step_below (h : s.step printable a = some t) :
    (t.reducer = s.reducer ∧ t.requests = s.requests) ∨
    (∃ b, Reduced.step s.reducer b = some t.reducer ∧ t.requests = s.requests ∧
      (a = .loop b ∨ Undisturbed b ∧ outcomeOf b = none)) ∨
    ∃ args, Reduced.step (s.reducer.call (reducedKey printable args))
        (.startWaiter s.reducer.calls) = some t.reducer ∧
      t.requests = Function.update s.requests s.reducer.calls (some args) := by
  cases a with
  | search call => cases h; exact .inl ⟨rfl, rfl⟩
  | cacheGet i =>
    obtain ⟨c, -, -, rfl⟩ := cacheGet_eq_some h
    exact .inl ⟨rfl, rfl⟩
  | resumeGet i =>
    obtain ⟨c, -, ⟨result, -, rfl⟩ | ⟨-, hjoin⟩⟩ := resumeGet_eq_some h
    · exact .inl ⟨rfl, rfl⟩
    · obtain ⟨reducer, hstart, rfl⟩ := join_eq_some.mp hjoin
      exact .inr (.inr ⟨_, hstart, rfl⟩)
  | loop b =>
    obtain ⟨-, reducer, hstep, rfl⟩ := loop_eq_some h
    exact .inr (.inl ⟨b, hstep, rfl, .inl rfl⟩)
  | resumeWaiter i =>
    obtain ⟨c, w, reducer, x, o, -, -, hstep, -, -, rfl⟩ := resumeWaiter_eq_some h
    exact .inr (.inl ⟨_, hstep, rfl, .inr ⟨trivial, rfl⟩⟩)
  | cacheSet i =>
    obtain ⟨c, result, -, -, rfl⟩ := cacheSet_eq_some h
    exact .inl ⟨rfl, rfl⟩
  | resumeSet i =>
    obtain ⟨c, result, -, -, rfl⟩ := resumeSet_eq_some h
    exact .inl ⟨rfl, rfl⟩
  | cacheFails i e =>
    obtain ⟨c, -, rfl⟩ := cacheFails_eq_some h
    exact .inl ⟨rfl, rfl⟩
  | expire key => cases h; exact .inl ⟨rfl, rfl⟩
  | cancel i =>
    obtain ⟨c, -, rfl | ⟨w, reducer, hstep, rfl⟩⟩ := cancel_eq_some h
    · exact .inl ⟨rfl, rfl⟩
    · exact .inr (.inl ⟨_, hstep, rfl, .inr ⟨trivial, rfl⟩⟩)

/-- Coroutines have ended only as the upstream client may end their requests. -/
structure FromUpstream (printable : Char → Bool) (up : SearchArgs → Outcome V → Prop) (s : Stack V) :
    Prop where
  sound : Sound printable (fun args v => up args (.ok v)) s
  inv : Inv s.reducer
  outcomes : ∀ n d o args, s.reducer.coros n = some d → d.outcome = some o →
    s.requests n = some args → up args o

theorem FromUpstream.produced (hs : FromUpstream printable up s) {args : SearchArgs} {v : V}
    (h : Known (fun args v => up args (.ok v)) s args v) : up args (.ok v) := by
  rcases h with h | ⟨n, d, hreq, hd, ho⟩
  · exact h
  · exact hs.outcomes n d _ args hd ho hreq

theorem step_fromUpstream (hs : FromUpstream printable up s) (h : s.step printable a = some t)
    (ha : Regular up s a) : FromUpstream printable up t := by
  have hsound := step_sound hs.sound h ha.uncancelled
  rcases step_below h with ⟨hreducer, hrequests⟩ | ⟨b, hstep, hrequests, hb⟩ |
    ⟨args, hstart, hrequests⟩
  · exact ⟨hsound, hreducer ▸ hs.inv, by rw [hreducer, hrequests]; exact hs.outcomes⟩
  · have hundisturbed : Undisturbed b := hb.elim (ha.undisturbed b) And.left
    refine ⟨hsound, step_inv hs.inv hstep hundisturbed.orderly, fun n d o args hd ho hreq => ?_⟩
    rw [hrequests] at hreq
    rcases step_outcome hs.sound.reducer hstep hd ho with ⟨c, hc, hco⟩ | hends
    · exact hs.outcomes n c o args hc hco hreq
    · rcases hb with rfl | ⟨-, hnone⟩
      · exact ha.upstream b n o args rfl hends hreq
      · rw [hnone] at hends; cases hends
  · -- The new coroutine has a number of its own, so its request is the only one that is new.
    have hinv := step_inv (a := .call (reducedKey printable args)) hs.inv rfl trivial
    have hhonest := step_honest (a := .call (reducedKey printable args)) hs.sound.reducer rfl trivial
    refine ⟨hsound, step_inv hinv hstart trivial, fun n d o args' hd ho hreq => ?_⟩
    rcases step_outcome hhonest hstart hd ho with ⟨c, hc, hco⟩ | hends
    · rcases step_outcome (b := .call (reducedKey printable args)) hs.sound.reducer rfl hc hco with
        ⟨c', hc', hco'⟩ | hends
      · have hn : n ≠ s.reducer.calls := by
          rintro rfl
          rw [(hs.sound.reducer.fresh _ (Nat.le_refl _)).1] at hc'
          cases hc'
        rw [hrequests, Function.update_of_ne hn] at hreq
        exact hs.outcomes n c' o args' hc' hco' hreq
      · cases hends
    · cases hends

theorem FromUpstream.received (hs : FromUpstream printable up s) {w : Nat} {x : Waiter V}
    {args : SearchArgs} {o : Outcome V} (hx : s.reducer.waiters w = some x)
    (hid : x.ident = reducedKey printable args) (hst : x.state = .returned o) : up args o := by
  obtain ⟨r, d, hr, -, hd, ho⟩ := (coalesced_of_inv hs.inv).received w x o hx hst
  obtain ⟨r', hr', hrid, -⟩ := hs.inv.waiter w x hx
  obtain rfl := Option.some.inj (hr.symm.trans hr')
  have hreq : s.requests r.coro = some args := (hs.sound.request hr).mpr (hrid.trans hid)
  exact hs.outcomes _ d o args hd ho hreq

/-! ## Calls keep their arguments -/

theorem set_keeps {calls : List (Call V)} (hc : calls[i]? = some c) (hsearch : c'.search = c.search)
    {j : Nat} {d : Call V} (hd : calls[j]? = some d) :
    ∃ d', (calls.set i c')[j]? = some d' ∧ d'.search = d.search := by
  by_cases hij : i = j
  · subst hij
    obtain rfl := Option.some.inj (hc.symm.trans hd)
    obtain ⟨hi, -⟩ := List.getElem?_eq_some_iff.mp hc
    exact ⟨c', List.getElem?_set_self hi, hsearch⟩
  · exact ⟨d, (List.getElem?_set_ne hij).trans hd, rfl⟩

theorem step_keeps_call (h : s.step printable a = some t) {j : Nat} {d : Call V}
    (hd : s.calls[j]? = some d) : ∃ d', t.calls[j]? = some d' ∧ d'.search = d.search := by
  cases a with
  | search call =>
    cases h
    obtain ⟨hj, -⟩ := List.getElem?_eq_some_iff.mp hd
    exact ⟨d, (List.getElem?_append_left hj).trans hd, rfl⟩
  | cacheGet i =>
    obtain ⟨c, hc, -, rfl⟩ := cacheGet_eq_some h
    exact set_keeps hc (by rfl) hd
  | resumeGet i =>
    obtain ⟨c, hc, ⟨result, -, rfl⟩ | ⟨-, hjoin⟩⟩ := resumeGet_eq_some h
    · exact set_keeps hc (by rfl) hd
    · obtain ⟨reducer, -, rfl⟩ := join_eq_some.mp hjoin
      exact set_keeps hc (by rfl) hd
  | loop b =>
    obtain ⟨-, reducer, -, rfl⟩ := loop_eq_some h
    exact ⟨d, hd, rfl⟩
  | resumeWaiter i =>
    obtain ⟨c, w, reducer, x, o, hc, -, -, -, -, rfl⟩ := resumeWaiter_eq_some h
    exact set_keeps hc (by cases o <;> rfl) hd
  | cacheSet i =>
    obtain ⟨c, result, hc, -, rfl⟩ := cacheSet_eq_some h
    exact set_keeps hc (by rfl) hd
  | resumeSet i =>
    obtain ⟨c, result, hc, -, rfl⟩ := resumeSet_eq_some h
    exact set_keeps hc (by rfl) hd
  | cacheFails i e =>
    obtain ⟨c, hc, rfl⟩ := cacheFails_eq_some h
    exact set_keeps hc (by rfl) hd
  | expire key => cases h; exact ⟨d, hd, rfl⟩
  | cancel i =>
    obtain ⟨c, hc, rfl | ⟨w, reducer, -, rfl⟩⟩ := cancel_eq_some h
    · exact set_keeps hc (by rfl) hd
    · exact set_keeps hc (by rfl) hd

/-! ## Whom an exception is from -/

/-- The upstream client raises it for these arguments, the cache raised it for this call, or this
call was cancelled. -/
def Blamed (up : SearchArgs → Outcome V → Prop) (ls : List (StackLabel V)) (i : Nat) (c : Call V)
    (e : Exc) : Prop :=
  up c.search.args (.error e) ∨ .cacheFails i e ∈ ls ∨ e = .cancelledError ∧ .cancel i ∈ ls

def AllBlamed (up : SearchArgs → Outcome V → Prop) (ls : List (StackLabel V)) (calls : List (Call V)) :
    Prop :=
  ∀ i c e, calls[i]? = some c → c.phase = .raised e → Blamed up ls i c e

theorem Blamed.mono (h : Blamed up ls i c e) (a : StackLabel V) : Blamed up (ls ++ [a]) i c e :=
  h.imp_right (Or.imp (List.mem_append_left _) (And.imp_right (List.mem_append_left _)))

theorem AllBlamed.mono {calls : List (Call V)} (h : AllBlamed up ls calls) (a : StackLabel V) :
    AllBlamed up (ls ++ [a]) calls :=
  fun i c e hc he => (h i c e hc he).mono a

theorem AllBlamed.set {calls : List (Call V)} (h : AllBlamed up ls calls) (a : StackLabel V)
    (hc : ∀ e, c'.phase = .raised e → Blamed up (ls ++ [a]) i c' e) :
    AllBlamed up (ls ++ [a]) (calls.set i c') := by
  intro j d e hd he
  rw [List.getElem?_set] at hd
  split at hd
  · rename_i hij
    split at hd
    · cases hd
      exact hij ▸ hc e he
    · cases hd
  · exact (h j d e hd he).mono a

theorem step_blamed (hs : FromUpstream printable up s) (hblamed : AllBlamed up ls s.calls)
    (h : s.step printable a = some t) (ha : Regular up s a) : AllBlamed up (ls ++ [a]) t.calls := by
  have ht := step_fromUpstream hs h ha
  cases a with
  | search call =>
    cases h
    intro i c e hc he
    rw [List.getElem?_append] at hc
    split at hc
    · exact (hblamed i c e hc he).mono _
    · obtain rfl := List.mem_singleton.mp (List.mem_of_getElem? hc)
      cases he
  | cacheGet i =>
    obtain ⟨c, -, -, rfl⟩ := cacheGet_eq_some h
    exact hblamed.set _ fun e he => by cases he
  | resumeGet i =>
    obtain ⟨c, -, ⟨result, -, rfl⟩ | ⟨-, hjoin⟩⟩ := resumeGet_eq_some h
    · exact hblamed.set _ fun e he => by cases he
    · obtain ⟨reducer, -, rfl⟩ := join_eq_some.mp hjoin
      exact hblamed.set _ fun e he => by cases he
  | loop b =>
    obtain ⟨-, reducer, -, rfl⟩ := loop_eq_some h
    exact hblamed.mono _
  | resumeWaiter i =>
    obtain ⟨c, w, reducer, x, o, hc, hp, hstep, hx, hst, rfl⟩ := resumeWaiter_eq_some h
    refine hblamed.set _ fun e he => .inl ?_
    obtain ⟨y, hy, hid⟩ := (hs.sound.call hc).joining w hp
    obtain ⟨x', hx', hid', -⟩ := waiter_keeps (hs.sound.reducer.fresh _ (Nat.le_refl _)).2.2 hstep hy
    obtain rfl := Option.some.inj (hx.symm.trans hx')
    cases o with
    | ok v => cases he
    | error e' =>
      cases he
      exact ht.received hx (hid'.trans hid) hst
  | cacheSet i =>
    obtain ⟨c, result, hc, -, rfl⟩ := cacheSet_eq_some h
    exact hblamed.set _ fun e he => (hblamed i c e hc he).mono _
  | resumeSet i =>
    obtain ⟨c, result, -, -, rfl⟩ := resumeSet_eq_some h
    exact hblamed.set _ fun e he => by cases he
  | cacheFails i e =>
    obtain ⟨c, -, rfl⟩ := cacheFails_eq_some h
    refine hblamed.set _ fun e' he => ?_
    cases he
    exact .inr (.inl (List.mem_append_right _ (List.mem_singleton.mpr rfl)))
  | expire key => cases h; exact hblamed.mono _
  | cancel i =>
    have hlast : StackLabel.cancel i ∈ ls ++ [.cancel i] := by simp
    obtain ⟨c, -, rfl | ⟨w, reducer, -, rfl⟩⟩ := cancel_eq_some h
    · refine hblamed.set _ fun e he => ?_
      cases he
      exact .inr (.inr ⟨rfl, hlast⟩)
    · refine hblamed.set _ fun e he => ?_
      cases he
      exact .inr (.inr ⟨rfl, hlast⟩)

theorem init_fromUpstream {cache : String → Option V}
    (hcache : ∀ call v, cache (cacheKey printable call) = some v → up call.args (.ok v)) :
    FromUpstream printable up (Stack.init cache) where
  sound := ⟨init_honest, fun n r hr => (by cases hr), fun call v hv => .inl (hcache call v hv),
    fun c hc => absurd hc List.not_mem_nil⟩
  inv := init_inv
  outcomes n d o args hd := by cases hd

end LibraryService.OpenLibrary
