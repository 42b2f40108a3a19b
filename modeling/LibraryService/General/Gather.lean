import LibraryService.General.Transition
import Mathlib.Data.List.FinRange
import Mathlib.Logic.Function.Basic

/-!
# Gathering tasks

`asyncio.gather` over a number of tasks, and the one task that awaits it and may be cancelled.
-/

open Transition

namespace Gather

variable {n : Nat} {ε α : Type}

/-- `ended` is how each task ended and `called` whether its done callback has run; `outer` is the
future that `gather` returns, and `result` how the task that awaits it went on. -/
structure State (n : Nat) (ε α : Type) where
  ended : Fin n → Option (Except ε α)
  called : Fin n → Bool
  outer : Option (Except ε (List α))
  cancelRequested : Bool
  mustCancel : Bool
  result : Option (Except ε (List α))

/-- Gathering nothing is done at once. -/
def init : State n ε α where
  ended _ := none
  called _ := false
  outer := if n = 0 then some (.ok []) else none
  cancelRequested := false
  mustCancel := false
  result := none

inductive Label (n : Nat) (ε α : Type)
  | ends (i : Fin n) (r : Except ε α)
  | callback (i : Fin n)
  | cancel
  | wake

def returned : Option (Except ε α) → Option α
  | some (.ok a) => some a
  | _ => none

namespace State

def allCalled (s : State n ε α) : Bool := (List.finRange n).all s.called

def allEnded (s : State n ε α) : Bool := (List.finRange n).all fun i => (s.ended i).isSome

/-- The values of the tasks in their order, if each has returned. -/
def collect (s : State n ε α) : Option (List α) :=
  (List.finRange n).mapM fun i => returned (s.ended i)

/-- `cancel()` on the awaiting task reaches each task that has not ended. -/
def passesOn (s : State n ε α) : Bool := s.result.isNone && s.outer.isNone

def endTask (s : State n ε α) (i : Fin n) (r : Except ε α) : State n ε α :=
  { s with ended := Function.update s.ended i (some r) }

variable (cancelled : ε)

def callback (s : State n ε α) (i : Fin n) : State n ε α :=
  let t := { s with called := Function.update s.called i true }
  if s.outer.isSome then t
  else
    match s.ended i with
    | some (.error e) => { t with outer := some (.error e) }
    | _ =>
      if t.allCalled then
        { t with outer := if s.cancelRequested then some (.error cancelled) else s.collect.map .ok }
      else t

/-- `cancel()` on the awaiting task. -/
def cancel (s : State n ε α) : State n ε α :=
  if s.result.isSome then s
  else if s.outer.isNone && !s.allEnded then { s with cancelRequested := true }
  else { s with mustCancel := true }

def step (s : State n ε α) : Label n ε α → Option (State n ε α)
  | .ends i r => if (s.ended i).isNone then some (s.endTask i r) else none
  | .callback i =>
    if (s.ended i).isSome && !s.called i then some (s.callback cancelled i) else none
  | .cancel => some s.cancel
  | .wake =>
    match s.outer, s.result with
    | some r, none => some { s with result := some (if s.mustCancel then .error cancelled else r) }
    | _, _ => none

end State

/-! ## What holds in every run -/

variable {cancelled : ε} {s t : State n ε α} {i : Fin n} {r : Except ε α} {e : ε} {l : List α}

theorem allCalled_iff : s.allCalled = true ↔ ∀ i, s.called i = true := by
  simp [State.allCalled]

theorem returned_eq_some {o : Option (Except ε α)} {a : α} :
    returned o = some a ↔ o = some (.ok a) := by
  unfold returned
  split <;> simp_all

/-- The list has what each task returned, in the order of the tasks. -/
def Values (s : State n ε α) (l : List α) : Prop :=
  List.Forall₂ (fun i a => s.ended i = some (.ok a)) (List.finRange n) l

structure Inv (cancelled : ε) (s : State n ε α) : Prop where
  called : ∀ i, s.called i = true → (s.ended i).isSome = true
  waiting : s.outer = none → (∃ i, s.called i = false) ∧
    ∀ i, s.called i = true → ∃ a, s.ended i = some (.ok a)
  values : ∀ l, s.outer = some (.ok l) → Values s l
  failed : ∀ e, s.outer = some (.error e) →
    (∃ i, s.ended i = some (.error e)) ∨ e = cancelled ∧ s.cancelRequested = true
  result : ∀ r, s.result = some r → s.outer = some r ∨ r = .error cancelled ∧ s.mustCancel = true

theorem inv_init : Inv cancelled (init : State n ε α) := by
  refine ⟨nofun, fun h => ⟨?_, nofun⟩, fun l h => ?_, fun e h => ?_, nofun⟩
  · unfold init at h
    by_cases hn : n = 0
    · simp [hn] at h
    · exact ⟨⟨0, by omega⟩, rfl⟩
  · unfold init at h
    by_cases hn : n = 0
    · subst hn
      simp at h
      subst h
      exact .nil
    · simp [hn] at h
  · unfold init at h
    by_cases hn : n = 0 <;> simp [hn] at h

theorem endTask_ended {j : Fin n} {x : Except ε α} (hi : s.ended i = none)
    (h : s.ended j = some x) : (s.endTask i r).ended j = some x := by
  unfold State.endTask
  dsimp only
  rw [Function.update_of_ne]
  · exact h
  · rintro rfl
    rw [hi] at h
    cases h

theorem inv_endTask (h : Inv cancelled s) (hi : s.ended i = none) :
    Inv cancelled (s.endTask i r) where
  called j hj := by
    obtain ⟨x, hx⟩ := Option.isSome_iff_exists.mp (h.called j hj)
    rw [endTask_ended hi hx]
    rfl
  waiting ho := by
    obtain ⟨hopen, hok⟩ := h.waiting ho
    refine ⟨hopen, fun j hj => ?_⟩
    obtain ⟨a, ha⟩ := hok j hj
    exact ⟨a, endTask_ended hi ha⟩
  values l ho := (h.values l ho).imp fun _ _ hj => endTask_ended hi hj
  failed e ho := by
    rcases h.failed e ho with ⟨j, hj⟩ | hc
    · exact .inl ⟨j, endTask_ended hi hj⟩
    · exact .inr hc
  result := h.result

theorem mapM_returned_iff (is : List (Fin n)) :
    is.mapM (fun i => returned (s.ended i)) = some l ↔
      List.Forall₂ (fun i a => s.ended i = some (.ok a)) is l := by
  induction is generalizing l with
  | nil => cases l <;> simp
  | cons i is ih =>
    rw [List.mapM_cons]
    cases l with
    | nil =>
      cases returned (s.ended i) <;> cases is.mapM fun i => returned (s.ended i) <;> simp
    | cons a l =>
      rw [List.forall₂_cons, ← ih, ← returned_eq_some]
      cases returned (s.ended i) <;> cases is.mapM fun i => returned (s.ended i) <;> simp

theorem collect_isSome (h : ∀ i, ∃ a, s.ended i = some (.ok a)) : ∃ l, s.collect = some l := by
  choose f hf using h
  refine ⟨(List.finRange n).map f, (mapM_returned_iff _).mpr ?_⟩
  rw [List.forall₂_map_right_iff, List.forall₂_same]
  exact fun i _ => hf i

theorem update_called {i j : Fin n} (h : Function.update s.called i true j = true) :
    j = i ∨ s.called j = true := by
  by_cases hij : j = i
  · exact .inl hij
  · rw [Function.update_of_ne hij] at h
    exact .inr h

theorem inv_callback_last (h : Inv cancelled s) (ho : s.outer = none)
    (hok : ∀ j, ∃ a, s.ended j = some (.ok a)) :
    Inv cancelled { s with
      called := Function.update s.called i true
      outer := if s.cancelRequested then some (.error cancelled) else s.collect.map .ok } where
  called j hj := by
    obtain ⟨a, ha⟩ := hok j
    simp [ha]
  waiting hout := by
    obtain ⟨l, hl⟩ := collect_isSome hok
    cases hc : s.cancelRequested <;> simp [hc, hl] at hout
  values l hout := by
    cases hc : s.cancelRequested <;> simp [hc] at hout
    exact (mapM_returned_iff _).mp hout
  failed e hout := by
    cases hc : s.cancelRequested <;> simp [hc] at hout
    exact .inr ⟨hout.symm, rfl⟩
  result r hr := by
    rcases h.result r hr with hout | hc
    · rw [ho] at hout
      cases hout
    · exact .inr hc

theorem inv_callback (h : Inv cancelled s) (hi : (s.ended i).isSome = true) :
    Inv cancelled (s.callback cancelled i) := by
  have hcalled : ∀ j, Function.update s.called i true j = true → (s.ended j).isSome = true :=
    fun j hj => (update_called hj).elim (fun hji => hji ▸ hi) (h.called j)
  unfold State.callback
  cases ho : s.outer with
  | some r =>
    exact ⟨hcalled, nofun, fun l hl => h.values l (ho.trans hl),
      fun e he => h.failed e (ho.trans he),
      fun r hr => (h.result r hr).imp_left fun hout => ho.symm.trans hout⟩
  | none =>
    have hnone : ∀ r, s.result = some r → r = .error cancelled ∧ s.mustCancel = true := by
      intro r hr
      rcases h.result r hr with hout | hc
      · rw [ho] at hout
        cases hout
      · exact hc
    obtain ⟨⟨j, hj⟩, hok⟩ := h.waiting ho
    obtain ⟨r, hr⟩ := Option.isSome_iff_exists.mp hi
    rw [hr]
    cases r with
    | error e =>
      refine ⟨hcalled, nofun, nofun, ?_, fun r hr => .inr (hnone r hr)⟩
      rintro _ ⟨⟩
      exact .inl ⟨i, hr⟩
    | ok a =>
      have hok' : ∀ j, Function.update s.called i true j = true → ∃ a, s.ended j = some (.ok a) :=
        fun j hj => (update_called hj).elim (fun hji => hji ▸ ⟨a, hr⟩) (hok j)
      dsimp only
      split
      · contradiction
      · split
        · rename_i hall
          rw [allCalled_iff] at hall
          exact inv_callback_last h ho fun j => hok' j (hall j)
        · rename_i hall
          rw [allCalled_iff, not_forall] at hall
          obtain ⟨k, hk⟩ := hall
          exact ⟨hcalled, fun _ => ⟨⟨k, by simpa using hk⟩, hok'⟩, nofun, nofun,
            fun r hr => .inr (hnone r hr)⟩

@[simp] theorem cancel_ended : s.cancel.ended = s.ended := by
  unfold State.cancel
  grind

theorem inv_cancel (h : Inv cancelled s) : Inv cancelled s.cancel := by
  unfold State.cancel
  split
  · exact h
  · split
    · exact ⟨h.called, h.waiting, h.values, fun e he => (h.failed e he).imp_right fun hc => ⟨hc.1, rfl⟩,
        h.result⟩
    · exact ⟨h.called, h.waiting, h.values, h.failed,
        fun r hr => (h.result r hr).imp_right fun hc => ⟨hc.1, rfl⟩⟩

theorem ends_step : s.step cancelled (.ends i r) = some t ↔
    s.ended i = none ∧ s.endTask i r = t := by
  simp [State.step]

theorem callback_step : s.step cancelled (.callback i) = some t ↔
    (s.ended i).isSome = true ∧ s.called i = false ∧ s.callback cancelled i = t := by
  simp [State.step, and_assoc]

theorem wake_step : s.step cancelled .wake = some t ↔ ∃ r, s.outer = some r ∧ s.result = none ∧
    { s with result := some (if s.mustCancel then .error cancelled else r) } = t := by
  simp only [State.step]
  split
  · rename_i r ho hr
    simp [ho, hr]
  · rename_i hno
    refine ⟨nofun, ?_⟩
    rintro ⟨r, ho, hr, -⟩
    exact absurd hr (hno r ho)

theorem inv_step {a : Label n ε α} (h : Inv cancelled s) (hs : s.step cancelled a = some t) :
    Inv cancelled t := by
  cases a with
  | ends i r =>
    obtain ⟨hi, rfl⟩ := ends_step.mp hs
    exact inv_endTask h hi
  | callback i =>
    obtain ⟨hi, -, rfl⟩ := callback_step.mp hs
    exact inv_callback h hi
  | cancel =>
    cases hs
    exact inv_cancel h
  | wake =>
    obtain ⟨r, ho, -, rfl⟩ := wake_step.mp hs
    refine ⟨h.called, h.waiting, h.values, h.failed, ?_⟩
    rintro _ ⟨⟩
    by_cases hm : s.mustCancel = true
    · exact .inr (by simp [hm])
    · exact .inl (by simp [hm, ho])

/-! ## What nobody cancels -/

def Uncancelled (s : State n ε α) : Prop := s.cancelRequested = false ∧ s.mustCancel = false

@[simp] theorem callback_ended : (s.callback cancelled i).ended = s.ended := by
  unfold State.callback
  grind

@[simp] theorem callback_called :
    (s.callback cancelled i).called = Function.update s.called i true := by
  unfold State.callback
  grind

@[simp] theorem callback_result : (s.callback cancelled i).result = s.result := by
  unfold State.callback
  grind

theorem callback_uncancelled (h : Uncancelled s) : Uncancelled (s.callback cancelled i) := by
  unfold State.callback Uncancelled at *
  grind

theorem result_ok (h : Inv cancelled s) (hr : s.result = some (.ok l)) : Values s l := by
  rcases h.result _ hr with ho | ⟨hc, -⟩
  · exact h.values l ho
  · cases hc

theorem result_error (h : Inv cancelled s) (hu : Uncancelled s)
    (hr : s.result = some (.error e)) : ∃ i, s.ended i = some (.error e) := by
  rcases h.result _ hr with ho | ⟨-, hc⟩
  · rcases h.failed e ho with hi | ⟨-, hc⟩
    · exact hi
    · rw [hu.1] at hc
      cases hc
  · rw [hu.2] at hc
    cases hc

/-! ## The loop alone brings a gather to its end -/

/-- The loop takes these steps by itself. -/
def Label.OfLoop : Label n ε α → Prop
  | .callback _ | .wake => True
  | _ => False

theorem run_callbacks (cancelled : ε) {is : List (Fin n)} (hnodup : is.Nodup)
    (hcalled : ∀ i ∈ is, s.called i = false) (hended : ∀ i, (s.ended i).isSome = true) :
    ∃ t, Run (ofStep (State.step cancelled)) s (is.map .callback) t ∧ t.result = s.result ∧
      ∀ j, j ∈ is ∨ s.called j = true → t.called j = true := by
  induction is generalizing s with
  | nil => exact ⟨s, .nil, rfl, fun j hj => hj.resolve_left List.not_mem_nil⟩
  | cons i is ih =>
    obtain ⟨hi, hnodup⟩ := List.nodup_cons.mp hnodup
    obtain ⟨hci, hcalled⟩ := List.forall_mem_cons.mp hcalled
    have hrest : ∀ j ∈ is, (s.callback cancelled i).called j = false := by
      intro j hj
      have hji : j ≠ i := fun hji => hi (hji ▸ hj)
      simp [hji, hcalled j hj]
    obtain ⟨t, ht, hres, hall⟩ := ih (s := s.callback cancelled i) hnodup hrest (by simpa using hended)
    refine ⟨t, ht.cons (callback_step.mpr ⟨hended i, hci, rfl⟩), by simpa using hres,
      fun j hj => hall j ?_⟩
    · by_cases hji : j = i
      · simp [hji]
      · simpa [hji] using hj

theorem finishes (h : Inv cancelled s) (hended : ∀ i, (s.ended i).isSome = true)
    (hr : s.result = none) : ∃ ls t, (∀ a ∈ ls, Label.OfLoop a) ∧
      Run (ofStep (State.step cancelled)) s ls t ∧ t.result.isSome = true := by
  have hnodup : ((List.finRange n).filter fun i => !s.called i).Nodup :=
    (List.nodup_finRange n).filter _
  obtain ⟨t, ht, hres, hall⟩ := run_callbacks cancelled hnodup
    (fun i hi => by simpa using (List.mem_filter.mp hi).2) hended
  have hcalled : ∀ j, t.called j = true := by
    intro j
    apply hall
    cases hj : s.called j <;> simp [hj]
  have hinv : Inv cancelled t := ht.invariant h fun _ _ _ hx hstep => inv_step hx hstep
  cases ho : t.outer with
  | none =>
    obtain ⟨j, hj⟩ := (hinv.waiting ho).1
    simp [hcalled j] at hj
  | some r =>
    refine ⟨_, _, fun a ha => ?_, ht.snoc (wake_step.mpr ⟨r, ho, hres.trans hr, rfl⟩), rfl⟩
    rcases List.mem_append.mp ha with ha | ha
    · obtain ⟨i, -, rfl⟩ := List.mem_map.mp ha
      trivial
    · rw [List.mem_singleton.mp ha]
      trivial

end Gather
