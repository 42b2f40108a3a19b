/-!
# Computations that change a state and may raise
-/

namespace Effect

variable {σ ε α β : Type}

/-- A computation over `σ` that returns or raises an `ε`; what it did to the state stays either
way. -/
abbrev Eff (σ ε α : Type) := ExceptT ε (StateM σ) α

def Eff.runOn (x : Eff σ ε α) (s : σ) : Except ε α × σ := x.run.run s

def Eff.of (f : σ → Except ε α × σ) : Eff σ ε α := f

/-- A pure part of a computation, which may raise. -/
def Eff.ofExcept (x : Except ε α) : Eff σ ε α := Eff.of fun s => (x, s)

@[simp] theorem runOn_ofExcept (x : Except ε α) (s : σ) :
    (Eff.ofExcept x : Eff σ ε α).runOn s = (x, s) := rfl

/-- A computation on one of two parts of a state. -/
def Eff.onFst {τ : Type} (x : Eff σ ε α) : Eff (σ × τ) ε α :=
  Eff.of fun s => ((x.runOn s.1).1, (x.runOn s.1).2, s.2)

def Eff.onSnd {τ : Type} (x : Eff σ ε α) : Eff (τ × σ) ε α :=
  Eff.of fun s => ((x.runOn s.2).1, s.1, (x.runOn s.2).2)

theorem runOn_onFst {τ : Type} (x : Eff σ ε α) (s : σ) (t : τ) :
    (Eff.onFst x).runOn (s, t) = ((x.runOn s).1, (x.runOn s).2, t) := rfl

theorem runOn_onSnd {τ : Type} (x : Eff σ ε α) (t : τ) (s : σ) :
    (Eff.onSnd x).runOn (t, s) = ((x.runOn s).1, t, (x.runOn s).2) := rfl

@[simp] theorem runOn_pure (a : α) (s : σ) : (pure a : Eff σ ε α).runOn s = (.ok a, s) := rfl

@[simp] theorem runOn_get (s : σ) : (get : Eff σ ε σ).runOn s = (.ok s, s) := rfl

@[simp] theorem runOn_set (t s : σ) : (set t : Eff σ ε PUnit).runOn s = (.ok ⟨⟩, t) := rfl

@[simp] theorem runOn_modify (f : σ → σ) (s : σ) :
    (modify f : Eff σ ε PUnit).runOn s = (.ok ⟨⟩, f s) := rfl

theorem runOn_bind (x : Eff σ ε α) (f : α → Eff σ ε β) (s : σ) :
    (x >>= f).runOn s = match x.runOn s with
      | (.ok a, t) => (f a).runOn t
      | (.error e, t) => (.error e, t) := by
  change ExceptT.bindCont f (x.runOn s).1 (x.runOn s).2 = _
  obtain ⟨r, t⟩ := x.runOn s
  cases r <;> rfl

theorem runOn_tryCatch (x : Eff σ ε α) (h : ε → Eff σ ε α) (s : σ) :
    (tryCatch x h).runOn s = match x.runOn s with
      | (.ok a, t) => (.ok a, t)
      | (.error e, t) => (h e).runOn t := by
  change (match (x.runOn s).1 with
    | .ok a => pure (.ok a)
    | .error e => h e : StateM σ (Except ε α)) (x.runOn s).2 = _
  obtain ⟨r, t⟩ := x.runOn s
  cases r <;> rfl

theorem runOn_bind_ok {x : Eff σ ε α} {f : α → Eff σ ε β} {s t : σ} {a : α}
    (h : x.runOn s = (.ok a, t)) : (x >>= f).runOn s = (f a).runOn t := by
  rw [runOn_bind, h]

theorem runOn_bind_error {x : Eff σ ε α} {f : α → Eff σ ε β} {s t : σ} {e : ε}
    (h : x.runOn s = (.error e, t)) : (x >>= f).runOn s = (.error e, t) := by
  rw [runOn_bind, h]

theorem runOn_bind_fst {x : Eff σ ε α} {f : α → Eff σ ε β} {s : σ} {e : ε}
    (h : (x.runOn s).1 = .error e) : ((x >>= f).runOn s).1 = .error e := by
  rw [runOn_bind_error (Prod.ext h rfl)]

theorem fst_error_of_bind_pure {x : Eff σ ε α} {g : α → β} {s : σ} {e : ε}
    (h : ((do let a ← x; pure (g a) : Eff σ ε β).runOn s).1 = .error e) :
    (x.runOn s).1 = .error e := by
  rw [runOn_bind] at h
  generalize x.runOn s = out at h ⊢
  obtain ⟨r, t⟩ := out
  cases r with
  | ok a => cases h
  | error e' => cases h; rfl

theorem runOn_bind_snd {x : Eff σ ε α} {f : α → Eff σ ε β} (s : σ)
    (hf : ∀ a t, ((f a).runOn t).2 = t) : ((x >>= f).runOn s).2 = (x.runOn s).2 := by
  rw [runOn_bind]
  obtain ⟨r, t⟩ := x.runOn s
  cases r with
  | ok a => exact hf a t
  | error e => rfl

theorem bind_eq_ok {x : Eff σ ε α} {f : α → Eff σ ε β} {s t : σ} {b : β}
    (h : (x >>= f).runOn s = (.ok b, t)) :
    ∃ a s', x.runOn s = (.ok a, s') ∧ (f a).runOn s' = (.ok b, t) := by
  rw [runOn_bind] at h
  split at h
  · exact ⟨_, _, by assumption, h⟩
  · cases h

theorem except_bind_eq_ok {x : Except ε α} {f : α → Except ε β} {b : β} (h : x.bind f = .ok b) :
    ∃ a, x = .ok a ∧ f a = .ok b := by
  cases x with
  | error e => cases h
  | ok a => exact ⟨a, rfl, h⟩

theorem except_map_eq_ok {x : Except ε α} {f : α → β} {b : β} (h : x.map f = .ok b) :
    ∃ a, x = .ok a ∧ f a = b := by
  cases x with
  | error e => cases h
  | ok a => exact ⟨a, rfl, Except.ok.inj h⟩

theorem mapM_ok {f : α → Except ε β} {g : α → β} {l : List α} (h : ∀ a ∈ l, f a = .ok (g a)) :
    l.mapM f = .ok (l.map g) := by
  induction l with
  | nil => rfl
  | cons a l ih =>
    rw [List.mapM_cons, h a List.mem_cons_self, ih fun b hb => h b (List.mem_cons_of_mem a hb)]
    rfl

theorem mapM_eq_ok {f : α → Except ε β} {l : List α} {bs : List β} (h : l.mapM f = .ok bs) :
    ∀ a ∈ l, ∃ b, f a = .ok b := by
  induction l generalizing bs with
  | nil => simp
  | cons a l ih =>
    rw [List.mapM_cons] at h
    obtain ⟨b, hb, h⟩ := except_bind_eq_ok h
    obtain ⟨bs', hbs', -⟩ := except_bind_eq_ok h
    exact List.forall_mem_cons.mpr ⟨⟨b, hb⟩, ih hbs'⟩

theorem eff_ext {x y : Eff σ ε α} (h : ∀ s, x.runOn s = y.runOn s) : x = y := funext h

theorem tryCatch_throw (x : Eff σ ε α) : (tryCatch x fun e => throw e) = x := by
  refine eff_ext fun s => ?_
  rw [runOn_tryCatch]
  obtain ⟨r, t⟩ := x.runOn s
  cases r <;> rfl

theorem runOn_tryCatch_ok {x : Eff σ ε α} {h : ε → Eff σ ε α} {s t : σ} {a : α}
    (hx : x.runOn s = (.ok a, t)) : (tryCatch x h).runOn s = (.ok a, t) := by
  rw [runOn_tryCatch, hx]

theorem runOn_tryCatch_error {x : Eff σ ε α} {h : ε → Eff σ ε α} {s t : σ} {e : ε}
    (hx : x.runOn s = (.error e, t)) : (tryCatch x h).runOn s = (h e).runOn t := by
  rw [runOn_tryCatch, hx]

/-! ## Outcomes as values -/

/-- How the computation ends, as a value. -/
def Eff.attempt {ε' : Type} (x : Eff σ ε α) : Eff σ ε' (Except ε α) :=
  Eff.of fun s => (.ok (x.runOn s).1, (x.runOn s).2)

/-- `try: x finally: y`. -/
def Eff.andFinally (x : Eff σ ε α) (y : Eff σ ε Unit) : Eff σ ε α := do
  let r ← x.attempt
  y
  Eff.ofExcept r

theorem runOn_attempt_bind {ε' : Type} (x : Eff σ ε α) (f : Except ε α → Eff σ ε' β) (s : σ) :
    (x.attempt >>= f).runOn s = (f (x.runOn s).1).runOn (x.runOn s).2 :=
  runOn_bind_ok rfl

theorem runOn_andFinally {x : Eff σ ε α} {y : Eff σ ε Unit} {s t : σ}
    (hy : y.runOn (x.runOn s).2 = (.ok (), t)) :
    (x.andFinally y).runOn s = ((x.runOn s).1, t) := by
  rw [Eff.andFinally, runOn_attempt_bind, runOn_bind_ok hy]
  rfl

/-! ## What a computation may raise -/

def Eff.Raises (P : ε → Prop) (x : Eff σ ε α) : Prop :=
  ∀ ⦃s e t⦄, x.runOn s = (.error e, t) → P e

variable {P : ε → Prop} {x : Eff σ ε α} {f : α → Eff σ ε β}

theorem raises_pure (a : α) : (pure a : Eff σ ε α).Raises P := nofun

theorem raises_get : (get : Eff σ ε σ).Raises P := nofun

theorem raises_set (t : σ) : (set t : Eff σ ε PUnit).Raises P := nofun

theorem raises_throw {e : ε} (h : P e) : (throw e : Eff σ ε α).Raises P := by
  rintro s e' t h'
  cases h'
  exact h

theorem Eff.Raises.bind (hx : x.Raises P) (hf : ∀ a, (f a).Raises P) : (x >>= f).Raises P := by
  intro s e t h
  cases hrun : x.runOn s with
  | mk r s' =>
    cases r with
    | error e' => rw [runOn_bind_error hrun] at h; cases h; exact hx hrun
    | ok a => rw [runOn_bind_ok hrun] at h; exact hf a h

theorem Eff.Raises.tryCatch {Q : ε → Prop} {h : ε → Eff σ ε α} (hx : x.Raises Q)
    (hh : ∀ e, Q e → (h e).Raises P) : (tryCatch x h).Raises P := by
  intro s e t hrun
  cases hxs : x.runOn s with
  | mk r s' =>
    cases r with
    | ok a => rw [runOn_tryCatch_ok hxs] at hrun; cases hrun
    | error e' => rw [runOn_tryCatch_error hxs] at hrun; exact hh e' (hx hxs) hrun

end Effect
