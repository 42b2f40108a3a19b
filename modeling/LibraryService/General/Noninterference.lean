import LibraryService.General.Transition

/-!
# Noninterference

Runs of a partial step function that differ in hidden labels, and what an observer sees of them.
-/

namespace Transition

variable {σ τ α ω : Type*}

theorem Run.filter {R : σ → α → σ → Prop} {Q : τ → α → τ → Prop} {keep : α → Bool} {S : σ → τ → Prop}
    (hdrop : ∀ s a t x, S s x → R s a t → keep a = false → S t x)
    (hkeep : ∀ s a t x, S s x → R s a t → keep a = true → ∃ y, Q x a y ∧ S t y)
    {s t : σ} {x : τ} {l : List α} (h : Run R s l t) (hs : S s x) :
    ∃ y, Run Q x (l.filter keep) y ∧ S t y := by
  induction h with
  | nil => exact ⟨x, .nil, hs⟩
  | @snoc l t a u _ hstep ih =>
    obtain ⟨y, hy, hrel⟩ := ih
    rw [List.filter_append]
    cases hk : keep a with
    | false =>
      refine ⟨y, ?_, hdrop _ _ _ _ hrel hstep hk⟩
      simpa [hk] using hy
    | true =>
      obtain ⟨z, hz, hrel⟩ := hkeep _ _ _ _ hrel hstep hk
      refine ⟨z, ?_, hrel⟩
      simpa [hk] using hy.snoc hz

theorem Run.unique {step : σ → α → Option σ} {s t u : σ} {l : List α} (h : Run (ofStep step) s l t)
    (h' : Run (ofStep step) s l u) : t = u := by
  induction h generalizing u with
  | nil =>
    generalize hl : ([] : List α) = l at h'
    cases h' with
    | nil => rfl
    | snoc => simp at hl
  | snoc _ hstep ih =>
    obtain ⟨x, hx, hstep'⟩ := h'.of_snoc
    rw [← ih hx] at hstep'
    exact Option.some.inj (hstep.symm.trans hstep')

/-- The observer does not see a hidden step, and of a visible one sees what was to be foreseen. -/
structure Unwinding (step : σ → α → Option σ) (visible : α → Bool) (obs : σ → ω) : Prop where
  hidden : ∀ s a t, visible a = false → step s a = some t → obs t = obs s
  consistent : ∀ s x a, visible a = true → obs s = obs x → (step s a).map obs = (step x a).map obs

namespace Unwinding

variable {step : σ → α → Option σ} {visible : α → Bool} {obs : σ → ω} {s x t u : σ} {l k : List α}

theorem enabled (h : Unwinding step visible obs) (hs : obs s = obs x) {a : α} (ha : visible a = true) :
    (step s a).isSome = (step x a).isSome := by
  have := congrArg Option.isSome (h.consistent s x a ha hs)
  simpa using this

theorem run_visible (h : Unwinding step visible obs) (hrun : Run (ofStep step) s l t)
    (hs : obs s = obs x) : ∃ y, Run (ofStep step) x (l.filter visible) y ∧ obs t = obs y := by
  refine hrun.filter (S := fun s x => obs s = obs x) ?_ ?_ hs
  · intro s a t x hsx hstep ha
    exact (h.hidden s a t ha hstep).trans hsx
  · intro s a t x hsx hstep ha
    have hmap := h.consistent s x a ha hsx
    rw [show step s a = some t from hstep, Option.map_some] at hmap
    obtain ⟨y, hy, hobs⟩ := Option.map_eq_some_iff.mp hmap.symm
    exact ⟨y, hy, hobs.symm⟩

/-- **Noninterference**: runs with the same visible labels end alike. -/
theorem noninterference (h : Unwinding step visible obs) (hl : Run (ofStep step) s l t)
    (hk : Run (ofStep step) s k u) (hlk : l.filter visible = k.filter visible) : obs t = obs u := by
  obtain ⟨y, hy, ht⟩ := h.run_visible hl rfl
  obtain ⟨z, hz, hu⟩ := h.run_visible hk rfl
  rw [hlk] at hy
  rw [ht, hu, hy.unique hz]

end Unwinding

end Transition
