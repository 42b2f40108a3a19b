import Mathlib.Data.List.Nodup
import Mathlib.Data.Set.Basic
import LibraryService.General.Transition

/-!
# Serial orders

Commands that run side by side, and an order in which they could have run one after another.
-/

open Function (update update_of_ne update_self)

namespace Transition

variable {σ τ ο : Type*} {m : σ → τ → ο × σ} {s₀ s s' : σ} {i j : τ} {o : ο} {order before after : List τ}

/-- The ended commands in an order in which, one after another from `s₀`, they have the outcomes
they had and leave the state `s`. -/
structure SerialOrder (m : σ → τ → ο × σ) (s₀ : σ) (ended : τ → Option ο) (s : σ)
    (order : List τ) : Prop where
  nodup : order.Nodup
  mem_iff : ∀ i, i ∈ order ↔ (ended i).isSome
  outcomes : (answers m s₀ order).1.map some = order.map ended
  final : (answers m s₀ order).2 = s

variable {ended : τ → Option ο}

theorem SerialOrder.nil (h : ∀ i, ended i = none) : SerialOrder m s₀ ended s₀ [] :=
  ⟨.nil, by simp [h], rfl, rfl⟩

/-- A command that ends with the effect and the outcome it has on its own comes last. -/
theorem SerialOrder.snoc [DecidableEq τ] (h : SerialOrder m s₀ ended s order) (hi : ended i = none)
    (hm : m s i = (o, s')) : SerialOrder m s₀ (update ended i (some o)) s' (order ++ [i]) := by
  have hmem : i ∉ order := fun hmem => by simpa [hi] using (h.mem_iff i).mp hmem
  constructor
  case nodup => exact by rw [← List.concat_eq_append]; exact h.nodup.concat hmem
  case mem_iff =>
    intro j
    rw [List.mem_append, List.mem_singleton]
    by_cases hj : j = i
    · simp [hj]
    · rw [update_of_ne hj, h.mem_iff]
      simp [hj]
  case outcomes =>
    have hrest : order.map (update ended i (some o)) = order.map ended :=
      List.map_congr_left fun j hj => update_of_ne (by rintro rfl; exact hmem hj) _ _
    rw [answers_append, h.final, List.map_append, h.outcomes, List.map_append, hrest]
    simp [answers, hm]
  case final =>
    rw [answers_append, h.final]
    simp [answers, hm]

theorem answers_at {l k : List τ}
    (h : (answers m s (l ++ i :: k)).1.map some = (l ++ i :: k).map ended) :
    ended i = some (m (answers m s l).2 i).1 := by
  induction l generalizing s with
  | nil => exact (List.cons_eq_cons.mp h).1.symm
  | cons j l ih => exact ih (List.cons_eq_cons.mp h).2

theorem SerialOrder.later (h : SerialOrder m s₀ ended s (before ++ i :: after)) {I : σ → Prop}
    (hi : ∀ t, ended i = some (m t i).1 → I (m t i).2) (hkeep : ∀ t k, I t → I (m t k).2)
    (hj : j ∈ after) : ∃ t, I t ∧ ended j = some (m t j).1 := by
  obtain ⟨l, k, rfl⟩ := List.append_of_mem hj
  have hfirst := hi _ (answers_at h.outcomes)
  have hout := h.outcomes
  rw [← List.cons_append, ← List.append_assoc] at hout
  refine ⟨_, ?_, answers_at hout⟩
  rw [answers_append]
  exact answers_keep hkeep hfirst l

/-- What holds after a command that has ended, and is kept by each command, holds at the end. -/
theorem SerialOrder.lasting (h : SerialOrder m s₀ ended s order) (hi : ended i = some o)
    {I : σ → Prop} (hI : ∀ t, (m t i).1 = o → I (m t i).2) (hkeep : ∀ t k, I t → I (m t k).2) :
    I s := by
  obtain ⟨l, k, rfl⟩ := List.append_of_mem ((h.mem_iff i).mpr (by rw [hi]; rfl))
  have hat := (answers_at h.outcomes).symm.trans hi
  rw [← h.final, answers_append]
  exact answers_keep hkeep (hI _ (Option.some.inj hat)) k

theorem SerialOrder.either (h : SerialOrder m s₀ ended s order) (hij : i ≠ j) {o' : ο}
    (hi : ended i = some o) (hj : ended j = some o') {I : σ → Prop}
    (hIi : ∀ t, (m t i).1 = o → I (m t i).2) (hIj : ∀ t, (m t j).1 = o' → I (m t j).2)
    (hkeep : ∀ t k, I t → I (m t k).2) :
    (∃ t, I t ∧ (m t j).1 = o') ∨ ∃ t, I t ∧ (m t i).1 = o := by
  obtain ⟨l, k, rfl⟩ := List.append_of_mem ((h.mem_iff i).mpr (by rw [hi]; rfl))
  rcases List.mem_append.mp ((h.mem_iff j).mpr (by rw [hj]; rfl)) with hmem | hmem
  · obtain ⟨l₁, l₂, rfl⟩ := List.append_of_mem hmem
    rw [List.append_assoc, List.cons_append] at h
    obtain ⟨t, ht, hend⟩ := h.later (fun t ht => hIj t (Option.some.inj (ht.symm.trans hj))) hkeep
      (List.mem_append_right l₂ List.mem_cons_self)
    exact .inr ⟨t, ht, Option.some.inj (hend.symm.trans hi)⟩
  · obtain ⟨t, ht, hend⟩ := h.later (fun t ht => hIi t (Option.some.inj (ht.symm.trans hi))) hkeep
      ((List.mem_cons.mp hmem).resolve_left hij.symm)
    exact .inl ⟨t, ht, Option.some.inj (hend.symm.trans hj)⟩

/-- What each command appends to a list, the ended ones have appended in order. -/
theorem SerialOrder.appends {β : Type*} {f : σ → List β} {g : τ → ο → List β}
    (h : SerialOrder m s₀ ended s order) (hstep : ∀ t i, f (m t i).2 = f t ++ g i (m t i).1) :
    f s = f s₀ ++ order.flatMap fun i => (ended i).elim [] (g i) := by
  have hrun : ∀ (l : List τ) (t : σ), (answers m t l).1.map some = l.map ended →
      f (answers m t l).2 = f t ++ l.flatMap fun i => (ended i).elim [] (g i) := by
    intro l
    induction l with
    | nil => intro t _; simp [answers]
    | cons i l ih =>
      intro t hout
      obtain ⟨hi, hl⟩ := List.cons_eq_cons.mp hout
      rw [answers, ih _ hl, hstep, List.append_assoc, List.flatMap_cons, ← hi]
      rfl
  rw [← h.final]
  exact hrun order s₀ h.outcomes

theorem SerialOrder.union {β : Type*} {f : σ → Set β} {g : τ → ο → Set β}
    (h : SerialOrder m s₀ ended s order) (hstep : ∀ t i, f (m t i).2 = f t ∪ g i (m t i).1) :
    f s = f s₀ ∪ {x | ∃ i o, ended i = some o ∧ x ∈ g i o} := by
  have hrun : ∀ (l : List τ) (t : σ), (answers m t l).1.map some = l.map ended →
      f (answers m t l).2 = f t ∪ {x | ∃ i ∈ l, ∃ o, ended i = some o ∧ x ∈ g i o} := by
    intro l
    induction l with
    | nil => intro t _; simp [answers]
    | cons i l ih =>
      intro t hout
      obtain ⟨hi, hl⟩ := List.cons_eq_cons.mp hout
      rw [answers, ih _ hl, hstep, Set.union_assoc]
      congr 1
      ext x
      simp [← hi]
  rw [← h.final, hrun order s₀ h.outcomes]
  congr 1
  ext x
  simp only [Set.mem_ofPred_eq]
  constructor
  · rintro ⟨i, -, o, hi, hx⟩
    exact ⟨i, o, hi, hx⟩
  · rintro ⟨i, o, hi, hx⟩
    exact ⟨i, (h.mem_iff i).mpr (by rw [hi]; rfl), o, hi, hx⟩

end Transition
