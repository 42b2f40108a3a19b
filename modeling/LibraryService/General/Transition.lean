import Mathlib.Data.List.Forall2
import Mathlib.Data.List.Induction

/-!
# Labelled transition systems

Runs of a step relation, the invariant rule, and machines that answer.
-/

namespace Transition

variable {σ τ α ι ο : Type*}

/-! ## Runs -/

/-- `Run R s l t`: the labels of `l`, one step each, lead from `s` to `t`. -/
inductive Run (R : σ → α → σ → Prop) (s : σ) : List α → σ → Prop
  | nil : Run R s [] s
  | snoc {l : List α} {t : σ} {a : α} {u : σ} : Run R s l t → R t a u → Run R s (l ++ [a]) u

variable {R : σ → α → σ → Prop} {s t u : σ} {l k : List α} {a : α}

theorem Run.single (h : R s a t) : Run R s [a] t := Run.snoc Run.nil h

theorem Run.append (h : Run R s l t) (h' : Run R t k u) : Run R s (l ++ k) u := by
  induction h' with
  | nil => simpa using h
  | snoc _ hstep ih => rw [← List.append_assoc]; exact ih.snoc hstep

theorem Run.cons (h : R s a t) (h' : Run R t l u) : Run R s (a :: l) u :=
  (Run.single h).append h'

theorem Run.of_snoc (h : Run R s (l ++ [a]) u) : ∃ t, Run R s l t ∧ R t a u := by
  generalize hl : l ++ [a] = m at h
  cases h with
  | nil => simp at hl
  | snoc h hr =>
    obtain ⟨rfl, ha⟩ := List.append_inj' hl rfl
    cases ha
    exact ⟨_, h, hr⟩

theorem Run.split (h : Run R s (l ++ k) u) : ∃ t, Run R s l t ∧ Run R t k u := by
  induction k using List.reverseRecOn generalizing u with
  | nil => exact ⟨u, by simpa using h, .nil⟩
  | append_singleton k a ih =>
    rw [← List.append_assoc] at h
    obtain ⟨x, h, hr⟩ := h.of_snoc
    obtain ⟨t, hl, hk⟩ := ih h
    exact ⟨t, hl, hk.snoc hr⟩

theorem Run.mono {Q : σ → α → σ → Prop} (h : Run R s l t) (hQ : ∀ x a y, R x a y → Q x a y) :
    Run Q s l t := by
  induction h with
  | nil => exact .nil
  | snoc _ hstep ih => exact ih.snoc (hQ _ _ _ hstep)

theorem Run.restrict {P : α → Prop} (h : Run R s l t) (hP : ∀ a ∈ l, P a) :
    Run (fun x a y => R x a y ∧ P a) s l t := by
  induction h with
  | nil => exact .nil
  | snoc _ hr ih => exact (ih fun a ha => hP a (by simp [ha])).snoc ⟨hr, hP _ (by simp)⟩

/-- What holds at the start and is kept by each step holds at the end of every run. -/
theorem Run.invariant {I : σ → Prop} (h : Run R s l t) (h0 : I s)
    (hstep : ∀ x a y, I x → R x a y → I y) : I t := by
  induction h with
  | nil => exact h0
  | snoc _ hr ih => exact hstep _ _ _ ih hr

/-! ## Step functions -/

/-- A partial step function as a relation: `none` where the label is not enabled. -/
def ofStep (step : σ → α → Option σ) (s : σ) (a : α) (t : σ) : Prop := step s a = some t

def exec (step : σ → α → Option σ) : σ → List α → Option σ
  | s, [] => some s
  | s, a :: l => (step s a).bind fun t => exec step t l

theorem run_of_exec {step : σ → α → Option σ} (h : exec step s l = some t) :
    Run (ofStep step) s l t := by
  induction l generalizing s with
  | nil => cases h; exact .nil
  | cons a l ih =>
    obtain ⟨x, hx, h⟩ := Option.bind_eq_some_iff.mp h
    exact (ih h).cons hx

def guarded (step : σ → α → Option σ) (ok : σ → α → Prop) [∀ s a, Decidable (ok s a)]
    (s : σ) (a : α) : Option σ :=
  if ok s a then step s a else none

theorem run_of_guarded {step : σ → α → Option σ} {ok : σ → α → Prop} [∀ s a, Decidable (ok s a)]
    (h : exec (guarded step ok) s l = some t) :
    Run (fun x a y => ofStep step x a y ∧ ok x a) s l t := by
  refine (run_of_exec h).mono fun x a y hxy => ?_
  unfold ofStep guarded at hxy
  split at hxy
  · exact ⟨hxy, by assumption⟩
  · cases hxy

/-! ## Machines that answer -/

def answers (m : σ → ι → ο × σ) : σ → List ι → List ο × σ
  | s, [] => ([], s)
  | s, i :: is => ((m s i).1 :: (answers m (m s i).2 is).1, (answers m (m s i).2 is).2)

/-- Each input meets `ok` in the state it is given in. -/
def AllOk (m : σ → ι → ο × σ) (ok : σ → ι → Prop) : σ → List ι → Prop
  | _, [] => True
  | s, i :: is => ok s i ∧ AllOk m ok (m s i).2 is

theorem answers_append (m : σ → ι → ο × σ) (s : σ) (l k : List ι) :
    answers m s (l ++ k) = ((answers m s l).1 ++ (answers m (answers m s l).2 k).1,
      (answers m (answers m s l).2 k).2) := by
  induction l generalizing s with
  | nil => rfl
  | cons i l ih => rw [List.cons_append, answers, ih]; rfl

theorem allOk_append {m : σ → ι → ο × σ} {ok : σ → ι → Prop} {s : σ} {l k : List ι} :
    AllOk m ok s (l ++ k) ↔ AllOk m ok s l ∧ AllOk m ok (answers m s l).2 k := by
  induction l generalizing s with
  | nil => simp [AllOk, answers]
  | cons i l ih => simp [AllOk, answers, ih, and_assoc]

/-- Forward simulation of machines: related states that give related answers stay related. -/
theorem answers_simulate {π : Type*} {m : σ → ι → ο × σ} {n : τ → ι → π × τ} {ok : σ → ι → Prop}
    (Rel : σ → τ → Prop) (Ans : ο → π → Prop)
    (hstep : ∀ s t i, Rel s t → ok s i → Ans (m s i).1 (n t i).1 ∧ Rel (m s i).2 (n t i).2)
    {s : σ} {t : τ} (h : Rel s t) {is : List ι} (hok : AllOk m ok s is) :
    List.Forall₂ Ans (answers m s is).1 (answers n t is).1 ∧
      Rel (answers m s is).2 (answers n t is).2 := by
  induction is generalizing s t with
  | nil => exact ⟨.nil, h⟩
  | cons i is ih =>
    obtain ⟨hi, his⟩ := hok
    obtain ⟨hans, hrel⟩ := hstep s t i h hi
    obtain ⟨hl, hr⟩ := ih hrel his
    exact ⟨.cons hans hl, hr⟩

theorem answers_invariant {m : σ → ι → ο × σ} {ok : σ → ι → Prop} {I : σ → Prop}
    (hstep : ∀ s i, I s → ok s i → I (m s i).2) {s : σ} (h : I s) {is : List ι}
    (hok : AllOk m ok s is) : I (answers m s is).2 := by
  induction is generalizing s with
  | nil => exact h
  | cons i is ih => exact ih (hstep s i h hok.1) hok.2

theorem answers_keep {m : σ → ι → ο × σ} {I : σ → Prop} (hstep : ∀ s i, I s → I (m s i).2) {s : σ}
    (h : I s) (is : List ι) : I (answers m s is).2 := by
  induction is generalizing s with
  | nil => exact h
  | cons i is ih => exact ih (hstep s i h)

theorem answers_forall {m : σ → ι → ο × σ} {ok : σ → ι → Prop} {I : σ → Prop} {Q : ο → Prop}
    (hstep : ∀ s i, I s → ok s i → Q (m s i).1 ∧ I (m s i).2) {s : σ} (h : I s) {is : List ι}
    (hok : AllOk m ok s is) : ∀ o ∈ (answers m s is).1, Q o := by
  induction is generalizing s with
  | nil => simp [answers]
  | cons i is ih =>
    obtain ⟨hQ, hI⟩ := hstep s i h hok.1
    exact List.forall_mem_cons.mpr ⟨hQ, ih hI hok.2⟩

theorem answers_observed {m : σ → ι → ο × σ} {good : ι → Prop} {I : τ → σ → Prop} {f : τ → ι → ο → τ}
    (hstep : ∀ x s i, I x s → good i → I (f x i (m s i).1) (m s i).2) {x : τ} {s : σ} (h : I x s)
    {is : List ι} (hgood : ∀ i ∈ is, good i) :
    I ((is.zip (answers m s is).1).foldl (fun x p => f x p.1 p.2) x) (answers m s is).2 := by
  induction is generalizing x s with
  | nil => exact h
  | cons i is ih =>
    exact ih (hstep x s i h (hgood i (by simp))) fun j hj => hgood j (by simp [hj])

/-- What each input costs where it is answered, over a run. -/
def spent (m : σ → ι → ο × σ) (cost : σ → ι → Nat) : σ → List ι → Nat
  | _, [] => 0
  | s, i :: is => cost s i + spent m cost (m s i).2 is

theorem spent_le {m : σ → ι → ο × σ} {cost : σ → ι → Nat} {d : σ → σ → Nat} (hrefl : ∀ s, d s s = 0)
    (htri : ∀ s t u, d s u ≤ d s t + d t u) (hstep : ∀ s i, d s (m s i).2 ≤ cost s i)
    (s : σ) (is : List ι) : d s (answers m s is).2 ≤ spent m cost s is := by
  induction is generalizing s with
  | nil => exact Nat.le_of_eq (hrefl s)
  | cons i is ih =>
    calc d s (answers m (m s i).2 is).2
        ≤ d s (m s i).2 + d (m s i).2 (answers m (m s i).2 is).2 := htri _ _ _
      _ ≤ cost s i + spent m cost (m s i).2 is := Nat.add_le_add (hstep s i) (ih _)

/-- Where an invariant holds, `ok` may be a condition on the inputs alone. -/
theorem allOk_iff_forall {m : σ → ι → ο × σ} {ok : σ → ι → Prop} {good : ι → Prop} {I : σ → Prop}
    (hok : ∀ s i, I s → (ok s i ↔ good i)) (hstep : ∀ s i, I s → good i → I (m s i).2)
    {s : σ} (h : I s) {is : List ι} : AllOk m ok s is ↔ ∀ i ∈ is, good i := by
  induction is generalizing s with
  | nil => simp [AllOk]
  | cons i is ih =>
    rw [AllOk, hok s i h, List.forall_mem_cons]
    exact and_congr_right fun hi => ih (hstep s i h hi)

end Transition
