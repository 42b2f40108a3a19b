import Mathlib.Data.List.Basic

/-!
# Texts that can be read back

When what is printed, and what comes after it, can be told from the text alone.
-/

namespace Decoding

variable {α β γ : Type*} {f : α → List γ} {after : List γ → Prop}

/-- Where an admissible text follows, what `f` printed and the text that follows are determined. -/
def Decodes (after : List γ → Prop) (f : α → List γ) : Prop :=
  ∀ ⦃a b xs ys⦄, after xs → after ys → f a ++ xs = f b ++ ys → a = b ∧ xs = ys

abbrev Anywhere : List γ → Prop := fun _ => True

def StartsWith (P : γ → Prop) (xs : List γ) : Prop := ∃ c cs, xs = c :: cs ∧ P c

theorem startsWith_cons {P : γ → Prop} {c : γ} (h : P c) (cs : List γ) : StartsWith P (c :: cs) :=
  ⟨c, cs, rfl, h⟩

theorem StartsWith.append_ne {c : γ} {xs : List γ} (h : StartsWith (· ≠ c) xs) (ys zs : List γ) :
    xs ++ ys ≠ c :: zs := by
  obtain ⟨d, ds, rfl, hd⟩ := h
  exact fun heq => hd (List.cons_eq_cons.mp heq).1

theorem Decodes.mono {before : List γ → Prop} (h : Decodes after f)
    (himp : ∀ xs, before xs → after xs) : Decodes before f :=
  fun _ _ _ _ hxs hys heq => h (himp _ hxs) (himp _ hys) heq

theorem Decodes.injective (h : Decodes after f) (hnil : after []) {a b : α} (heq : f a = f b) :
    a = b :=
  (h hnil hnil (by rw [heq])).1

theorem decodes_of_read (read : List γ → Option (α × List γ))
    (h : ∀ a xs, read (f a ++ xs) = some (a, xs)) : Decodes Anywhere f := by
  intro a b xs ys _ _ heq
  have hread := h a xs
  rw [heq, h b ys, Option.some.injEq, Prod.mk.injEq] at hread
  exact ⟨hread.1.symm, hread.2.symm⟩

theorem decodes_of_forall (p : γ → Bool) (hall : ∀ a, ∀ c ∈ f a, p c = true)
    (hinj : Function.Injective f) : Decodes (StartsWith fun c => p c = false) f := by
  have htake : ∀ a xs, (StartsWith fun c => p c = false) xs → (f a ++ xs).takeWhile p = f a := by
    rintro a _ ⟨c, cs, rfl, hc⟩
    rw [List.takeWhile_append_of_pos (hall a), List.takeWhile_cons_of_neg (by simp [hc]),
      List.append_nil]
  intro a b xs ys hxs hys heq
  have hf : f a = f b := by rw [← htake a xs hxs, heq, htake b ys hys]
  rw [hf] at heq
  exact ⟨hinj hf, List.append_cancel_left heq⟩

theorem Decodes.seq {g : β → List γ} {after' : List γ → Prop} (hf : Decodes after f)
    (hg : Decodes after' g) (hafter : ∀ b xs, after' xs → after (g b ++ xs)) :
    Decodes after' fun p : α × β => f p.1 ++ g p.2 := by
  rintro ⟨a, b⟩ ⟨a', b'⟩ xs ys hxs hys heq
  rw [List.append_assoc, List.append_assoc] at heq
  obtain ⟨rfl, hrest⟩ := hf (hafter b xs hxs) (hafter b' ys hys) heq
  obtain ⟨rfl, rfl⟩ := hg hxs hys hrest
  exact ⟨rfl, rfl⟩

theorem Decodes.prefixed (h : Decodes after f) (pre : List γ) : Decodes after fun a => pre ++ f a := by
  intro a b xs ys hxs hys heq
  rw [List.append_assoc, List.append_assoc] at heq
  exact h hxs hys (List.append_cancel_left heq)

theorem Decodes.flatMap (h : Decodes Anywhere f) {stop : γ}
    (hstop : ∀ a, StartsWith (· ≠ stop) (f a)) :
    Decodes Anywhere fun l : List α => l.flatMap f ++ [stop] := by
  intro l k xs ys _ _ heq
  induction l generalizing k with
  | nil =>
    cases k with
    | nil => exact ⟨rfl, List.cons_inj_right _ |>.mp heq⟩
    | cons b k =>
      simp only [List.flatMap_cons, List.append_assoc] at heq
      exact absurd heq.symm ((hstop b).append_ne _ _)
  | cons a l ih =>
    cases k with
    | nil =>
      simp only [List.flatMap_cons, List.append_assoc] at heq
      exact absurd heq ((hstop a).append_ne _ _)
    | cons b k =>
      simp only [List.flatMap_cons, List.append_assoc] at heq
      obtain ⟨rfl, hrest⟩ := h trivial trivial heq
      obtain ⟨rfl, rfl⟩ := ih (by simpa using hrest)
      exact ⟨rfl, rfl⟩

/-- Each item after a separator, and a closing text. -/
def items (f : α → List γ) (sep close : List γ) : List α → List γ
  | [] => close
  | a :: l => sep ++ f a ++ items f sep close l

theorem items_startsWith {P : γ → Prop} {s c : γ} {sep close : List γ} (hs : P s) (hc : P c)
    (l : List α) (xs : List γ) : StartsWith P (items f (s :: sep) (c :: close) l ++ xs) := by
  cases l with
  | nil => exact startsWith_cons hc _
  | cons a l => exact startsWith_cons hs _

theorem Decodes.items {s c : γ} {sep close : List γ} (h : Decodes (StartsWith (· ∈ [s, c])) f)
    (hsc : s ≠ c) : Decodes Anywhere (items f (s :: sep) (c :: close)) := by
  intro l k xs ys _ _ heq
  induction l generalizing k with
  | nil =>
    cases k with
    | nil => exact ⟨rfl, List.append_cancel_left heq⟩
    | cons b k => exact absurd (List.cons_eq_cons.mp heq).1.symm hsc
  | cons a l ih =>
    cases k with
    | nil => exact absurd (List.cons_eq_cons.mp heq).1 hsc
    | cons b k =>
      simp only [Decoding.items, List.append_assoc] at heq
      have hafter : ∀ l zs, StartsWith (· ∈ [s, c]) (Decoding.items f (s :: sep) (c :: close) l ++ zs) :=
        items_startsWith (by simp) (by simp)
      obtain ⟨rfl, hrest⟩ := h (hafter l xs) (hafter k ys) (List.append_cancel_left heq)
      obtain ⟨rfl, rfl⟩ := ih hrest
      exact ⟨rfl, rfl⟩

/-- The items of a list, the first without a separator. -/
def closed (f : α → List γ) (sep close : List γ) : List α → List γ
  | [] => close
  | a :: l => f a ++ items f sep close l

theorem Decodes.closed {s c : γ} {sep close : List γ} (h : Decodes (StartsWith (· ∈ [s, c])) f)
    (hsc : s ≠ c) (hfirst : ∀ a, StartsWith (· ≠ c) (f a)) :
    Decodes Anywhere (closed f (s :: sep) (c :: close)) := by
  have hafter : ∀ l zs, StartsWith (· ∈ [s, c]) (Decoding.items f (s :: sep) (c :: close) l ++ zs) :=
    items_startsWith (by simp) (by simp)
  intro l k xs ys _ _ heq
  cases l with
  | nil =>
    cases k with
    | nil => exact ⟨rfl, List.append_cancel_left heq⟩
    | cons b k =>
      simp only [Decoding.closed, List.append_assoc] at heq
      exact absurd heq.symm ((hfirst b).append_ne _ _)
  | cons a l =>
    cases k with
    | nil =>
      simp only [Decoding.closed, List.append_assoc] at heq
      exact absurd heq ((hfirst a).append_ne _ _)
    | cons b k =>
      simp only [Decoding.closed, List.append_assoc] at heq
      obtain ⟨rfl, hrest⟩ := h (hafter l xs) (hafter k ys) heq
      obtain ⟨rfl, rfl⟩ := h.items hsc trivial trivial hrest
      exact ⟨rfl, rfl⟩

end Decoding
