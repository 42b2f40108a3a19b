import Mathlib.Data.Set.Finite.Basic
import Mathlib.Logic.Function.Basic

/-!
# Registries

Maps whose entries keep apart from each other and are retired but never removed: what a retired
entry holds stays taken.
-/

structure Registry (κ ν : Type*) (apart : ν → ν → Prop) where
  value : κ → Option ν
  retired : Set κ
  apart : ∀ i j v w, i ≠ j → value i = some v → value j = some w → apart v w
  finite : {i | value i ≠ none}.Finite

namespace Registry

variable {κ ν : Type*} {apart : ν → ν → Prop} {d d' : Registry κ ν apart} {i j : κ} {v w : ν}

@[ext] theorem ext (hvalue : ∀ i, d.value i = d'.value i) (hretired : ∀ i, i ∈ d.retired ↔ i ∈ d'.retired) :
    d = d' := by
  obtain ⟨f, s, _, _⟩ := d
  obtain ⟨g, s', _, _⟩ := d'
  obtain rfl : f = g := funext hvalue
  obtain rfl : s = s' := Set.ext hretired
  rfl

theorem finite_nowhere (κ ν : Type*) : {i : κ | (fun _ : κ => (none : Option ν)) i ≠ none}.Finite := by
  simp

def empty : Registry κ ν apart where
  value _ := none
  retired := ∅
  apart := by simp
  finite := finite_nowhere κ ν

open Classical in
/-- The entry, unless it is retired. -/
noncomputable def live (d : Registry κ ν apart) (i : κ) : Option ν :=
  if i ∈ d.retired then none else d.value i

theorem live_eq_some : d.live i = some v ↔ i ∉ d.retired ∧ d.value i = some v := by
  unfold live
  split <;> simp_all

/-- Nothing under another key is in the way of the entry, live or retired. -/
def Free (d : Registry κ ν apart) (i : κ) (v : ν) : Prop :=
  ∀ j w, j ≠ i → d.value j = some w → apart w v

/-- Some entry, live or retired, is in the way of the value under any key of its own. -/
def Taken (d : Registry κ ν apart) (v : ν) : Prop := ∃ j w, d.value j = some w ∧ ¬ apart w v

theorem free_of_not_taken (h : ¬ d.Taken v) : d.Free i v := by
  intro j w _ hw
  by_contra hapart
  exact h ⟨j, w, hw, hapart⟩

section Put

variable [DecidableEq κ] [Std.Symm apart]

open Classical in
noncomputable def put (d : Registry κ ν apart) (i : κ) (v : ν) : Registry κ ν apart :=
  if h : d.Free i v then
    { d with
      value := Function.update d.value i (some v)
      apart := by
        intro j k a b hjk ha hb
        rw [Function.update_apply] at ha hb
        split at ha <;> split at hb
        · simp_all
        · cases ha; exact Std.Symm.symm _ _ (h k b (by assumption) hb)
        · cases hb; exact h j a (by assumption) ha
        · exact d.apart j k a b hjk ha hb
      finite := by
        refine (d.finite.insert i).subset fun j hj => ?_
        by_cases hji : j = i
        · exact .inl hji
        · exact .inr (by simpa [Function.update_of_ne hji] using hj) }
  else d

theorem put_value (h : d.Free i v) (j : κ) :
    (d.put i v).value j = if j = i then some v else d.value j := by
  rw [put, dif_pos h]
  exact Function.update_apply ..

theorem put_retired (d : Registry κ ν apart) (i : κ) (v : ν) : (d.put i v).retired = d.retired := by
  unfold put
  split <;> rfl

theorem put_live (h : d.Free i v) (hi : i ∉ d.retired) : (d.put i v).live i = some v := by
  rw [live_eq_some, put_retired, put_value h, if_pos rfl]
  exact ⟨hi, rfl⟩

end Put

def retire (d : Registry κ ν apart) (i : κ) : Registry κ ν apart :=
  { d with retired := insert i d.retired }

theorem retire_value (d : Registry κ ν apart) (i : κ) : (d.retire i).value = d.value := rfl

theorem mem_retire : j ∈ (d.retire i).retired ↔ j = i ∨ j ∈ d.retired := Iff.rfl

/-! ## Retired entries -/

/-- The entry is retired, with this value. -/
def Gone (d : Registry κ ν apart) (i : κ) (v : ν) : Prop := i ∈ d.retired ∧ d.value i = some v

theorem gone_of_retire (h : d.live i = some v) : (d.retire i).Gone i v :=
  ⟨mem_retire.mpr (.inl rfl), (live_eq_some.mp h).2⟩

theorem Gone.retire (h : d.Gone i v) (j : κ) : (d.retire j).Gone i v :=
  ⟨mem_retire.mpr (.inr h.1), h.2⟩

theorem Gone.put [DecidableEq κ] [Std.Symm apart] (h : d.Gone i v) (hj : j ∉ d.retired) (w : ν) :
    (d.put j w).Gone i v := by
  refine ⟨by rw [put_retired]; exact h.1, ?_⟩
  by_cases hfree : d.Free j w
  · have hij : i ≠ j := by rintro rfl; exact hj h.1
    rw [put_value hfree, if_neg hij]
    exact h.2
  · rw [Registry.put, dif_neg hfree]
    exact h.2

theorem Gone.apart_live (h : d.Gone i v) (hj : d.live j = some w) : j ≠ i ∧ apart v w := by
  obtain ⟨hlive, hw⟩ := live_eq_some.mp hj
  have hne : j ≠ i := by rintro rfl; exact hlive h.1
  exact ⟨hne, d.apart i j v w hne.symm h.2 hw⟩

end Registry
