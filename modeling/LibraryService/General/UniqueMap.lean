import Mathlib.Data.Set.Finite.Basic
import Mathlib.Logic.Function.Basic

/-!
# Finite maps without repeated values
-/

/-- A finite map in which no two keys share a value. -/
structure UniqueMap (κ ν : Type*) where
  get : κ → Option ν
  injective : ∀ i j v, get i = some v → get j = some v → i = j
  finite : {i | get i ≠ none}.Finite

namespace UniqueMap

variable {κ ν : Type*} [DecidableEq κ] {m : UniqueMap κ ν} {i j : κ} {v : ν}

omit [DecidableEq κ] in
@[ext] theorem ext {m m' : UniqueMap κ ν} (h : ∀ i, m.get i = m'.get i) : m = m' := by
  obtain ⟨f, _, _⟩ := m
  obtain ⟨g, _, _⟩ := m'
  obtain rfl : f = g := funext h
  rfl

def empty : UniqueMap κ ν := ⟨fun _ => none, by simp, by simp⟩

def HasValue (m : UniqueMap κ ν) (v : ν) : Prop := ∃ i, m.get i = some v

/-- The value may be put under the key: no other key has it. -/
def Free (m : UniqueMap κ ν) (i : κ) (v : ν) : Prop := ∀ j, m.get j = some v → j = i

omit [DecidableEq κ] in
theorem free_of_not_hasValue (h : ¬ m.HasValue v) : m.Free i v :=
  fun j hj => absurd ⟨j, hj⟩ h

open Classical in
noncomputable def put (m : UniqueMap κ ν) (i : κ) (v : ν) : UniqueMap κ ν :=
  if h : m.Free i v then
    { get := Function.update m.get i (some v)
      injective := by
        intro j k w hj hk
        rw [Function.update_apply] at hj hk
        split at hj <;> split at hk
        · simp_all
        · cases hj; exact absurd (h k hk) (by assumption)
        · cases hk; exact absurd (h j hj) (by assumption)
        · exact m.injective j k w hj hk
      finite := by
        refine (m.finite.insert i).subset fun j hj => ?_
        by_cases hji : j = i
        · exact .inl hji
        · exact .inr (by simpa [Function.update_of_ne hji] using hj) }
  else m

def erase (m : UniqueMap κ ν) (i : κ) : UniqueMap κ ν where
  get := Function.update m.get i none
  injective := by
    intro j k w hj hk
    rw [Function.update_apply] at hj hk
    split at hj
    · cases hj
    · split at hk
      · cases hk
      · exact m.injective j k w hj hk
  finite := by
    refine m.finite.subset fun j hj hnone => hj ?_
    rw [Function.update_apply]
    split
    · rfl
    · exact hnone

theorem put_get (h : m.Free i v) (j : κ) :
    (m.put i v).get j = if j = i then some v else m.get j := by
  rw [put, dif_pos h]
  exact Function.update_apply ..

theorem erase_get (m : UniqueMap κ ν) (i j : κ) :
    (m.erase i).get j = if j = i then none else m.get j := Function.update_apply ..

end UniqueMap
