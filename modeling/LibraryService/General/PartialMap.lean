import Mathlib.Logic.Function.Basic

/-!
# Partial maps

Functions to `Option`, and what is found in one after an entry was written.
-/

open Function (update update_apply)

namespace PartialMap

variable {κ α : Type*} [DecidableEq κ] {f : κ → Option α} {i j : κ} {a b : α} {x : Option α}

theorem update_eq_some (h : update f i (some a) j = some b) :
    (j = i ∧ b = a) ∨ (j ≠ i ∧ f j = some b) := by
  rw [update_apply] at h
  split at h
  case isTrue hij => exact .inl ⟨hij, (Option.some.inj h).symm⟩
  case isFalse hij => exact .inr ⟨hij, h⟩

theorem erase_eq_some (h : update f i none j = some b) : j ≠ i ∧ f j = some b := by
  rw [update_apply] at h
  split at h
  case isTrue => cases h
  case isFalse hij => exact ⟨hij, h⟩

theorem update_eq_none (h : update f i (some a) j = none) : j ≠ i ∧ f j = none := by
  rw [update_apply] at h
  split at h
  case isTrue => cases h
  case isFalse hij => exact ⟨hij, h⟩

theorem update_fresh (hi : f i = none) (hj : f j = some b) : update f i x j = some b := by
  rw [update_apply, if_neg (by rintro rfl; simp_all), hj]

theorem update_unused (hi : f i = some a) (hj : f j = none) : update f i x j = none := by
  rw [update_apply, if_neg (by rintro rfl; simp_all), hj]

theorem update_used (hj : ∃ b, f j = some b) : ∃ b, update f i (some a) j = some b := by
  rw [update_apply]
  split
  · exact ⟨a, rfl⟩
  · exact hj

theorem exists_update {P : α → Prop} (hj : ∃ b, f j = some b ∧ P b)
    (hP : ∀ b, f i = some b → P b → P a) : ∃ b, update f i (some a) j = some b ∧ P b := by
  obtain ⟨b, hb, hPb⟩ := hj
  rw [update_apply]
  split
  case isTrue hij => exact ⟨a, rfl, hP b (hij ▸ hb) hPb⟩
  case isFalse => exact ⟨b, hb, hPb⟩

end PartialMap
