import LibraryService.General.Transition

/-!
# Provenance

Where what a run has handed out comes from: what was opened there, and what was renewed from what.
-/

namespace Provenance

open Transition

variable {σ ι ο γ : Type*}

/-! ## Places of a run -/

/-- The state in which a run comes to its input at place `i`. -/
def stateAt (m : σ → ι → ο × σ) (s : σ) (is : List ι) (i : Nat) : σ := (answers m s (is.take i)).2

variable {m : σ → ι → ο × σ} {ok : σ → ι → Prop} {s : σ} {is : List ι} {x : ι} {i : Nat}

theorem stateAt_succ (h : is[i]? = some x) :
    stateAt m s is (i + 1) = (m (stateAt m s is i) x).2 := by
  unfold stateAt
  rw [List.take_add_one, h, answers_append]
  rfl

theorem ok_at (hok : AllOk m ok s is) (h : is[i]? = some x) : ok (stateAt m s is i) x := by
  obtain ⟨hi, rfl⟩ := List.getElem?_eq_some_iff.mp h
  rw [← List.take_append_drop i is, List.drop_eq_getElem_cons hi, allOk_append] at hok
  exact hok.2.1

theorem mem_collected {kept : σ → List γ} {out : ο → List γ}
    (hm : ∀ s x, kept (m s x).2 = kept s ++ out (m s x).1) (h₀ : kept s = []) {g : γ} :
    i ≤ is.length → (g ∈ kept (stateAt m s is i) ↔
      ∃ j x, j < i ∧ is[j]? = some x ∧ g ∈ out (m (stateAt m s is j) x).1) := by
  induction i with
  | zero => simp [stateAt, answers, h₀]
  | succ i ih =>
    intro hi
    have hx : is[i]? = some (is.get ⟨i, hi⟩) := List.getElem?_eq_getElem hi
    rw [stateAt_succ hx, hm, List.mem_append, ih (Nat.le_of_succ_le hi)]
    constructor
    · rintro (⟨j, x, hj, hjx, hg⟩ | hg)
      · exact ⟨j, x, Nat.lt_succ_of_lt hj, hjx, hg⟩
      · exact ⟨i, _, Nat.lt_succ_self i, hx, hg⟩
    · rintro ⟨j, x, hj, hjx, hg⟩
      rcases Nat.lt_succ_iff_lt_or_eq.mp hj with hj | rfl
      · exact .inl ⟨j, x, hj, hjx, hg⟩
      · rw [Option.some.inj (hx.symm.trans hjx)]
        exact .inr hg

/-! ## Leases -/

/-- At a place of a run a lease is opened, or an old lease is renewed to a new one. -/
structure Leases (γ : Type*) where
  opened : Nat → γ → Prop
  renewed : Nat → γ → γ → Prop

/-- The lease `g` of place `i` goes back, renewal by renewal, to the one opened at place `k`. -/
inductive Held (L : Leases γ) (k : Nat) : Nat → γ → Prop
  | opened {g : γ} : L.opened k g → Held L k k g
  | renewed {i j : Nat} {g g' : γ} : Held L k i g → i < j → L.renewed j g g' → Held L k j g'

variable {L : Leases γ} {k : Nat} {g : γ}

theorem Held.root (h : Held L k i g) : ∃ g₀, L.opened k g₀ := by
  induction h with
  | opened h => exact ⟨_, h⟩
  | renewed _ _ _ ih => exact ih

theorem Held.invariant {P : γ → Prop} (h : Held L k i g) (hopened : ∀ g, L.opened k g → P g)
    (hrenewed : ∀ j g g', P g → L.renewed j g g' → P g') : P g := by
  induction h with
  | opened h => exact hopened _ h
  | renewed _ _ hrenew ih => exact hrenewed _ _ _ ih hrenew

/-- Where late renewals are of late leases only, a late lease was opened late. -/
theorem Held.late {late : Nat → Prop} (h : Held L k i g)
    (hrenewed : ∀ i j g g', Held L k i g → L.renewed j g g' → late j → late i) (hlate : late i) :
    late k := by
  induction h with
  | opened => exact hlate
  | renewed hheld _ hrenew ih => exact ih (hrenewed _ _ _ _ hheld hrenew hlate)

/-- Leases are held, where each is opened or renewed from one that was granted before. -/
theorem exists_held (granted : Nat → γ → Prop)
    (hfrom : ∀ j g', granted j g' → L.opened j g' ∨ ∃ i g, i < j ∧ granted i g ∧ L.renewed j g g') :
    ∀ j g, granted j g → ∃ k, Held L k j g := by
  intro j
  induction j using Nat.strongRecOn with
  | ind j ih =>
    intro g' hg'
    rcases hfrom j g' hg' with hopened | ⟨i, g, hij, hg, hrenewed⟩
    · exact ⟨j, .opened hopened⟩
    · obtain ⟨k, hheld⟩ := ih i hij g hg
      exact ⟨k, hheld.renewed hij hrenewed⟩

end Provenance
