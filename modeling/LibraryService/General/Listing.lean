import Mathlib.Data.List.Sort
import LibraryService.General.UniqueMap

/-!
# The entries of a finite map in order
-/

namespace UniqueMap

variable {κ ν : Type*} {m : UniqueMap κ ν} {lt : κ → κ → Prop} {l l' : List (κ × ν)}

/-- The list has exactly the entries of the map, in the order of their keys. -/
structure Lists (m : UniqueMap κ ν) (lt : κ → κ → Prop) (l : List (κ × ν)) : Prop where
  ordered : l.Pairwise fun a b => lt a.1 b.1
  mem_iff : ∀ i v, (i, v) ∈ l ↔ m.get i = some v

theorem Lists.unique [IsTrans κ lt] [Std.Irrefl lt] (h : m.Lists lt l) (h' : m.Lists lt l') :
    l = l' := by
  have hantisymm : Std.Antisymm fun a b : κ × ν => lt a.1 b.1 :=
    ⟨fun a b hab hba => absurd (IsTrans.trans _ _ _ hab hba) (Std.Irrefl.irrefl a.1)⟩
  have hirrefl : Std.Irrefl fun a b : κ × ν => lt a.1 b.1 := ⟨fun a => Std.Irrefl.irrefl a.1⟩
  exact h.ordered.eq_of_mem_iff h'.ordered fun e => (h.mem_iff e.1 e.2).trans (h'.mem_iff e.1 e.2).symm

/-- The entries in a strict order of their keys. -/
noncomputable def entries (m : UniqueMap κ ν) (lt : κ → κ → Prop) : List (κ × ν) :=
  Classical.epsilon (m.Lists lt)

theorem Lists.entries_eq [IsTrans κ lt] [Std.Irrefl lt] (h : m.Lists lt l) : m.entries lt = l :=
  (Classical.epsilon_spec ⟨l, h⟩).unique h

end UniqueMap
