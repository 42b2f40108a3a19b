import LibraryService.General.Relational

/-!
# Row versions of open transactions

A table of committed rows beside the row versions that open transactions have written. A row that
such a transaction has written is locked until it ends, and no other version may be written while
it is in doubt whether it would be a duplicate.
-/

namespace Relational

variable {ρ τ : Type} {ixs : List (UniqueIndex ρ)} {o n r x : ρ}

@[ext] theorem Table.ext {t t' : Table ixs} (h : t.rows = t'.rows) : t = t' := by
  obtain ⟨_, _⟩ := t
  obtain ⟨_, _⟩ := t'
  cases h
  rfl

/-! ## One row replaced by another -/

variable [DecidableEq ρ]

def swap (o n r : ρ) : ρ := if r = o then n else r

theorem map_swap_of_notMem {l : List ρ} (h : o ∉ l) : l.map (swap o n) = l := by
  rw [List.map_congr_left (g := id), List.map_id]
  intro r hr
  exact if_neg (by rintro rfl; exact h hr)

def Table.replace [Keyed ixs] (t : Table ixs) (o n : ρ)
    (h : ∀ r ∈ t.rows, r ≠ o → Apart ixs r n) : Table ixs where
  rows := t.rows.map (swap o n)
  unique := by
    rw [List.pairwise_map]
    refine t.unique.imp_of_mem fun {r x} hr hx hapart => ?_
    unfold swap
    split <;> split
    case isTrue.isTrue hro hxo => exact absurd (hro.trans hxo.symm) hapart.ne
    case isTrue.isFalse hxo => exact (h x hx hxo).symm
    case isFalse.isTrue hro _ => exact h r hr hro
    case isFalse.isFalse => exact hapart

section Replace

variable [Keyed ixs] {t : Table ixs} (h : ∀ r ∈ t.rows, r ≠ o → Apart ixs r n)

theorem Table.mem_replace (ho : o ∈ t.rows) :
    x ∈ (t.replace o n h).rows ↔ x = n ∨ x ∈ t.rows ∧ x ≠ o := by
  simp only [Table.replace, List.mem_map, swap]
  constructor
  · rintro ⟨r, hr, rfl⟩
    split
    case isTrue => exact .inl rfl
    case isFalse hro => exact .inr ⟨hr, hro⟩
  · rintro (rfl | ⟨hx, hxo⟩)
    · exact ⟨o, ho, if_pos rfl⟩
    · exact ⟨x, hx, if_neg hxo⟩

theorem Table.replace_rows {p : ρ → Bool} {a b : List ρ} (hp : Picks p t.rows a o b) :
    (t.replace o n h).rows = a ++ n :: b := by
  have hnodup := t.nodup
  rw [hp.split, List.nodup_middle, List.nodup_cons, List.mem_append, not_or] at hnodup
  change t.rows.map (swap o n) = _
  rw [hp.split, List.map_append, List.map_cons, map_swap_of_notMem hnodup.1.1,
    map_swap_of_notMem hnodup.1.2, swap, if_pos rfl]

theorem Table.updateWhere_replace {ε : Type} {dup : String → ε} {p : ρ → Bool}
    {assign : ρ → Except ε ρ} {a b : List ρ} (hp : Picks p t.rows a o b) (ha : assign o = .ok n) :
    t.updateWhere dup p assign = .ok (t.replace o n h, [n]) := by
  have hv : violated ixs (a ++ b) n = none := by
    rw [violated_eq_none]
    intro r hr
    rw [hp.mem_others] at hr
    refine h r hr.1 ?_
    rintro rfl
    rw [hp.picked] at hr
    cases hr.2
  obtain ⟨t', ht', hrows⟩ := Table.updateWhere_single hp ha hv
  rw [ht', Table.ext (hrows.trans (Table.replace_rows h hp).symm)]

end Replace

/-! ## The versions of a table -/

/-- What an open transaction has written: the row it locks, and the version in its place. -/
structure Pending (τ ρ : Type) where
  owner : τ
  old : ρ
  new : ρ
  deriving DecidableEq

structure Versions (τ : Type) (ixs : List (UniqueIndex ρ)) where
  table : Table ixs
  pending : List (Pending τ ρ)
  held : ∀ v ∈ pending, v.old ∈ table.rows
  apart : ∀ v ∈ pending, ∀ r ∈ table.rows, r ≠ v.old → Apart ixs r v.new
  alone : pending.Pairwise fun v w => v.owner ≠ w.owner ∧ v.old ≠ w.old ∧ Apart ixs v.new w.new

namespace Versions

variable {s : Versions τ ixs} {i : τ} {v w : Pending τ ρ}

def start (τ : Type) (t : Table ixs) : Versions τ ixs := ⟨t, [], by simp, by simp, .nil⟩

/-- A new version of `o` has to wait: the row is locked, or one of the versions of another row
that is in doubt would be a duplicate. -/
def Waits (s : Versions τ ixs) (o n : ρ) : Prop :=
  ∃ v ∈ s.pending, v.old = o ∨ ¬ Apart ixs v.old n ∨ ¬ Apart ixs v.new n

instance : Decidable (s.Waits o n) := inferInstanceAs (Decidable (∃ v ∈ s.pending, _))

omit [DecidableEq ρ] in
theorem pair (hv : v ∈ s.pending) (hw : w ∈ s.pending) (hne : v ≠ w) :
    v.owner ≠ w.owner ∧ v.old ≠ w.old ∧ Apart ixs v.new w.new := by
  have hsymm : Std.Symm fun v w : Pending τ ρ =>
      v.owner ≠ w.owner ∧ v.old ≠ w.old ∧ Apart ixs v.new w.new :=
    ⟨fun _ _ h => ⟨h.1.symm, h.2.1.symm, h.2.2.symm⟩⟩
  exact s.alone.forall hv hw hne

omit [DecidableEq ρ] in
theorem eq_of_owner (hv : v ∈ s.pending) (hw : w ∈ s.pending) (h : v.owner = w.owner) : v = w := by
  by_contra hne
  exact (pair hv hw hne).1 h

/-- A transaction that has written nothing may write the version, which duplicates no row. -/
structure Admits (s : Versions τ ixs) (i : τ) (o n : ρ) : Prop where
  found : o ∈ s.table.rows
  first : ∀ v ∈ s.pending, v.owner ≠ i
  free : ¬ s.Waits o n
  unique : ∀ r ∈ s.table.rows, r ≠ o → Apart ixs r n

instance [DecidableEq τ] : Decidable (s.Admits i o n) :=
  decidable_of_iff (o ∈ s.table.rows ∧ (∀ v ∈ s.pending, v.owner ≠ i) ∧ ¬ s.Waits o n ∧
      ∀ r ∈ s.table.rows, r ≠ o → Apart ixs r n)
    ⟨fun ⟨h₁, h₂, h₃, h₄⟩ => ⟨h₁, h₂, h₃, h₄⟩, fun h => ⟨h.found, h.first, h.free, h.unique⟩⟩

def write (s : Versions τ ixs) (i : τ) (o n : ρ) (h : s.Admits i o n) : Versions τ ixs where
  table := s.table
  pending := s.pending ++ [⟨i, o, n⟩]
  held v hv := by
    rcases List.mem_append.mp hv with hv | hv
    · exact s.held v hv
    · rw [List.mem_singleton.mp hv]; exact h.found
  apart v hv := by
    rcases List.mem_append.mp hv with hv | hv
    · exact s.apart v hv
    · rw [List.mem_singleton.mp hv]; exact h.unique
  alone := by
    rw [List.pairwise_append]
    refine ⟨s.alone, List.pairwise_singleton _ _, fun v hv w hw => ?_⟩
    rw [List.mem_singleton.mp hw]
    refine ⟨h.first v hv, fun heq => h.free ⟨v, hv, .inl heq⟩, ?_⟩
    by_contra hdup
    exact h.free ⟨v, hv, .inr (.inr hdup)⟩

/-- The transaction ends without an effect. -/
def abort [DecidableEq τ] (s : Versions τ ixs) (i : τ) : Versions τ ixs where
  table := s.table
  pending := s.pending.filter fun v => decide (v.owner ≠ i)
  held v hv := s.held v (List.mem_of_mem_filter hv)
  apart v hv := s.apart v (List.mem_of_mem_filter hv)
  alone := s.alone.sublist List.filter_sublist

variable [Keyed ixs]

/-- The transaction ends, and its version is the committed one from now on. -/
def install [DecidableEq τ] (s : Versions τ ixs) (v : Pending τ ρ) (hv : v ∈ s.pending) :
    Versions τ ixs where
  table := s.table.replace v.old v.new (s.apart v hv)
  pending := s.pending.filter fun w => decide (w.owner ≠ v.owner)
  held w hw := by
    obtain ⟨hw, hne⟩ := List.mem_filter.mp hw
    have hne : w ≠ v := by rintro rfl; simp at hne
    exact (Table.mem_replace _ (s.held v hv)).mpr (.inr ⟨s.held w hw, (pair hw hv hne).2.1⟩)
  apart w hw r hr hro := by
    obtain ⟨hw, hne⟩ := List.mem_filter.mp hw
    have hne : v ≠ w := by rintro rfl; simp at hne
    rcases (Table.mem_replace _ (s.held v hv)).mp hr with rfl | ⟨hr, -⟩
    · exact (pair hv hw hne).2.2
    · exact s.apart w hw r hr hro
  alone := s.alone.sublist List.filter_sublist

def commit [DecidableEq τ] (s : Versions τ ixs) (i : τ) : Versions τ ixs :=
  match h : s.pending.find? fun v => decide (v.owner = i) with
  | none => s
  | some v => s.install v (List.mem_of_find?_eq_some h)

theorem mem_commit [DecidableEq τ] : v ∈ (s.commit i).pending ↔ v ∈ s.pending ∧ v.owner ≠ i := by
  unfold commit
  split
  case h_1 hnone =>
    refine ⟨fun hv => ⟨hv, ?_⟩, And.left⟩
    simpa using List.find?_eq_none.mp hnone v hv
  case h_2 w hw =>
    have hi : w.owner = i := by simpa using List.find?_some hw
    simp [install, List.mem_filter, hi]

omit [DecidableEq ρ] [Keyed ixs] in
theorem mem_abort [DecidableEq τ] : v ∈ (s.abort i).pending ↔ v ∈ s.pending ∧ v.owner ≠ i := by
  simp [abort, List.mem_filter]

theorem commit_of_mem [DecidableEq τ] (hv : v ∈ s.pending) (hi : v.owner = i) :
    s.commit i = s.install v hv := by
  unfold commit
  split
  case h_1 hnone => exact absurd hi (by simpa using List.find?_eq_none.mp hnone v hv)
  case h_2 w hw =>
    obtain rfl := eq_of_owner (List.mem_of_find?_eq_some hw) hv (by simpa [hi] using List.find?_some hw)
    rfl

end Versions

end Relational
