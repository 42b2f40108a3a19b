import Mathlib.Data.List.Nodup
import Mathlib.Data.List.Pairwise
import Mathlib.Tactic.Tauto

/-!
# Tables with unique indexes

A table keeps its unique indexes; a statement that would break one fails and has no effect.
-/

namespace Relational

variable {ρ κ ε : Type}

/-- A unique index: which rows it takes for duplicates of each other. -/
structure UniqueIndex (ρ : Type) where
  name : String
  clash : ρ → ρ → Bool
  symm : ∀ r r', clash r r' = clash r' r

/-- The index on a key; rows without one are outside a partial index. -/
def UniqueIndex.on [DecidableEq κ] (name : String) (key : ρ → Option κ) : UniqueIndex ρ where
  name := name
  clash r r' := (key r).isSome && decide (key r = key r')
  symm r r' := by
    by_cases h : key r = key r'
    · rw [h]
    · simp [h, Ne.symm h]

@[simp] theorem UniqueIndex.on_name [DecidableEq κ] (name : String) (key : ρ → Option κ) :
    (UniqueIndex.on name key).name = name := rfl

@[simp] theorem UniqueIndex.on_clash [DecidableEq κ] (name : String) (key : ρ → Option κ)
    (r r' : ρ) : (UniqueIndex.on name key).clash r r' = true ↔
      (key r).isSome = true ∧ key r = key r' := by
  simp [UniqueIndex.on]

theorem find?_eq_some_of_unique {l : List ρ} {p : ρ → Bool} {r : ρ}
    (h : ∀ x ∈ l, ∀ y ∈ l, p x = true → p y = true → x = y) :
    l.find? p = some r ↔ r ∈ l ∧ p r = true := by
  constructor
  · intro hr
    exact ⟨List.mem_of_find?_eq_some hr, List.find?_some hr⟩
  · rintro ⟨hr, hp⟩
    cases hx : l.find? p with
    | none => exact absurd hp (List.find?_eq_none.mp hx r hr)
    | some x => rw [h x (List.mem_of_find?_eq_some hx) r hr (List.find?_some hx) hp]

/-- Two rows of which no index takes one for a duplicate of the other. -/
def Apart (ixs : List (UniqueIndex ρ)) (r r' : ρ) : Prop := ∀ ix ∈ ixs, ix.clash r r' = false

theorem Apart.symm {ixs : List (UniqueIndex ρ)} {r r' : ρ} (h : Apart ixs r r') :
    Apart ixs r' r := fun ix hix => by rw [ix.symm]; exact h ix hix

instance {ixs : List (UniqueIndex ρ)} : Std.Symm (Apart ixs) := ⟨fun _ _ => Apart.symm⟩

instance : DecidableRel (Apart ixs) := fun r r' =>
  inferInstanceAs (Decidable (∀ ix ∈ ixs, ix.clash r r' = false))

structure Table (ixs : List (UniqueIndex ρ)) where
  rows : List ρ
  unique : rows.Pairwise (Apart ixs)

variable {ixs : List (UniqueIndex ρ)} {t t' : Table ixs} {rows : List ρ} {r r' : ρ} {n : String}

def Table.empty : Table ixs := ⟨[], .nil⟩

theorem Table.apart (hr : r ∈ t.rows) (hr' : r' ∈ t.rows) (hne : r ≠ r') : Apart ixs r r' :=
  t.unique.forall hr hr' hne

theorem Table.eq_of_clash {ix : UniqueIndex ρ} (hix : ix ∈ ixs) (hr : r ∈ t.rows)
    (hr' : r' ∈ t.rows) (h : ix.clash r r' = true) : r = r' := by
  by_contra hne
  have := t.apart hr hr' hne ix hix
  rw [h] at this; cases this

/-- Every row is a duplicate of itself in some index, as with a primary key. -/
class Keyed (ixs : List (UniqueIndex ρ)) : Prop where
  self : ∀ r : ρ, ∃ ix ∈ ixs, ix.clash r r = true

theorem Apart.ne [Keyed ixs] (h : Apart ixs r r') : r ≠ r' := by
  rintro rfl
  obtain ⟨ix, hix, hclash⟩ := (inferInstance : Keyed ixs).self r
  rw [h ix hix] at hclash
  cases hclash

theorem Table.nodup [Keyed ixs] (t : Table ixs) : t.rows.Nodup := t.unique.imp Apart.ne

/-! ## The check of a new row -/

/-- The first index in which `r` duplicates one of `rows`. -/
def violated (ixs : List (UniqueIndex ρ)) (rows : List ρ) (r : ρ) : Option String :=
  (ixs.find? fun ix => rows.any fun r' => ix.clash r' r).map UniqueIndex.name

theorem violated_eq_none : violated ixs rows r = none ↔ ∀ r' ∈ rows, Apart ixs r' r := by
  simp only [violated, Option.map_eq_none_iff, List.find?_eq_none, List.any_eq_true, not_exists,
    not_and, Bool.not_eq_true, Apart]
  exact ⟨fun h r' hr' ix hix => h ix hix r' hr', fun h ix hix r' hr' => h r' hr' ix hix⟩

theorem violated_eq_some (h : violated ixs rows r = some n) :
    ∃ ix ∈ ixs, ix.name = n ∧ ∃ r' ∈ rows, ix.clash r' r = true := by
  obtain ⟨ix, hix, rfl⟩ := Option.map_eq_some_iff.mp h
  obtain ⟨hmem, hany⟩ := And.intro (List.mem_of_find?_eq_some hix) (List.find?_some hix)
  exact ⟨ix, hmem, rfl, by simpa using hany⟩

theorem pairwise_insert {a b : List ρ} (hab : (a ++ b).Pairwise (Apart ixs))
    (h : violated ixs (a ++ b) r = none) : (a ++ r :: b).Pairwise (Apart ixs) := by
  rw [List.pairwise_middle Apart.symm, List.pairwise_cons]
  exact ⟨fun r' hr' => (violated_eq_none.mp h r' hr').symm, hab⟩

/-! ## Insert -/

def Table.insert (t : Table ixs) (r : ρ) : Except String (Table ixs) :=
  match h : violated ixs t.rows r with
  | some n => .error n
  | none => .ok ⟨t.rows ++ [r], pairwise_insert (by simpa using t.unique) (by simpa using h)⟩

theorem Table.insert_ok (h : violated ixs t.rows r = none) :
    ∃ t', t.insert r = .ok t' ∧ t'.rows = t.rows ++ [r] := by
  unfold Table.insert
  split
  · rename_i hv; rw [h] at hv; cases hv
  · exact ⟨_, rfl, rfl⟩

theorem Table.insert_error (h : violated ixs t.rows r = some n) : t.insert r = .error n := by
  unfold Table.insert
  split
  · rename_i hv; rw [h] at hv; cases hv; rfl
  · rename_i hv; rw [h] at hv; cases hv

/-- What an insert can do: it names an index that the new row breaks, or it appends the row. -/
theorem Table.insert_cases (t : Table ixs) (r : ρ) :
    (∃ ix ∈ ixs, t.insert r = .error ix.name ∧ ∃ x ∈ t.rows, ix.clash x r = true) ∨
      ∃ t', t.insert r = .ok t' ∧ (∀ x ∈ t.rows, Apart ixs x r) ∧ t'.rows = t.rows ++ [r] := by
  cases h : violated ixs t.rows r with
  | some n =>
    obtain ⟨ix, hix, rfl, hx⟩ := violated_eq_some h
    exact .inl ⟨ix, hix, Table.insert_error h, hx⟩
  | none =>
    obtain ⟨t', ht', hrows⟩ := t.insert_ok h
    exact .inr ⟨t', ht', violated_eq_none.mp h, hrows⟩

def Table.insertOnConflictDoNothing (target : UniqueIndex ρ) (t : Table ixs) (r : ρ) :
    Except String (Table ixs) :=
  if t.rows.any fun r' => target.clash r' r then .ok t else t.insert r

/-! ## Update -/

/-- Each row that meets `p`, in order, gives way to what `assign` makes of it, and is checked
against the rows as they are by then; `done` are the rows already passed. -/
def updateRows (ixs : List (UniqueIndex ρ)) (dup : String → ε) (p : ρ → Bool)
    (assign : ρ → Except ε ρ) : List ρ → List ρ → Except ε (List ρ × List ρ)
  | done, [] => .ok (done, [])
  | done, r :: rest =>
    if p r then
      match assign r with
      | .error e => .error e
      | .ok r' =>
        match violated ixs (done ++ rest) r' with
        | some n => .error (dup n)
        | none =>
          match updateRows ixs dup p assign (done ++ [r']) rest with
          | .error e => .error e
          | .ok (rows, returned) => .ok (rows, r' :: returned)
    else updateRows ixs dup p assign (done ++ [r]) rest

variable {dup : String → ε} {p : ρ → Bool} {assign : ρ → Except ε ρ} {e : ε}

theorem updateRows_unique (done : List ρ) {rest rows returned : List ρ}
    (hu : (done ++ rest).Pairwise (Apart ixs))
    (h : updateRows ixs dup p assign done rest = .ok (rows, returned)) :
    rows.Pairwise (Apart ixs) := by
  -- The rows that were passed and those to come stay apart from each other.
  induction rest generalizing done rows returned with
  | nil => cases h; simpa using hu
  | cons r rest ih =>
    rw [updateRows] at h
    split at h
    · split at h
      · cases h
      rename_i r' _
      split at h
      · cases h
      rename_i hv
      split at h
      · cases h
      rename_i hrest
      cases h
      refine ih _ ?_ hrest
      have hmid := hu.sublist (List.Sublist.append_left (List.sublist_cons_self r rest) done)
      simpa using pairwise_insert hmid hv
    · exact ih _ (by simpa using hu) h

/-- `UPDATE .. WHERE p .. RETURNING`: the table, and the rows as they were updated. -/
def Table.updateWhere (t : Table ixs) (dup : String → ε) (p : ρ → Bool)
    (assign : ρ → Except ε ρ) : Except ε (Table ixs × List ρ) :=
  match h : updateRows ixs dup p assign [] t.rows with
  | .error e => .error e
  | .ok (rows, returned) =>
    .ok (⟨rows, updateRows_unique [] t.unique h⟩, returned)

theorem Table.updateWhere_error (h : updateRows ixs dup p assign [] t.rows = .error e) :
    t.updateWhere dup p assign = .error e := by
  unfold Table.updateWhere
  split
  · rename_i hv; rw [h] at hv; cases hv; rfl
  · rename_i hv; rw [h] at hv; cases hv

theorem Table.updateWhere_ok {rows returned : List ρ}
    (h : updateRows ixs dup p assign [] t.rows = .ok (rows, returned)) :
    ∃ t', t.updateWhere dup p assign = .ok (t', returned) ∧ t'.rows = rows := by
  unfold Table.updateWhere
  split
  · rename_i hv; rw [h] at hv; cases hv
  · rename_i hv; rw [h] at hv; cases hv; exact ⟨_, rfl, rfl⟩

theorem updateRows_error {done rest : List ρ}
    (h : updateRows ixs dup p assign done rest = .error e) :
    (∃ r, assign r = .error e) ∨ ∃ n, e = dup n := by
  induction rest generalizing done with
  | nil => cases h
  | cons r rest ih =>
    rw [updateRows] at h
    split at h
    · split at h
      · rename_i hr
        cases h
        exact .inl ⟨r, hr⟩
      · split at h
        · rename_i n _
          cases h
          exact .inr ⟨n, rfl⟩
        · split at h
          · rename_i hrest
            cases h
            exact ih hrest
          · cases h
    · exact ih h

theorem Table.updateWhere_raises (h : t.updateWhere dup p assign = .error e) :
    (∃ r, assign r = .error e) ∨ ∃ n, e = dup n := by
  unfold Table.updateWhere at h
  split at h
  · rename_i hrows
    cases h
    exact updateRows_error hrows
  · cases h

theorem updateRows_append (done : List ρ) {a b : List ρ} (ha : ∀ x ∈ a, p x = false) :
    updateRows ixs dup p assign done (a ++ b) = updateRows ixs dup p assign (done ++ a) b := by
  induction a generalizing done with
  | nil => simp
  | cons x a ih =>
    rw [List.cons_append, updateRows, if_neg (by simp [ha x]), ih _ fun y hy => ha y (by simp [hy])]
    simp

theorem updateRows_skip (done : List ρ) {rest : List ρ} (h : ∀ x ∈ rest, p x = false) :
    updateRows ixs dup p assign done rest = .ok (done ++ rest, []) := by
  rw [← List.append_nil rest, updateRows_append done h, updateRows, List.append_nil]

section Single

variable {a b : List ρ}

/-- The one row that `p` picks, and the rows around it. -/
structure Picks (p : ρ → Bool) (rows a : List ρ) (r : ρ) (b : List ρ) : Prop where
  split : rows = a ++ r :: b
  picked : p r = true
  before : ∀ x ∈ a, p x = false
  after : ∀ x ∈ b, p x = false

theorem Table.picks {ix : UniqueIndex ρ} (hix : ix ∈ ixs) (hr : r ∈ t.rows)
    (hp : ∀ x, p x = ix.clash x r) (hpr : p r = true) : ∃ a b, Picks p t.rows a r b := by
  obtain ⟨a, b, hsplit⟩ := List.append_of_mem hr
  have hu := t.unique
  rw [hsplit, List.pairwise_append, List.pairwise_cons] at hu
  obtain ⟨-, ⟨hb, -⟩, ha⟩ := hu
  refine ⟨a, b, hsplit, hpr, fun x hx => ?_, fun x hx => ?_⟩
  · rw [hp]; exact ha x hx r (by simp) ix hix
  · rw [hp, ix.symm]; exact hb x hx ix hix

theorem Picks.mem_others (h : Picks p rows a r b) (x : ρ) :
    x ∈ a ++ b ↔ x ∈ rows ∧ p x = false := by
  rw [h.split]
  constructor
  · intro hx
    refine ⟨by simp at hx ⊢; tauto, ?_⟩
    rcases List.mem_append.mp hx with hx | hx
    · exact h.before x hx
    · exact h.after x hx
  · rintro ⟨hx, hpx⟩
    have hne : x ≠ r := by rintro rfl; rw [h.picked] at hpx; cases hpx
    simpa [hne] using hx

theorem Table.updateWhere_rejected (h : Picks p t.rows a r b) (hr : assign r = .error e) :
    t.updateWhere dup p assign = .error e := by
  apply Table.updateWhere_error
  rw [h.split, updateRows_append _ h.before, updateRows, if_pos h.picked, hr]

theorem Table.updateWhere_duplicate (h : Picks p t.rows a r b) (hr : assign r = .ok r')
    (hv : violated ixs (a ++ b) r' = some n) : t.updateWhere dup p assign = .error (dup n) := by
  apply Table.updateWhere_error
  rw [h.split, updateRows_append _ h.before, updateRows, if_pos h.picked, hr]
  simp only [List.nil_append, hv]

theorem Table.updateWhere_single (h : Picks p t.rows a r b) (hr : assign r = .ok r')
    (hv : violated ixs (a ++ b) r' = none) :
    ∃ t', t.updateWhere dup p assign = .ok (t', [r']) ∧ t'.rows = a ++ r' :: b := by
  have hrun : updateRows ixs dup p assign [] t.rows = .ok (a ++ r' :: b, [r']) := by
    rw [h.split, updateRows_append _ h.before, updateRows, if_pos h.picked, hr]
    simp only [List.nil_append, hv]
    rw [updateRows_skip _ h.after, List.append_assoc]
    rfl
  exact t.updateWhere_ok hrun

theorem Table.updateWhere_cases (dup : String → ε) (h : Picks p t.rows a r b) (hr : assign r = .ok r') :
    (∃ ix ∈ ixs, t.updateWhere dup p assign = .error (dup ix.name) ∧
        ∃ x ∈ t.rows, p x = false ∧ ix.clash x r' = true) ∨
      ∃ t', t.updateWhere dup p assign = .ok (t', [r']) ∧
        (∀ x ∈ t.rows, p x = false → Apart ixs x r') ∧
        ∀ x, x ∈ t'.rows ↔ x = r' ∨ x ∈ t.rows ∧ p x = false := by
  cases hv : violated ixs (a ++ b) r' with
  | some n =>
    obtain ⟨ix, hix, rfl, x, hx, hclash⟩ := violated_eq_some hv
    rw [h.mem_others] at hx
    exact .inl ⟨ix, hix, Table.updateWhere_duplicate h hr hv, x, hx.1, hx.2, hclash⟩
  | none =>
    obtain ⟨t', ht', hrows⟩ := Table.updateWhere_single h hr hv
    refine .inr ⟨t', ht', fun x hx hpx => violated_eq_none.mp hv x ?_, fun x => ?_⟩
    · exact (h.mem_others x).mpr ⟨hx, hpx⟩
    · rw [hrows, List.mem_append, List.mem_cons, ← h.mem_others, List.mem_append]
      tauto

end Single

end Relational
