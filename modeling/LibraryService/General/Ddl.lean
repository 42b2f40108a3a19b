import LibraryService.General.Relational
import Mathlib.Data.List.Flatten

/-!
# Databases whose tables change

Tables with typed columns and unique constraints, the statements that change them, and what undoes
a statement.
-/

open Relational

namespace Ddl

/-- The values of columns of types `τ`. -/
class Domain (τ : outParam Type) (α : Type) where
  null : α
  admits : τ → α → Bool

structure Column (τ δ : Type) where
  name : String
  type : τ
  nullable : Bool
  serverDefault : Option δ
  deriving DecidableEq

inductive ConstraintKind
  | primaryKey
  | unique
  | uniqueIndex
  deriving DecidableEq

structure Constraint where
  kind : ConstraintKind
  name : String
  columns : List String
  /-- A partial index takes the rows that are NULL in this column. -/
  whereNull : Option String
  deriving DecidableEq

/-- The values of a row by column, in the order of the columns. -/
abbrev Row (α : Type) := List (String × α)

structure Relation (τ δ α : Type) where
  name : String
  columns : List (Column τ δ)
  constraints : List Constraint
  rows : List (Row α)
  deriving DecidableEq

abbrev Database (τ δ α : Type) := List (Relation τ δ α)

inductive Op (τ δ : Type)
  | createTable (name : String) (columns : List (Column τ δ)) (constraints : List Constraint)
  | dropTable (name : String)
  | createIndex (table name : String) (columns : List String) (whereNull : Option String)
  | dropIndex (table name : String)
  | addColumn (table : String) (column : Column τ δ)
  | dropColumn (table column : String)

variable {τ δ α : Type} {db db' : Database τ δ α} {r r' : Relation τ δ α} {row row' : Row α}
  {k : Constraint} {c : Column τ δ} {column table : String} {v : α}

/-! ## Names -/

def Relation.columnNames (r : Relation τ δ α) : List String := r.columns.map Column.name

/-- Indexes have their names from the same space as tables. -/
def Relation.names (r : Relation τ δ α) : List String :=
  r.name :: r.constraints.map Constraint.name

def names (db : Database τ δ α) : List String := db.flatMap Relation.names

def Constraint.mentioned (k : Constraint) : List String := k.columns ++ k.whereNull.toList

def Relation.covers (r : Relation τ δ α) (k : Constraint) : Bool :=
  k.mentioned.all r.columnNames.contains

theorem Relation.covers_iff : r.covers k = true ↔ ∀ x ∈ k.mentioned, x ∈ r.columnNames := by
  simp [Relation.covers]

theorem names_middle (a b : Database τ δ α) (r : Relation τ δ α) :
    names (a ++ r :: b) = names a ++ (r.names ++ names b) := by
  simp [names]

theorem names_filter (p : Constraint → Bool) (r : Relation τ δ α) :
    (r.name :: (r.constraints.filter p).map Constraint.name).Sublist r.names :=
  (List.filter_sublist.map _).cons_cons _

/-! ## Changes of one table -/

/-- Changes the table of this name. -/
def alter (table : String) (f : Relation τ δ α → Option (Relation τ δ α)) :
    Database τ δ α → Option (Database τ δ α)
  | [] => none
  | r :: db =>
    if r.name = table then (f r).map (· :: db) else (alter table f db).map (r :: ·)

theorem alter_eq_some {f : Relation τ δ α → Option (Relation τ δ α)}
    (h : alter table f db = some db') : ∃ a r r' b, db = a ++ r :: b ∧ r.name = table ∧
      (∀ x ∈ a, x.name ≠ table) ∧ f r = some r' ∧ db' = a ++ r' :: b := by
  induction db generalizing db' with
  | nil => cases h
  | cons r db ih =>
    rw [alter] at h
    split at h
    · rename_i hname
      obtain ⟨r', hr', rfl⟩ := Option.map_eq_some_iff.mp h
      exact ⟨[], r, r', db, rfl, hname, by simp, hr', rfl⟩
    · rename_i hname
      obtain ⟨db'', hdb, rfl⟩ := Option.map_eq_some_iff.mp h
      obtain ⟨a, x, x', b, rfl, hx, ha, hf, rfl⟩ := ih hdb
      exact ⟨r :: a, x, x', b, rfl, hx, List.forall_mem_cons.mpr ⟨hname, ha⟩, hf, rfl⟩

theorem alter_middle {f : Relation τ δ α → Option (Relation τ δ α)} {a b : Database τ δ α}
    (ha : ∀ x ∈ a, x.name ≠ table) (hr : r.name = table) :
    alter table f (a ++ r :: b) = (f r).map fun r' => a ++ r' :: b := by
  induction a with
  | nil => simp [alter, hr]
  | cons x a ih =>
    obtain ⟨hx, ha⟩ := List.forall_mem_cons.mp ha
    rw [List.cons_append, alter, if_neg hx, ih ha, Option.map_map]
    rfl

/-- The index of a constraint goes only with the constraint. -/
def Relation.removeIndex (name : String) (r : Relation τ δ α) : Option (Relation τ δ α) :=
  if r.constraints.any (fun k => decide (k.name = name) && decide (k.kind = .uniqueIndex)) then
    some { r with constraints := r.constraints.filter fun k => !decide (k.name = name) }
  else none

theorem removeIndex_eq_some {name : String} (h : r.removeIndex name = some r') :
    r' = { r with constraints := r.constraints.filter fun k => !decide (k.name = name) } := by
  unfold Relation.removeIndex at h
  split at h
  · exact (Option.some.inj h).symm
  · cases h

/-- With the column go the constraints and indexes on it. -/
def Relation.removeColumn (column : String) (r : Relation τ δ α) : Option (Relation τ δ α) :=
  if r.columnNames.contains column then
    some { r with
      columns := r.columns.filter fun c => !decide (c.name = column)
      constraints := r.constraints.filter fun k => !k.mentioned.contains column
      rows := r.rows.map fun row => row.filter fun f => !decide (f.1 = column) }
  else none

theorem removeColumn_eq_some (h : r.removeColumn column = some r') :
    r' = { r with
      columns := r.columns.filter fun c => !decide (c.name = column)
      constraints := r.constraints.filter fun k => !k.mentioned.contains column
      rows := r.rows.map fun row => row.filter fun f => !decide (f.1 = column) } := by
  unfold Relation.removeColumn at h
  split at h
  · exact (Option.some.inj h).symm
  · cases h

/-! ## What a row gives to a constraint -/

variable [Domain τ α]

def field (row : Row α) (column : String) : α := (row.lookup column).getD Domain.null

theorem field_append (h : column ≠ c.name) : field (row ++ [(c.name, v)]) column = field row column := by
  have hne : (column == c.name) = false := by simpa using h
  simp [field, List.lookup_append, List.lookup_cons, hne]

theorem field_filter {x : String} (h : x ≠ column) :
    field (row.filter fun f => !decide (f.1 = column)) x = field row x := by
  unfold field
  congr 1
  induction row with
  | nil => rfl
  | cons f row ih =>
    obtain ⟨y, w⟩ := f
    by_cases hy : y = column
    · have hxy : (x == y) = false := by simpa [hy] using h
      rw [List.filter_cons_of_neg (by simpa using hy), ih, List.lookup_cons, hxy]
    · rw [List.filter_cons_of_pos (by simpa using hy), List.lookup_cons, List.lookup_cons, ih]

variable [DecidableEq α]

def Column.admits (c : Column τ δ) (v : α) : Bool :=
  if v = Domain.null then c.nullable else Domain.admits c.type v

/-- NULLs are no duplicates of each other. -/
def Constraint.key (k : Constraint) (row : Row α) : Option (List α) :=
  let values := k.columns.map (field row)
  if k.whereNull.all (fun c => decide (field row c = Domain.null)) &&
      values.all (fun v => !decide (v = Domain.null)) then some values
  else none

def Constraint.index (k : Constraint) : UniqueIndex (Row α) := .on k.name k.key

structure Relation.Declared (r : Relation τ δ α) : Prop where
  columns : r.columnNames.Nodup
  covered : ∀ k ∈ r.constraints, r.covers k = true

instance (r : Relation τ δ α) : Decidable r.Declared :=
  decidable_of_iff (r.columnNames.Nodup ∧ ∀ k ∈ r.constraints, r.covers k = true)
    ⟨fun h => ⟨h.1, h.2⟩, fun h => ⟨h.1, h.2⟩⟩

def Fits (columns : List (Column τ δ)) (row : Row α) : Prop :=
  List.Forall₂ (fun c f => f.1 = c.name ∧ c.admits f.2 = true) columns row

structure Relation.Valid (r : Relation τ δ α) : Prop where
  declared : r.Declared
  rows : ∀ row ∈ r.rows, Fits r.columns row
  unique : r.rows.Pairwise (Apart (r.constraints.map Constraint.index))

structure Valid (db : Database τ δ α) : Prop where
  names : (names db).Nodup
  relations : ∀ r ∈ db, r.Valid

/-! ## Statements -/

/-- The value of a new column in the rows that are there. -/
def Column.initial (eval : δ → α) (c : Column τ δ) : α :=
  match c.serverDefault with
  | none => Domain.null
  | some d => eval d

def Relation.addIndex (k : Constraint) (r : Relation τ δ α) : Option (Relation τ δ α) :=
  if r.covers k = true ∧ r.rows.Pairwise (Apart [k.index]) then
    some { r with constraints := r.constraints ++ [k] }
  else none

def Relation.addColumn (v : α) (c : Column τ δ) (r : Relation τ δ α) : Option (Relation τ δ α) :=
  if r.columnNames.contains c.name then none
  else if r.rows.isEmpty || c.admits v then
    some { r with columns := r.columns ++ [c], rows := r.rows.map (· ++ [(c.name, v)]) }
  else none

/-- `none` is an error, and `eval` what the defaults are at the time. -/
def exec (eval : δ → α) (db : Database τ δ α) : Op τ δ → Option (Database τ δ α)
  | .createTable name columns constraints =>
    let r := ⟨name, columns, constraints, []⟩
    if r.Declared ∧ (names db ++ r.names).Nodup then some (db ++ [r]) else none
  | .dropTable name =>
    if db.any fun r => decide (r.name = name) then some (db.filter fun r => !decide (r.name = name))
    else none
  | .createIndex table name columns whereNull =>
    if (names db).contains name then none
    else alter table (Relation.addIndex ⟨.uniqueIndex, name, columns, whereNull⟩) db
  | .dropIndex table name => alter table (Relation.removeIndex name) db
  | .addColumn table column => alter table (Relation.addColumn (column.initial eval) column) db
  | .dropColumn table column => alter table (Relation.removeColumn column) db

def script (eval : δ → α) (db : Database τ δ α) (ops : List (Op τ δ)) : Option (Database τ δ α) :=
  ops.foldlM (exec eval) db

/-- What takes a statement back; the statements that remove have nothing that does. -/
def Op.undo : Op τ δ → Option (Op τ δ)
  | .createTable name _ _ => some (.dropTable name)
  | .createIndex table name _ _ => some (.dropIndex table name)
  | .addColumn table column => some (.dropColumn table column.name)
  | .dropTable _ | .dropIndex _ _ | .dropColumn _ _ => none

/-- The statements are taken back last first. -/
def undoAll : List (Op τ δ) → Option (List (Op τ δ))
  | [] => some []
  | op :: ops => do
    let ops' ← undoAll ops
    let op' ← op.undo
    pure (ops' ++ [op'])

variable {eval eval' : δ → α} {op op' : Op τ δ}

theorem key_congr (h : ∀ x ∈ k.mentioned, field row x = field row' x) : k.key row = k.key row' := by
  have hcols : k.columns.map (field row) = k.columns.map (field row') :=
    List.map_congr_left fun x hx => h x (by simp [Constraint.mentioned, hx])
  have hwhere : k.whereNull.all (fun x => decide (field row x = Domain.null)) =
      k.whereNull.all fun x => decide (field row' x = Domain.null) := by
    cases hw : k.whereNull with
    | none => rfl
    | some x => simp [h x (by simp [Constraint.mentioned, hw])]
  simp only [Constraint.key, hcols, hwhere]

theorem apart_congr {ks : List Constraint} (f : Row α → Row α)
    (h : ∀ k ∈ ks, ∀ row, k.key (f row) = k.key row)
    (hrows : Apart (ks.map Constraint.index) row row') :
    Apart (ks.map Constraint.index) (f row) (f row') := by
  intro ix hix
  obtain ⟨k, hk, rfl⟩ := List.mem_map.mp hix
  have := hrows k.index (List.mem_map_of_mem hk)
  simpa [Constraint.index, UniqueIndex.on, h k hk] using this

theorem apart_sub {ks ls : List Constraint} (h : ∀ k ∈ ls, k ∈ ks)
    (hrows : Apart (ks.map Constraint.index) row row') : Apart (ls.map Constraint.index) row row' := by
  intro ix hix
  obtain ⟨k, hk, rfl⟩ := List.mem_map.mp hix
  exact hrows _ (List.mem_map_of_mem (h k hk))

theorem clash_fields {ρ κ : Type} [DecidableEq κ] {fields : ρ → Row α} (key : ρ → Option κ)
    (g : κ → List α) (hg : Function.Injective g) (hkey : ∀ x, k.key (fields x) = (key x).map g)
    (name : String) (x y : ρ) :
    k.index.clash (fields x) (fields y) = (UniqueIndex.on name key).clash x y := by
  have hmap : (key x).map g = (key y).map g ↔ key x = key y := (Option.map_injective hg).eq_iff
  simp [Constraint.index, UniqueIndex.on, hkey, hmap]

theorem apart_fields {ρ : Type} {fields : ρ → Row α} {ks : List Constraint}
    {ixs : List (UniqueIndex ρ)} (h : List.Forall₂ (fun k ix => ∀ x y,
      k.index.clash (fields x) (fields y) = ix.clash x y) ks ixs) {x y : ρ} (hxy : Apart ixs x y) :
    Apart (ks.map Constraint.index) (fields x) (fields y) := by
  induction h with
  | nil => exact fun _ hix => absurd hix List.not_mem_nil
  | cons hk _ ih =>
    obtain ⟨hx, hxy⟩ := List.forall_mem_cons.mp hxy
    exact List.forall_mem_cons.mpr ⟨(hk x y).trans hx, ih hxy⟩

/-! ## Rows that fit -/

theorem Fits.names {columns : List (Column τ δ)} (h : Fits columns row) :
    row.map Prod.fst = columns.map Column.name := by
  unfold Fits at h
  induction h with
  | nil => rfl
  | cons hf _ ih => simp [hf.1, ih]

theorem Fits.append {columns : List (Column τ δ)} (h : Fits columns row) (hv : c.admits v = true) :
    Fits (columns ++ [c]) (row ++ [(c.name, v)]) :=
  List.rel_append h (.cons ⟨rfl, hv⟩ .nil)

theorem Fits.filter {columns : List (Column τ δ)} (h : Fits columns row) (column : String) :
    Fits (columns.filter fun c => !decide (c.name = column))
      (row.filter fun f => !decide (f.1 = column)) := by
  unfold Fits at h ⊢
  induction h with
  | nil => exact .nil
  | @cons c f _ _ hf _ ih =>
    by_cases hc : c.name = column
    · simpa [hc, hf.1] using ih
    · simp only [hc, hf.1, decide_false, Bool.not_false, List.filter_cons_of_pos]
      exact .cons hf ih

/-! ## What keeps a table valid -/

theorem Relation.Valid.sub (h : r.Valid) {ks : List Constraint} (hks : ∀ k ∈ ks, k ∈ r.constraints) :
    Relation.Valid { r with constraints := ks } :=
  ⟨⟨h.declared.columns, fun k hk => h.declared.covered k (hks k hk)⟩, h.rows,
    h.unique.imp (apart_sub hks)⟩

theorem addIndex_eq_some (h : r.addIndex k = some r') :
    r.covers k = true ∧ r.rows.Pairwise (Apart [k.index]) ∧
      r' = { r with constraints := r.constraints ++ [k] } := by
  unfold Relation.addIndex at h
  split at h
  · rename_i hk
    exact ⟨hk.1, hk.2, (Option.some.inj h).symm⟩
  · cases h

theorem addIndex_valid (hr : r.Valid) (h : r.addIndex k = some r') : r'.Valid := by
  obtain ⟨hcovers, hrows, rfl⟩ := addIndex_eq_some h
  refine ⟨⟨hr.declared.columns, fun x hx => ?_⟩, hr.rows, ?_⟩
  · rcases List.mem_append.mp hx with hx | hx
    · exact hr.declared.covered x hx
    · rw [List.mem_singleton.mp hx]
      exact hcovers
  · refine (hr.unique.and hrows).imp fun hab ix hix => ?_
    rw [List.map_append, List.mem_append] at hix
    exact hix.elim (hab.1 ix) (hab.2 ix)

theorem removeIndex_valid {name : String} (hr : r.Valid) (h : r.removeIndex name = some r') :
    r'.Valid := by
  rw [removeIndex_eq_some h]
  exact hr.sub fun k hk => List.mem_of_mem_filter hk

theorem addColumn_eq_some (h : r.addColumn v c = some r') :
    c.name ∉ r.columnNames ∧ (∀ row ∈ r.rows, c.admits v = true) ∧
      r' = { r with columns := r.columns ++ [c], rows := r.rows.map (· ++ [(c.name, v)]) } := by
  unfold Relation.addColumn at h
  split at h
  · cases h
  · rename_i hname
    split at h
    · rename_i hrows
      refine ⟨by simpa using hname, fun row hrow => ?_, (Option.some.inj h).symm⟩
      rcases Bool.or_eq_true _ _ ▸ hrows with hempty | hadmits
      · rw [List.isEmpty_iff.mp hempty] at hrow
        cases hrow
      · exact hadmits
    · cases h

theorem addColumn_valid (hr : r.Valid) (h : r.addColumn v c = some r') : r'.Valid := by
  obtain ⟨hname, hadmits, rfl⟩ := addColumn_eq_some h
  refine ⟨⟨?_, fun k hk => ?_⟩, fun row hrow => ?_, ?_⟩
  · simpa [Relation.columnNames, List.nodup_append] using
      ⟨hr.declared.columns, fun x hx hxc => hname (List.mem_map.mpr ⟨x, hx, hxc⟩)⟩
  · rw [Relation.covers_iff]
    intro x hx
    have := Relation.covers_iff.mp (hr.declared.covered k hk) x hx
    simp only [Relation.columnNames, List.map_append, List.mem_append]
    exact .inl this
  · obtain ⟨row, hmem, rfl⟩ := List.mem_map.mp hrow
    exact (hr.rows row hmem).append (hadmits row hmem)
  · refine List.pairwise_map.mpr (hr.unique.imp (apart_congr (· ++ [(c.name, v)]) fun k hk row => ?_))
    refine key_congr fun x hx => field_append ?_
    rintro rfl
    exact hname (Relation.covers_iff.mp (hr.declared.covered k hk) _ hx)

theorem removeColumn_valid (hr : r.Valid) (h : r.removeColumn column = some r') : r'.Valid := by
  rw [removeColumn_eq_some h]
  have hkept : ∀ k ∈ r.constraints.filter fun k => !k.mentioned.contains column,
      k ∈ r.constraints ∧ column ∉ k.mentioned := fun k hk => by simpa using hk
  refine ⟨⟨?_, fun k hk => ?_⟩, fun row hrow => ?_, ?_⟩
  · exact hr.declared.columns.sublist (List.filter_sublist.map _)
  · obtain ⟨hmem, hcol⟩ := hkept k hk
    rw [Relation.covers_iff]
    intro x hx
    have hxr := Relation.covers_iff.mp (hr.declared.covered k hmem) x hx
    obtain ⟨c, hc, rfl⟩ := List.mem_map.mp hxr
    refine List.mem_map_of_mem (List.mem_filter.mpr ⟨hc, ?_⟩)
    simp only [Bool.not_eq_true', decide_eq_false_iff_not]
    rintro rfl
    exact hcol hx
  · obtain ⟨row, hmem, rfl⟩ := List.mem_map.mp hrow
    exact (hr.rows row hmem).filter column
  · refine List.pairwise_map.mpr ((hr.unique.imp (apart_sub fun k hk => (hkept k hk).1)).imp
      (apart_congr (List.filter fun f => !decide (f.1 = column)) fun k hk row => ?_))
    refine key_congr fun x hx => field_filter ?_
    rintro rfl
    exact (hkept k hk).2 hx

/-! ## What keeps the database valid -/

theorem Valid.change {a b : Database τ δ α} (h : Valid (a ++ r :: b)) (hr' : r'.Valid)
    (hnames : (Ddl.names (a ++ r' :: b)).Nodup) : Valid (a ++ r' :: b) := by
  refine ⟨hnames, fun x hx => ?_⟩
  rcases List.mem_append.mp hx with hx | hx
  · exact h.relations x (by simp [hx])
  · rcases List.mem_cons.mp hx with rfl | hx
    · exact hr'
    · exact h.relations x (by simp [hx])

theorem Valid.altered {f : Relation τ δ α → Option (Relation τ δ α)} (hdb : Valid db)
    (h : Ddl.alter table f db = some db') (hf : ∀ r r', r.Valid → f r = some r' → r'.Valid)
    (hnames : ∀ r r', f r = some r' → r'.names.Sublist r.names) : Valid db' := by
  obtain ⟨a, r, r', b, rfl, -, -, hr, rfl⟩ := alter_eq_some h
  refine hdb.change (hf r r' (hdb.relations r (by simp)) hr) ?_
  have hn := hdb.names
  rw [names_middle] at hn ⊢
  exact hn.sublist ((List.Sublist.refl _).append ((hnames r r' hr).append (List.Sublist.refl _)))

theorem exec_valid (hdb : Valid db) (h : exec eval db op = some db') : Valid db' := by
  cases op with
  | createTable name columns constraints =>
    simp only [exec] at h
    split at h
    · rename_i hnew
      obtain rfl := Option.some.inj h
      refine ⟨by simpa [names] using hnew.2, fun r hr => ?_⟩
      rcases List.mem_append.mp hr with hr | hr
      · exact hdb.relations r hr
      · rw [List.mem_singleton.mp hr]
        exact ⟨hnew.1, by simp, .nil⟩
    · cases h
  | dropTable name =>
    simp only [exec] at h
    split at h
    · obtain rfl := Option.some.inj h
      refine ⟨hdb.names.sublist ?_, fun r hr => hdb.relations r (List.mem_of_mem_filter hr)⟩
      exact List.filter_sublist.flatMap _
    · cases h
  | createIndex table name columns whereNull =>
    simp only [exec] at h
    split at h
    · cases h
    · rename_i hname
      obtain ⟨a, r, r', b, rfl, -, -, hr, rfl⟩ := alter_eq_some h
      refine hdb.change (addIndex_valid (hdb.relations r (by simp)) hr) ?_
      obtain ⟨-, -, rfl⟩ := addIndex_eq_some hr
      have hn := hdb.names
      rw [List.contains_iff_mem, names_middle] at hname
      rw [names_middle] at hn ⊢
      have hperm : (names a ++ ((r.names ++ [name]) ++ names b)).Perm
          (name :: (names a ++ (r.names ++ names b))) := by
        rw [List.append_assoc, List.singleton_append]
        exact (List.Perm.append_left _ List.perm_middle).trans List.perm_middle
      simpa [Relation.names] using hperm.nodup_iff.mpr (List.nodup_cons.mpr ⟨hname, hn⟩)
  | dropIndex table name =>
    refine hdb.altered h (fun r r' => removeIndex_valid) fun r r' hr => ?_
    rw [removeIndex_eq_some hr]
    exact names_filter _ r
  | addColumn table column =>
    refine hdb.altered h (fun r r' => addColumn_valid) fun r r' hr => ?_
    obtain ⟨-, -, rfl⟩ := addColumn_eq_some hr
    exact List.Sublist.refl _
  | dropColumn table column =>
    refine hdb.altered h (fun r r' => removeColumn_valid) fun r r' hr => ?_
    rw [removeColumn_eq_some hr]
    exact names_filter _ r

theorem script_valid {ops : List (Op τ δ)} (hdb : Valid db) (h : script eval db ops = some db') :
    Valid db' := by
  induction ops generalizing db with
  | nil => cases h; exact hdb
  | cons op ops ih =>
    obtain ⟨x, hx, h⟩ := Option.bind_eq_some_iff.mp h
    exact ih (exec_valid hdb hx) h

/-! ## Taking back -/

theorem removeIndex_addIndex (hname : k.name ∉ r.constraints.map Constraint.name)
    (hkind : k.kind = .uniqueIndex) (h : r.addIndex k = some r') : r'.removeIndex k.name = some r := by
  obtain ⟨-, -, rfl⟩ := addIndex_eq_some h
  have hkeep : r.constraints.filter (fun x => !decide (x.name = k.name)) = r.constraints := by
    refine List.filter_eq_self.mpr fun x hx => ?_
    have hne : x.name ≠ k.name := fun heq => hname (heq ▸ List.mem_map_of_mem hx)
    simpa using hne
  simp [Relation.removeIndex, hkind, hkeep]

theorem removeColumn_addColumn (hr : r.Valid) (h : r.addColumn v c = some r') :
    r'.removeColumn c.name = some r := by
  obtain ⟨hname, -, rfl⟩ := addColumn_eq_some h
  have hcolumns : r.columns.filter (fun x => !decide (x.name = c.name)) = r.columns := by
    refine List.filter_eq_self.mpr fun x hx => ?_
    have hne : x.name ≠ c.name := fun heq => hname (heq ▸ List.mem_map_of_mem hx)
    simpa using hne
  have hconstraints : r.constraints.filter (fun k => !k.mentioned.contains c.name) =
      r.constraints := by
    refine List.filter_eq_self.mpr fun k hk => ?_
    simpa using fun hmem => hname (Relation.covers_iff.mp (hr.declared.covered k hk) _ hmem)
  have hrow : ∀ row ∈ r.rows, row.filter (fun f => !decide (f.1 = c.name)) = row := by
    intro row hrow
    refine List.filter_eq_self.mpr fun f hf => ?_
    have hmem : f.1 ∈ r.columnNames := by
      rw [Relation.columnNames, ← (hr.rows row hrow).names]
      exact List.mem_map_of_mem hf
    have hne : f.1 ≠ c.name := fun heq => hname (heq ▸ hmem)
    simpa using hne
  have hrows : (r.rows.map (· ++ [(c.name, v)])).map
      (fun row => row.filter fun f => !decide (f.1 = c.name)) = r.rows := by
    rw [List.map_map]
    refine (List.map_congr_left fun row hmem => ?_).trans (List.map_id _)
    simp [hrow row hmem]
  simp only [Relation.removeColumn, List.filter_append, hcolumns, hconstraints, hrows]
  simp [Relation.columnNames]

/-- Taken back at once, whatever the defaults are by then, a statement leaves no trace. -/
theorem exec_undo (hdb : Valid db) (hundo : op.undo = some op') (h : exec eval db op = some db') :
    exec eval' db' op' = some db := by
  cases op with
  | createTable name columns constraints =>
    cases hundo
    simp only [exec] at h
    split at h
    · rename_i hnew
      obtain rfl := Option.some.inj h
      have hkeep : db.filter (fun r => !decide (r.name = name)) = db := by
        refine List.filter_eq_self.mpr fun r hr => ?_
        have hmem : r.name ∈ names db := List.mem_flatMap.mpr ⟨r, hr, List.mem_cons_self⟩
        have hne := (List.nodup_append.mp hnew.2).2.2 r.name hmem name List.mem_cons_self
        simpa using hne
      simp [exec, hkeep]
    · cases h
  | createIndex table name columns whereNull =>
    cases hundo
    simp only [exec] at h ⊢
    split at h
    · cases h
    · rename_i hname
      obtain ⟨a, r, r', b, rfl, hr, ha, hf, rfl⟩ := alter_eq_some h
      have hnew : name ∉ r.constraints.map Constraint.name := by
        intro hmem
        rw [List.contains_iff_mem, names_middle] at hname
        exact hname (by simp [Relation.names, hmem])
      have hr' : r'.name = table := by rw [(addIndex_eq_some hf).2.2]; exact hr
      rw [alter_middle ha hr', removeIndex_addIndex hnew rfl hf]
      rfl
  | addColumn table column =>
    cases hundo
    simp only [exec] at h ⊢
    obtain ⟨a, r, r', b, rfl, hr, ha, hf, rfl⟩ := alter_eq_some h
    have hr' : r'.name = table := by rw [(addColumn_eq_some hf).2.2]; exact hr
    rw [alter_middle ha hr', removeColumn_addColumn (hdb.relations r (by simp)) hf]
    rfl
  | dropTable _ | dropIndex _ _ | dropColumn _ _ => cases hundo

theorem script_append (db : Database τ δ α) (ops ops' : List (Op τ δ)) :
    script eval db (ops ++ ops') = (script eval db ops).bind fun x => script eval x ops' :=
  List.foldlM_append ..

theorem script_undo {ops ops' : List (Op τ δ)} (hdb : Valid db) (hundo : undoAll ops = some ops')
    (h : script eval db ops = some db') : script eval' db' ops' = some db := by
  induction ops generalizing db ops' with
  | nil => cases hundo; cases h; rfl
  | cons op ops ih =>
    obtain ⟨x, hx, h⟩ := Option.bind_eq_some_iff.mp h
    obtain ⟨back, hback, hundo⟩ := Option.bind_eq_some_iff.mp hundo
    obtain ⟨op', hop', hundo⟩ := Option.bind_eq_some_iff.mp hundo
    obtain rfl := Option.some.inj hundo
    rw [script_append, ih (exec_valid hdb hx) hback h]
    simp [script, exec_undo hdb hop' hx]

end Ddl
