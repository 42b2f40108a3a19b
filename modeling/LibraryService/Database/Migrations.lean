import LibraryService.General.Revisions
import LibraryService.Database.Books
import LibraryService.Database.Users

/-!
# Migrations

The revisions of `migrations/versions`, and the schema that `tables.py` and `base.py` declare.
-/

open Transition Relational Ddl LibraryService.Python LibraryService.Domain

namespace LibraryService.Database

inductive SqlType
  | string (length : Nat)
  | integer
  | dateTime
  | uuid
  | boolean
  | json
  deriving DecidableEq, Repr

/-- `TIMEZONE('utc', now())`, `false` and `'[]'::json`. -/
inductive ServerDefault
  | utcNow
  | sqlFalse
  | emptyJson
  deriving DecidableEq, Repr

inductive SqlValue
  | null
  | text (s : String)
  | int (n : Int)
  | timestamp (t : Instant)
  | uuid (u : UUID)
  | bool (b : Bool)
  /-- A JSON list of strings. -/
  | json (l : List String)
  deriving DecidableEq, Repr

def SqlType.admits : SqlType → SqlValue → Bool
  | .string n, .text s => isText s && decide (s.length ≤ n)
  | .integer, .int n => isInt4 n
  | .dateTime, .timestamp _ | .uuid, .uuid _ | .boolean, .bool _ | .json, .json _ => true
  | _, _ => false

instance : Domain SqlType SqlValue := ⟨.null, SqlType.admits⟩

def ServerDefault.value (st : Stmt) : ServerDefault → SqlValue
  | .utcNow => .timestamp st.serverNow
  | .sqlFalse => .bool false
  | .emptyJson => .json []

abbrev SqlColumn := Column SqlType ServerDefault

/-- A table with its rows. -/
abbrev SqlRelation := Relation SqlType ServerDefault SqlValue

abbrev SqlDatabase := Database SqlType ServerDefault SqlValue

/-! ## The revisions -/

def utcTimestamp (name : String) : SqlColumn := ⟨name, .dateTime, false, some .utcNow⟩

def booksColumns : List SqlColumn :=
  [⟨"title", .string 255, false, none⟩,
    ⟨"year", .integer, false, none⟩,
    ⟨"author", .string 255, false, none⟩,
    utcTimestamp "created_at",
    utcTimestamp "updated_at",
    ⟨"deleted_at", .dateTime, true, none⟩,
    ⟨"id", .uuid, false, none⟩]

def usersColumns : List SqlColumn :=
  [⟨"username", .string 255, false, none⟩,
    ⟨"email", .string 255, false, none⟩,
    utcTimestamp "created_at",
    utcTimestamp "updated_at",
    ⟨"deleted_at", .dateTime, true, none⟩,
    ⟨"id", .uuid, false, none⟩]

def initialMigration : Revision SqlType ServerDefault where
  revision := "5ed2890da62c"
  downRevision := none
  upgrade := [
    .createTable "books" booksColumns [⟨.primaryKey, "pk__books", ["id"], none⟩],
    .createIndex "books" "ix__books__title_year_author" ["title", "year", "author"]
      (some "deleted_at"),
    .createTable "users" usersColumns
      [⟨.primaryKey, "pk__users", ["id"], none⟩,
        ⟨.unique, "uq__users__email", ["email"], none⟩,
        ⟨.unique, "uq__users__username", ["username"], none⟩]]
  downgrade := [
    .dropTable "users",
    .dropIndex "books" "ix__books__title_year_author",
    .dropTable "books"]

def passwordHashColumn : SqlColumn := ⟨"password_hash", .string 255, true, none⟩

def isSuperuserColumn : SqlColumn := ⟨"is_superuser", .boolean, false, some .sqlFalse⟩

def permissionsColumn : SqlColumn := ⟨"permissions", .json, false, some .emptyJson⟩

def addPasswordFields : Revision SqlType ServerDefault where
  revision := "d284d428b9e0"
  downRevision := some "5ed2890da62c"
  upgrade := [
    .addColumn "users" passwordHashColumn,
    .addColumn "users" isSuperuserColumn,
    .addColumn "users" permissionsColumn]
  downgrade := [
    .dropColumn "users" "permissions",
    .dropColumn "users" "is_superuser",
    .dropColumn "users" "password_hash"]

def revisions : List (Revision SqlType ServerDefault) := [initialMigration, addPasswordFields]

/-! ## What the code declares -/

/-- The naming convention of `base.py`. -/
def convention (kind : ConstraintKind) (tableName : String) (columns : List String) : String :=
  match kind with
  | .uniqueIndex => "ix__" ++ tableName ++ "__" ++ "_".intercalate columns
  | .unique => "uq__" ++ tableName ++ "__" ++ "_".intercalate columns
  | .primaryKey => "pk__" ++ tableName

def named (kind : ConstraintKind) (tableName : String) (columns : List String)
    (whereNull : Option String) : Constraint :=
  ⟨kind, convention kind tableName columns, columns, whereNull⟩

def timestampedMixin : List SqlColumn :=
  [utcTimestamp "created_at", utcTimestamp "updated_at", ⟨"deleted_at", .dateTime, true, none⟩]

def identifableMixin : List SqlColumn := [⟨"id", .uuid, false, none⟩]

/-- The class `BookTable`. -/
def bookTable : SqlRelation where
  name := "books"
  columns :=
    [⟨"title", .string 255, false, none⟩,
      ⟨"year", .integer, false, none⟩,
      ⟨"author", .string 255, false, none⟩] ++ timestampedMixin ++ identifableMixin
  constraints :=
    [named .primaryKey "books" ["id"] none,
      named .uniqueIndex "books" ["title", "year", "author"] (some "deleted_at")]
  rows := []

/-- The class `UserTable`. -/
def userTable : SqlRelation where
  name := "users"
  columns :=
    [⟨"username", .string 255, false, none⟩,
      ⟨"email", .string 255, false, none⟩,
      ⟨"password_hash", .string 255, true, none⟩,
      ⟨"is_superuser", .boolean, false, some .sqlFalse⟩,
      ⟨"permissions", .json, false, some .emptyJson⟩] ++ timestampedMixin ++ identifableMixin
  constraints :=
    [named .primaryKey "users" ["id"] none,
      named .unique "users" ["username"] none,
      named .unique "users" ["email"] none]
  rows := []

/-- `BaseTable.metadata`. -/
def metadata : SqlDatabase := [bookTable, userTable]

/-- Nothing that a comparison with the metadata would report, as the order of columns is not. -/
structure SameSchema (r r' : SqlRelation) : Prop where
  name : r.name = r'.name
  columns : r.columns.Perm r'.columns
  constraints : r.constraints.Perm r'.constraints

def UpToDate (db : SqlDatabase) : Prop := List.Forall₂ SameSchema db metadata

/-! ## Walks -/

theorem revisions_chain : Chain revisions where
  linked a r b h := by
    rcases a with _ | ⟨x, _ | ⟨y, _ | ⟨z, a⟩⟩⟩ <;> simp [revisions] at h
    · obtain ⟨rfl, -⟩ := h
      rfl
    · obtain ⟨rfl, rfl, -⟩ := h
      rfl
  nodup := by decide

theorem revisions_reversible : Reversible revisions := by
  intro r hr
  rcases List.mem_cons.mp hr with rfl | hr
  · rfl
  · rw [List.mem_singleton.mp hr]
    rfl

/-- **Migrations are taken back.** Commands that never lead below the revision they started at and
come back to it leave every table as it was, those of others too, and all along they keep the
database valid. -/
theorem migrations_taken_back {s t : Versioned SqlType ServerDefault SqlValue} (hs : Valid s.db)
    {commands : List ((ServerDefault → SqlValue) × Alembic)}
    (h : Run (StaysAbove revisions s.version) s commands t) :
    Valid t.db ∧ (t.version = s.version → t = s) :=
  walk_back revisions_chain revisions_reversible hs h

/-- A table of somebody else's. -/
def notesTable : SqlRelation where
  name := "notes"
  columns := [⟨"note", .string 20, true, none⟩]
  constraints := []
  rows := [[("note", .text "keep")], [("note", .null)]]

theorem migrations_taken_back_notes :
    let eval := ServerDefault.value (.counting 0)
    let s : Versioned SqlType ServerDefault SqlValue := ⟨none, [notesTable]⟩
    let up := (Alembic.upgrade 2).run revisions eval s
    let down := (Alembic.downgrade 2).run revisions eval up
    up.version = some "d284d428b9e0" ∧ Valid down.db ∧ down = s := by
  intro eval s up down
  have hs : Valid s.db := by
    refine ⟨by decide, List.forall_mem_singleton.mpr ⟨by decide, ?_, by decide⟩⟩
    refine List.forall_mem_cons.mpr ⟨.cons ⟨rfl, by decide⟩ .nil, List.forall_mem_singleton.mpr ?_⟩
    exact .cons ⟨rfl, rfl⟩ .nil
  have hrun : Run (StaysAbove revisions s.version) s
      [(eval, .upgrade 2), (eval, .downgrade 2)] down :=
    .snoc (.single ⟨rfl, Nat.zero_le _⟩) ⟨rfl, Nat.zero_le _⟩
  obtain ⟨hvalid, hback⟩ := migrations_taken_back hs hrun
  exact ⟨rfl, hvalid, hback rfl⟩

end LibraryService.Database
