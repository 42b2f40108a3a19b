import LibraryService.Database.Migrations
import LibraryService.Database.UserStorage

/-!
# The tables as they are stored

What each revision makes of the rows, and how the service of the last one finds its tables.
-/

open Ddl Relational LibraryService.Python LibraryService.Domain

namespace LibraryService.Database

/-! ## Rows -/

def SqlValue.ofText : Option String → SqlValue
  | none => .null
  | some s => .text s

def SqlValue.ofTimestamp : Option Instant → SqlValue
  | none => .null
  | some t => .timestamp t

def BookRow.fields (r : BookRow) : Row SqlValue :=
  [("title", .text r.title), ("year", .int r.year), ("author", .text r.author),
    ("created_at", .timestamp r.createdAt), ("updated_at", .timestamp r.updatedAt),
    ("deleted_at", .ofTimestamp r.deletedAt), ("id", .uuid r.id)]

def UserRow.initialFields (r : UserRow) : Row SqlValue :=
  [("username", .text r.username), ("email", .text r.email),
    ("created_at", .timestamp r.createdAt), ("updated_at", .timestamp r.updatedAt),
    ("deleted_at", .ofTimestamp r.deletedAt), ("id", .uuid r.id)]

def UserRow.fields (r : UserRow) : Row SqlValue :=
  r.initialFields ++ [("password_hash", .ofText r.passwordHash), ("is_superuser", .bool r.isSuperuser),
    ("permissions", .json r.permissions)]

def SqlValue.text? : SqlValue → Option String
  | .text s => some s
  | _ => none

def SqlValue.int? : SqlValue → Option Int
  | .int n => some n
  | _ => none

def SqlValue.timestamp? : SqlValue → Option Instant
  | .timestamp t => some t
  | _ => none

def SqlValue.uuid? : SqlValue → Option UUID
  | .uuid u => some u
  | _ => none

def SqlValue.bool? : SqlValue → Option Bool
  | .bool b => some b
  | _ => none

def SqlValue.json? : SqlValue → Option (List String)
  | .json l => some l
  | _ => none

/-- A value of a column that may be NULL. -/
def SqlValue.orNull {α : Type} (get : SqlValue → Option α) (v : SqlValue) : Option (Option α) :=
  if v = .null then some none else (get v).map some

def BookRow.ofFields (row : Row SqlValue) : Option BookRow := do
  let id ← (field row "id").uuid?
  let title ← (field row "title").text?
  let year ← (field row "year").int?
  let author ← (field row "author").text?
  let createdAt ← (field row "created_at").timestamp?
  let updatedAt ← (field row "updated_at").timestamp?
  let deletedAt ← (field row "deleted_at").orNull SqlValue.timestamp?
  pure { id, title, year, author, createdAt, updatedAt, deletedAt }

def UserRow.ofFields (row : Row SqlValue) : Option UserRow := do
  let id ← (field row "id").uuid?
  let username ← (field row "username").text?
  let email ← (field row "email").text?
  let passwordHash ← (field row "password_hash").orNull SqlValue.text?
  let isSuperuser ← (field row "is_superuser").bool?
  let permissions ← (field row "permissions").json?
  let createdAt ← (field row "created_at").timestamp?
  let updatedAt ← (field row "updated_at").timestamp?
  let deletedAt ← (field row "deleted_at").orNull SqlValue.timestamp?
  pure { id, username, email, passwordHash, isSuperuser, permissions, createdAt, updatedAt, deletedAt }

theorem BookRow.ofFields_fields (r : BookRow) : BookRow.ofFields r.fields = some r := by
  obtain ⟨id, title, year, author, createdAt, updatedAt, _ | deletedAt⟩ := r <;> rfl

theorem UserRow.ofFields_fields (r : UserRow) : UserRow.ofFields r.fields = some r := by
  obtain ⟨id, username, email, _ | hash, isSuperuser, permissions, createdAt, updatedAt,
    _ | deletedAt⟩ := r <;> rfl

/-! ## Tables -/

def tableOf {ρ : Type} (ixs : List (UniqueIndex ρ)) (rows : List ρ) : Option (Table ixs) :=
  if h : rows.Pairwise (Apart ixs) then some ⟨rows, h⟩ else none

theorem tableOf_rows {ρ : Type} {ixs : List (UniqueIndex ρ)} (t : Table ixs) :
    tableOf ixs t.rows = some t := by
  unfold tableOf
  rw [dif_pos t.unique]

def rowsOf (db : SqlDatabase) (name : String) : Option (List (Row SqlValue)) :=
  (db.find? fun r => decide (r.name = name)).map Relation.rows

def readBooks (db : SqlDatabase) : Option BookTable := do
  let rows ← rowsOf db "books"
  tableOf _ (← rows.mapM BookRow.ofFields)

def readUsers (db : SqlDatabase) : Option UserTable := do
  let rows ← rowsOf db "users"
  tableOf _ (← rows.mapM UserRow.ofFields)

def writeRows (db : SqlDatabase) (name : String) (rows : List (Row SqlValue)) : SqlDatabase :=
  db.map fun r => if r.name = name then { r with rows } else r

theorem mapM_fields {ρ : Type} {ofFields : Row SqlValue → Option ρ} {fields : ρ → Row SqlValue}
    (h : ∀ r, ofFields (fields r) = some r) (rows : List ρ) :
    (rows.map fields).mapM ofFields = some rows := by
  induction rows with
  | nil => rfl
  | cons r rows ih => simp [h, ih]

/-! ## Stages -/

/-- What the revision that added the credentials makes of the rows that were there. -/
def UserRow.bare (r : UserRow) : UserRow :=
  { r with passwordHash := none, isSuperuser := false, permissions := [] }

theorem apart_bare {r r' : UserRow} (h : Apart [usersPk, usersEmail, usersUsername] r r') :
    Apart [usersPk, usersEmail, usersUsername] r.bare r'.bare := by
  intro ix hix
  have hclash := h ix hix
  simp only [List.mem_cons, List.not_mem_nil, or_false] at hix
  rcases hix with rfl | rfl | rfl <;> exact hclash

/-- The users without their credentials. -/
def bareUsers (t : UserTable) : UserTable :=
  ⟨t.rows.map UserRow.bare, List.pairwise_map.mpr (t.unique.imp apart_bare)⟩

/-- What a database of the service can hold, by revision. -/
inductive Stage
  | base
  | initial (books : BookTable) (users : UserTable) (bare : ∀ r ∈ users.rows, r.bare = r)
  | head (books : BookTable) (users : UserTable)

def booksRelation (books : BookTable) : SqlRelation where
  name := "books"
  columns := booksColumns
  constraints :=
    [⟨.primaryKey, "pk__books", ["id"], none⟩,
      ⟨.uniqueIndex, "ix__books__title_year_author", ["title", "year", "author"], some "deleted_at"⟩]
  rows := books.rows.map BookRow.fields

def usersConstraints : List Constraint :=
  [⟨.primaryKey, "pk__users", ["id"], none⟩,
    ⟨.unique, "uq__users__email", ["email"], none⟩,
    ⟨.unique, "uq__users__username", ["username"], none⟩]

def initialUsers (users : UserTable) : SqlRelation where
  name := "users"
  columns := usersColumns
  constraints := usersConstraints
  rows := users.rows.map UserRow.initialFields

def usersRelation (users : UserTable) : SqlRelation where
  name := "users"
  columns := usersColumns ++ [passwordHashColumn, isSuperuserColumn, permissionsColumn]
  constraints := usersConstraints
  rows := users.rows.map UserRow.fields

abbrev Deployed := Versioned SqlType ServerDefault SqlValue

def Stage.deployed : Stage → Deployed
  | .base => ⟨none, []⟩
  | .initial books users _ => ⟨some "5ed2890da62c", [booksRelation books, initialUsers users]⟩
  | .head books users => ⟨some "d284d428b9e0", [booksRelation books, usersRelation users]⟩

theorem upToDate_head (books : BookTable) (users : UserTable) :
    UpToDate (Stage.head books users).deployed.db := by
  refine .cons ⟨rfl, ?_, ?_⟩ (.cons ⟨rfl, ?_, ?_⟩ .nil)
  all_goals
    simp only [booksRelation, usersRelation, bookTable, userTable]
    decide

theorem readBooks_head (books : BookTable) (users : UserTable) :
    readBooks (Stage.head books users).deployed.db = some books := by
  have hrows : rowsOf (Stage.head books users).deployed.db "books" =
      some (books.rows.map BookRow.fields) := rfl
  simp only [readBooks, hrows, Option.bind_eq_bind, Option.bind_some,
    mapM_fields BookRow.ofFields_fields]
  exact tableOf_rows books

theorem readUsers_head (books : BookTable) (users : UserTable) :
    readUsers (Stage.head books users).deployed.db = some users := by
  have hrows : rowsOf (Stage.head books users).deployed.db "users" =
      some (users.rows.map UserRow.fields) := rfl
  simp only [readUsers, hrows, Option.bind_eq_bind, Option.bind_some,
    mapM_fields UserRow.ofFields_fields]
  exact tableOf_rows users

/-! ## What the stored rows obey -/

theorem fits_book {r : BookRow} (h : r.fits = true) : Fits booksColumns r.fields := by
  obtain ⟨id, title, year, author, createdAt, updatedAt, _ | deletedAt⟩ := r <;>
    simpa [Fits, booksColumns, utcTimestamp, BookRow.fields, Column.admits, Domain.admits,
      SqlType.admits, Domain.null, SqlValue.ofTimestamp, BookRow.fits, and_assoc] using h

theorem fits_initialUser {r : UserRow} (h : r.fits = true) : Fits usersColumns r.initialFields := by
  simp only [UserRow.fits, Bool.and_eq_true] at h
  obtain ⟨id, username, email, hash, isSuperuser, permissions, createdAt, updatedAt,
    _ | deletedAt⟩ := r <;>
    simpa [Fits, usersColumns, utcTimestamp, UserRow.initialFields, Column.admits, Domain.admits,
      SqlType.admits, Domain.null, SqlValue.ofTimestamp, isVarcharText, and_assoc] using h.1

theorem fits_user {r : UserRow} (h : r.fits = true) : Fits (usersRelation Table.empty).columns r.fields := by
  refine List.rel_append (fits_initialUser h) (.cons ⟨rfl, ?_⟩ (.cons ⟨rfl, rfl⟩ (.cons ⟨rfl, rfl⟩ .nil)))
  simp only [UserRow.fits, Bool.and_eq_true] at h
  cases hhash : r.passwordHash with
  | none => rfl
  | some hash =>
    rw [hhash] at h
    simpa [Column.admits, Domain.admits, SqlType.admits, Domain.null, SqlValue.ofText, passwordHashColumn,
      nullable, isVarcharText] using h.2

theorem apart_books {r r' : BookRow} (h : Apart [booksPk, booksTriple] r r') (books : BookTable) :
    Apart ((booksRelation books).constraints.map Constraint.index) r.fields r'.fields := by
  refine apart_fields (.cons ?_ (.cons ?_ .nil)) h
  · exact clash_fields (fun r : BookRow => some r.id) (fun id => [.uuid id])
      (fun a b hab => by simpa using hab) (fun r => rfl) _
  · refine clash_fields _ (fun t => [.text t.1, .int t.2.1, .text t.2.2]) ?_ ?_ _
    · rintro ⟨a, b, c⟩ ⟨a', b', c'⟩ hab
      simpa using hab
    · rintro ⟨id, title, year, author, createdAt, updatedAt, _ | deletedAt⟩ <;> rfl

theorem apart_users {fields : UserRow → Row SqlValue} {r r' : UserRow}
    (hid : ∀ r, field (fields r) "id" = .uuid r.id)
    (hemail : ∀ r, field (fields r) "email" = .text r.email)
    (husername : ∀ r, field (fields r) "username" = .text r.username)
    (h : Apart [usersPk, usersEmail, usersUsername] r r') :
    Apart (usersConstraints.map Constraint.index) (fields r) (fields r') := by
  refine apart_fields (.cons ?_ (.cons ?_ (.cons ?_ .nil))) h
  · exact clash_fields (fun r : UserRow => some r.id) (fun id => [.uuid id])
      (fun a b hab => by simpa using hab) (fun r => by simp [Constraint.key, hid, Domain.null]) _
  · exact clash_fields (fun r : UserRow => some r.email) (fun email => [.text email])
      (fun a b hab => by simpa using hab) (fun r => by simp [Constraint.key, hemail, Domain.null]) _
  · exact clash_fields (fun r : UserRow => some r.username) (fun username => [.text username])
      (fun a b hab => by simpa using hab) (fun r => by simp [Constraint.key, husername, Domain.null]) _

/-- Rows that fit, in tables that keep their indexes, make a valid database at every stage. -/
def Stage.Fits : Stage → Prop
  | .base => True
  | .initial books users _ | .head books users =>
    (∀ r ∈ books.rows, r.fits = true) ∧ ∀ r ∈ users.rows, r.fits = true

theorem booksRelation_valid {books : BookTable} (h : ∀ r ∈ books.rows, r.fits = true) :
    (booksRelation books).Valid where
  declared :=
    have hdeclared : (booksRelation Table.empty).Declared := by decide
    ⟨hdeclared.columns, hdeclared.covered⟩
  rows row hrow := by
    obtain ⟨r, hr, rfl⟩ := List.mem_map.mp hrow
    exact fits_book (h r hr)
  unique := List.pairwise_map.mpr (books.unique.imp fun hr => apart_books hr books)

theorem initialUsers_valid {users : UserTable} (h : ∀ r ∈ users.rows, r.fits = true) :
    (initialUsers users).Valid where
  declared :=
    have hdeclared : (initialUsers Table.empty).Declared := by decide
    ⟨hdeclared.columns, hdeclared.covered⟩
  rows row hrow := by
    obtain ⟨r, hr, rfl⟩ := List.mem_map.mp hrow
    exact fits_initialUser (h r hr)
  unique := List.pairwise_map.mpr (users.unique.imp
    (apart_users (fun _ => rfl) (fun _ => rfl) fun _ => rfl))

theorem usersRelation_valid {users : UserTable} (h : ∀ r ∈ users.rows, r.fits = true) :
    (usersRelation users).Valid where
  declared :=
    have hdeclared : (usersRelation Table.empty).Declared := by decide
    ⟨hdeclared.columns, hdeclared.covered⟩
  rows row hrow := by
    obtain ⟨r, hr, rfl⟩ := List.mem_map.mp hrow
    exact fits_user (h r hr)
  unique := List.pairwise_map.mpr (users.unique.imp
    (apart_users (fun _ => rfl) (fun _ => rfl) fun _ => rfl))

theorem deployed_valid {stage : Stage} (h : stage.Fits) : Valid stage.deployed.db := by
  cases stage with
  | base => exact ⟨.nil, fun _ hr => absurd hr List.not_mem_nil⟩
  | initial books users bare =>
    have hnames : (names [booksRelation Table.empty, initialUsers Table.empty]).Nodup := by decide
    refine ⟨hnames, List.forall_mem_cons.mpr ⟨booksRelation_valid h.1, ?_⟩⟩
    exact List.forall_mem_singleton.mpr (initialUsers_valid h.2)
  | head books users =>
    have hnames : (names [booksRelation Table.empty, usersRelation Table.empty]).Nodup := by decide
    refine ⟨hnames, List.forall_mem_cons.mpr ⟨booksRelation_valid h.1, ?_⟩⟩
    exact List.forall_mem_singleton.mpr (usersRelation_valid h.2)

/-! ## Revisions up and down -/

theorem bare_empty : ∀ r ∈ (Table.empty : UserTable).rows, r.bare = r :=
  fun _ hr => absurd hr List.not_mem_nil

theorem bare_bareUsers (users : UserTable) : ∀ r ∈ (bareUsers users).rows, r.bare = r := by
  intro r hr
  obtain ⟨x, -, rfl⟩ := List.mem_map.mp hr
  rfl

def Stage.upgradeOne : Stage → Option Stage
  | .base => some (.initial Table.empty Table.empty bare_empty)
  | .initial books users _ => some (.head books users)
  | .head _ _ => none

def Stage.downgradeOne : Stage → Option Stage
  | .base => none
  | .initial _ _ _ => some .base
  | .head books users => some (.initial books (bareUsers users) (bare_bareUsers users))

variable {eval : ServerDefault → SqlValue} {books : BookTable} {users : UserTable}

theorem addColumn_new {r : SqlRelation} {c : SqlColumn} {v : SqlValue}
    (hname : r.columnNames.contains c.name = false) (hv : c.admits v = true) :
    r.addColumn v c =
      some { r with columns := r.columns ++ [c], rows := r.rows.map (· ++ [(c.name, v)]) } := by
  unfold Relation.addColumn
  rw [hname, hv, Bool.or_true]
  rfl

theorem addPasswordFields_upgrade (st : Stmt) (h : ∀ r ∈ users.rows, r.bare = r) :
    script (ServerDefault.value st) [booksRelation books, initialUsers users]
      addPasswordFields.upgrade = some [booksRelation books, usersRelation users] := by
  have hrows : users.rows.map UserRow.fields = (((users.rows.map UserRow.initialFields).map
      (· ++ [("password_hash", SqlValue.null)])).map
      (· ++ [("is_superuser", SqlValue.bool false)])).map
      (· ++ [("permissions", SqlValue.json [])]) := by
    simp only [List.map_map]
    refine List.map_congr_left fun r hr => ?_
    rw [← h r hr]
    rfl
  have halter : ∀ (f : SqlRelation → Option SqlRelation) (r : SqlRelation), r.name = "users" →
      alter "users" f [booksRelation books, r] = (f r).map fun r' => [booksRelation books, r'] :=
    fun f r hr => alter_middle (a := [booksRelation books]) (by simp [booksRelation]) hr
  simp only [script, addPasswordFields, List.foldlM_cons, List.foldlM_nil, exec, Option.bind_eq_bind]
  rw [halter _ _ rfl, addColumn_new rfl rfl, Option.map_some, Option.bind_some, halter _ _ rfl,
    addColumn_new rfl rfl, Option.map_some, Option.bind_some, halter _ _ rfl,
    addColumn_new rfl rfl, Option.map_some, Option.bind_some]
  simp only [usersRelation, hrows]
  rfl

theorem addPasswordFields_downgrade (eval : ServerDefault → SqlValue) :
    script eval [booksRelation books, usersRelation users] addPasswordFields.downgrade =
      some [booksRelation books, initialUsers (bareUsers users)] := by
  have hrows : (bareUsers users).rows.map UserRow.initialFields =
      (((users.rows.map UserRow.fields).map fun row => row.filter fun f => !decide (f.1 = "permissions")).map
        fun row => row.filter fun f => !decide (f.1 = "is_superuser")).map
        fun row => row.filter fun f => !decide (f.1 = "password_hash") := by
    simp only [bareUsers, List.map_map]
    exact List.map_congr_left fun r hr => rfl
  simp only [initialUsers, hrows]
  rfl

theorem upgradeOne_deployed (st : Stmt) (stage : Stage) :
    Ddl.upgradeOne revisions (ServerDefault.value st) stage.deployed =
      stage.upgradeOne.map Stage.deployed := by
  cases stage with
  | base => rfl
  | initial books users bare =>
    exact upgradeOne_ok (s := (Stage.initial books users bare).deployed) (r := addPasswordFields) rfl
      (addPasswordFields_upgrade st bare)
  | head books users => rfl

theorem downgradeOne_deployed (eval : ServerDefault → SqlValue) (stage : Stage) :
    Ddl.downgradeOne revisions eval stage.deployed = stage.downgradeOne.map Stage.deployed := by
  cases stage with
  | base => rfl
  | initial books users bare => rfl
  | head books users =>
    exact downgradeOne_ok (s := (Stage.head books users).deployed) (r := addPasswordFields) rfl
      (addPasswordFields_downgrade eval)

def Stage.run (stage : Stage) : Alembic → Stage
  | .upgrade n => (times Stage.upgradeOne n stage).getD stage
  | .downgrade n => (times Stage.downgradeOne n stage).getD stage

theorem run_deployed (st : Stmt) (c : Alembic) (stage : Stage) :
    c.run revisions (ServerDefault.value st) stage.deployed = (stage.run c).deployed := by
  cases c with
  | upgrade n =>
    simp only [Alembic.run, Alembic.walk, Stage.run, times_map (upgradeOne_deployed st)]
    exact Option.getD_map ..
  | downgrade n =>
    simp only [Alembic.run, Alembic.walk, Stage.run, times_map (downgradeOne_deployed _)]
    exact Option.getD_map ..

end LibraryService.Database
