import LibraryService.Database.Sql
import LibraryService.Domain.Users

/-!
# The users table and its storage
-/

open Effect Relational Paging LibraryService.Python LibraryService.Domain

namespace LibraryService.Database

structure UserRow where
  id : UUID
  username : String
  email : String
  passwordHash : Option String
  isSuperuser : Bool
  /-- The strings of the JSON list. -/
  permissions : List String
  createdAt : Instant
  updatedAt : Instant
  deletedAt : Option Instant
  deriving DecidableEq, Repr

def usersPk : UniqueIndex UserRow := .on "pk__users" fun r => some r.id

/-- The constraints on email and username take deleted rows too. -/
def usersEmail : UniqueIndex UserRow := .on "uq__users__email" fun r => some r.email

def usersUsername : UniqueIndex UserRow := .on "uq__users__username" fun r => some r.username

abbrev UserTable := Table [usersPk, usersEmail, usersUsername]

/-! ## Statements -/

def newUser (st : Stmt) (iter : IterOrder) (user : CreateUser) : UserRow :=
  { id := st.uuid4 0
    username := user.username
    email := user.email
    passwordHash := user.passwordHash
    isSuperuser := user.isSuperuser
    permissions := (iter.list user.permissions).map Permission.value
    createdAt := st.serverNow
    updatedAt := st.serverNow
    deletedAt := none }

def isVarcharText (s : String) : Bool := isText s && isVarchar255 s

def UserRow.fits (r : UserRow) : Bool :=
  isVarcharText r.username && isVarcharText r.email && nullable isVarcharText r.passwordHash

def UserValue.fits : UserValue → Bool
  | .username v | .email v => nullable isVarcharText v

def UserValue.assign (r : UserRow) : UserValue → Except Exc UserRow
  | .username (some username) => .ok { r with username }
  | .email (some email) => .ok { r with email }
  | .username none | .email none => .error (.integrityError none)

def setUser (st : Stmt) (values : List UserValue) (r : UserRow) : Except Exc UserRow :=
  values.foldlM UserValue.assign { r with updatedAt := st.clock 0 }

def markUserDeleted (st : Stmt) (r : UserRow) : UserRow :=
  { r with deletedAt := some (st.clock 0), updatedAt := st.clock 1 }

def setUserDeleted (st : Stmt) (r : UserRow) : Except Exc UserRow := .ok (markUserDeleted st r)

def rowToUser (row : UserRow) : Except Exc User := do
  let permissions ← Permission.frozenset row.permissions
  pure { id := row.id
         username := row.username
         email := row.email
         isSuperuser := row.isSuperuser
         permissions
         createdAt := row.createdAt
         updatedAt := row.updatedAt }

/-! ## `UserStorage` -/

namespace UserStorage

def raiseError {α : Type} (constraintName : Option String) : Eff UserTable Exc α :=
  if constraintName ∈ [some "uq__users__username", some "uq__users__email"] then
    throw (.entityAlreadyExistsException "User already exists")
  else throw (.libraryException "Unknown error")

def fetchUserById (userId : UUID) : Eff UserTable Exc (Option User) := do
  let t ← get
  match t.rows.find? fun r => decide (r.id = userId) && r.deletedAt.isNone with
  | none => pure none
  | some row =>
    let user ← Eff.ofExcept (rowToUser row)
    pure (some user)

def fetchUserCredentialsByUsername (username : String) :
    Eff UserTable Exc (Option UserCredentials) := do
  check (isText username)
  let t ← get
  match t.rows.find? fun r => decide (r.username = username) && r.deletedAt.isNone with
  | none => pure none
  | some user =>
    match user.passwordHash with
    | none => pure none
    | some passwordHash =>
      let permissions ← Eff.ofExcept (Permission.frozenset user.permissions)
      pure (some { id := user.id
                   username := user.username
                   passwordHash
                   isSuperuser := user.isSuperuser
                   permissions })

def existsUserById (userId : UUID) : Eff UserTable Exc Bool := do
  let t ← get
  pure (t.rows.any fun r => decide (r.id = userId) && r.deletedAt.isNone)

def countUsers : Eff UserTable Exc Nat := do
  let t ← get
  pure (t.rows.countP fun r => r.deletedAt.isNone)

/-- The statement has no `ORDER BY`. -/
def fetchUserList (scan : Scan UserRow) (params : UserPaginationParams) :
    Eff UserTable Exc (List User) := do
  let t ← get
  let rows := scan.list (t.rows.filter fun r => r.deletedAt.isNone)
  Eff.ofExcept ((page params.limit params.offset rows).mapM rowToUser)

def createUser (st : Stmt) (iter : IterOrder) (user : CreateUser) : Eff UserTable Exc User := do
  let row := newUser st iter user
  let row ← tryCatch (insertReturning row.fits row) fun e =>
    match e with
    | .integrityError c => raiseError c
    | e => throw e
  Eff.ofExcept (rowToUser row)

def deleteUserById (st : Stmt) (userId : UUID) : Eff UserTable Exc Unit := do
  let _ ← updateReturning true (fun r => decide (r.id = userId)) (setUserDeleted st)

/-- Only `NoResultFound` is caught here. -/
def updateUserById (st : Stmt) (u : UpdateUser) : Eff UserTable Exc User := do
  let row ← tryCatch
    (do
      let rows ← updateReturning (u.toDict.all UserValue.fits) (fun r => decide (r.id = u.id))
        (setUser st u.toDict)
      one rows)
    fun e =>
      match e with
      | .noResultFound => throw (entityNotFound "User" u.id)
      | e => throw e
  Eff.ofExcept (rowToUser row)

end UserStorage

end LibraryService.Database
