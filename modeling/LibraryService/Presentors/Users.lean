import LibraryService.General.Transition
import LibraryService.Domain.UserCommands

/-!
# The handlers that write users

`UsersController`, and `AuthController.register`, with the schemas of their requests.
-/

open Transition Effect Relational LibraryService.Python LibraryService.Database LibraryService.Domain

namespace LibraryService.Presentors

/-! ## Schemas -/

/-- `EmailStr` accepts the string, and returns it as it is. -/
abbrev EmailCheck := String → Bool

/-- `Field(min_length=lo, max_length=hi)`. -/
def HasLength (lo hi : Nat) (s : String) : Prop := lo ≤ s.length ∧ s.length ≤ hi

structure CreateUserSchema (isEmail : EmailCheck) where
  username : String
  email : String
  username_length : HasLength 3 255 username
  email_length : HasLength 3 255 email
  email_ok : isEmail email = true

structure RegisterRequestSchema (isEmail : EmailCheck) where
  username : String
  email : String
  password : String
  username_length : HasLength 3 255 username
  email_length : HasLength 3 255 email
  email_ok : isEmail email = true
  password_length : HasLength 8 255 password

structure UpdateUserSchema (isEmail : EmailCheck) where
  username : Domain.Field String
  email : Domain.Field String
  username_length : ∀ s, username = some (some s) → HasLength 3 255 s
  email_length : ∀ s, email = some (some s) → HasLength 3 255 s
  email_ok : ∀ s, email = some (some s) → isEmail s = true

structure UserSchema where
  id : UUID
  username : String
  email : String
  createdAt : Int
  updatedAt : Int
  deriving DecidableEq, Repr

structure RegisteredUserSchema where
  id : UUID
  username : String
  email : String
  createdAt : Int
  deriving DecidableEq, Repr

def userSchema (user : User) : UserSchema :=
  { id := user.id, username := user.username, email := user.email, createdAt := user.createdAt,
    updatedAt := user.updatedAt }

/-- The response of a registration checks the e-mail again. -/
def registeredUserSchema (isEmail : EmailCheck) (user : User) : Except Exc RegisteredUserSchema :=
  if isEmail user.email then
    .ok { id := user.id, username := user.username, email := user.email, createdAt := user.createdAt }
  else .error (.other .exception "ValidationError" true)

/-! ## Handlers -/

variable {isEmail : EmailCheck}

def createUser (a : Awaits) (st : Stmt) (iter : IterOrder) (data : CreateUserSchema isEmail) :
    Eff (World UserTable) Exc UserSchema := do
  let user ← CreateUserCommand.execute a st iter { username := data.username, email := data.email }
  pure (userSchema user)

def register (a : Awaits) (st : Stmt) (iter : IterOrder) (crypt : CryptContext) (salt : String)
    (data : RegisterRequestSchema isEmail) : Eff (World UserTable) Exc RegisteredUserSchema := do
  let user ← RegisterUserCommand.execute a st iter crypt salt
    { username := data.username, email := data.email, password := data.password }
  Eff.ofExcept (registeredUserSchema isEmail user)

/-- `data.model_dump(exclude_unset=True)` is empty when no field was in the body. -/
def UpdateUserSchema.isEmpty (data : UpdateUserSchema isEmail) : Bool :=
  data.username.isNone && data.email.isNone

def updateUserById (a : Awaits) (st : Stmt) (userId : UUID) (data : UpdateUserSchema isEmail) :
    Eff (World UserTable) Exc UserSchema := do
  if data.isEmpty then
    throw (.emptyPayloadException "No values to update")
  let user ← UpdateUserByIdCommand.execute a st
    { id := userId, username := data.username, email := data.email }
  pure (userSchema user)

def deleteUserById (a : Awaits) (st : Stmt) (userId : UUID) : Eff (World UserTable) Exc Unit :=
  DeleteUserByIdCommand.execute a st userId

/-! ## Requests -/

inductive UserWrite (isEmail : EmailCheck)
  | create (st : Stmt) (data : CreateUserSchema isEmail)
  | register (st : Stmt) (salt : String) (data : RegisterRequestSchema isEmail)
  | update (st : Stmt) (userId : UUID) (data : UpdateUserSchema isEmail)
  | delete (st : Stmt) (userId : UUID)

inductive UserResponse
  | user (body : UserSchema)
  | registered (body : RegisteredUserSchema)
  | noContent
  deriving DecidableEq, Repr

def handleWrite (iter : IterOrder) (crypt : CryptContext) (t : UserTable) :
    UserWrite isEmail → Except Exc UserResponse × UserTable
  | .create st data => respond .user (createUser .allReturn st iter data) t
  | .register st salt data => respond .registered (register .allReturn st iter crypt salt data) t
  | .update st userId data => respond .user (updateUserById .allReturn st userId data) t
  | .delete st userId => respond (fun _ => .noContent) (deleteUserById .allReturn st userId) t

/-- A table that such requests leave behind, one after another, from the empty one. -/
def Reachable (isEmail : EmailCheck) (iter : IterOrder) (crypt : CryptContext) (t : UserTable) :
    Prop :=
  ∃ reqs : List (UserWrite isEmail), t = (answers (handleWrite iter crypt) Table.empty reqs).2

end LibraryService.Presentors
