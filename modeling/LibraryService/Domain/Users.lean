import Mathlib.Data.Finset.Basic
import LibraryService.Domain.Entities

/-!
# Users

The entities of `domains/entities/user.py`, `auth_user.py` and `permission.py`.
-/

open LibraryService.Python

namespace LibraryService.Domain

inductive Permission
  | manageBooks
  | readBooks
  | manageUsers
  | readUsers
  deriving DecidableEq, Repr

namespace Permission

def value : Permission → String
  | manageBooks => "manage_books"
  | readBooks => "read_books"
  | manageUsers => "manage_users"
  | readUsers => "read_users"

def ofValue? (v : String) : Option Permission :=
  [manageBooks, readBooks, manageUsers, readUsers].find? fun p => p.value == v

@[simp] theorem ofValue?_value (p : Permission) : ofValue? p.value = some p := by
  cases p <;> decide

theorem value_of_ofValue? {v : String} {p : Permission} (h : ofValue? v = some p) :
    p.value = v := by
  simpa using List.find?_some h

/-- `frozenset(Permission(p) for p in values)`. -/
def frozenset : List String → Except Exc (Finset Permission)
  | [] => .ok ∅
  | v :: vs =>
    match ofValue? v with
    | none => .error .valueError
    | some p => (frozenset vs).map (insert p)

end Permission

/-- The order in which a frozenset is iterated. -/
structure IterOrder where
  list : Finset Permission → List Permission
  mem : ∀ s p, p ∈ list s ↔ p ∈ s

def IterOrder.declared : IterOrder where
  list s := [Permission.manageBooks, .readBooks, .manageUsers, .readUsers].filter (· ∈ s)
  mem s p := by cases p <;> simp

structure User where
  id : UUID
  username : String
  email : String
  isSuperuser : Bool
  permissions : Finset Permission
  createdAt : Int
  updatedAt : Int
  deriving DecidableEq

structure UserCredentials where
  id : UUID
  username : String
  passwordHash : String
  isSuperuser : Bool
  permissions : Finset Permission
  deriving DecidableEq

abbrev UserPaginationParams := PaginationParams

abbrev UserPagination := Pagination User

structure CreateUser where
  username : String
  email : String
  passwordHash : Option String := none
  isSuperuser : Bool := false
  permissions : Finset Permission := ∅
  deriving DecidableEq

structure RegisterUser where
  username : String
  email : String
  password : String
  deriving DecidableEq, Repr

structure LoginUser where
  username : String
  password : String
  deriving DecidableEq, Repr

structure UpdateUser where
  id : UUID
  username : Field String
  email : Field String
  deriving DecidableEq, Repr

structure AuthUser where
  id : String
  isSuperuser : Bool := false
  permissions : Finset Permission := ∅
  deriving DecidableEq

inductive UserValue
  | username (v : Option String)
  | email (v : Option String)
  deriving DecidableEq, Repr

def UpdateUser.toDict (u : UpdateUser) : List UserValue :=
  (u.username.map UserValue.username).toList ++ (u.email.map UserValue.email).toList

end LibraryService.Domain
