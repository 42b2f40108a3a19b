import LibraryService.Application.Exceptions
import LibraryService.Python.Text

/-!
# Books

The entities of `domains/entities/book.py`.
-/

open LibraryService.Python

namespace LibraryService.Domain

/-- A field of a partial update: `none` is `UNSET`, `some none` an explicit `None`. -/
abbrev Field (α : Type) := Option (Option α)

structure Book where
  id : UUID
  title : String
  year : Int
  author : String
  createdAt : Int
  updatedAt : Int
  deriving DecidableEq, Repr

structure CreateBook where
  title : String
  year : Int
  author : String
  deriving DecidableEq, Repr

structure UpdateBook where
  id : UUID
  title : Field String
  year : Field Int
  author : Field String
  deriving DecidableEq, Repr

structure PaginationParams where
  limit : Nat
  offset : Nat
  deriving DecidableEq, Repr

structure Pagination (α : Type) where
  total : Nat
  items : List α
  deriving DecidableEq

abbrev BookPaginationParams := PaginationParams

abbrev BookPagination := Pagination Book

inductive BookValue
  | title (v : Option String)
  | year (v : Option Int)
  | author (v : Option String)
  deriving DecidableEq, Repr

def UpdateBook.toDict (u : UpdateBook) : List BookValue :=
  (u.title.map BookValue.title).toList ++ (u.year.map BookValue.year).toList ++
    (u.author.map BookValue.author).toList

structure UpdateBook.NonNull (u : UpdateBook) : Prop where
  title : u.title ≠ some none
  year : u.year ≠ some none
  author : u.author ≠ some none

/-- `EntityNotFoundException(entity=entity, entity_id=id)`. -/
def entityNotFound (entity : String) (id : UUID) : Exc :=
  .entityNotFoundException (entity ++ " with id " ++ id.str ++ " not found")

end LibraryService.Domain
