import LibraryService.General.UniqueMap
import LibraryService.General.Transition
import LibraryService.Database.BookStorage
import LibraryService.Domain.Books

/-!
# What the book store is for

A finite map from ids to triples in which no two entries share a triple, and the requests on it.
-/

open Effect LibraryService.Python LibraryService.Database

namespace LibraryService.Domain

abbrev Triple := String × Int × String

abbrev BookMap := UniqueMap UUID Triple

/-- A request, with what its statement reads from outside the table. -/
inductive BookRequest
  | create (st : Stmt) (book : CreateBook)
  | update (st : Stmt) (u : UpdateBook)
  | delete (st : Stmt) (bookId : UUID)
  | saveBulk (st : Stmt) (books : List CreateBook)
  | fetch (bookId : UUID)

def CreateBook.triple (b : CreateBook) : Triple := (cut 255 b.title, b.year, cut 255 b.author)

def UpdateBook.overwrite (u : UpdateBook) (tr : Triple) : Triple :=
  (u.title.join.getD tr.1, u.year.join.getD tr.2.1, u.author.join.getD tr.2.2)

namespace BookMap

def alreadyExists : Exc := .entityAlreadyExistsException "Book already exists"

open Classical in
noncomputable def saveAll : List (UUID × Triple) → BookMap → BookMap
  | [], m => m
  | (i, tr) :: es, m => saveAll es (if m.HasValue tr then m else m.put i tr)

open Classical in
/-- What a request answers, an entry where it answers a book, and the map it leaves. -/
noncomputable def handle (m : BookMap) : BookRequest → Except Exc (Option (UUID × Triple)) × BookMap
  | .create st book =>
    if m.HasValue book.triple then (.error alreadyExists, m)
    else (.ok (some (st.uuid4 0, book.triple)), m.put (st.uuid4 0) book.triple)
  | .update _ u =>
    match m.get u.id with
    | none => (.error (entityNotFound "Book" u.id), m)
    | some tr =>
      if ∃ j, j ≠ u.id ∧ m.get j = some (u.overwrite tr) then (.error alreadyExists, m)
      else (.ok (some (u.id, u.overwrite tr)), m.put u.id (u.overwrite tr))
  | .delete _ bookId =>
    match m.get bookId with
    | none => (.error (entityNotFound "Book" bookId), m)
    | some _ => (.ok none, m.erase bookId)
  | .saveBulk st books =>
    (.ok none, saveAll (books.mapIdx fun k book => (st.uuid4 k, book.triple)) m)
  | .fetch bookId =>
    match m.get bookId with
    | none => (.error (entityNotFound "Book" bookId), m)
    | some tr => (.ok (some (bookId, tr)), m)

end BookMap

/-! ## The requests on the table -/

inductive BookAnswer
  | book (b : Book)
  | done
  deriving DecidableEq, Repr

def BookAnswer.entry : BookAnswer → Option (UUID × Triple)
  | .book b => some (b.id, b.title, b.year, b.author)
  | .done => none

def saveBulkBooks (a : Awaits) (st : Stmt) (books : List CreateBook) :
    Eff (World BookTable) Exc Unit :=
  asyncWith a (BookService.saveBulkBooks st books)

def handleBook (t : BookTable) : BookRequest → Except Exc BookAnswer × BookTable
  | .create st book => respond .book (CreateBookCommand.execute .allReturn st book) t
  | .update st u => respond .book (UpdateBookByIdCommand.execute .allReturn st u) t
  | .delete st bookId =>
    respond (fun _ => .done) (DeleteBookByIdCommand.execute .allReturn st bookId) t
  | .saveBulk st books => respond (fun _ => .done) (saveBulkBooks .allReturn st books) t
  | .fetch bookId => respond .book (FetchBookByIdQuery.execute .allReturn bookId) t

/-- The values a request may carry. -/
def Admissible (t : BookTable) : BookRequest → Prop
  | .create st book => Storable book ∧ DrawsFresh st 1 t
  | .update _ u => u.toDict ≠ [] ∧ u.NonNull ∧ u.toDict.all BookValue.fits = true
  | .saveBulk st books =>
    books ≠ [] ∧ (∀ b ∈ books, Storable b) ∧ DrawsFresh st books.length t
  | .delete _ _ | .fetch _ => True

end LibraryService.Domain
