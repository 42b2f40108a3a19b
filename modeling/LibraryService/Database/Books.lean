import LibraryService.Database.Sql
import LibraryService.Domain.Entities

/-!
# The books table and its storage
-/

open Effect Relational Paging LibraryService.Python LibraryService.Domain

namespace LibraryService.Database

structure BookRow where
  id : UUID
  title : String
  year : Int
  author : String
  createdAt : Instant
  updatedAt : Instant
  deletedAt : Option Instant
  deriving DecidableEq, Repr

def BookRow.triple (r : BookRow) : String × Int × String := (r.title, r.year, r.author)

def BookRow.toBook (r : BookRow) : Book :=
  { id := r.id, title := r.title, year := r.year, author := r.author, createdAt := r.createdAt,
    updatedAt := r.updatedAt }

def booksPk : UniqueIndex BookRow := .on "pk__books" fun r => some r.id

/-- The partial index, `WHERE deleted_at IS NULL`. -/
def booksTriple : UniqueIndex BookRow :=
  .on "ix__books__title_year_author" fun r => if r.deletedAt.isNone then some r.triple else none

abbrev BookTable := Table [booksPk, booksTriple]

/-! ## Statements -/

/-- The row that an INSERT of these values makes, with the `k`-th `uuid4` of its statement. -/
def newBook (st : Stmt) (k : Nat) (title : String) (year : Int) (author : String) : BookRow :=
  { id := st.uuid4 k, title, year, author, createdAt := st.serverNow, updatedAt := st.serverNow,
    deletedAt := none }

def BookRow.fits (r : BookRow) : Bool :=
  isText r.title && isVarchar255 r.title && isInt4 r.year && isText r.author &&
    isVarchar255 r.author

def BookValue.fits : BookValue → Bool
  | .title v => nullable (fun s => isText s && isVarchar255 s) v
  | .year v => nullable isInt4 v
  | .author v => nullable (fun s => isText s && isVarchar255 s) v

def BookValue.assign (r : BookRow) : BookValue → Except Exc BookRow
  | .title (some title) => .ok { r with title }
  | .year (some year) => .ok { r with year }
  | .author (some author) => .ok { r with author }
  | .title none | .year none | .author none => .error (.integrityError none)

/-- The row after `SET` of the given values; `onupdate` sets `updated_at`. -/
def setBook (st : Stmt) (values : List BookValue) (r : BookRow) : Except Exc BookRow :=
  values.foldlM BookValue.assign { r with updatedAt := st.clock 0 }

/-- The row after `SET deleted_at`; the value is read before the statement runs, `onupdate` while
it does. -/
def markDeleted (st : Stmt) (r : BookRow) : BookRow :=
  { r with deletedAt := some (st.clock 0), updatedAt := st.clock 1 }

def setDeleted (st : Stmt) (r : BookRow) : Except Exc BookRow := .ok (markDeleted st r)

/-! ## `BookStorage` -/

namespace BookStorage

def raiseError {α : Type} (constraintName : Option String) : Eff BookTable Exc α :=
  if constraintName = some "ix__books__title_year_author" then
    throw (.entityAlreadyExistsException "Book already exists")
  else throw (.libraryException "Unknown error")

def fetchBookById (bookId : UUID) : Eff BookTable Exc (Option Book) := do
  let t ← get
  pure ((t.rows.find? fun r => decide (r.id = bookId) && r.deletedAt.isNone).map BookRow.toBook)

def existsBookById (bookId : UUID) : Eff BookTable Exc Bool := do
  let t ← get
  pure (t.rows.any fun r => decide (r.id = bookId) && r.deletedAt.isNone)

def countBooks : Eff BookTable Exc Nat := do
  let t ← get
  pure (t.rows.countP fun r => r.deletedAt.isNone)

def fetchBookList (scan : Scan BookRow) (params : BookPaginationParams) :
    Eff BookTable Exc (List Book) := do
  let t ← get
  let rows := scan.orderBy (fun r => r.id.int.toNat) (t.rows.filter fun r => r.deletedAt.isNone)
  pure ((page params.limit params.offset rows).map BookRow.toBook)

def createBook (st : Stmt) (book : CreateBook) : Eff BookTable Exc Book := do
  let row := newBook st 0 (cut 255 book.title) book.year (cut 255 book.author)
  let result ← tryCatch (insertReturning row.fits row) fun e =>
    match e with
    | .integrityError c => raiseError c
    | e => throw e
  pure result.toBook

def deleteBookById (st : Stmt) (bookId : UUID) : Eff BookTable Exc Unit := do
  let _ ← updateReturning true (fun r => decide (r.id = bookId)) (setDeleted st)

def updateBookById (st : Stmt) (u : UpdateBook) : Eff BookTable Exc Book := do
  let result ← tryCatch
    (do
      let rows ← updateReturning (u.toDict.all BookValue.fits) (fun r => decide (r.id = u.id))
        (setBook st u.toDict)
      one rows)
    fun e =>
      match e with
      | .noResultFound => throw (entityNotFound "Book" u.id)
      | .integrityError c => raiseError c
      | e => throw e
  pure result.toBook

def bulkRows (st : Stmt) (books : List CreateBook) : List BookRow :=
  books.mapIdx fun k book => newBook st k (cut 255 book.title) book.year (cut 255 book.author)

def saveBulkBooks (st : Stmt) (books : List CreateBook) : Eff BookTable Exc Unit :=
  insertOnConflictDoNothing booksTriple ((bulkRows st books).all BookRow.fits) (bulkRows st books)

end BookStorage

end LibraryService.Database
