import LibraryService.Database.Books
import LibraryService.Database.Uow

/-!
# Book commands

`BookService`, and the commands and the query that run it in a unit of work.
-/

open Effect Paging LibraryService.Python LibraryService.Database

namespace LibraryService.Domain

namespace BookService

def fetchBookById (bookId : UUID) : Eff BookTable Exc Book := do
  match ← BookStorage.fetchBookById bookId with
  | none => throw (entityNotFound "Book" bookId)
  | some book => pure book

def fetchBookList (scan : Scan BookRow) (params : BookPaginationParams) :
    Eff BookTable Exc BookPagination := do
  let total ← BookStorage.countBooks
  let items ← BookStorage.fetchBookList scan params
  pure ⟨total, items⟩

def createBook (st : Stmt) (book : CreateBook) : Eff BookTable Exc Book :=
  BookStorage.createBook st book

def deleteBookById (st : Stmt) (bookId : UUID) : Eff BookTable Exc Unit := do
  if ← BookStorage.existsBookById bookId then
    BookStorage.deleteBookById st bookId
  else throw (entityNotFound "Book" bookId)

def updateBookById (st : Stmt) (u : UpdateBook) : Eff BookTable Exc Book := do
  if ← BookStorage.existsBookById u.id then
    BookStorage.updateBookById st u
  else throw (entityNotFound "Book" u.id)

def saveBulkBooks (st : Stmt) (books : List CreateBook) : Eff BookTable Exc Unit :=
  BookStorage.saveBulkBooks st books

end BookService

/-! ## Commands -/

def CreateBookCommand.execute (a : Awaits) (st : Stmt) (inputDto : CreateBook) :
    Eff (World BookTable) Exc Book :=
  asyncWith a (BookService.createBook st inputDto)

def UpdateBookByIdCommand.execute (a : Awaits) (st : Stmt) (inputDto : UpdateBook) :
    Eff (World BookTable) Exc Book :=
  asyncWith a (BookService.updateBookById st inputDto)

def DeleteBookByIdCommand.execute (a : Awaits) (st : Stmt) (inputDto : UUID) :
    Eff (World BookTable) Exc Unit :=
  asyncWith a (BookService.deleteBookById st inputDto)

def FetchBookByIdQuery.execute (a : Awaits) (inputDto : UUID) : Eff (World BookTable) Exc Book :=
  asyncWith a (BookService.fetchBookById inputDto)

def FetchBookListQuery.execute (a : Awaits) (scan : Scan BookRow) (inputDto : BookPaginationParams) :
    Eff (World BookTable) Exc BookPagination :=
  asyncWith a (BookService.fetchBookList scan inputDto)

/-! ## What the services do -/

variable {t : BookTable} {st : Stmt} {bookId : UUID} {u : UpdateBook}

theorem fetchBookById_some {book : Book}
    (h : (BookStorage.fetchBookById bookId).runOn t = (.ok (some book), t)) :
    (BookService.fetchBookById bookId).runOn t = (.ok book, t) := by
  rw [BookService.fetchBookById, runOn_bind_ok h]
  rfl

theorem fetchBookById_none
    (h : (BookStorage.fetchBookById bookId).runOn t = (.ok none, t)) :
    (BookService.fetchBookById bookId).runOn t = (.error (entityNotFound "Book" bookId), t) := by
  rw [BookService.fetchBookById, runOn_bind_ok h]
  rfl

theorem deleteBookById_exists (h : (BookStorage.existsBookById bookId).runOn t = (.ok true, t)) :
    (BookService.deleteBookById st bookId).runOn t = (BookStorage.deleteBookById st bookId).runOn t := by
  rw [BookService.deleteBookById, runOn_bind_ok h]
  rfl

theorem deleteBookById_missing (h : (BookStorage.existsBookById bookId).runOn t = (.ok false, t)) :
    (BookService.deleteBookById st bookId).runOn t = (.error (entityNotFound "Book" bookId), t) := by
  rw [BookService.deleteBookById, runOn_bind_ok h]
  rfl

theorem updateBookById_exists (h : (BookStorage.existsBookById u.id).runOn t = (.ok true, t)) :
    (BookService.updateBookById st u).runOn t = (BookStorage.updateBookById st u).runOn t := by
  rw [BookService.updateBookById, runOn_bind_ok h]
  rfl

theorem updateBookById_missing (h : (BookStorage.existsBookById u.id).runOn t = (.ok false, t)) :
    (BookService.updateBookById st u).runOn t = (.error (entityNotFound "Book" u.id), t) := by
  rw [BookService.updateBookById, runOn_bind_ok h]
  rfl

end LibraryService.Domain
