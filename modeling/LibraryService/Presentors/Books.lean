import LibraryService.Domain.Books

/-!
# The handler that updates books

`BooksController.update_book_by_id`, with the schemas of its request and its response.
-/

open Effect LibraryService.Python LibraryService.Database LibraryService.Domain

namespace LibraryService.Presentors

structure BookSchema where
  id : UUID
  title : String
  year : Int
  author : String
  createdAt : Int
  updatedAt : Int
  deriving DecidableEq, Repr

def bookSchema (book : Book) : BookSchema :=
  { id := book.id, title := book.title, year := book.year, author := book.author,
    createdAt := book.createdAt, updatedAt := book.updatedAt }

/-- What a JSON body says of each field: nothing, `null` or a value. -/
structure PatchBody where
  title : Domain.Field String
  year : Domain.Field Int
  author : Domain.Field String
  deriving DecidableEq, Repr

/-- The validated body: a value for each field, the default `None` where there was none, and which
fields were set. -/
structure UpdateBookSchema where
  title : Option String
  year : Option Int
  author : Option String
  titleSet : Bool
  yearSet : Bool
  authorSet : Bool
  deriving DecidableEq, Repr

def UpdateBookSchema.validate (body : PatchBody) : UpdateBookSchema :=
  { title := body.title.getD none, year := body.year.getD none, author := body.author.getD none
    titleSet := body.title.isSome, yearSet := body.year.isSome, authorSet := body.author.isSome }

/-- `data.model_dump(exclude_unset=True)`. -/
def UpdateBookSchema.modelDump (data : UpdateBookSchema) : List BookValue :=
  (if data.titleSet then [.title data.title] else []) ++
    (if data.yearSet then [.year data.year] else []) ++
    (if data.authorSet then [.author data.author] else [])

def titleArg : BookValue → Domain.Field String
  | .title v => some v
  | _ => none

def yearArg : BookValue → Domain.Field Int
  | .year v => some v
  | _ => none

def authorArg : BookValue → Domain.Field String
  | .author v => some v
  | _ => none

/-- `UpdateBook(id=book_id, **values)`; a field without an argument is `UNSET`. -/
def updateBookOf (bookId : UUID) (values : List BookValue) : UpdateBook :=
  { id := bookId, title := values.findSome? titleArg, year := values.findSome? yearArg
    author := values.findSome? authorArg }

def updateBookById (a : Awaits) (st : Stmt) (bookId : UUID) (data : UpdateBookSchema) :
    Eff (World BookTable) Exc BookSchema := do
  let values := data.modelDump
  if values.isEmpty then
    throw (.emptyPayloadException "No values to update")
  let book ← UpdateBookByIdCommand.execute a st (updateBookOf bookId values)
  pure (bookSchema book)

/-! ## What the body becomes -/

/-- No default gets from a body into the command: its fields are the ones the body names. -/
theorem updateBookOf_validate (bookId : UUID) (body : PatchBody) :
    updateBookOf bookId (UpdateBookSchema.validate body).modelDump =
      ⟨bookId, body.title, body.year, body.author⟩ := by
  obtain ⟨title, year, author⟩ := body
  cases title <;> cases year <;> cases author <;> rfl

theorem modelDump_isEmpty (body : PatchBody) :
    (UpdateBookSchema.validate body).modelDump.isEmpty = true ↔ body = ⟨none, none, none⟩ := by
  obtain ⟨title, year, author⟩ := body
  cases title <;> cases year <;> cases author <;> simp [UpdateBookSchema.validate,
    UpdateBookSchema.modelDump]

end LibraryService.Presentors
