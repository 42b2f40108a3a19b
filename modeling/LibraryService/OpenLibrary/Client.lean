/-!
# The Open Library client

`OpenLibraryClient.search`, over any way to make its HTTP request.
-/

namespace LibraryService.OpenLibrary

/-! ## What the endpoint answers -/

structure OpenLibraryDocStruct where
  title : String
  key : String
  authorName : Option (List String)
  deriving DecidableEq, Repr

structure OpenLibrarySearchStruct where
  numFound : Int
  start : Int
  offset : Int
  docs : List OpenLibraryDocStruct
  deriving DecidableEq, Repr

/-! ## What the client returns -/

structure OpenLibraryBook where
  key : String
  title : String
  authors : List String
  deriving DecidableEq, Repr

structure OpenLibrarySearchResult where
  books : List OpenLibraryBook
  total : Int
  start : Int
  offset : Int
  deriving DecidableEq, Repr

structure SearchParams where
  q : String
  limit : Nat
  offset : Nat
  fields : String
  deriving DecidableEq, Repr

def searchParams (query : String) (limit offset : Nat) : SearchParams :=
  { q := query, limit, offset,
    fields := String.intercalate "," ["key", "title", "author_name", "editions"] }

/-- The element the comprehension makes of a doc, unless its filter drops the doc. -/
def bookOfDoc (book : OpenLibraryDocStruct) : Option OpenLibraryBook :=
  book.authorName.map fun authors => { key := book.key, title := book.title, authors }

def searchResult (result : OpenLibrarySearchStruct) : OpenLibrarySearchResult :=
  { books := result.docs.filterMap bookOfDoc
    total := result.numFound
    start := result.start
    offset := result.offset }

def search {m : Type → Type} [Monad m] (makeReq : SearchParams → m OpenLibrarySearchStruct)
    (query : String) (limit offset : Nat) : m OpenLibrarySearchResult := do
  let result ← makeReq (searchParams query limit offset)
  pure (searchResult result)

end LibraryService.OpenLibrary
