import LibraryService.General.Listing
import LibraryService.Domain.BookRefinement
import LibraryService.Domain.Pagination
import LibraryService.Presentors.BookWrites
import LibraryService.Presentors.Http

/-!
# The books API

`BooksController` from the raw request to the response, as a service on the map of the live books.
-/

open Transition Effect Relational Paging LibraryService.Python LibraryService.Database
  LibraryService.Domain

namespace LibraryService.Presentors

/-! ## The controller -/

/-- The JSON body of a request that writes a book. -/
structure BookBody where
  title : Given String
  year : Given Int
  author : Given String
  deriving DecidableEq, Repr

def CreateBookSchema.ofBody : BookBody → Option CreateBookSchema
  | ⟨.value title, .value year, .value author⟩ =>
    if h : 0 < year then some { title, year, author, year_positive := h } else none
  | _ => none

def PatchBody.ofBody (body : BookBody) : Option PatchBody := do
  let title ← body.title.optional
  let year ← body.year.optional
  let author ← body.author.optional
  pure { title, year, author }

structure BookPaginationSchema where
  total : Nat
  items : List BookSchema
  deriving DecidableEq, Repr

def bookPaginationSchema (books : BookPagination) : BookPaginationSchema :=
  { total := books.total, items := books.items.map bookSchema }

def fetchBooks (a : Awaits) (scan : Scan BookRow) (params : BookPaginationParams) :
    Eff (World BookTable) Exc BookPaginationSchema := do
  let books ← FetchBookListQuery.execute a scan params
  pure (bookPaginationSchema books)

def fetchBook (a : Awaits) (bookId : UUID) : Eff (World BookTable) Exc BookSchema := do
  let book ← FetchBookByIdQuery.execute a bookId
  pure (bookSchema book)

inductive BooksRequest
  | fetchBooks (scan : Scan BookRow) (limit offset : Given Int)
  | createBook (st : Stmt) (body : BookBody)
  | fetchBook (bookId : UUID)
  | updateBookById (st : Stmt) (bookId : UUID) (body : BookBody)
  | deleteBookById (st : Stmt) (bookId : UUID)

inductive BooksBody
  | page (books : BookPaginationSchema)
  | book (book : BookSchema)
  | empty
  deriving DecidableEq, Repr

def BookResponse.body : BookResponse → BooksBody
  | .book b => .book b
  | .noContent => .empty

/-- `detail` is what litestar says of a request that does not validate. -/
def booksController (detail : BooksRequest → String) (t : BookTable) (req : BooksRequest) :
    Response BooksBody × BookTable :=
  match req with
  | .fetchBooks scan limit offset =>
    validated (detail req) (paginationParams limit offset) t fun params =>
      route .ok .page (request (Presentors.fetchBooks .allReturn scan params) t)
  | .createBook st body =>
    validated (detail req) (CreateBookSchema.ofBody body) t fun data =>
      route .created BookResponse.body (handleEndpoint t (.create st data))
  | .fetchBook bookId => route .ok .book (request (Presentors.fetchBook .allReturn bookId) t)
  | .updateBookById st bookId body =>
    validated (detail req) (PatchBody.ofBody body) t fun body =>
      route .ok BookResponse.body (handleEndpoint t (.update st bookId body))
  | .deleteBookById st bookId => route .noContent BookResponse.body (handleEndpoint t (.delete st bookId))

/-! ## What the API is for -/

/-- What a response tells of the store. -/
inductive BooksView
  | page (total : Nat) (items : List (UUID × Triple))
  | book (entry : UUID × Triple)
  | nothing

def idLt (i j : UUID) : Prop := i.int.toNat < j.int.toNat

/-- The reply to what the map answers. -/
def bookReply (success : HTTPStatus) : Except Exc (Option (UUID × Triple)) → Reply BooksView
  | .ok (some entry) => ⟨success, some (.book entry)⟩
  | .ok none => ⟨success, some .nothing⟩
  | .error (.entityNotFoundException _) => .failed .notFound
  | .error (.entityAlreadyExistsException _) => .failed .conflict
  | .error _ => .failed .internalServerError

/-- The columns take what a create makes of the values. -/
structure StorableBook (book : CreateBook) : Prop where
  title : isText book.triple.1 = true
  year : isInt4 book.year = true
  author : isText book.triple.2.2 = true

/-- Every value fits its column, and none is `null`. -/
structure StorablePatch (u : UpdateBook) : Prop where
  fits : u.toDict.all BookValue.fits = true
  nonNull : u.NonNull

open Classical in
/-- The service that clients see: the reply to a request, and the map it leaves. -/
noncomputable def serveBooks (m : BookMap) : BooksRequest → Reply BooksView × BookMap
  | .fetchBooks _ limit offset =>
    match paginationParams limit offset with
    | none => (.failed .unprocessableEntity, m)
    | some params =>
      let books := m.entries idLt
      (⟨.ok, some (.page books.length (page params.limit params.offset books))⟩, m)
  | .createBook st body =>
    match CreateBookSchema.ofBody body with
    | none => (.failed .unprocessableEntity, m)
    | some data =>
      let book : CreateBook := { title := data.title, year := data.year, author := data.author }
      if StorableBook book then
        (bookReply .created (m.handle (.create st book)).1, (m.handle (.create st book)).2)
      else (.failed .internalServerError, m)
  | .fetchBook bookId => (bookReply .ok (m.handle (.fetch bookId)).1, m)
  | .updateBookById st bookId body =>
    match PatchBody.ofBody body with
    | none => (.failed .unprocessableEntity, m)
    | some patch =>
      let u : UpdateBook := ⟨bookId, patch.title, patch.year, patch.author⟩
      if patch = ⟨none, none, none⟩ then (.failed .badRequest, m)
      else if m.get bookId = none ∨ StorablePatch u then
        (bookReply .ok (m.handle (.update st u)).1, (m.handle (.update st u)).2)
      else (.failed .internalServerError, m)
  | .deleteBookById st bookId =>
    (bookReply .noContent (m.handle (.delete st bookId)).1, (m.handle (.delete st bookId)).2)

/-! ## Views -/

def BookSchema.entry (b : BookSchema) : UUID × Triple := (b.id, b.title, b.year, b.author)

def BooksBody.view : BooksBody → BooksView
  | .page books => .page books.total (books.items.map BookSchema.entry)
  | .book b => .book b.entry
  | .empty => .nothing

/-! ## Reads -/

variable {detail : BooksRequest → String} {t t' : BookTable} {st : Stmt} {bookId : UUID}

/-- The response is the reply, as far as a view shows it, and the table is left with these books. -/
structure Matches (res : Response BooksBody × BookTable) (answer : Reply BooksView × BookMap) :
    Prop where
  reply : res.1.reply BooksBody.view = answer.1
  books : liveMap res.2 = answer.2

/-- The controller answers as the service on the live books does, and goes on as it. -/
def Serves (detail : BooksRequest → String) (t : BookTable) (req : BooksRequest) : Prop :=
  Matches (booksController detail t req) (serveBooks (liveMap t) req)

theorem booksById_lists (t : BookTable) : (liveMap t).Lists idLt ((booksById t).map entryOf) := by
  constructor
  case ordered =>
    rw [List.pairwise_map]
    have hsorted := pairwise_orderBy Scan.asStored (fun r : BookRow => r.id.int.toNat) (liveBooks t)
    refine (hsorted.and booksById_nodup).imp_of_mem fun {r r'} hr hr' h => ?_
    apply lt_of_le_of_ne h.1
    intro hid
    exact h.2 (book_id_unique (mem_booksById.mp hr).1 (mem_booksById.mp hr').1 (UUID.eq_of_toNat hid))
  case mem_iff =>
    intro i tr
    rw [liveMap_get_eq_some, List.mem_map]
    simp only [mem_booksById, entryOf, Prod.mk.injEq]
    constructor
    · rintro ⟨r, ⟨hr, hd⟩, hid, htr⟩
      exact ⟨r, hr, hid, hd, htr⟩
    · rintro ⟨r, hr, hid, hd, htr⟩
      exact ⟨r, ⟨hr, hd⟩, hid, htr⟩

instance : IsTrans UUID idLt := ⟨fun _ _ _ => Nat.lt_trans⟩

instance : Std.Irrefl idLt := ⟨fun i => Nat.lt_irrefl i.int.toNat⟩

theorem liveMap_entries (t : BookTable) : (liveMap t).entries idLt = (booksById t).map entryOf :=
  (booksById_lists t).entries_eq

theorem fetchBooks_runOn (t : BookTable) (scan : Scan BookRow) (params : BookPaginationParams) :
    (BookService.fetchBookList scan params).runOn t = (.ok ⟨(booksById t).length,
      page params.limit params.offset ((booksById t).map BookRow.toBook)⟩, t) := by
  rw [length_booksById, ← orderBy_id t scan, ← map_page, liveBooks, ← List.countP_eq_length_filter]
  rfl

theorem request_fetchBooks (t : BookTable) (scan : Scan BookRow) (params : BookPaginationParams) :
    request (fetchBooks .allReturn scan params) t = (.ok ⟨(booksById t).length,
      (page params.limit params.offset ((booksById t).map BookRow.toBook)).map bookSchema⟩, t) := by
  have hreq := request_bind_ofExcept (FetchBookListQuery.execute .allReturn scan params)
    (fun books => .ok (bookPaginationSchema books)) t
  rw [FetchBookListQuery.execute, request_ok (fetchBooks_runOn t scan params)] at hreq
  exact hreq

theorem serves_fetchBooks (scan : Scan BookRow) (limit offset : Given Int) :
    Serves detail t (.fetchBooks scan limit offset) := by
  simp only [Serves, booksController, serveBooks]
  cases paginationParams limit offset with
  | none => exact ⟨rfl, rfl⟩
  | some params =>
    simp only [validated, request_fetchBooks, liveMap_entries, List.length_map, ← map_page]
    refine ⟨?_, rfl⟩
    simp only [route, routed, Except.map, Response.reply, BooksBody.view, List.map_map]
    rfl

theorem serves_fetchBook (bookId : UUID) : Serves detail t (.fetchBook bookId) := by
  simp only [Serves, booksController, serveBooks, BookMap.handle, liveMap_get]
  have hreq : request (fetchBook .allReturn bookId) t = _ := request_bind_ofExcept
    (FetchBookByIdQuery.execute .allReturn bookId) (fun book => .ok (bookSchema book)) t
  rcases request_fetchBook bookId t with ⟨hlive, hres⟩ | ⟨r, hlive, hres⟩ <;>
    rw [hreq, hres, hlive]
  · exact ⟨rfl, rfl⟩
  · obtain ⟨-, rfl, -⟩ := liveRow_eq_some.mp hlive
    exact ⟨rfl, rfl⟩

/-! ## Writes -/

theorem serves_deleteBookById (st : Stmt) (bookId : UUID) :
    Serves detail t (.deleteBookById st bookId) := by
  simp only [Serves, booksController, serveBooks, BookMap.handle, liveMap_get, handleEndpoint_delete]
  rcases request_deleteBook st bookId t with ⟨hlive, hres⟩ | ⟨r, t', hlive, hres, hmem⟩ <;>
    rw [hres, hlive]
  · exact ⟨rfl, rfl⟩
  · obtain ⟨-, rfl, -⟩ := liveRow_eq_some.mp hlive
    exact ⟨rfl, liveMap_delete hmem⟩

theorem storableBook_iff (st : Stmt) (book : CreateBook) : StorableBook book ↔
    (newBook st 0 (cut 255 book.title) book.year (cut 255 book.author)).fits = true := by
  simp only [BookRow.fits, newBook, Bool.and_eq_true, isVarchar255_iff, length_cut_le, and_true]
  exact ⟨fun h => ⟨⟨h.title, h.year⟩, h.author⟩, fun h => ⟨h.1.1, h.1.2, h.2⟩⟩

theorem serves_createBook {body : BookBody} (hfresh : ∀ x ∈ t.rows, x.id ≠ st.uuid4 0) :
    Serves detail t (.createBook st body) := by
  simp only [Serves, booksController, serveBooks]
  cases CreateBookSchema.ofBody body with
  | none => exact ⟨rfl, rfl⟩
  | some data =>
    simp only [validated, handleEndpoint_create]
    generalize CreateBook.mk data.title data.year data.author = book
    rw [storableBook_iff st book, BookMap.handle]
    rcases request_createBook st book t with
      ⟨e, ⟨rfl, hunfit⟩ | ⟨-, x, hx, hid⟩, hres⟩ | ⟨hfits, htaken, hres⟩ |
      ⟨hfits, hfree, t', hres, hrows, hnew⟩
    · rw [hres, if_neg (by simpa using hunfit)]
      exact ⟨rfl, rfl⟩
    · exact absurd hid (hfresh x hx)
    · have hval : (liveMap t).HasValue book.triple := hasValue_iff.mpr htaken
      rw [hres, if_pos hfits, if_pos hval]
      exact ⟨rfl, rfl⟩
    · have hval : ¬ (liveMap t).HasValue book.triple := hasValue_iff.not.mpr hfree
      rw [hres, if_pos hfits, if_neg hval]
      exact ⟨rfl, liveMap_insert hrows rfl hnew hfree⟩

theorem matches_update (st : Stmt) {u : UpdateBook} {r : BookRow} (hlive : liveRow t u.id = some r) :
    let res := request (UpdateBookByIdCommand.execute .allReturn st u) t
    StorablePatch u ∧ Matches (route .ok BookResponse.body (res.1.bind bookResponse, res.2))
        (bookReply .ok ((liveMap t).handle (.update st u)).1, ((liveMap t).handle (.update st u)).2) ∨
      ¬ StorablePatch u ∧ Matches (route .ok BookResponse.body (res.1.bind bookResponse, res.2))
        (.failed .internalServerError, liveMap t) := by
  intro res
  rcases request_updateBook st hlive with ⟨e, he, hres⟩ | ⟨hfits, hnull, hres⟩
  · refine .inr ⟨fun h => ?_, ?_⟩
    · rcases he with ⟨-, hunfit⟩ | ⟨-, hnull⟩
      · rw [h.fits] at hunfit
        cases hunfit
      · exact hnull h.nonNull
    · rw [show res = (.error e, t) from hres]
      rcases he with ⟨rfl, -⟩ | ⟨rfl, -⟩ <;> exact ⟨rfl, rfl⟩
  · have hrefines : Refines t (.update st u) := refines_update hnull hfits
    obtain ⟨hans, hmap⟩ := hrefines
    rw [← hans, ← hmap, handleBook, respond]
    refine .inl ⟨⟨hfits, hnull⟩, ?_⟩
    rcases hres with ⟨-, hres⟩ | ⟨-, t', hres, -⟩
    · rw [show res = _ from hres, hres]
      exact ⟨rfl, rfl⟩
    · rw [show res = _ from hres, hres]
      exact ⟨rfl, rfl⟩

theorem serves_updateBookById (st : Stmt) (bookId : UUID) (body : BookBody) :
    Serves detail t (.updateBookById st bookId body) := by
  simp only [Serves, booksController, serveBooks]
  cases PatchBody.ofBody body with
  | none => exact ⟨rfl, rfl⟩
  | some patch =>
    simp only [validated]
    by_cases hempty : patch = ⟨none, none, none⟩
    · rw [if_pos hempty, hempty, handleEndpoint_update_empty]
      exact ⟨rfl, rfl⟩
    rw [if_neg hempty, handleEndpoint_update t st bookId hempty, liveMap_get]
    cases hlive : liveRow t bookId with
    | none =>
      have hmissing : (liveMap t).get bookId = none := by rw [liveMap_get, hlive]; rfl
      rw [if_pos (.inl rfl), BookMap.handle, hmissing, request_updateBook_missing st hlive]
      exact ⟨rfl, rfl⟩
    | some r =>
      rcases matches_update st (u := ⟨bookId, patch.title, patch.year, patch.author⟩) hlive with
        ⟨hstorable, hmatches⟩ | ⟨hstorable, hmatches⟩
      · rw [if_pos (.inr hstorable)]
        exact hmatches
      · rw [if_neg (by simp [hstorable])]
        exact hmatches

/-! ## Every run -/

/-- The id that a create draws is in no row, the driver takes an offset as an int8, and no string of
an update is one that its column cuts. -/
def BooksRequest.Served (t : BookTable) : BooksRequest → Prop
  | .createBook st _ => ∀ x ∈ t.rows, x.id ≠ st.uuid4 0
  | .fetchBooks _ _ (.value offset) => offset < 2 ^ 63
  | .updateBookById _ _ body => ∀ s, body.title = .value s ∨ body.author = .value s → ¬ Padded s
  | .fetchBooks _ _ _ | .fetchBook _ | .deleteBookById _ _ => True

theorem booksController_serves {req : BooksRequest} (h : req.Served t) : Serves detail t req := by
  cases req with
  | fetchBooks scan limit offset => exact serves_fetchBooks scan limit offset
  | createBook st body => exact serves_createBook h
  | fetchBook bookId => exact serves_fetchBook bookId
  | updateBookById st bookId body => exact serves_updateBookById st bookId body
  | deleteBookById st bookId => exact serves_deleteBookById st bookId

theorem booksController_honest (detail : BooksRequest → String) (t : BookTable) (req : BooksRequest) :
    (booksController detail t req).1.Honest := by
  cases req with
  | fetchBooks scan limit offset => exact validated_honest fun _ => route_honest (by decide) _ _
  | createBook st body => exact validated_honest fun _ => route_honest (by decide) _ _
  | fetchBook bookId => exact route_honest (by decide) _ _
  | updateBookById st bookId body => exact validated_honest fun _ => route_honest (by decide) _ _
  | deleteBookById st bookId => exact route_honest (by decide) _ _

/-- **The books API serves the map**: every run of requests, valid or not, is replied to as the map
of the live books says, status by status and page by page, and every response is honest. -/
theorem books_api_serves_map {reqs : List BooksRequest}
    (h : AllOk (booksController detail) BooksRequest.Served Table.empty reqs) :
    (answers (booksController detail) Table.empty reqs).1.map (Response.reply BooksBody.view) =
        (answers serveBooks UniqueMap.empty reqs).1 ∧
      liveMap (answers (booksController detail) Table.empty reqs).2 =
        (answers serveBooks UniqueMap.empty reqs).2 ∧
      ∀ r ∈ (answers (booksController detail) Table.empty reqs).1, r.Honest := by
  obtain ⟨hans, hmap⟩ := answers_simulate (fun t m => liveMap t = m)
    (fun r a => r.reply BooksBody.view = a) (by
      rintro t _ req rfl hok
      exact ⟨(booksController_serves hok).reply, (booksController_serves hok).books⟩) liveMap_empty h
  refine ⟨?_, hmap, ?_⟩
  · rwa [← List.forall₂_map_left_iff, List.forall₂_eq_eq_eq] at hans
  · exact answers_forall (I := fun _ => True)
      (fun t req _ _ => ⟨booksController_honest detail t req, trivial⟩) trivial h

def bodyOf (title : String) (year : Int) : BookBody := ⟨.value title, .value year, .value "Homer"⟩

/-- The Iliad is posted twice, and once with the year 0; then it is listed and patched with nothing. -/
def homersRun : List BooksRequest :=
  [.createBook (.counting 0) (bodyOf "Iliad" 1488), .createBook (.counting 1) (bodyOf "Iliad" 1488),
    .createBook (.counting 1) (bodyOf "Iliad" 0), .fetchBooks .asStored .absent (.value 0),
    .updateBookById (.counting 1) ⟨0⟩ ⟨.absent, .absent, .absent⟩, .deleteBookById (.counting 1) ⟨0⟩]

theorem books_api_serves_map_homer :
    (answers (booksController fun _ => "") Table.empty homersRun).1.map (Response.reply BooksBody.view) =
        (answers serveBooks UniqueMap.empty homersRun).1 ∧
      liveMap (answers (booksController fun _ => "") Table.empty homersRun).2 =
        (answers serveBooks UniqueMap.empty homersRun).2 ∧
      (∀ r ∈ (answers (booksController fun _ => "") Table.empty homersRun).1, r.Honest) ∧
      (answers (booksController fun _ => "") Table.empty homersRun).1.map (fun r => r.statusCode.value) =
        [201, 409, 422, 200, 400, 204] := by
  have h : AllOk (booksController fun _ => "") BooksRequest.Served Table.empty homersRun := by
    refine ⟨?_, ?_, ?_, ?_, ?_, trivial, trivial⟩
    · exact fun _ hx => absurd hx List.not_mem_nil
    · exact fun x hx => by rw [List.mem_singleton.mp hx]; decide
    · exact fun x hx => by rw [List.mem_singleton.mp hx]; decide
    · exact show (0 : Int) < 2 ^ 63 by decide
    · rintro _ (h | h) <;> cases h
  obtain ⟨hreplies, hmap, hhonest⟩ := books_api_serves_map h
  exact ⟨hreplies, hmap, hhonest, rfl⟩

end LibraryService.Presentors
