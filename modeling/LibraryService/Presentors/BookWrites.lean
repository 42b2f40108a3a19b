import LibraryService.Domain.BookCommands
import LibraryService.Presentors.Books
import LibraryService.Presentors.UserWrites

/-!
# How book writes fail

Which bodies of `BooksController` end with a book or one of three exceptions, and which years they
leave in the table.
-/

open Transition Effect Relational LibraryService.Python LibraryService.Database LibraryService.Domain

namespace LibraryService.Presentors

/-! ## Handlers -/

/-- The year is a `PositiveInt`. -/
structure CreateBookSchema where
  title : String
  year : Int
  author : String
  year_positive : 0 < year

def createBook (a : Awaits) (st : Stmt) (data : CreateBookSchema) :
    Eff (World BookTable) Exc BookSchema := do
  let book ← CreateBookCommand.execute a st
    { title := data.title, year := data.year, author := data.author }
  pure (bookSchema book)

def deleteBookById (a : Awaits) (st : Stmt) (bookId : UUID) : Eff (World BookTable) Exc Unit :=
  DeleteBookByIdCommand.execute a st bookId

/-- A request to an endpoint that writes books. -/
inductive BookEndpoint
  | create (st : Stmt) (data : CreateBookSchema)
  | update (st : Stmt) (bookId : UUID) (body : PatchBody)
  | delete (st : Stmt) (bookId : UUID)

inductive BookResponse
  | book (body : BookSchema)
  | noContent
  deriving DecidableEq, Repr

def handleEndpoint (t : BookTable) : BookEndpoint → Except Exc BookResponse × BookTable
  | .create st data => respond .book (createBook .allReturn st data) t
  | .update st bookId body =>
    respond .book (updateBookById .allReturn st bookId (UpdateBookSchema.validate body)) t
  | .delete st bookId => respond (fun _ => .noContent) (deleteBookById .allReturn st bookId) t

/-! ## What is asked of them -/

/-- The body fits the columns: no field is `null`, no string is too long, and the year is an int4. -/
structure PatchBody.FitsColumns (body : PatchBody) : Prop where
  title : ∀ v, body.title = some v → ∃ s, v = some s ∧ s.length ≤ 255
  year : ∀ v, body.year = some v → ∃ y, v = some y ∧ isInt4 y = true
  author : ∀ v, body.author = some v → ∃ s, v = some s ∧ s.length ≤ 255

namespace BookEndpoint

/-- No string of the body has a NUL character. -/
def Texts : BookEndpoint → Prop
  | create _ data => isText data.title = true ∧ isText data.author = true
  | update _ _ body => (∀ s, body.title = some (some s) → isText s = true) ∧
      ∀ s, body.author = some (some s) → isText s = true
  | delete _ _ => True

/-- The id that a create draws is in no row. -/
def DrawsFresh (t : BookTable) : BookEndpoint → Prop
  | create st _ => ∀ x ∈ t.rows, x.id ≠ st.uuid4 0
  | update _ _ _ | delete _ _ => True

/-- It succeeds, or raises one of the three exceptions and leaves the table. -/
def Lawful (t : BookTable) (req : BookEndpoint) : Prop :=
  ∀ e, (handleEndpoint t req).1 = .error e → DomainError e ∧ (handleEndpoint t req).2 = t

/-- The year of a new book is an int4, and what an update of a live book names fits the columns. -/
def Admitted (t : BookTable) : BookEndpoint → Prop
  | create _ data => isInt4 data.year = true
  | update _ bookId body =>
    body ≠ ⟨none, none, none⟩ → (liveRow t bookId).isSome → body.FitsColumns
  | delete _ _ => True

end BookEndpoint

variable {t : BookTable} {st : Stmt} {bookId : UUID} {body : PatchBody} {req : BookEndpoint}

/-! ## Handlers and their commands -/

def bookResponse (book : Book) : Except Exc BookResponse := .ok (.book (bookSchema book))

theorem handleEndpoint_create (t : BookTable) (st : Stmt) (data : CreateBookSchema) :
    handleEndpoint t (.create st data) =
      let res := request (CreateBookCommand.execute .allReturn st
        { title := data.title, year := data.year, author := data.author }) t
      (res.1.bind bookResponse, res.2) :=
  respond_bind _ (fun book => .ok (bookSchema book)) _ t

theorem handleEndpoint_update (t : BookTable) (st : Stmt) (bookId : UUID)
    (h : body ≠ ⟨none, none, none⟩) :
    handleEndpoint t (.update st bookId body) =
      let res := request (UpdateBookByIdCommand.execute .allReturn st
        ⟨bookId, body.title, body.year, body.author⟩) t
      (res.1.bind bookResponse, res.2) := by
  have hempty : (UpdateBookSchema.validate body).modelDump.isEmpty = false := by
    rw [← Bool.not_eq_true, modelDump_isEmpty]
    exact h
  rw [handleEndpoint, updateBookById, hempty, updateBookOf_validate]
  exact respond_bind _ (fun book => .ok (bookSchema book)) _ t

theorem handleEndpoint_update_empty (t : BookTable) (st : Stmt) (bookId : UUID) :
    handleEndpoint t (.update st bookId ⟨none, none, none⟩) =
      (.error (.emptyPayloadException "No values to update"), t) := rfl

theorem handleEndpoint_delete (t : BookTable) (st : Stmt) (bookId : UUID) :
    handleEndpoint t (.delete st bookId) =
      let res := request (DeleteBookByIdCommand.execute .allReturn st bookId) t
      (res.1.map fun _ => .noContent, res.2) := rfl

/-! ## Lawful answers -/

namespace BookEndpoint

theorem lawful_of_ok {a : BookResponse} {t' : BookTable} (h : handleEndpoint t req = (.ok a, t')) :
    req.Lawful t := by
  intro e he
  rw [h] at he
  cases he

theorem lawful_of_domain {e : Exc} (h : handleEndpoint t req = (.error e, t)) (he : DomainError e) :
    req.Lawful t := by
  intro e' he'
  rw [h] at he' ⊢
  cases he'
  exact ⟨he, rfl⟩

theorem not_lawful {e : Exc} (h : handleEndpoint t req = (.error e, t)) (he : ¬ DomainError e) :
    ¬ req.Lawful t := by
  intro hlaw
  exact he (hlaw e (by rw [h])).1

theorem newBook_fits_iff (st : Stmt) {title author : String} (year : Int)
    (htitle : isText title = true) (hauthor : isText author = true) :
    (newBook st 0 (cut 255 title) year (cut 255 author)).fits = isInt4 year := by
  simp [BookRow.fits, newBook, isText_cut htitle, isText_cut hauthor, isVarchar255, length_cut_le]

theorem lawful_create {data : CreateBookSchema} (hfresh : ∀ x ∈ t.rows, x.id ≠ st.uuid4 0)
    (htext : (create st data).Texts) : (create st data).Lawful t ↔ isInt4 data.year = true := by
  have hreq := handleEndpoint_create t st data
  rw [← newBook_fits_iff st data.year htext.1 htext.2]
  rcases request_createBook st ⟨data.title, data.year, data.author⟩ t with
    ⟨e, ⟨rfl, hunfit⟩ | ⟨-, x, hx, hid⟩, hres⟩ | ⟨hfits, -, hres⟩ | ⟨hfits, -, t', hres, -⟩
  · rw [hres] at hreq
    exact iff_of_false (not_lawful hreq (by simp [DomainError])) (by simpa using hunfit)
  · exact absurd hid (hfresh x hx)
  · rw [hres] at hreq
    exact iff_of_true (lawful_of_domain hreq (by simp [DomainError])) hfits
  · rw [hres] at hreq
    exact iff_of_true (lawful_of_ok hreq) hfits

theorem field_fits_iff {α : Type} {ok : α → Bool} {P : α → Prop} {field : Domain.Field α}
    (value : Option α → BookValue) (hvalue : ∀ v, BookValue.fits (value v) = nullable ok v)
    (hok : ∀ a, field = some (some a) → (ok a = true ↔ P a)) :
    (∀ v, field = some v → ∃ a, v = some a ∧ P a) ↔
      (field.map value).toList.all BookValue.fits = true ∧ field ≠ some none := by
  rcases field with _ | _ | a
  · simp
  · simp
  · simpa [hvalue, nullable] using (hok a rfl).symm

theorem fitsColumns_iff (bookId : UUID) (htext : (update st bookId body).Texts) :
    body.FitsColumns ↔
      (UpdateBook.toDict ⟨bookId, body.title, body.year, body.author⟩).all BookValue.fits = true ∧
        UpdateBook.NonNull ⟨bookId, body.title, body.year, body.author⟩ := by
  have hstring : ∀ s, isText s = true → ((isText s && isVarchar255 s) = true ↔ s.length ≤ 255) := by
    simp +contextual
  have htitle := field_fits_iff BookValue.title (fun _ => rfl) fun s hs => hstring s (htext.1 s hs)
  have hyear := field_fits_iff BookValue.year (fun _ => rfl) fun y (_ : body.year = some (some y)) => Iff.rfl
  have hauthor := field_fits_iff BookValue.author (fun _ => rfl) fun s hs => hstring s (htext.2 s hs)
  simp only [UpdateBook.toDict, List.all_append, Bool.and_eq_true]
  constructor
  · rintro ⟨ht, hy, ha⟩
    obtain ⟨ht, hnt⟩ := htitle.mp ht
    obtain ⟨hy, hny⟩ := hyear.mp hy
    obtain ⟨ha, hna⟩ := hauthor.mp ha
    exact ⟨⟨⟨ht, hy⟩, ha⟩, hnt, hny, hna⟩
  · rintro ⟨⟨⟨ht, hy⟩, ha⟩, hnt, hny, hna⟩
    exact ⟨htitle.mpr ⟨ht, hnt⟩, hyear.mpr ⟨hy, hny⟩, hauthor.mpr ⟨ha, hna⟩⟩

theorem lawful_update (htext : (update st bookId body).Texts) :
    (update st bookId body).Lawful t ↔ (update st bookId body).Admitted t := by
  by_cases hbody : body = ⟨none, none, none⟩
  · subst hbody
    refine iff_of_true (lawful_of_domain (handleEndpoint_update_empty t st bookId) ?_) ?_
    · simp [DomainError]
    · exact fun h => absurd rfl h
  have hreq := handleEndpoint_update t st bookId hbody
  cases hlive : liveRow t bookId with
  | none =>
    rw [request_updateBook_missing st hlive] at hreq
    refine iff_of_true (lawful_of_domain hreq ?_) ?_
    · simp [DomainError, entityNotFound]
    · simp [Admitted, hlive]
  | some r =>
    have hadmitted : (update st bookId body).Admitted t ↔ body.FitsColumns := by
      simp [Admitted, hbody, hlive]
    rw [hadmitted, fitsColumns_iff bookId htext]
    rcases request_updateBook st (u := ⟨bookId, body.title, body.year, body.author⟩) hlive with
      ⟨e, he, hres⟩ | ⟨hfits, hnull, ⟨-, hres⟩ | ⟨-, t', hres, -⟩⟩
    all_goals rw [hres] at hreq
    · refine iff_of_false (not_lawful hreq ?_) ?_
      · rcases he with ⟨rfl, -⟩ | ⟨rfl, -⟩ <;> simp [DomainError]
      · rintro ⟨hfits, hnull⟩
        rcases he with ⟨-, hunfit⟩ | ⟨-, hnull'⟩
        · rw [hfits] at hunfit; cases hunfit
        · exact hnull' hnull
    · exact iff_of_true (lawful_of_domain hreq (by simp [DomainError])) ⟨hfits, hnull⟩
    · exact iff_of_true (lawful_of_ok hreq) ⟨hfits, hnull⟩

theorem lawful_delete (t : BookTable) (st : Stmt) (bookId : UUID) :
    (delete st bookId).Lawful t := by
  have hreq := handleEndpoint_delete t st bookId
  rcases request_deleteBook st bookId t with ⟨-, hres⟩ | ⟨r, t', -, hres, -⟩
  · rw [hres] at hreq
    exact lawful_of_domain hreq (by simp [DomainError, entityNotFound])
  · rw [hres] at hreq
    exact lawful_of_ok hreq

end BookEndpoint

/-- **A book write is lawful**, on any table, exactly when it is admitted: the year of a new book is
an int4, and the update of a live book names no `null`, no string of over 255 characters and no year
outside int4. -/
theorem book_write_lawful_iff (t : BookTable) (req : BookEndpoint) (htext : req.Texts)
    (hfresh : req.DrawsFresh t) : req.Lawful t ↔ req.Admitted t := by
  cases req with
  | create st data => exact BookEndpoint.lawful_create hfresh htext
  | update st bookId body => exact BookEndpoint.lawful_update htext
  | delete st bookId => exact iff_of_true (BookEndpoint.lawful_delete t st bookId) trivial

def postIliad : BookEndpoint := .create (.counting 0)
  { title := "Iliad", year := 1, author := "Homer", year_positive := Int.one_pos }

theorem book_write_lawful_iff_post : postIliad.Lawful Table.empty ↔ postIliad.Admitted Table.empty :=
  book_write_lawful_iff Table.empty postIliad ⟨by decide, by decide⟩
    fun _ hx => absurd hx List.not_mem_nil

def patchNull : BookEndpoint := .update (.counting 1) ⟨0⟩ ⟨some none, none, none⟩

/-- An explicit `null` comes out as an unknown error. -/
theorem patch_null_unknown_error :
    let t := (answers handleEndpoint Table.empty [postIliad]).2
    (handleEndpoint t patchNull).1 = .error (.libraryException "Unknown error") ∧
      ¬ patchNull.Lawful t := by
  intro t
  have hrun : handleEndpoint t patchNull = (.error (.libraryException "Unknown error"), t) := rfl
  exact ⟨by rw [hrun], BookEndpoint.not_lawful hrun (by simp [DomainError])⟩

/-! ## Years -/

/-- No update of a live book names a year below 1. -/
def BookEndpoint.KeepsYears (t : BookTable) : BookEndpoint → Prop
  | create _ _ | delete _ _ => True
  | update _ bookId body => (liveRow t bookId).isSome → ∀ y, body.year = some (some y) → 1 ≤ y

def PositiveYears (t : BookTable) : Prop := ∀ r ∈ t.rows, 1 ≤ r.year

theorem PositiveYears.replaced {t' : BookTable} {r' : BookRow} (h : PositiveYears t)
    (hyear : 1 ≤ r'.year) (hmem : ∀ x, x ∈ t'.rows ↔ x = r' ∨ x ∈ t.rows ∧ x.id ≠ bookId) :
    PositiveYears t' := by
  intro x hx
  rcases (hmem x).mp hx with rfl | ⟨hx, -⟩
  · exact hyear
  · exact h x hx

theorem handleEndpoint_positiveYears (h : PositiveYears t) (hok : req.KeepsYears t) :
    PositiveYears (handleEndpoint t req).2 := by
  cases req with
  | create st data =>
    rw [handleEndpoint_create]
    rcases request_createBook st ⟨data.title, data.year, data.author⟩ t with
      ⟨e, -, hres⟩ | ⟨-, -, hres⟩ | ⟨-, -, t', hres, hrows, -⟩ <;> rw [hres]
    · exact h
    · exact h
    · intro x hx
      rw [hrows, List.mem_append, List.mem_singleton] at hx
      rcases hx with hx | rfl
      · exact h x hx
      · exact data.year_positive
  | update st bookId body =>
    by_cases hbody : body = ⟨none, none, none⟩
    · subst hbody
      exact h
    rw [handleEndpoint_update t st bookId hbody]
    cases hlive : liveRow t bookId with
    | none =>
      rw [request_updateBook_missing st hlive]
      exact h
    | some r =>
      have hyear : 1 ≤ (updatedRow st ⟨bookId, body.title, body.year, body.author⟩ r).year := by
        have hr := h r (liveRow_eq_some.mp hlive).1
        have hnamed := hok (by rw [hlive]; rfl)
        rcases hy : body.year with _ | _ | y
        · simpa [updatedRow, hy] using hr
        · simpa [updatedRow, hy] using hr
        · simpa [updatedRow, hy] using hnamed y hy
      rcases request_updateBook st (u := ⟨bookId, body.title, body.year, body.author⟩) hlive with
        ⟨e, -, hres⟩ | ⟨-, -, ⟨-, hres⟩ | ⟨-, t', hres, hmem⟩⟩ <;> rw [hres]
      · exact h
      · exact h
      · exact h.replaced hyear hmem
  | delete st bookId =>
    rw [handleEndpoint_delete]
    rcases request_deleteBook st bookId t with ⟨-, hres⟩ | ⟨r, t', hlive, hres, hmem⟩ <;> rw [hres]
    · exact h
    · have hyear : 1 ≤ (markDeleted st r).year := h r (liveRow_eq_some.mp hlive).1
      exact h.replaced hyear hmem

/-- **Years stay positive** in every run of requests whose updates of live books name no year
below 1. -/
theorem years_stay_positive {reqs : List BookEndpoint}
    (hok : AllOk handleEndpoint BookEndpoint.KeepsYears Table.empty reqs) :
    ∀ r ∈ (answers handleEndpoint Table.empty reqs).2.rows, 1 ≤ r.year :=
  answers_invariant (fun _ _ h hok => handleEndpoint_positiveYears h hok)
    (fun _ hr => absurd hr List.not_mem_nil) hok

/-- The Iliad is posted, dated to the year 2 and deleted. -/
def iliadRun : List BookEndpoint :=
  [postIliad, .update (.counting 1) ⟨0⟩ ⟨none, some (some 2), none⟩, .delete (.counting 2) ⟨0⟩]

theorem years_stay_positive_iliad :
    (answers handleEndpoint Table.empty iliadRun).2.rows.length = 1 ∧
      ∀ r ∈ (answers handleEndpoint Table.empty iliadRun).2.rows, 1 ≤ r.year := by
  refine ⟨rfl, years_stay_positive ⟨trivial, ?_, trivial, trivial⟩⟩
  rintro - y ⟨⟩
  decide

def patchYearZero : BookEndpoint := .update (.counting 1) ⟨0⟩ ⟨none, some (some 0), none⟩

/-- The schema of an update lets the year 0 through. -/
theorem patch_year_zero :
    ∃ r ∈ (answers handleEndpoint Table.empty [postIliad, patchYearZero]).2.rows, ¬ 1 ≤ r.year := by
  refine ⟨_, List.mem_singleton.mpr rfl, ?_⟩
  decide

end LibraryService.Presentors
