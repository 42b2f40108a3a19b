import LibraryService.Database.BookStorage
import LibraryService.Domain.Books

/-!
# What the book commands do

Every way a command in a unit of work of its own can end, and the table it leaves.
-/

open Effect Relational LibraryService.Python LibraryService.Database

namespace LibraryService.Domain

variable {t : BookTable} {bookId : UUID} {u : UpdateBook} {r : BookRow}

theorem request_createBook (st : Stmt) (book : CreateBook) (t : BookTable) :
    let row := newBook st 0 (cut 255 book.title) book.year (cut 255 book.author)
    let res := request (CreateBookCommand.execute .allReturn st book) t
    (∃ e, (e = .dbapiError ∧ row.fits = false ∨
          e = .libraryException "Unknown error" ∧ ∃ x ∈ t.rows, x.id = row.id) ∧
        res = (.error e, t)) ∨
      row.fits = true ∧ HasTriple t row.triple ∧
        res = (.error (.entityAlreadyExistsException "Book already exists"), t) ∨
      row.fits = true ∧ ¬ HasTriple t row.triple ∧ ∃ t', res = (.ok row.toBook, t') ∧
        t'.rows = t.rows ++ [row] ∧ ∀ x ∈ t.rows, x.id ≠ row.id := by
  intro row res
  rcases createBook_outcome st book t with
    ⟨e, he, hrun⟩ | ⟨hfits, htaken, hrun⟩ | ⟨hfits, hfree, t', hrun, hrows⟩
  · have htruth : e.truth = true := by rcases he with ⟨rfl, -⟩ | ⟨rfl, -⟩ <;> rfl
    exact .inl ⟨e, he, request_error hrun htruth⟩
  · exact .inr (.inl ⟨hfits, htaken, request_error hrun rfl⟩)
  · exact .inr (.inr ⟨hfits, hfree, t', request_ok hrun, hrows⟩)

theorem request_updateBook_missing (st : Stmt) (h : liveRow t u.id = none) :
    request (UpdateBookByIdCommand.execute .allReturn st u) t =
      (.error (entityNotFound "Book" u.id), t) := by
  have hexists := existsBookById_runOn t u.id
  rw [h] at hexists
  exact request_error (updateBookById_missing hexists) rfl

theorem request_updateBook (st : Stmt) (h : liveRow t u.id = some r) :
    let r' := updatedRow st u r
    let taken := ∃ x ∈ t.rows, x.deletedAt = none ∧ x.id ≠ u.id ∧ x.triple = r'.triple
    let res := request (UpdateBookByIdCommand.execute .allReturn st u) t
    (∃ e, (e = .dbapiError ∧ u.toDict.all BookValue.fits = false ∨
          e = .libraryException "Unknown error" ∧ ¬ u.NonNull) ∧ res = (.error e, t)) ∨
      u.toDict.all BookValue.fits = true ∧ u.NonNull ∧
        (taken ∧ res = (.error (.entityAlreadyExistsException "Book already exists"), t) ∨
          ¬ taken ∧ ∃ t', res = (.ok r'.toBook, t') ∧
            ∀ x, x ∈ t'.rows ↔ x = r' ∨ x ∈ t.rows ∧ x.id ≠ u.id) := by
  intro r' taken res
  have hexists := existsBookById_runOn t u.id
  rw [h] at hexists
  obtain ⟨hr, hid, hd⟩ := liveRow_eq_some.mp h
  rcases updateBookById_outcome st hr hid hd with
    ⟨e, he, hrun⟩ | ⟨hfits, hnull, ⟨htaken, hrun⟩ | ⟨hfree, t', hrun, hmem⟩⟩
  all_goals rw [← updateBookById_exists hexists] at hrun
  · have htruth : e.truth = true := by rcases he with ⟨rfl, -⟩ | ⟨rfl, -⟩ <;> rfl
    exact .inl ⟨e, he, request_error hrun htruth⟩
  · exact .inr ⟨hfits, hnull, .inl ⟨htaken, request_error hrun rfl⟩⟩
  · exact .inr ⟨hfits, hnull, .inr ⟨hfree, t', request_ok hrun, hmem⟩⟩

theorem request_deleteBook (st : Stmt) (bookId : UUID) (t : BookTable) :
    let res := request (DeleteBookByIdCommand.execute .allReturn st bookId) t
    liveRow t bookId = none ∧ res = (.error (entityNotFound "Book" bookId), t) ∨
      ∃ r t', liveRow t bookId = some r ∧ res = (.ok (), t') ∧
        ∀ x, x ∈ t'.rows ↔ x = markDeleted st r ∨ x ∈ t.rows ∧ x.id ≠ bookId := by
  intro res
  have hexists := existsBookById_runOn t bookId
  cases hlive : liveRow t bookId with
  | none =>
    rw [hlive] at hexists
    exact .inl ⟨rfl, request_error (deleteBookById_missing hexists) rfl⟩
  | some r =>
    rw [hlive] at hexists
    obtain ⟨hr, hid, -⟩ := liveRow_eq_some.mp hlive
    obtain ⟨t', hrun, hmem⟩ := deleteBookById_runOn st hr hid
    rw [← deleteBookById_exists hexists] at hrun
    exact .inr ⟨r, t', rfl, request_ok hrun, hmem⟩

theorem request_fetchBook (bookId : UUID) (t : BookTable) :
    let res := request (FetchBookByIdQuery.execute .allReturn bookId) t
    liveRow t bookId = none ∧ res = (.error (entityNotFound "Book" bookId), t) ∨
      ∃ r, liveRow t bookId = some r ∧ res = (.ok r.toBook, t) := by
  intro res
  have hrun := fetchBookById_runOn t bookId
  cases hlive : liveRow t bookId with
  | none =>
    rw [hlive] at hrun
    exact .inl ⟨rfl, request_error (fetchBookById_none hrun) rfl⟩
  | some r =>
    rw [hlive] at hrun
    exact .inr ⟨r, rfl, request_ok (fetchBookById_some hrun)⟩

end LibraryService.Domain
