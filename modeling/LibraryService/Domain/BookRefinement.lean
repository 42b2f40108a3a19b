import LibraryService.Domain.BookCommands
import LibraryService.Domain.BookMap

/-!
# The book store refines the map

The live rows of the table, read as a map, answer every request as the map does.
-/

open Transition Effect Relational LibraryService.Python LibraryService.Database

namespace LibraryService.Domain

variable {t t' : BookTable} {st : Stmt} {bookId : UUID} {r : BookRow} {tr : Triple}

/-- The map that the live rows are. -/
def liveMap (t : BookTable) : BookMap where
  get i := (liveRow t i).map BookRow.triple
  injective i j tr hi hj := by
    obtain ⟨r, hr, htr⟩ := Option.map_eq_some_iff.mp hi
    obtain ⟨r', hr', htr'⟩ := Option.map_eq_some_iff.mp hj
    obtain ⟨hmem, hid, hd⟩ := liveRow_eq_some.mp hr
    obtain ⟨hmem', hid', hd'⟩ := liveRow_eq_some.mp hr'
    have := book_triple_unique hmem hmem' hd hd' (htr.trans htr'.symm)
    rw [← hid, ← hid', this]
  finite := by
    refine (t.rows.map BookRow.id).finite_toSet.subset fun i hi => ?_
    obtain ⟨r, hr⟩ := Option.isSome_iff_exists.mp (Option.isSome_iff_ne_none.mpr hi)
    obtain ⟨r, hr, -⟩ := Option.map_eq_some_iff.mp hr
    obtain ⟨hmem, hid, -⟩ := liveRow_eq_some.mp hr
    exact List.mem_map.mpr ⟨r, hmem, hid⟩

theorem liveMap_get (t : BookTable) (i : UUID) :
    (liveMap t).get i = (liveRow t i).map BookRow.triple := rfl

theorem liveMap_get_eq_some : (liveMap t).get bookId = some tr ↔
    ∃ r ∈ t.rows, r.id = bookId ∧ r.deletedAt = none ∧ r.triple = tr := by
  rw [liveMap_get, Option.map_eq_some_iff]
  constructor
  · rintro ⟨r, hr, htr⟩
    obtain ⟨hmem, hid, hd⟩ := liveRow_eq_some.mp hr
    exact ⟨r, hmem, hid, hd, htr⟩
  · rintro ⟨r, hmem, hid, hd, htr⟩
    exact ⟨r, liveRow_eq_some.mpr ⟨hmem, hid, hd⟩, htr⟩

theorem hasValue_iff : (liveMap t).HasValue tr ↔ HasTriple t tr := by
  constructor
  · rintro ⟨i, hi⟩
    obtain ⟨r, hr, -, hd, htr⟩ := liveMap_get_eq_some.mp hi
    exact ⟨r, hr, hd, htr⟩
  · rintro ⟨r, hr, hd, htr⟩
    exact ⟨r.id, liveMap_get_eq_some.mpr ⟨r, hr, rfl, hd, htr⟩⟩

theorem map_eq_iff {m : BookMap} : liveMap t = m ↔ ∀ i tr, m.get i = some tr ↔
    ∃ r ∈ t.rows, r.id = i ∧ r.deletedAt = none ∧ r.triple = tr := by
  constructor
  · rintro rfl i tr
    exact liveMap_get_eq_some
  · intro h
    ext i tr
    rw [liveMap_get_eq_some, h]

/-! ## What one statement does to the map -/

theorem liveMap_insert (hrows : t'.rows = t.rows ++ [r]) (hd : r.deletedAt = none)
    (hfresh : ∀ x ∈ t.rows, x.id ≠ r.id) (hfree : ¬ HasTriple t r.triple) :
    liveMap t' = (liveMap t).put r.id r.triple := by
  rw [map_eq_iff]
  intro i tr
  rw [UniqueMap.put_get (UniqueMap.free_of_not_hasValue (hasValue_iff.not.mpr hfree)), hrows]
  simp only [List.mem_append, List.mem_singleton]
  split
  · rename_i hi
    subst hi
    constructor
    · rintro ⟨rfl⟩
      exact ⟨r, .inr rfl, rfl, hd, rfl⟩
    · rintro ⟨x, hx | rfl, hid, -, htr⟩
      · exact absurd hid (hfresh x hx)
      · exact congrArg some htr
  · rename_i hi
    rw [liveMap_get_eq_some]
    constructor
    · rintro ⟨x, hx, h⟩
      exact ⟨x, .inl hx, h⟩
    · rintro ⟨x, hx | rfl, hid, h⟩
      · exact ⟨x, hx, hid, h⟩
      · exact absurd hid.symm hi

theorem liveMap_delete
    (hmem : ∀ x, x ∈ t'.rows ↔ x = markDeleted st r ∨ x ∈ t.rows ∧ x.id ≠ r.id) :
    liveMap t' = (liveMap t).erase r.id := by
  rw [map_eq_iff]
  intro i tr
  rw [UniqueMap.erase_get]
  split
  · rename_i hi
    refine iff_of_false (by simp) ?_
    rintro ⟨x, hx, hid, hd, -⟩
    rcases (hmem x).mp hx with rfl | ⟨-, hne⟩
    · cases hd
    · exact hne (hid.trans hi)
  · rename_i hi
    rw [liveMap_get_eq_some]
    constructor
    · rintro ⟨x, hx, hid, h⟩
      exact ⟨x, (hmem x).mpr (.inr ⟨hx, by rwa [hid]⟩), hid, h⟩
    · rintro ⟨x, hx, hid, hd, htr⟩
      rcases (hmem x).mp hx with rfl | ⟨hx, -⟩
      · cases hd
      · exact ⟨x, hx, hid, hd, htr⟩

theorem liveMap_update {r' : BookRow} (hid : r'.id = r.id) (hd : r'.deletedAt = none)
    (hmem : ∀ x, x ∈ t'.rows ↔ x = r' ∨ x ∈ t.rows ∧ x.id ≠ r.id)
    (hfree : (liveMap t).Free r.id r'.triple) :
    liveMap t' = (liveMap t).put r.id r'.triple := by
  rw [map_eq_iff]
  intro i tr
  rw [UniqueMap.put_get hfree]
  split
  · rename_i hi
    subst hi
    constructor
    · rintro ⟨rfl⟩
      exact ⟨r', (hmem r').mpr (.inl rfl), hid, hd, rfl⟩
    · rintro ⟨x, hx, hxid, -, htr⟩
      rcases (hmem x).mp hx with rfl | ⟨-, hne⟩
      · exact congrArg some htr
      · exact absurd hxid hne
  · rename_i hi
    rw [liveMap_get_eq_some]
    constructor
    · rintro ⟨x, hx, hxid, h⟩
      exact ⟨x, (hmem x).mpr (.inr ⟨hx, by rwa [hxid]⟩), hxid, h⟩
    · rintro ⟨x, hx, hxid, h⟩
      rcases (hmem x).mp hx with rfl | ⟨hx, -⟩
      · exact absurd (hxid.symm.trans hid) hi
      · exact ⟨x, hx, hxid, h⟩

/-! ## What one request does to the map -/

/-- The table answers a request as the map of its live rows does, and goes on as it. -/
def Refines (t : BookTable) (req : BookRequest) : Prop :=
  (handleBook t req).1.map BookAnswer.entry = (BookMap.handle (liveMap t) req).1 ∧
    liveMap (handleBook t req).2 = (BookMap.handle (liveMap t) req).2

theorem refines_create {book : CreateBook} (hs : Storable book) (hf : DrawsFresh st 1 t) :
    Refines t (.create st book) := by
  rw [Refines, BookMap.handle, handleBook, respond]
  rcases request_createBook st book t with
    ⟨e, ⟨-, hunfit⟩ | ⟨-, x, hx, hid⟩, -⟩ | ⟨-, htaken, hres⟩ | ⟨-, hfree, t', hres, hrows, hnew⟩
  · rw [newBook_fits hs] at hunfit
    cases hunfit
  · exact absurd hid (hf.fresh 0 (by decide) x hx)
  · have hval : (liveMap t).HasValue book.triple := hasValue_iff.mpr htaken
    rw [hres, if_pos hval]
    exact ⟨rfl, rfl⟩
  · have hval : ¬ (liveMap t).HasValue book.triple := hasValue_iff.not.mpr hfree
    rw [hres, if_neg hval]
    exact ⟨rfl, liveMap_insert hrows rfl hnew hfree⟩

theorem refines_fetch (t : BookTable) (bookId : UUID) : Refines t (.fetch bookId) := by
  rw [Refines, BookMap.handle, liveMap_get, handleBook, respond]
  rcases request_fetchBook bookId t with ⟨hlive, hres⟩ | ⟨r, hlive, hres⟩ <;> rw [hres, hlive]
  · exact ⟨rfl, rfl⟩
  · obtain ⟨-, hid, -⟩ := liveRow_eq_some.mp hlive
    rw [← hid]
    exact ⟨rfl, rfl⟩

theorem refines_delete (t : BookTable) (st : Stmt) (bookId : UUID) :
    Refines t (.delete st bookId) := by
  rw [Refines, BookMap.handle, liveMap_get, handleBook, respond]
  rcases request_deleteBook st bookId t with ⟨hlive, hres⟩ | ⟨r, t', hlive, hres, hmem⟩ <;>
    rw [hres, hlive]
  · exact ⟨rfl, rfl⟩
  · obtain ⟨-, rfl, -⟩ := liveRow_eq_some.mp hlive
    exact ⟨rfl, liveMap_delete hmem⟩

theorem refines_update {u : UpdateBook} (hu : u.NonNull)
    (hfits : u.toDict.all BookValue.fits = true) : Refines t (.update st u) := by
  rw [Refines, BookMap.handle, liveMap_get, handleBook, respond]
  cases hlive : liveRow t u.id with
  | none =>
    rw [request_updateBook_missing st hlive]
    exact ⟨rfl, rfl⟩
  | some r =>
    obtain ⟨-, hid, hd⟩ := liveRow_eq_some.mp hlive
    have htaken : (∃ j, j ≠ u.id ∧ (liveMap t).get j = some (u.overwrite r.triple)) ↔
        ∃ x ∈ t.rows, x.deletedAt = none ∧ x.id ≠ u.id ∧
          x.triple = (updatedRow st u r).triple := by
      constructor
      · rintro ⟨j, hj, hget⟩
        obtain ⟨x, hx, rfl, hxd, htr⟩ := liveMap_get_eq_some.mp hget
        exact ⟨x, hx, hxd, hj, htr⟩
      · rintro ⟨x, hx, hxd, hj, htr⟩
        exact ⟨x.id, hj, liveMap_get_eq_some.mpr ⟨x, hx, rfl, hxd, htr⟩⟩
    simp only [Option.map_some]
    rcases request_updateBook st hlive with
      ⟨e, ⟨-, hunfit⟩ | ⟨-, hnull⟩, -⟩ | ⟨-, -, ⟨hdup, hres⟩ | ⟨hfree, t', hres, hmem⟩⟩
    · rw [hfits] at hunfit
      cases hunfit
    · exact absurd hu hnull
    · rw [hres, if_pos (htaken.mpr hdup)]
      exact ⟨rfl, rfl⟩
    · rw [hres, if_neg (htaken.not.mpr hfree), ← hid]
      have hd' : (updatedRow st u r).deletedAt = none := hd
      refine ⟨rfl, liveMap_update rfl hd' (hid ▸ hmem) fun j hj => ?_⟩
      by_contra hne
      exact hfree (htaken.mp ⟨j, hid ▸ hne, hj⟩)

def entryOf (r : BookRow) : UUID × Triple := (r.id, r.triple)

theorem insertAll_refines {rows : List BookRow} (hd : ∀ r ∈ rows, r.deletedAt = none)
    (hfresh : ∀ r ∈ rows, ∀ x ∈ t.rows, x.id ≠ r.id)
    (hdistinct : rows.Pairwise fun r r' => r.id ≠ r'.id) :
    ∃ t', insertAll booksTriple rows t = .ok t' ∧
      liveMap t' = BookMap.saveAll (rows.map entryOf) (liveMap t) := by
  induction rows generalizing t with
  | nil => exact ⟨t, rfl, rfl⟩
  | cons r rows ih =>
    rw [List.pairwise_cons] at hdistinct
    have hrest := fun s hs => ih (t := s) (fun r hr => hd r (by simp [hr])) hs hdistinct.2
    rw [List.map_cons, entryOf, BookMap.saveAll, insertAll]
    rcases insertIgnoring_cases (hd r (by simp)) (hfresh r (by simp)) with
      ⟨htaken, hins⟩ | ⟨hfree, t₁, hins, hrows⟩
    · rw [hins, if_pos (hasValue_iff.mpr htaken)]
      exact hrest t fun r hr => hfresh r (by simp [hr])
    · rw [hins, if_neg (hasValue_iff.not.mpr hfree),
        ← liveMap_insert hrows (hd r (by simp)) (hfresh r (by simp)) hfree]
      refine hrest t₁ fun r' hr' x hx => ?_
      rw [hrows, List.mem_append, List.mem_singleton] at hx
      rcases hx with hx | rfl
      · exact hfresh r' (by simp [hr']) x hx
      · exact hdistinct.1 r' hr'

theorem refines_saveBulk {books : List CreateBook} (hne : books ≠ [])
    (hs : ∀ b ∈ books, Storable b) (hf : DrawsFresh st books.length t) :
    Refines t (.saveBulk st books) := by
  obtain ⟨t', hins, hmap⟩ := insertAll_refines (fun _ => bulkRows_live)
    (fun _ => bulkRows_fresh hf) (bulkRows_distinct hf)
  have hentries : (BookStorage.bulkRows st books).map entryOf =
      books.mapIdx fun k book => (st.uuid4 k, book.triple) := by
    rw [BookStorage.bulkRows, List.mapIdx_eq_zipIdx_map, List.mapIdx_eq_zipIdx_map, List.map_map]
    rfl
  have hreq : handleBook t (.saveBulk st books) = (.ok .done, t') :=
    respond_ok (saveBulkBooks_ok hne hs hins)
  rw [Refines, hreq, BookMap.handle, ← hentries]
  exact ⟨rfl, hmap⟩

theorem handleBook_refines {req : BookRequest} (h : Admissible t req) : Refines t req := by
  cases req with
  | create st book => exact refines_create h.1 h.2
  | update st u => exact refines_update h.2.1 h.2.2
  | delete st bookId => exact refines_delete t st bookId
  | saveBulk st books => exact refines_saveBulk h.1 h.2.1 h.2.2
  | fetch bookId => exact refines_fetch t bookId

theorem liveMap_empty : liveMap Table.empty = UniqueMap.empty := rfl

/-- **The book store refines the map**: every run of admissible requests from the empty table is
answered, and leaves the live rows, as the map answers it and is left. -/
theorem book_store_refines_map {reqs : List BookRequest}
    (h : AllOk handleBook Admissible Table.empty reqs) :
    (answers handleBook Table.empty reqs).1.map (·.map BookAnswer.entry) =
        (answers BookMap.handle UniqueMap.empty reqs).1 ∧
      liveMap (answers handleBook Table.empty reqs).2 =
        (answers BookMap.handle UniqueMap.empty reqs).2 := by
  obtain ⟨hans, hmap⟩ := answers_simulate (fun t m => liveMap t = m)
    (fun a b => a.map BookAnswer.entry = b) (by
      rintro t _ req rfl hok
      exact handleBook_refines hok) liveMap_empty h
  exact ⟨by rwa [← List.forall₂_map_left_iff, List.forall₂_eq_eq_eq] at hans, hmap⟩

def shortLife : List BookRequest :=
  [.create (.counting 0) ⟨"Iliad", 1488, "Homer"⟩,
    .update (.counting 0) ⟨⟨0⟩, some (some "Odyssey"), none, none⟩, .delete (.counting 0) ⟨0⟩,
    .fetch ⟨0⟩]

theorem book_store_refines_map_shortLife :
    (answers handleBook Table.empty shortLife).1.map (·.map BookAnswer.entry) =
        (answers BookMap.handle UniqueMap.empty shortLife).1 ∧
      liveMap (answers handleBook Table.empty shortLife).2 =
        (answers BookMap.handle UniqueMap.empty shortLife).2 := by
  have hfresh : DrawsFresh (.counting 0) 1 Table.empty :=
    ⟨fun _ _ _ hx => absurd hx List.not_mem_nil, fun j hj k hk _ => by omega⟩
  exact book_store_refines_map ⟨⟨⟨by decide, by decide, by decide⟩, hfresh⟩,
    ⟨by decide, ⟨by decide, by decide, by decide⟩, by decide⟩, trivial, trivial, trivial⟩

end LibraryService.Domain
