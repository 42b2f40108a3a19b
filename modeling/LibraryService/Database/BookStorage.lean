import LibraryService.Database.Books

/-!
# What the book storage does to the table
-/

open Effect Relational LibraryService.Python LibraryService.Domain

namespace LibraryService.Database

variable {t : BookTable} {st : Stmt} {r r' x : BookRow} {bookId : UUID}

def HasTriple (t : BookTable) (tr : String × Int × String) : Prop :=
  ∃ x ∈ t.rows, x.deletedAt = none ∧ x.triple = tr

theorem booksPk_mem : booksPk ∈ [booksPk, booksTriple] := by simp

theorem booksTriple_mem : booksTriple ∈ [booksPk, booksTriple] := by simp

theorem booksPk_clash : booksPk.clash r r' = decide (r.id = r'.id) := by
  simp [booksPk, UniqueIndex.on]

theorem booksTriple_clash : booksTriple.clash r r' = true ↔
    r.deletedAt = none ∧ r'.deletedAt = none ∧ r.triple = r'.triple := by
  rw [booksTriple, UniqueIndex.on_clash]
  cases r.deletedAt <;> cases r'.deletedAt <;> simp

instance : Keyed [booksPk, booksTriple] :=
  ⟨fun _ => ⟨booksPk, booksPk_mem, by simp [booksPk_clash]⟩⟩

theorem book_id_unique (hr : r ∈ t.rows) (hr' : r' ∈ t.rows) (h : r.id = r'.id) : r = r' :=
  t.eq_of_clash booksPk_mem hr hr' (by simp [booksPk_clash, h])

theorem book_triple_unique (hr : r ∈ t.rows) (hr' : r' ∈ t.rows) (hd : r.deletedAt = none)
    (hd' : r'.deletedAt = none) (h : r.triple = r'.triple) : r = r' :=
  t.eq_of_clash booksTriple_mem hr hr' (booksTriple_clash.mpr ⟨hd, hd', h⟩)

theorem id_ne_of_apart (h : Apart [booksPk, booksTriple] x r) : x.id ≠ r.id := by
  intro hid
  have := h booksPk booksPk_mem
  rw [booksPk_clash, hid] at this
  simp at this

theorem picks_id (hr : r ∈ t.rows) (hid : r.id = bookId) :
    ∃ a b, Picks (fun x => decide (x.id = bookId)) t.rows a r b :=
  t.picks booksPk_mem hr (fun x => by rw [booksPk_clash, hid]) (by simp [hid])

/-! ## Reading -/

def liveRow (t : BookTable) (bookId : UUID) : Option BookRow :=
  t.rows.find? fun r => decide (r.id = bookId) && r.deletedAt.isNone

theorem liveRow_eq_some :
    liveRow t bookId = some r ↔ r ∈ t.rows ∧ r.id = bookId ∧ r.deletedAt = none := by
  unfold liveRow
  rw [find?_eq_some_of_unique]
  · simp
  · intro x hx y hy hpx hpy
    simp only [Bool.and_eq_true, decide_eq_true_eq] at hpx hpy
    exact book_id_unique hx hy (hpx.1.trans hpy.1.symm)

theorem fetchBookById_runOn (t : BookTable) (bookId : UUID) :
    (BookStorage.fetchBookById bookId).runOn t = (.ok ((liveRow t bookId).map BookRow.toBook), t) :=
  rfl

theorem existsBookById_runOn (t : BookTable) (bookId : UUID) :
    (BookStorage.existsBookById bookId).runOn t = (.ok (liveRow t bookId).isSome, t) := by
  rw [BookStorage.existsBookById, runOn_bind_ok (runOn_get t), runOn_pure, liveRow,
    List.isSome_find?]

/-! ## Writing -/

/-- Text without NUL characters, and a year in the range of its column. -/
structure Storable (b : CreateBook) : Prop where
  title : isText b.title = true
  year : isInt4 b.year = true
  author : isText b.author = true

/-- The first `n` ids that `uuid4` draws are in no row, and differ from each other. -/
structure DrawsFresh (st : Stmt) (n : Nat) (t : BookTable) : Prop where
  fresh : ∀ k < n, ∀ x ∈ t.rows, x.id ≠ st.uuid4 k
  distinct : ∀ j < n, ∀ k < n, st.uuid4 j = st.uuid4 k → j = k

theorem newBook_fits {k : Nat} {b : CreateBook} (h : Storable b) :
    (newBook st k (cut 255 b.title) b.year (cut 255 b.author)).fits = true := by
  simp only [BookRow.fits, newBook, Bool.and_eq_true]
  exact ⟨⟨⟨⟨isText_cut h.title, by simp [length_cut_le]⟩, h.year⟩, isText_cut h.author⟩,
    by simp [length_cut_le]⟩

theorem clash_of_fresh {ix : UniqueIndex BookRow} (hix : ix ∈ [booksPk, booksTriple])
    (hne : x.id ≠ r.id) (h : ix.clash x r = true) : ix = booksTriple := by
  rcases List.mem_pair.mp hix with rfl | rfl
  · rw [booksPk_clash] at h; simp [hne] at h
  · rfl

theorem createBook_outcome (st : Stmt) (book : CreateBook) (t : BookTable) :
    let row := newBook st 0 (cut 255 book.title) book.year (cut 255 book.author)
    (∃ e, (e = .dbapiError ∧ row.fits = false ∨
          e = .libraryException "Unknown error" ∧ ∃ x ∈ t.rows, x.id = row.id) ∧
        (BookStorage.createBook st book).runOn t = (.error e, t)) ∨
      row.fits = true ∧ HasTriple t row.triple ∧ (BookStorage.createBook st book).runOn t =
        (.error (.entityAlreadyExistsException "Book already exists"), t) ∨
      row.fits = true ∧ ¬ HasTriple t row.triple ∧ ∃ t', (BookStorage.createBook st book).runOn t =
        (.ok row.toBook, t') ∧ t'.rows = t.rows ++ [row] ∧ ∀ x ∈ t.rows, x.id ≠ row.id := by
  intro row
  rcases insertReturning_cases row.fits row t with
    ⟨hfits, hstmt⟩ | ⟨hfits, ix, hix, x, hx, hclash, hstmt⟩ | ⟨hfits, hapart, t', hrows, hstmt⟩
  · exact .inl ⟨_, .inl ⟨rfl, hfits⟩, runOn_bind_error (runOn_tryCatch_error hstmt)⟩
  · rcases List.mem_pair.mp hix with rfl | rfl
    · rw [booksPk_clash, decide_eq_true_eq] at hclash
      exact .inl ⟨_, .inr ⟨rfl, x, hx, hclash⟩, runOn_bind_error (runOn_tryCatch_error hstmt)⟩
    · obtain ⟨hd, -, htr⟩ := booksTriple_clash.mp hclash
      exact .inr (.inl ⟨hfits, ⟨x, hx, hd, htr⟩, runOn_bind_error (runOn_tryCatch_error hstmt)⟩)
  · refine .inr (.inr ⟨hfits, ?_, t', runOn_bind_ok (runOn_tryCatch_ok hstmt), hrows, ?_⟩)
    · rintro ⟨x, hx, hd, htr⟩
      have := hapart x hx booksTriple booksTriple_mem
      rw [booksTriple_clash.mpr ⟨hd, rfl, htr⟩] at this
      cases this
    · exact fun x hx => id_ne_of_apart (hapart x hx)

theorem deleteBookById_runOn (st : Stmt) (hr : r ∈ t.rows) (hid : r.id = bookId) :
    ∃ t', (BookStorage.deleteBookById st bookId).runOn t = (.ok (), t') ∧
      ∀ x, x ∈ t'.rows ↔ x = markDeleted st r ∨ x ∈ t.rows ∧ x.id ≠ bookId := by
  obtain ⟨a, b, hpicks⟩ := picks_id hr hid
  have hset : setDeleted st r = .ok (markDeleted st r) := rfl
  rcases Table.updateWhere_cases duplicate hpicks hset with
    ⟨ix, hix, -, x, -, hne, hclash⟩ | ⟨t', hupd, -, hmem⟩
  · have hxid : x.id ≠ (markDeleted st r).id := by simpa [markDeleted, hid] using hne
    obtain rfl := clash_of_fresh hix hxid hclash
    have hnone := (booksTriple_clash.mp hclash).2.1
    cases hnone
  · exact ⟨t', runOn_bind_ok (updateReturning_ok hupd), by simpa using hmem⟩

/-- What a partial update makes of a row, when none of its values is `None`. -/
def updatedRow (st : Stmt) (u : UpdateBook) (r : BookRow) : BookRow :=
  { r with
    title := u.title.join.getD r.title
    year := u.year.join.getD r.year
    author := u.author.join.getD r.author
    updatedAt := st.clock 0 }

theorem setBook_nonNull {u : UpdateBook} (h : u.NonNull) (r : BookRow) :
    setBook st u.toDict r = .ok (updatedRow st u r) := by
  obtain ⟨id, title, year, author⟩ := u
  obtain ⟨htitle, hyear, hauthor⟩ := h
  rcases title with _ | _ | title <;> rcases year with _ | _ | year <;>
    rcases author with _ | _ | author <;> first | contradiction | rfl

theorem updateBookById_cases {u : UpdateBook} (hu : u.NonNull)
    (hfits : u.toDict.all BookValue.fits = true) (hr : r ∈ t.rows) (hid : r.id = u.id)
    (hd : r.deletedAt = none) :
    let r' := updatedRow st u r
    (∃ x ∈ t.rows, x.deletedAt = none ∧ x.id ≠ u.id ∧ x.triple = r'.triple) ∧
        (BookStorage.updateBookById st u).runOn t =
          (.error (.entityAlreadyExistsException "Book already exists"), t) ∨
      (¬ ∃ x ∈ t.rows, x.deletedAt = none ∧ x.id ≠ u.id ∧ x.triple = r'.triple) ∧
        ∃ t', (BookStorage.updateBookById st u).runOn t = (.ok r'.toBook, t') ∧
          ∀ x, x ∈ t'.rows ↔ x = r' ∨ x ∈ t.rows ∧ x.id ≠ u.id := by
  intro r'
  have hid' : r'.id = r.id := rfl
  have hd' : r'.deletedAt = none := hd
  obtain ⟨a, b, hpicks⟩ := picks_id hr hid
  rcases Table.updateWhere_cases duplicate hpicks (setBook_nonNull hu r) with
    ⟨ix, hix, hupd, x, hx, hne, hclash⟩ | ⟨t', hupd, hapart, hmem⟩
  · left
    have hxid : x.id ≠ u.id := by simpa using hne
    obtain rfl := clash_of_fresh hix (by rw [hid', hid]; exact hxid) hclash
    obtain ⟨hxd, -, htr⟩ := booksTriple_clash.mp hclash
    have hstmt := updateReturning_error hupd
    rw [← hfits] at hstmt
    exact ⟨⟨x, hx, hxd, hxid, htr⟩,
      runOn_bind_error (runOn_tryCatch_error (runOn_bind_error hstmt))⟩
  · right
    have hstmt := updateReturning_ok hupd
    rw [← hfits] at hstmt
    refine ⟨?_, t', runOn_bind_ok (runOn_tryCatch_ok (runOn_bind_ok hstmt)), by simpa using hmem⟩
    rintro ⟨x, hx, hxd, hxid, htr⟩
    have := hapart x hx (by simp [hxid]) booksTriple booksTriple_mem
    rw [booksTriple_clash.mpr ⟨hxd, hd', htr⟩] at this; cases this

theorem setBook_null (st : Stmt) {u : UpdateBook} (h : ¬ u.NonNull) (r : BookRow) :
    setBook st u.toDict r = .error (.integrityError none) := by
  obtain ⟨id, title, year, author⟩ := u
  rcases title with _ | _ | title <;> rcases year with _ | _ | year <;>
    rcases author with _ | _ | author <;>
      first | rfl | exact absurd ⟨by simp, by simp, by simp⟩ h

theorem updateBookById_outcome (st : Stmt) {u : UpdateBook} (hr : r ∈ t.rows) (hid : r.id = u.id)
    (hd : r.deletedAt = none) :
    let r' := updatedRow st u r
    let taken := ∃ x ∈ t.rows, x.deletedAt = none ∧ x.id ≠ u.id ∧ x.triple = r'.triple
    (∃ e, (e = .dbapiError ∧ u.toDict.all BookValue.fits = false ∨
          e = .libraryException "Unknown error" ∧ ¬ u.NonNull) ∧
        (BookStorage.updateBookById st u).runOn t = (.error e, t)) ∨
      u.toDict.all BookValue.fits = true ∧ u.NonNull ∧
        (taken ∧ (BookStorage.updateBookById st u).runOn t =
            (.error (.entityAlreadyExistsException "Book already exists"), t) ∨
          ¬ taken ∧ ∃ t', (BookStorage.updateBookById st u).runOn t = (.ok r'.toBook, t') ∧
            ∀ x, x ∈ t'.rows ↔ x = r' ∨ x ∈ t.rows ∧ x.id ≠ u.id) := by
  intro r' taken
  cases hfits : u.toDict.all BookValue.fits with
  | false =>
    have hstmt := updateReturning_unfit (fun x => decide (x.id = u.id)) (setBook st u.toDict) t
    rw [← hfits] at hstmt
    exact .inl ⟨_, .inl ⟨rfl, rfl⟩,
      runOn_bind_error (runOn_tryCatch_error (runOn_bind_error hstmt))⟩
  | true =>
    by_cases hu : u.NonNull
    · exact .inr ⟨rfl, hu, updateBookById_cases hu hfits hr hid hd⟩
    · obtain ⟨a, b, hpicks⟩ := picks_id hr hid
      have hstmt := updateReturning_error (Table.updateWhere_rejected hpicks (setBook_null st hu r))
      rw [← hfits] at hstmt
      exact .inl ⟨_, .inr ⟨rfl, hu⟩,
        runOn_bind_error (runOn_tryCatch_error (runOn_bind_error hstmt))⟩

theorem assign_keeps {v : BookValue} (h : BookValue.assign r v = .ok r') :
    r'.id = r.id ∧ r'.deletedAt = r.deletedAt := by
  rcases v with (_ | _) | (_ | _) | (_ | _) <;> cases h <;> exact ⟨rfl, rfl⟩

theorem setBook_keeps {values : List BookValue} (h : setBook st values r = .ok r') :
    r'.id = r.id ∧ r'.deletedAt = r.deletedAt := by
  unfold setBook at h
  obtain ⟨x, hx⟩ : ∃ x, x = { r with updatedAt := st.clock 0 } := ⟨_, rfl⟩
  have hkept : x.id = r.id ∧ x.deletedAt = r.deletedAt := by subst hx; exact ⟨rfl, rfl⟩
  rw [← hx] at h
  clear hx
  induction values generalizing x with
  | nil => cases h; exact hkept
  | cons v values ih =>
    rw [List.foldlM_cons] at h
    cases hv : BookValue.assign x v with
    | error e => rw [hv] at h; cases h
    | ok x' =>
      rw [hv] at h
      have hstep := assign_keeps hv
      exact ih x' h ⟨hstep.1.trans hkept.1, hstep.2.trans hkept.2⟩

/-! ## What the statements raise -/

theorem assign_raises {v : BookValue} {e : Exc} (h : BookValue.assign r v = .error e) : Truthy e := by
  rcases v with (_ | _) | (_ | _) | (_ | _) <;> cases h <;> rfl

theorem setBook_raises {values : List BookValue} {e : Exc} (h : setBook st values r = .error e) :
    Truthy e := by
  unfold setBook at h
  generalize { r with updatedAt := st.clock 0 } = r' at h
  induction values generalizing r' with
  | nil => cases h
  | cons v values ih =>
    rw [List.foldlM_cons] at h
    cases hv : BookValue.assign r' v with
    | error e' => rw [hv] at h; cases h; exact assign_raises hv
    | ok r₁ => rw [hv] at h; exact ih r₁ h

theorem raiseError_raises {α : Type} (c : Option String) :
    (BookStorage.raiseError c : Eff BookTable Exc α).Raises Truthy := by
  unfold BookStorage.raiseError
  split <;> exact raises_throw rfl

theorem deleteBookById_raises (st : Stmt) (bookId : UUID) :
    (BookStorage.deleteBookById st bookId).Raises Truthy := by
  have hupd : (updateReturning true (fun r => decide (r.id = bookId)) (setDeleted st) :
      Eff BookTable Exc _).Raises Truthy := updateReturning_raises nofun
  exact hupd.bind fun _ => raises_pure _

theorem updateBookById_raises (st : Stmt) (u : UpdateBook) :
    (BookStorage.updateBookById st u).Raises Truthy := by
  have hupd : (updateReturning (u.toDict.all BookValue.fits) (fun r => decide (r.id = u.id))
      (setBook st u.toDict) : Eff BookTable Exc _).Raises Truthy :=
    updateReturning_raises fun _ _ => setBook_raises
  refine (Eff.Raises.tryCatch (hupd.bind one_raises) fun e he => ?_).bind fun _ => raises_pure _
  split
  case h_1 => exact raises_throw rfl
  case h_2 c => exact raiseError_raises c
  case h_3 => exact raises_throw he

theorem insertIgnoring_cases (hd : r.deletedAt = none) (hfresh : ∀ x ∈ t.rows, x.id ≠ r.id) :
    HasTriple t r.triple ∧ t.insertOnConflictDoNothing booksTriple r = .ok t ∨
      ¬ HasTriple t r.triple ∧ ∃ t', t.insertOnConflictDoNothing booksTriple r = .ok t' ∧
        t'.rows = t.rows ++ [r] := by
  have hany : (t.rows.any fun x => booksTriple.clash x r) = true ↔ HasTriple t r.triple := by
    simp [booksTriple_clash, HasTriple, hd]
  unfold Table.insertOnConflictDoNothing
  by_cases h : HasTriple t r.triple
  · rw [if_pos (hany.mpr h)]
    exact .inl ⟨h, rfl⟩
  · rw [if_neg (fun hc => h (hany.mp hc))]
    rcases t.insert_cases r with ⟨ix, hix, -, x, hx, hclash⟩ | ⟨t', hins, -, hrows⟩
    · obtain rfl := clash_of_fresh hix (hfresh x hx) hclash
      obtain ⟨hxd, -, htr⟩ := booksTriple_clash.mp hclash
      exact absurd ⟨x, hx, hxd, htr⟩ h
    · exact .inr ⟨h, t', hins, hrows⟩

section Bulk

variable {books : List CreateBook}

theorem mem_bulkRows : r ∈ BookStorage.bulkRows st books ↔ ∃ k, ∃ h : k < books.length,
    newBook st k (cut 255 books[k].title) books[k].year (cut 255 books[k].author) = r := by
  rw [BookStorage.bulkRows, List.mem_mapIdx]

theorem bulkRows_live (hr : r ∈ BookStorage.bulkRows st books) : r.deletedAt = none := by
  obtain ⟨k, hk, rfl⟩ := mem_bulkRows.mp hr
  rfl

theorem bulkRows_fits (hs : ∀ b ∈ books, Storable b) :
    (BookStorage.bulkRows st books).all BookRow.fits = true := by
  rw [List.all_eq_true]
  intro r hr
  obtain ⟨k, hk, rfl⟩ := mem_bulkRows.mp hr
  exact newBook_fits (hs _ (List.getElem_mem hk))

theorem bulkRows_fresh (hf : DrawsFresh st books.length t)
    (hr : r ∈ BookStorage.bulkRows st books) : ∀ x ∈ t.rows, x.id ≠ r.id := by
  obtain ⟨k, hk, rfl⟩ := mem_bulkRows.mp hr
  exact hf.fresh k hk

theorem bulkRows_distinct (hf : DrawsFresh st books.length t) :
    (BookStorage.bulkRows st books).Pairwise fun r r' => r.id ≠ r'.id := by
  rw [List.pairwise_iff_getElem]
  intro j k hj hk hjk heq
  simp only [BookStorage.bulkRows, List.length_mapIdx] at hj hk
  simp only [BookStorage.bulkRows, List.getElem_mapIdx, newBook] at heq
  exact absurd (hf.distinct j hj k hk heq) (Nat.ne_of_lt hjk)

theorem saveBulkBooks_ok {t' : BookTable} (hne : books ≠ []) (hs : ∀ b ∈ books, Storable b)
    (h : insertAll booksTriple (BookStorage.bulkRows st books) t = .ok t') :
    (BookStorage.saveBulkBooks st books).runOn t = (.ok (), t') := by
  rw [BookStorage.saveBulkBooks, bulkRows_fits hs]
  refine insertOnConflictDoNothing_ok (fun hnil => hne ?_) h
  simpa [BookStorage.bulkRows] using hnil

theorem insertIgnoring_new {t' : BookTable}
    (h : t.insertOnConflictDoNothing booksTriple r = .ok t') :
    t' = t ∨ t'.rows = t.rows ++ [r] ∧ ∀ y ∈ t.rows, y.id ≠ r.id := by
  unfold Table.insertOnConflictDoNothing at h
  split at h
  · cases h; exact .inl rfl
  · rcases t.insert_cases r with ⟨ix, -, hins, -⟩ | ⟨t₁, hins, hapart, hrows⟩
    · rw [hins] at h; cases h
    · rw [hins] at h; cases h
      exact .inr ⟨hrows, fun y hy => id_ne_of_apart (hapart y hy)⟩

theorem insertAll_new {t' : BookTable} {rows : List BookRow}
    (h : insertAll booksTriple rows t = .ok t') (hx : x ∈ t'.rows) :
    x ∈ t.rows ∨ x ∈ rows ∧ ∀ y ∈ t.rows, y.id ≠ x.id := by
  induction rows generalizing t with
  | nil => cases h; exact .inl hx
  | cons r rows ih =>
    rw [insertAll] at h
    split at h
    · cases h
    rename_i t₁ hins
    rcases insertIgnoring_new hins with rfl | ⟨hrows, hne⟩
    · exact (ih h).imp_right fun hnew => ⟨by simp [hnew.1], hnew.2⟩
    · rcases ih h with hx₁ | ⟨hx₁, hnew⟩
      · rw [hrows, List.mem_append, List.mem_singleton] at hx₁
        rcases hx₁ with hx₁ | rfl
        · exact .inl hx₁
        · exact .inr ⟨by simp, hne⟩
      · exact .inr ⟨by simp [hx₁], fun y hy => hnew y (by simp [hrows, hy])⟩

theorem saveBulkBooks_new {t' : BookTable}
    (h : (BookStorage.saveBulkBooks st books).runOn t = (.ok (), t')) (hx : x ∈ t'.rows) :
    x ∈ t.rows ∨ x ∈ BookStorage.bulkRows st books ∧ ∀ y ∈ t.rows, y.id ≠ x.id :=
  insertAll_new (insertOnConflictDoNothing_eq_ok h).2.2 hx

end Bulk

end LibraryService.Database
