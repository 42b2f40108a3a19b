import Mathlib.Tactic.ByContra
import LibraryService.OpenLibrary.Client
import LibraryService.Domain.Entities

/-!
# The page loop of the upload

`UploadBooksCommand._get_all_books_by_query`, and which books it finds.
-/

open LibraryService.OpenLibrary

namespace LibraryService.Domain

def BUCKET_SIZE : Nat := 100

def createBookOf (book : OpenLibraryBook) : CreateBook :=
  { title := book.title, year := 0, author := String.intercalate "," book.authors }

/-- The `while True` loop, at most `fuel` times round: `none` where it would go on. -/
def searchPages {m : Type → Type} [Monad m]
    (search : String → Nat → Nat → m OpenLibrarySearchResult) (query : String) :
    Nat → Nat → List CreateBook → m (Option (List CreateBook))
  | 0, _, _ => pure none
  | fuel + 1, offset, books => do
    let result ← search query BUCKET_SIZE offset
    let books := books ++ result.books.map createBookOf
    if result.books.length < BUCKET_SIZE then
      pure (some books)
    else
      searchPages search query fuel (offset + BUCKET_SIZE) books

def getAllBooksByQuery {m : Type → Type} [Monad m]
    (search : String → Nat → Nat → m OpenLibrarySearchResult) (fuel : Nat) (query : String) :
    m (Option (List CreateBook)) :=
  searchPages search query fuel 0 []

/-! ## What the upload is for -/

/-- The books of a catalogue: one for each doc that has authors, in catalogue order. -/
def catalogueBooks (docs : List OpenLibraryDocStruct) : List CreateBook :=
  docs.filterMap fun doc => doc.authorName.map fun authors =>
    { title := doc.title, year := 0, author := String.intercalate "," authors }

/-- The endpoint answers a query with slices of one catalogue. -/
def Serves (endpoint : SearchParams → OpenLibrarySearchStruct) (query : String)
    (docs : List OpenLibraryDocStruct) : Prop :=
  ∀ limit offset, (endpoint (searchParams query limit offset)).docs = (docs.drop offset).take limit

/-- No doc with authors lies in a later page of the catalogue than a doc without. -/
def AuthorlessLast (docs : List OpenLibraryDocStruct) : Prop :=
  ∀ (i j : Nat) (d e : OpenLibraryDocStruct), docs[i]? = some d → docs[j]? = some e →
    d.authorName = none → e.authorName ≠ none → j / BUCKET_SIZE ≤ i / BUCKET_SIZE

variable {docs : List OpenLibraryDocStruct}

theorem map_createBookOf (docs : List OpenLibraryDocStruct) :
    (docs.filterMap bookOfDoc).map createBookOf = catalogueBooks docs := by
  rw [List.map_filterMap]
  unfold catalogueBooks bookOfDoc
  congr 1
  funext doc
  cases doc.authorName <;> rfl

theorem catalogueBooks_append (docs docs' : List OpenLibraryDocStruct) :
    catalogueBooks (docs ++ docs') = catalogueBooks docs ++ catalogueBooks docs' :=
  List.filterMap_append

theorem catalogueBooks_eq_nil :
    catalogueBooks docs = [] ↔ ∀ e ∈ docs, e.authorName = none := by
  simp [catalogueBooks, List.filterMap_eq_nil_iff]

theorem page_full_iff (page : List OpenLibraryDocStruct) (h : page.length ≤ BUCKET_SIZE) :
    ¬ (page.filterMap bookOfDoc).length < BUCKET_SIZE ↔
      page.length = BUCKET_SIZE ∧ ∀ d ∈ page, d.authorName ≠ none := by
  have hle := List.length_filterMap_le bookOfDoc page
  have hall : (page.filterMap bookOfDoc).length = page.length ↔
      ∀ d ∈ page, d.authorName ≠ none := by
    rw [List.length_filterMap_eq_countP, List.countP_eq_length]
    simp [bookOfDoc, Option.isSome_iff_ne_none]
  rw [← hall]
  constructor
  · intro hfull
    exact ⟨by omega, by omega⟩
  · rintro ⟨hlen, heq⟩
    omega

theorem authorlessLast_full (hall : ∀ d ∈ docs.take BUCKET_SIZE, d.authorName ≠ none) :
    AuthorlessLast docs ↔ AuthorlessLast (docs.drop BUCKET_SIZE) := by
  have hfirst : ∀ i d, docs[i]? = some d → i < BUCKET_SIZE → d.authorName ≠ none :=
    fun i d hd hi => hall d (List.mem_of_getElem? (by rw [List.getElem?_take_of_lt hi]; exact hd))
  unfold AuthorlessLast
  constructor
  · intro h i j d e hd he hnd hne
    rw [List.getElem?_drop] at hd he
    have := h _ _ d e hd he hnd hne
    unfold BUCKET_SIZE at this ⊢
    omega
  · intro h i j d e hd he hnd hne
    by_cases hi : i < BUCKET_SIZE
    · exact absurd hnd (hfirst i d hd hi)
    by_cases hj : j < BUCKET_SIZE
    · unfold BUCKET_SIZE at *
      omega
    have := h (i - BUCKET_SIZE) (j - BUCKET_SIZE) d e
      (by rw [List.getElem?_drop, Nat.add_sub_cancel' (by omega)]; exact hd)
      (by rw [List.getElem?_drop, Nat.add_sub_cancel' (by omega)]; exact he) hnd hne
    unfold BUCKET_SIZE at *
    omega

theorem authorlessLast_short (hshort : ((docs.take BUCKET_SIZE).filterMap bookOfDoc).length <
    BUCKET_SIZE) : AuthorlessLast docs ↔ catalogueBooks (docs.drop BUCKET_SIZE) = [] := by
  rw [catalogueBooks_eq_nil]
  by_cases hall : ∀ d ∈ docs.take BUCKET_SIZE, d.authorName ≠ none
  · -- A page without authorless docs is short only where the catalogue ends.
    have hlen : docs.length < BUCKET_SIZE := by
      by_contra hlen
      have htake : (docs.take BUCKET_SIZE).length = BUCKET_SIZE :=
        List.length_take_of_le (by omega)
      exact (page_full_iff _ (by omega)).mpr ⟨htake, hall⟩ hshort
    rw [List.drop_of_length_le (by omega)]
    rw [List.take_of_length_le (by omega)] at hall
    refine iff_of_true (fun i j d e hd _ hnd _ => ?_) (by simp)
    exact absurd hnd (hall d (List.mem_of_getElem? hd))
  · -- An authorless doc `i` of the page allows no authors in the pages behind it.
    obtain ⟨d, hd, hnd⟩ : ∃ d ∈ docs.take BUCKET_SIZE, d.authorName = none := by
      simpa using hall
    obtain ⟨i, hi⟩ := List.mem_iff_getElem?.mp hd
    obtain ⟨hi, hdi⟩ : i < BUCKET_SIZE ∧ docs[i]? = some d := by
      rw [List.getElem?_take] at hi
      split at hi
      · exact ⟨by assumption, hi⟩
      · cases hi
    constructor
    · intro h e he
      by_contra hne
      obtain ⟨j, hj⟩ := List.mem_iff_getElem?.mp he
      rw [List.getElem?_drop] at hj
      have := h i _ d e hdi hj hnd hne
      unfold BUCKET_SIZE at *
      omega
    · intro h i' j d' e hd' he _ hne
      have hj : j < BUCKET_SIZE := by
        by_contra hj
        refine hne (h e (List.mem_of_getElem? (i := j - BUCKET_SIZE) ?_))
        rw [List.getElem?_drop, Nat.add_sub_cancel' (by omega)]
        exact he
      unfold BUCKET_SIZE at *
      omega

/-- The loop from one page on: it returns, with all the books there are from there on exactly when
no doc with authors comes in a page after a doc without. -/
theorem searchPages_from {endpoint : SearchParams → OpenLibrarySearchStruct} {query : String}
    (h : Serves endpoint query docs) {fuel : Nat} (offset : Nat) (books : List CreateBook)
    (hfuel : (docs.drop offset).length / BUCKET_SIZE < fuel) :
    ∃ found, searchPages (m := Id) (search (m := Id) endpoint) query fuel offset books =
        some (books ++ found) ∧
      (found = catalogueBooks (docs.drop offset) ↔ AuthorlessLast (docs.drop offset)) := by
  induction fuel generalizing offset books with
  | zero => exact absurd hfuel (Nat.not_lt_zero _)
  | succ fuel ih =>
    have hpage : (search (m := Id) endpoint query BUCKET_SIZE offset : OpenLibrarySearchResult).books =
        ((docs.drop offset).take BUCKET_SIZE).filterMap bookOfDoc := by
      rw [← h BUCKET_SIZE offset]; rfl
    have hsplit : catalogueBooks (docs.drop offset) =
        catalogueBooks ((docs.drop offset).take BUCKET_SIZE) ++
          catalogueBooks ((docs.drop offset).drop BUCKET_SIZE) := by
      rw [← catalogueBooks_append, List.take_append_drop]
    rw [searchPages]
    simp only [bind, pure]
    rw [hpage, map_createBookOf]
    by_cases hshort : (((docs.drop offset).take BUCKET_SIZE).filterMap bookOfDoc).length < BUCKET_SIZE
    · rw [if_pos hshort]
      refine ⟨_, rfl, ?_⟩
      rw [authorlessLast_short hshort, hsplit, eq_comm, List.append_right_eq_self]
    · rw [if_neg hshort]
      obtain ⟨hlen, hall⟩ := (page_full_iff _ (List.length_take_le _ _)).mp hshort
      have hnext : (docs.drop (offset + BUCKET_SIZE)).length / BUCKET_SIZE < fuel := by
        rw [List.length_take] at hlen
        rw [← List.drop_drop, List.length_drop]
        unfold BUCKET_SIZE at *
        omega
      obtain ⟨found, hrun, hiff⟩ := ih _ (books ++
        catalogueBooks ((docs.drop offset).take BUCKET_SIZE)) hnext
      refine ⟨_, by rw [hrun, List.append_assoc], ?_⟩
      rw [authorlessLast_full hall, List.drop_drop, ← hiff, hsplit, List.drop_drop]
      exact ⟨List.append_cancel_left, fun h => h ▸ rfl⟩

/-- **An upload finds every book of the catalogue**, once and in order, exactly when no doc with
authors lies in a later page than a doc without. -/
theorem getAllBooksByQuery_complete_iff {endpoint : SearchParams → OpenLibrarySearchStruct}
    {query : String} (h : Serves endpoint query docs) (fuel : Nat)
    (hfuel : docs.length / BUCKET_SIZE < fuel) :
    getAllBooksByQuery (m := Id) (search (m := Id) endpoint) fuel query =
      some (catalogueBooks docs) ↔ AuthorlessLast docs := by
  obtain ⟨found, hrun, hiff⟩ := searchPages_from h 0 [] hfuel
  rw [List.drop_zero] at hiff
  rw [getAllBooksByQuery, hrun, List.nil_append, Option.some.injEq, hiff]

def serve (docs : List OpenLibraryDocStruct) (p : SearchParams) : OpenLibrarySearchStruct :=
  { numFound := docs.length, start := p.offset, offset := p.offset
    docs := (docs.drop p.offset).take p.limit }

def authored (title : String) : OpenLibraryDocStruct :=
  { title, key := title, authorName := some ["Homer"] }

def authorless : OpenLibraryDocStruct := { title := "Beowulf", key := "b", authorName := none }

/-- Two full pages and a short one, with the doc without authors at the end. -/
def goodCatalogue : List OpenLibraryDocStruct :=
  List.replicate 203 (authored "Iliad") ++ [authorless]

theorem goodCatalogue_complete :
    getAllBooksByQuery (m := Id) (search (m := Id) (serve goodCatalogue)) 3 "homer" =
      some (catalogueBooks goodCatalogue) := by
  have hlen : goodCatalogue.length = 204 := rfl
  refine (getAllBooksByQuery_complete_iff (fun _ _ => rfl) 3 (by rw [hlen]; decide)).mpr ?_
  intro i j d e hd he hnd _
  have hi : ¬ i < 203 := by
    intro hi
    rw [goodCatalogue, List.getElem?_append_left (by rwa [List.length_replicate]),
      List.getElem?_replicate_of_lt hi] at hd
    cases hd; cases hnd
  have hj := (List.getElem?_eq_some_iff.mp he).1
  unfold BUCKET_SIZE
  omega

/-- A first page with one doc without authors, and one book behind it. -/
def shortPageCatalogue : List OpenLibraryDocStruct :=
  authorless :: List.replicate 99 (authored "Iliad") ++ [authored "Odyssey"]

/-- The loop takes the filtered first page for the last one, and loses the book behind it. -/
theorem shortPage_loses_book :
    Serves (serve shortPageCatalogue) "homer" shortPageCatalogue ∧
      ∀ fuel, getAllBooksByQuery (m := Id) (search (m := Id) (serve shortPageCatalogue)) fuel "homer" ≠
        some (catalogueBooks shortPageCatalogue) := by
  refine ⟨fun _ _ => rfl, fun fuel h => ?_⟩
  cases fuel with
  | zero => cases h
  | succ fuel =>
    have hrun : getAllBooksByQuery (m := Id) (search (m := Id) (serve shortPageCatalogue)) (fuel + 1)
        "homer" = some (catalogueBooks (shortPageCatalogue.take BUCKET_SIZE)) := rfl
    rw [hrun, Option.some.injEq] at h
    exact absurd (congrArg List.length h) (by decide)

end LibraryService.Domain
