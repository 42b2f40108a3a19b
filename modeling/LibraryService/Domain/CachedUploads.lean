import LibraryService.General.Memo
import LibraryService.Domain.UploadFaults
import LibraryService.OpenLibrary.Keys

/-!
# Uploads through the cache

`UploadBooksCommand` over `CachedOpenLibraryClient`, one upload at a time, where the upstream, the
inserts and the session may fail.
-/

open Transition Effect Relational Memo LibraryService.Python LibraryService.Database
open LibraryService.OpenLibrary

namespace LibraryService.Domain

open UploadBooksCommand

variable {υ σ : Type} (printable : Char → Bool)

/-- The key of a page, whose arguments `_get_all_books_by_query` gives in order. -/
def pageKey (args : SearchArgs) : String := cacheKey printable (inOrder args)

theorem pageKey_injective : Function.Injective (pageKey printable) := by
  intro args args' h
  obtain ⟨-, hkwargs⟩ := defaultKey_injective h
  exact ((kwargs_eq_iff (inOrder args) (inOrder args')).mp hkwargs).1

abbrev SearchCache := Store String OpenLibrarySearchResult

/-- `CachedOpenLibraryClient.search`, for one caller at a time and while the cache keeps what it is
given. -/
def CachedOpenLibraryClient.search (client : SearchArgs → Eff υ Exc OpenLibrarySearchResult)
    (query : String) (limit offset : Nat) : Eff (υ × SearchCache) Exc OpenLibrarySearchResult :=
  memo (pageKey printable ⟨query, limit, offset⟩) (client ⟨query, limit, offset⟩)

/-- One execution of the command, with what it meets in the database. -/
structure UploadAttempt where
  queries : List String
  fuel : Nat
  inserts : Nat → Await
  truthy : ∀ k e, inserts k = .raises e → e.truth = true
  stmts : Nat → Stmt
  awaits : Awaits

def UploadAttempt.calls (a : UploadAttempt)
    (search : String → Nat → Nat → Eff υ Exc OpenLibrarySearchResult) : UploadCalls υ :=
  ⟨search, a.inserts, a.stmts, a.awaits⟩

/-- Nothing fails in the database. -/
structure UploadAttempt.Works (a : UploadAttempt) : Prop where
  inserts : ∀ k, a.inserts k = .returns
  awaits : a.awaits = .allReturn

structure UploadWorld (υ : Type) where
  upstream : υ
  /-- The searches that the upstream has answered. -/
  answered : List SearchArgs
  cache : SearchCache
  books : BookTable

def upload (client : SearchArgs → Eff υ Exc OpenLibrarySearchResult) (s : UploadWorld υ)
    (a : UploadAttempt) : Except Exc (Option Unit) × UploadWorld υ :=
  let search := CachedOpenLibraryClient.search printable (noting client)
  let out := ((a.calls search).execute a.fuel a.queries).runOn
    (((s.upstream, s.answered), s.cache), World.fresh s.books)
  (out.1, ⟨out.2.1.1.1, out.2.1.1.2, out.2.1.2, out.2.2.committed⟩)

/-! ## Page loops -/

section Loops

variable {search : String → Nat → Nat → Eff σ Exc OpenLibrarySearchResult} {query : String}
  {fuel : Nat} {queries : List String} {s t : σ} {found : List CreateBook}

section Closed

variable {P : (α : Type) → Eff σ Exc α → Prop} (hpure : ∀ α (a : α), P α (pure a))
  (hbind : ∀ α β (x : Eff σ Exc α) (f : α → Eff σ Exc β), P α x → (∀ a, P β (f a)) → P β (x >>= f))
  (hsearch : ∀ q l o, P _ (search q l o))

include hpure hbind hsearch

theorem searchPages_closed (query : String) (fuel offset : Nat) (books : List CreateBook) :
    P _ (searchPages search query fuel offset books) := by
  induction fuel generalizing offset books with
  | zero => exact hpure _ _
  | succ fuel ih =>
    refine hbind _ _ _ _ (hsearch _ _ _) fun result => ?_
    dsimp only
    split
    · exact hpure _ _
    · exact ih _ _

theorem fetchBooks_closed (fuel : Nat) (queries : List String) (books : List CreateBook) :
    P _ (fetchBooks search fuel queries books) := by
  induction queries generalizing books with
  | nil => exact hpure _ _
  | cons q queries ih =>
    refine hbind _ _ _ _ (searchPages_closed hpure hbind hsearch q fuel 0 []) fun result => ?_
    split
    · exact hpure _ _
    · exact ih _

end Closed

theorem searchPages_more {fuel' offset : Nat} {books : List CreateBook}
    (h : (searchPages search query fuel offset books).runOn s = (.ok (some found), t))
    (hle : fuel ≤ fuel') :
    (searchPages search query fuel' offset books).runOn s = (.ok (some found), t) := by
  induction fuel generalizing fuel' offset books s with
  | zero => cases h
  | succ fuel ih =>
    obtain ⟨fuel', rfl⟩ : ∃ n, fuel' = n + 1 := ⟨fuel' - 1, by omega⟩
    rw [searchPages] at h ⊢
    obtain ⟨result, m, hresult, h⟩ := bind_eq_ok h
    rw [runOn_bind_ok hresult]
    dsimp only at h ⊢
    split at h
    · rwa [if_pos (by assumption)]
    · rw [if_neg (by assumption)]
      exact ih h (by omega)

end Loops

/-! ## Fetching again -/

section Again

variable {search : String → Nat → Nat → Eff (υ × SearchCache) Exc OpenLibrarySearchResult}
  {fuel fuel' : Nat} {queries queries' : List String} {s t w : υ × SearchCache}
  {books all : List CreateBook}

theorem getAllBooksByQuery_replays (hsearch : ∀ q l o, Replays (search q l o)) (fuel : Nat)
    (query : String) : Replays (getAllBooksByQuery search fuel query) :=
  searchPages_closed (P := fun _ x => Replays x) (fun _ => replays_pure) (fun _ _ _ _ => Replays.bind)
    hsearch query fuel 0 []

theorem fetchBooks_replays (hsearch : ∀ q l o, Replays (search q l o)) (fuel : Nat)
    (queries : List String) (books : List CreateBook) : Replays (fetchBooks search fuel queries books) :=
  fetchBooks_closed (P := fun _ x => Replays x) (fun _ => replays_pure) (fun _ _ _ _ => Replays.bind)
    hsearch fuel queries books

/-- What was fetched for a query, and is fetched again without asking. -/
def FetchedAgain (search : String → Nat → Nat → Eff (υ × SearchCache) Exc OpenLibrarySearchResult)
    (fuel : Nat) (c : SearchCache) (all : List CreateBook) (query : String) : Prop :=
  ∃ found, (∀ b ∈ found, b ∈ all) ∧ ∀ fuel' w, fuel ≤ fuel' → Extends w.2 c →
    (getAllBooksByQuery search fuel' query).runOn w = (.ok (some found), w)

theorem fetched_again (hsearch : ∀ q l o, Replays (search q l o))
    (h : (fetchBooks search fuel queries books).runOn s = (.ok (some all), t)) :
    (∀ b ∈ books, b ∈ all) ∧ ∀ q ∈ queries, FetchedAgain search fuel t.2 all q := by
  induction queries generalizing books s with
  | nil =>
    cases h
    exact ⟨fun _ hb => hb, fun _ hq => absurd hq List.not_mem_nil⟩
  | cons q queries ih =>
    rw [fetchBooks] at h
    obtain ⟨page, m, hpage, h⟩ := bind_eq_ok h
    cases page with
    | none => cases h
    | some found =>
      obtain ⟨hall, heach⟩ := ih h
      obtain ⟨-, hreplay⟩ := getAllBooksByQuery_replays hsearch fuel q s _ m hpage
      have hgrows := (fetchBooks_replays hsearch fuel queries (books ++ found) m _ t h).1
      refine ⟨fun b hb => hall b (by simp [hb]), List.forall_mem_cons.mpr ⟨?_, heach⟩⟩
      refine ⟨found, fun b hb => hall b (by simp [hb]), fun fuel' w hle hw => ?_⟩
      exact searchPages_more (hreplay w (hw.trans hgrows)) hle

theorem refetch (h : ∀ q ∈ queries', FetchedAgain search fuel t.2 all q) (hle : fuel ≤ fuel')
    (hw : Extends w.2 t.2) (books' : List CreateBook) (hbooks : ∀ b ∈ books', b ∈ all) :
    ∃ again, (fetchBooks search fuel' queries' books').runOn w = (.ok (some again), w) ∧
      ∀ b ∈ again, b ∈ all := by
  induction queries' generalizing books' with
  | nil => exact ⟨books', rfl, hbooks⟩
  | cons q queries ih =>
    obtain ⟨⟨found, hfound, hrun⟩, hrest⟩ := List.forall_mem_cons.mp h
    have hmore : ∀ b ∈ books' ++ found, b ∈ all := fun b hb =>
      (List.mem_append.mp hb).elim (hbooks b) (hfound b)
    obtain ⟨again, hagain, hall⟩ := ih hrest _ hmore
    refine ⟨again, ?_, hall⟩
    rw [fetchBooks, runOn_bind_ok (hrun fuel' w hle hw)]
    exact hagain

end Again

/-! ## Saving again -/

section Save

variable {t t' : BookTable} {st : Stmt} {stmts : Nat → Stmt} {books : List CreateBook} {k : Nat}
  {buckets : List (List CreateBook)}

/-- The columns take the book. -/
def CreateBook.Fits (b : CreateBook) : Prop :=
  (newBook (.counting 0) 0 (cut 255 b.title) b.year (cut 255 b.author)).fits = true

theorem bulkRows_fits_iff :
    (BookStorage.bulkRows st books).all BookRow.fits = true ↔ ∀ b ∈ books, b.Fits := by
  rw [List.all_eq_true]
  constructor
  · intro h b hb
    obtain ⟨k, hk, rfl⟩ := List.mem_iff_getElem.mp hb
    have hrow : newBook st k (cut 255 books[k].title) books[k].year (cut 255 books[k].author) ∈
        BookStorage.bulkRows st books := mem_bulkRows.mpr ⟨k, hk, rfl⟩
    have hfits := h _ hrow
    exact hfits
  · intro h r hr
    obtain ⟨k, hk, rfl⟩ := mem_bulkRows.mp hr
    exact h _ (List.getElem_mem hk)

theorem saveBuckets_fit (h : (saveBuckets stmts k buckets).runOn t = (.ok (), t')) :
    ∀ bucket ∈ buckets, ∀ b ∈ bucket, b.Fits := by
  induction buckets generalizing t k with
  | nil => exact fun _ hb => absurd hb List.not_mem_nil
  | cons bucket buckets ih =>
    rw [saveBuckets] at h
    obtain ⟨_, t₁, hsave, hrest⟩ := bind_eq_ok h
    obtain ⟨-, hfits, -⟩ := insertOnConflictDoNothing_eq_ok hsave
    exact List.forall_mem_cons.mpr ⟨bulkRows_fits_iff.mp hfits, ih hrest⟩

theorem insertAll_present {rows : List BookRow} (hlive : ∀ r ∈ rows, r.deletedAt = none)
    (hpresent : ∀ r ∈ rows, HasTriple t r.triple) : insertAll booksTriple rows t = .ok t := by
  induction rows with
  | nil => rfl
  | cons r rows ih =>
    obtain ⟨hr, hlive⟩ := List.forall_mem_cons.mp hlive
    obtain ⟨⟨x, hx, hd, htr⟩, hpresent⟩ := List.forall_mem_cons.mp hpresent
    have hclash : (t.rows.any fun x => booksTriple.clash x r) = true :=
      List.any_eq_true.mpr ⟨x, hx, booksTriple_clash.mpr ⟨hd, hr, htr⟩⟩
    have hinsert : t.insertOnConflictDoNothing booksTriple r = .ok t := if_pos hclash
    simp only [insertAll, hinsert]
    exact ih hlive hpresent

theorem saveBuckets_present (hne : ∀ bucket ∈ buckets, bucket ≠ [])
    (hfits : ∀ bucket ∈ buckets, ∀ b ∈ bucket, b.Fits)
    (hlive : ∀ bucket ∈ buckets, ∀ b ∈ bucket, HasTriple t b.triple) :
    (saveBuckets stmts k buckets).runOn t = (.ok (), t) := by
  induction buckets generalizing k with
  | nil => rfl
  | cons bucket buckets ih =>
    obtain ⟨hne₁, hne⟩ := List.forall_mem_cons.mp hne
    obtain ⟨hfits₁, hfits⟩ := List.forall_mem_cons.mp hfits
    obtain ⟨hlive₁, hlive⟩ := List.forall_mem_cons.mp hlive
    have hsave : (BookService.saveBulkBooks (stmts k) bucket).runOn t = (.ok (), t) := by
      rw [BookService.saveBulkBooks, BookStorage.saveBulkBooks, bulkRows_fits_iff.mpr hfits₁]
      refine insertOnConflictDoNothing_ok (fun hnil => hne₁ ?_)
        (insertAll_present (fun _ => bulkRows_live) fun r hr => ?_)
      · simpa [BookStorage.bulkRows] using hnil
      · obtain ⟨j, hj, rfl⟩ := mem_bulkRows.mp hr
        exact hlive₁ _ (List.getElem_mem hj)
    rw [saveBuckets, runOn_bind_ok hsave]
    exact ih hne hfits hlive

end Save

/-! ## Uploads -/

variable {printable} {client : SearchArgs → Eff υ Exc OpenLibrarySearchResult} {s : UploadWorld υ}
  {a again : UploadAttempt}

/-- The search that an upload is given. -/
abbrev cachedSearch (printable : Char → Bool) (client : SearchArgs → Eff υ Exc OpenLibrarySearchResult) :
    String → Nat → Nat → Eff ((υ × List SearchArgs) × SearchCache) Exc OpenLibrarySearchResult :=
  CachedOpenLibraryClient.search printable (noting client)

theorem cachedSearch_replays (q : String) (l o : Nat) : Replays (cachedSearch printable client q l o) :=
  replays_memo _ _

theorem memo_grows {κ V : Type} [DecidableEq κ] (first : Store κ V) (key : κ) (ask : Eff υ Exc V) :
    Keeps (fun s => Extends s.2 first) (memo key ask) := by
  rintro ⟨u, c⟩ h
  cases hc : c key with
  | some v => rw [memo_hit hc]; exact h
  | none =>
    rw [memo_miss hc]
    cases ask.runOn u with
    | mk r u' =>
      cases r with
      | error e => exact h
      | ok v => exact (extends_update hc).trans h

theorem upload_keeps {I : (υ × List SearchArgs) × SearchCache → Prop}
    (hsearch : ∀ q l o, Keeps I (cachedSearch printable client q l o))
    (h : I ((s.upstream, s.answered), s.cache)) (a : UploadAttempt) :
    I (((upload printable client s a).2.upstream, (upload printable client s a).2.answered),
      (upload printable client s a).2.cache) := by
  have hfetch : Keeps I (fetchBooks (cachedSearch printable client) a.fuel a.queries []) :=
    fetchBooks_closed (P := fun _ x => Keeps I x) (fun _ => keeps_pure) (fun _ _ _ _ => Keeps.bind)
      hsearch a.fuel a.queries []
  have hafter := hfetch _ h
  rw [upload]
  cases hf : (fetchBooks (cachedSearch printable client) a.fuel a.queries []).runOn
      ((s.upstream, s.answered), s.cache) with
  | mk r u' =>
    rw [hf] at hafter
    rcases r with e | _ | books
    · rw [execute_unfetched hf]; exact hafter
    · rw [execute_fetching hf]; exact hafter
    · rw [execute_fetched hf]; exact hafter

/-- An upload that ends before it has all books leaves the table; the books of any other are those
that were fetched. -/
theorem upload_cases (printable : Char → Bool)
    (client : SearchArgs → Eff υ Exc OpenLibrarySearchResult) (s : UploadWorld υ)
    (a : UploadAttempt) :
    (upload printable client s a).1 ≠ .ok (some ()) ∧
        (upload printable client s a).2.books = s.books ∨
      ∃ (pages : List OpenLibraryBook) (u' : (υ × List SearchArgs) × SearchCache),
        (fetchBooks (cachedSearch printable client) a.fuel a.queries []).runOn
          ((s.upstream, s.answered), s.cache) = (.ok (some (pages.map createBookOf)), u') ∧
        let out := ((a.calls (cachedSearch printable client)).save (pages.map createBookOf)).runOn
          (World.fresh s.books)
        upload printable client s a = (out.1.map some, ⟨u'.1.1, u'.1.2, u'.2, out.2.committed⟩) := by
  rw [upload]
  cases hf : (fetchBooks (cachedSearch printable client) a.fuel a.queries []).runOn
      ((s.upstream, s.answered), s.cache) with
  | mk r u' =>
    rcases r with e | found
    · rw [execute_unfetched hf]
      exact .inl ⟨nofun, rfl⟩
    · rcases fetchBooks_cases hf with ⟨rfl, -⟩ | ⟨pages, rfl, -⟩
      · rw [execute_fetching hf]
        exact .inl ⟨nofun, rfl⟩
      · rw [execute_fetched hf]
        exact .inr ⟨pages, u', rfl, rfl⟩

theorem upload_live (s : UploadWorld υ) (a : UploadAttempt) :
    liveTriples s.books ⊆ liveTriples (upload printable client s a).2.books := by
  rcases upload_cases printable client s a with
    ⟨-, heq⟩ | ⟨pages, u', -, hout⟩
  · rw [heq]
  · have hsave := save_cases (c := a.calls (cachedSearch printable client)) a.truthy pages
      (World.fresh s.books)
    rw [hout]
    rcases hsave with ⟨-, hup⟩ | ⟨e, -, hsame | ⟨-, hup⟩⟩
    · rw [hup.adds.live]
      exact Set.subset_union_left
    · rw [hsame]
      exact Set.Subset.refl _
    · rw [hup.adds.live]
      exact Set.subset_union_left

theorem upload_returned (h : (upload printable client s a).1 = .ok (some ())) :
    ∃ all, (fetchBooks (cachedSearch printable client) a.fuel a.queries []).runOn
        ((s.upstream, s.answered), s.cache) = (.ok (some all),
          ((upload printable client s a).2.upstream, (upload printable client s a).2.answered),
          (upload printable client s a).2.cache) ∧
      (∀ b ∈ all, b.Fits) ∧ ∀ b ∈ all, b.triple ∈ liveTriples (upload printable client s a).2.books := by
  rcases upload_cases printable client s a with
    ⟨hne, -⟩ | ⟨pages, u', hf, hout⟩
  · exact absurd h hne
  rw [hout] at h ⊢
  have hsaved : ∃ x, (((a.calls (cachedSearch printable client)).save
      (pages.map createBookOf)).runOn (World.fresh s.books)).1 = .ok x := by
    cases hres : (((a.calls (cachedSearch printable client)).save
        (pages.map createBookOf)).runOn (World.fresh s.books)).1 with
    | ok x => exact ⟨x, rfl⟩
    | error e => rw [hres] at h; cases h
  refine ⟨pages.map createBookOf, hf, fun b hb => ?_, fun b hb => ?_⟩
  · obtain ⟨-, ⟨db, _, hrun⟩, -⟩ := (asyncWith_returns_iff _ _ _).mp hsaved
    have hsize : 0 < BUCKET_SIZE := by decide
    obtain ⟨bucket, hbucket, hmem⟩ := (mem_bookBuckets hsize b).mpr hb
    exact saveBuckets_fit (saveBuckets_ok hrun) bucket hbucket b hmem
  · rcases save_cases (c := a.calls (cachedSearch printable client)) a.truthy pages
      (World.fresh s.books) with ⟨-, hup⟩ | ⟨e, herr, -⟩
    · rw [hup.adds.live]
      exact .inr ⟨b, hb, rfl⟩
    · obtain ⟨x, hx⟩ := hsaved
      rw [herr] at hx
      cases hx

/-- What was uploaded is uploaded again from the cache, once the cache and the table have all that
they had after it, and is there already. -/
theorem upload_again (h : (upload printable client s a).1 = .ok (some ())) {w : UploadWorld υ}
    (hcache : Extends w.cache (upload printable client s a).2.cache)
    (hbooks : liveTriples (upload printable client s a).2.books ⊆ liveTriples w.books)
    (hqueries : again.queries ⊆ a.queries) (hfuel : a.fuel ≤ again.fuel) (hworks : again.Works) :
    upload printable client w again = (.ok (some ()), w) := by
  obtain ⟨all, hfetch, hfits, hlive⟩ := upload_returned h
  have hsize : 0 < BUCKET_SIZE := by decide
  obtain ⟨-, hagain⟩ := fetched_again (fun _ _ _ => cachedSearch_replays _ _ _) hfetch
  obtain ⟨found, hfound, hall⟩ := refetch (w := ((w.upstream, w.answered), w.cache))
    (fun q hq => hagain q (hqueries hq)) hfuel hcache [] (fun _ hb => absurd hb List.not_mem_nil)
  have hin : ∀ bucket ∈ bookBuckets BUCKET_SIZE found, ∀ b ∈ bucket, b ∈ all :=
    fun bucket hbucket b hb => hall b ((mem_bookBuckets hsize b).mp ⟨bucket, hbucket, hb⟩)
  have hsaved : (saveBuckets again.stmts 0 (bookBuckets BUCKET_SIZE found)).runOn w.books =
      (.ok (), w.books) :=
    saveBuckets_present (fun _ => bookBuckets_ne_nil hsize)
      (fun bucket hbucket b hb => hfits b (hin bucket hbucket b hb))
      (fun bucket hbucket b hb => hbooks (hlive b (hin bucket hbucket b hb)))
  rw [upload, execute_fetched hfound]
  have hsave : ((again.calls (cachedSearch printable client)).save found).runOn
      (World.fresh w.books) = (.ok (), (World.fresh w.books).after w.books) := by
    rw [UploadCalls.save]
    unfold UploadAttempt.calls
    rw [hworks.awaits, saveBuckets_returning hworks.inserts]
    exact asyncWith_ok rfl hsaved
  rw [hsave]
  rfl

/-- No page is asked for once it was answered, and an upload that returned costs nothing more:
whatever was tried since, it returns again at once, and changes nothing. -/
theorem uploads_through_cache (printable : Char → Bool)
    (client : SearchArgs → Eff υ Exc OpenLibrarySearchResult) (u : υ) (cache : SearchCache)
    (books : BookTable) (attempts : List UploadAttempt) :
    let run := answers (upload printable client) ⟨u, [], cache, books⟩
    let last := (run attempts).2
    last.answered.Nodup ∧
      (∀ args ∈ last.answered, cache (pageKey printable args) = none) ∧
      ∀ before a after, attempts = before ++ a :: after →
        (upload printable client (run before).2 a).1 = .ok (some ()) →
        ∀ again : UploadAttempt, again.queries ⊆ a.queries → a.fuel ≤ again.fuel → again.Works →
          upload printable client last again = (.ok (some ()), last) := by
  intro run last
  have hasked : AskedOnce (pageKey printable) cache last.answered last.cache := by
    refine answers_keep (I := fun s : UploadWorld υ =>
      AskedOnce (pageKey printable) cache s.answered s.cache)
      (fun s a hs => ?_) (askedOnce_nil _ _) attempts
    exact upload_keeps (I := fun s => AskedOnce (pageKey printable) cache s.1.2 s.2)
      (fun q l o => memo_askedOnce (pageKey_injective printable) cache client ⟨q, l, o⟩) hs a
  refine ⟨hasked.nodup, hasked.missing, ?_⟩
  rintro before a after rfl hreturned again hqueries hfuel hworks
  have hgrown : Extends last.cache (upload printable client (run before).2 a).2.cache ∧
      liveTriples (upload printable client (run before).2 a).2.books ⊆ liveTriples last.books := by
    have hlast : last = (answers (upload printable client)
        (upload printable client (run before).2 a).2 after).2 := by
      simp only [last, run, answers_append]
      rfl
    rw [hlast]
    refine answers_keep (I := fun s : UploadWorld υ =>
      Extends s.cache (upload printable client (run before).2 a).2.cache ∧
        liveTriples (upload printable client (run before).2 a).2.books ⊆ liveTriples s.books)
      (fun s a' hs => ⟨?_, hs.2.trans (upload_live s a')⟩) ⟨.refl _, fun _ h => h⟩ after
    exact upload_keeps (I := fun s => Extends s.2 (upload printable client (run before).2 a).2.cache)
      (fun _ _ _ => memo_grows _ _ _) hs.1 a'
  exact upload_again hreturned hgrown.1 hgrown.2 hqueries hfuel hworks

/-- An upstream that fails when it is asked for the first time. -/
def lateUpstream (args : SearchArgs) : Eff Nat Exc OpenLibrarySearchResult := do
  let asked ← get
  set (asked + 1)
  if asked = 0 then throw (.other .exception "OpenLibraryException" true)
  else pure { books := [⟨args.query, args.query, ["Homer"]⟩], total := 1, start := 0, offset := 0 }

def uploadIliad : UploadAttempt where
  queries := ["Iliad"]
  fuel := 1
  inserts _ := .returns
  truthy := nofun
  stmts := .counting
  awaits := .allReturn

theorem uploads_through_cache_late :
    let upload := upload (fun _ => true) lateUpstream
    let run := answers upload ⟨0, [], fun _ => none, Table.empty⟩ [uploadIliad, uploadIliad]
    run.1 = [.error (.other .exception "OpenLibraryException" true), .ok (some ())] ∧
      upload run.2 uploadIliad = (.ok (some ()), run.2) := by
  have hagain := (uploads_through_cache (fun _ => true) lateUpstream 0 (fun _ => none) Table.empty
    [uploadIliad, uploadIliad]).2.2 [uploadIliad] uploadIliad [] rfl (by rfl) uploadIliad
    (fun _ h => h) le_rfl ⟨fun _ => rfl, rfl⟩
  exact ⟨by rfl, hagain⟩

end LibraryService.Domain
