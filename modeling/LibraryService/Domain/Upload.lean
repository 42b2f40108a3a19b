import Mathlib.Data.Set.Basic
import Mathlib.Tactic.Convert
import LibraryService.Domain.BookCommands
import LibraryService.Domain.BookMap
import LibraryService.Domain.UploadPages

/-!
# Bulk upload

`UploadBooksCommand.execute`, and what any number of uploads leave in the books table.
-/

open Transition Effect Relational LibraryService.Python LibraryService.Database
open LibraryService.OpenLibrary

namespace LibraryService.Domain

namespace UploadBooksCommand

/-- The books of all queries; `none` where a page loop would go on. -/
def fetchBooks {m : Type → Type} [Monad m]
    (search : String → Nat → Nat → m OpenLibrarySearchResult) (fuel : Nat) :
    List String → List CreateBook → m (Option (List CreateBook))
  | [], books => pure (some books)
  | query :: queries, books => do
    match ← getAllBooksByQuery search fuel query with
    | none => pure none
    | some found => fetchBooks search fuel queries (books ++ found)

/-- `[books[i : i + size] for i in range(0, len(books), size)]`. -/
def bookBuckets (size : Nat) (books : List CreateBook) : List (List CreateBook) :=
  (List.range' 0 ((books.length + size - 1) / size) size).map fun i => (books.drop i).take size

/-- One bulk save for each bucket, the `k`-th in its own statement. -/
def saveBuckets (stmts : Nat → Stmt) : Nat → List (List CreateBook) → Eff BookTable Exc Unit
  | _, [] => pure ()
  | k, bucket :: buckets => do
    BookService.saveBulkBooks (stmts k) bucket
    saveBuckets stmts (k + 1) buckets

def execute (a : Awaits) (stmts : Nat → Stmt)
    (search : String → Nat → Nat → Eff (World BookTable) Exc OpenLibrarySearchResult) (fuel : Nat)
    (queries : List String) : Eff (World BookTable) Exc (Option Unit) := do
  match ← fetchBooks search fuel queries [] with
  | none => pure none
  | some books =>
    asyncWith a (saveBuckets stmts 0 (bookBuckets BUCKET_SIZE books))
    pure (some ())

end UploadBooksCommand

open UploadBooksCommand

/-! ## Buckets -/

variable {books : List CreateBook} {size : Nat}

theorem bucket_start {n k : Nat} (hsize : 0 < size) :
    k < (n + size - 1) / size ↔ size * k < n := by
  rw [Nat.lt_div_iff_mul_lt hsize, Nat.mul_comm]
  omega

theorem bookBuckets_ne_nil (hsize : 0 < size) {bucket : List CreateBook}
    (h : bucket ∈ bookBuckets size books) : bucket ≠ [] := by
  obtain ⟨i, hi, rfl⟩ := List.mem_map.mp h
  obtain ⟨k, hk, rfl⟩ := List.mem_range'.mp hi
  rw [bucket_start hsize] at hk
  intro hnil
  have hlen := congrArg List.length hnil
  rw [List.length_take, List.length_drop, List.length_nil] at hlen
  omega

theorem mem_bookBuckets (hsize : 0 < size) (b : CreateBook) :
    (∃ bucket ∈ bookBuckets size books, b ∈ bucket) ↔ b ∈ books := by
  constructor
  · rintro ⟨bucket, h, hb⟩
    obtain ⟨i, -, rfl⟩ := List.mem_map.mp h
    exact List.mem_of_mem_drop (List.mem_of_mem_take hb)
  · intro hb
    obtain ⟨j, hj, rfl⟩ := List.mem_iff_getElem.mp hb
    have hdiv := Nat.div_add_mod j size
    have hmod := Nat.mod_lt j hsize
    refine ⟨_, List.mem_map.mpr ⟨size * (j / size), List.mem_range'.mpr ⟨j / size, ?_, by omega⟩,
      rfl⟩, List.mem_iff_getElem.mpr ⟨j % size, ?_, ?_⟩⟩
    · rw [bucket_start hsize]
      omega
    · rw [List.length_take, List.length_drop]
      omega
    · rw [List.getElem_take, List.getElem_drop]
      simp only [hdiv]

/-! ## What a save adds -/

def liveTriples (t : BookTable) : Set Triple := {tr | HasTriple t tr}

/-- The table keeps its rows and gets new ones, so that the live triples become those it had and
`trs`. -/
structure Adds (t t' : BookTable) (trs : Set Triple) : Prop where
  keeps : t.rows <+: t'.rows
  live : liveTriples t' = liveTriples t ∪ trs

variable {t t' t₁ : BookTable} {st : Stmt} {trs trs' : Set Triple} {r : BookRow}

theorem Adds.refl (t : BookTable) : Adds t t ∅ := ⟨List.prefix_refl _, by simp⟩

theorem Adds.trans (h : Adds t t₁ trs) (h' : Adds t₁ t' trs') : Adds t t' (trs ∪ trs') :=
  ⟨h.keeps.trans h'.keeps, by rw [h'.live, h.live, Set.union_assoc]⟩

theorem Adds.of_has (h : HasTriple t r.triple) : Adds t t {r.triple} := by
  refine ⟨List.prefix_refl _, (Set.union_eq_self_of_subset_right ?_).symm⟩
  rintro _ rfl
  exact h

theorem Adds.of_append (hd : r.deletedAt = none) (hrows : t'.rows = t.rows ++ [r]) :
    Adds t t' {r.triple} := by
  refine ⟨hrows ▸ List.prefix_append _ _, Set.ext fun tr => ?_⟩
  simp only [liveTriples, HasTriple, hrows, List.mem_append, List.mem_singleton, Set.mem_ofPred_eq,
    Set.mem_union, Set.mem_singleton_iff]
  constructor
  · rintro ⟨x, hx | rfl, hxd, htr⟩
    · exact .inl ⟨x, hx, hxd, htr⟩
    · exact .inr htr.symm
  · rintro (⟨x, hx, hxd, htr⟩ | rfl)
    · exact ⟨x, .inl hx, hxd, htr⟩
    · exact ⟨r, .inr rfl, hd, rfl⟩

theorem insertIgnoring_adds (hd : r.deletedAt = none)
    (h : t.insertOnConflictDoNothing booksTriple r = .ok t') : Adds t t' {r.triple} := by
  unfold Table.insertOnConflictDoNothing at h
  split at h
  · rename_i hany
    cases h
    obtain ⟨x, hx, hclash⟩ := List.any_eq_true.mp hany
    obtain ⟨hxd, -, htr⟩ := booksTriple_clash.mp hclash
    exact .of_has ⟨x, hx, hxd, htr⟩
  · rcases t.insert_cases r with ⟨ix, -, hins, -⟩ | ⟨t₁, hins, -, hrows⟩
    · rw [hins] at h; cases h
    · rw [hins] at h; cases h
      exact .of_append hd hrows

theorem insertAll_adds {rows : List BookRow} (hd : ∀ r ∈ rows, r.deletedAt = none)
    (h : insertAll booksTriple rows t = .ok t') : Adds t t' {tr | ∃ r ∈ rows, r.triple = tr} := by
  induction rows generalizing t with
  | nil => cases h; simpa using Adds.refl _
  | cons r rows ih =>
    rw [insertAll] at h
    split at h
    · cases h
    · rename_i t₁ hins
      have hadd := (insertIgnoring_adds (hd r (by simp)) hins).trans
        (ih (fun r' hr' => hd r' (by simp [hr'])) h)
      convert hadd using 1
      ext tr
      simp [eq_comm]

/-- The triples that saving these books makes live. -/
def triplesOf (books : List CreateBook) : Set Triple := {tr | ∃ b ∈ books, b.triple = tr}

theorem triplesOf_append (books books' : List CreateBook) :
    triplesOf (books ++ books') = triplesOf books ∪ triplesOf books' := by
  ext tr
  simp [triplesOf, or_and_right, exists_or]

theorem saveBulkBooks_adds (h : (BookService.saveBulkBooks st books).runOn t = (.ok (), t')) :
    Adds t t' (triplesOf books) := by
  obtain ⟨-, -, hins⟩ := insertOnConflictDoNothing_eq_ok h
  have hadd := insertAll_adds (fun _ => bulkRows_live) hins
  convert hadd using 1
  ext tr
  constructor
  · rintro ⟨b, hb, rfl⟩
    obtain ⟨k, hk, rfl⟩ := List.mem_iff_getElem.mp hb
    exact ⟨_, mem_bulkRows.mpr ⟨k, hk, rfl⟩, rfl⟩
  · rintro ⟨r, hr, rfl⟩
    obtain ⟨k, hk, rfl⟩ := mem_bulkRows.mp hr
    exact ⟨_, List.getElem_mem hk, rfl⟩

theorem saveBuckets_adds {stmts : Nat → Stmt} {k : Nat} {buckets : List (List CreateBook)}
    (h : (saveBuckets stmts k buckets).runOn t = (.ok (), t')) :
    Adds t t' (triplesOf buckets.flatten) := by
  induction buckets generalizing t k with
  | nil => cases h; simpa [triplesOf] using Adds.refl _
  | cons bucket buckets ih =>
    rw [saveBuckets] at h
    obtain ⟨_, t₁, hsave, hrest⟩ := bind_eq_ok h
    rw [List.flatten_cons, triplesOf_append]
    exact (saveBulkBooks_adds hsave).trans (ih hrest)

/-! ## Uploads one after another -/

structure Upload where
  queries : List String
  fuel : Nat
  stmts : Nat → Stmt
  search : String → Nat → Nat → Eff (World BookTable) Exc OpenLibrarySearchResult

def Upload.run (t : BookTable) (u : Upload) : Except Exc (Option Unit) × BookTable :=
  request (execute .allReturn u.stmts u.search u.fuel u.queries) t

/-- Each query's page loop ends, with the books that are fixed for it. -/
def Upload.Fetches (u : Upload) (fetched : String → List CreateBook) : Prop :=
  ∀ q ∈ u.queries, ∀ w, (getAllBooksByQuery u.search u.fuel q).runOn w = (.ok (some (fetched q)), w)

theorem fetchBooks_runOn {search : String → Nat → Nat → Eff (World BookTable) Exc OpenLibrarySearchResult}
    {fuel : Nat} {fetched : String → List CreateBook} {queries : List String}
    (h : ∀ q ∈ queries, ∀ w, (getAllBooksByQuery search fuel q).runOn w = (.ok (some (fetched q)), w))
    (books : List CreateBook) (w : World BookTable) :
    (fetchBooks search fuel queries books).runOn w =
      (.ok (some (books ++ queries.flatMap fetched)), w) := by
  induction queries generalizing books with
  | nil => rw [fetchBooks, runOn_pure, List.flatMap_nil, List.append_nil]
  | cons q queries ih =>
    rw [fetchBooks, runOn_bind_ok (h q (by simp) w)]
    simp only []
    rw [ih (fun q' hq' => h q' (by simp [hq'])), List.flatMap_cons, List.append_assoc]

variable {fetched : String → List CreateBook} {u : Upload}

theorem upload_eq_ok (hf : u.Fetches fetched) (h : u.run t = (.ok (some ()), t')) :
    (saveBuckets u.stmts 0 (bookBuckets BUCKET_SIZE (u.queries.flatMap fetched))).runOn t =
      (.ok (), t') := by
  have hfetch := fetchBooks_runOn hf [] (World.fresh t)
  rw [Upload.run, request, execute, runOn_bind_ok hfetch, List.nil_append, Prod.mk.injEq] at h
  obtain ⟨hok, rfl⟩ := h
  simp only [] at hok ⊢
  generalize hrun : (_ >>= _ : Eff (World BookTable) Exc (Option Unit)).runOn (World.fresh t) = out at hok ⊢
  obtain ⟨r, w⟩ := out
  cases hok
  obtain ⟨⟨⟩, w', hblock, hpure⟩ := bind_eq_ok hrun
  cases hpure
  exact asyncWith_eq_ok rfl hblock

def Upload.triples (u : Upload) (fetched : String → List CreateBook) : Set Triple :=
  triplesOf (u.queries.flatMap fetched)

theorem upload_adds (hf : u.Fetches fetched) (h : u.run t = (.ok (some ()), t')) :
    Adds t t' (u.triples fetched) := by
  have hadd := saveBuckets_adds (upload_eq_ok hf h)
  convert hadd using 1
  ext tr
  simp only [Upload.triples, triplesOf, List.mem_flatten, Set.mem_ofPred_eq,
    mem_bookBuckets (by decide : 0 < BUCKET_SIZE)]

def fetchedTriples (uploads : List Upload) (fetched : String → List CreateBook) : Set Triple :=
  {tr | ∃ u ∈ uploads, tr ∈ u.triples fetched}

theorem uploads_add {uploads : List Upload} (hf : ∀ u ∈ uploads, u.Fetches fetched)
    (hcommit : ∀ a ∈ (answers Upload.run t uploads).1, a = .ok (some ())) :
    Adds t (answers Upload.run t uploads).2 (fetchedTriples uploads fetched) := by
  induction uploads generalizing t with
  | nil => simpa [answers, fetchedTriples] using Adds.refl t
  | cons u uploads ih =>
    rw [answers, List.forall_mem_cons] at hcommit
    rw [List.forall_mem_cons] at hf
    have hfirst : u.run t = (.ok (some ()), (u.run t).2) := Prod.ext hcommit.1 rfl
    have hadd := (upload_adds hf.1 hfirst).trans (ih hf.2 hcommit.2)
    have hcons : fetchedTriples (u :: uploads) fetched =
        u.triples fetched ∪ fetchedTriples uploads fetched := by
      ext tr
      simp [fetchedTriples]
    rw [hcons]
    exact hadd

/-! ## One book at a time -/

def createOne (t : BookTable) (p : Stmt × CreateBook) : Except Exc Book × BookTable :=
  request (CreateBookCommand.execute .allReturn p.1 p.2) t

/-- The answer is a book, or an `EntityAlreadyExistsException` to be ignored. -/
def CreatedOrIgnored (a : Except Exc Book) : Prop :=
  (∃ b, a = .ok b) ∨ a = .error BookMap.alreadyExists

theorem createOne_adds {p : Stmt × CreateBook} (h : CreatedOrIgnored (createOne t p).1) :
    Adds t (createOne t p).2 (triplesOf [p.2]) := by
  obtain ⟨st, book⟩ := p
  have hone : triplesOf [book] = {book.triple} := by ext tr; simp [triplesOf, eq_comm]
  rw [hone]
  rw [createOne] at h ⊢
  rcases request_createBook st book t with
    ⟨e, he, hres⟩ | ⟨-, htaken, hres⟩ | ⟨-, -, t', hres, hrows, -⟩ <;> rw [hres] at h ⊢
  · rcases he with ⟨rfl, -⟩ | ⟨rfl, -⟩ <;> rcases h with ⟨b, hb⟩ | hb <;> cases hb
  · exact .of_has htaken
  · exact .of_append rfl hrows

theorem creates_add {creates : List (Stmt × CreateBook)}
    (h : ∀ a ∈ (answers createOne t creates).1, CreatedOrIgnored a) :
    Adds t (answers createOne t creates).2 (triplesOf (creates.map Prod.snd)) := by
  induction creates generalizing t with
  | nil => simpa [answers, triplesOf] using Adds.refl t
  | cons p creates ih =>
    rw [answers, List.forall_mem_cons] at h
    have hcons : triplesOf ((p :: creates).map Prod.snd) =
        triplesOf [p.2] ∪ triplesOf (creates.map Prod.snd) := triplesOf_append [p.2] _
    have hrest := ih h.2
    rw [answers, hcons]
    exact (createOne_adds h.1).trans hrest

/-! ## The union -/

def Fetched (uploads : List Upload) (fetched : String → List CreateBook) (b : CreateBook) : Prop :=
  ∃ u ∈ uploads, ∃ q ∈ u.queries, b ∈ fetched q

/-- The live triples become those there were and those of the fetched books; no row that was there
changes, and no other way to bring in the same books ends differently. -/
structure Unites (t : BookTable) (uploads : List Upload) (fetched : String → List CreateBook)
    (t' : BookTable) : Prop where
  triples : liveTriples t' = liveTriples t ∪ {tr | ∃ b, Fetched uploads fetched b ∧ b.triple = tr}
  distinct : (t'.rows.filter fun r => r.deletedAt.isNone).Pairwise fun r r' => r.triple ≠ r'.triple
  keeps : t.rows <+: t'.rows
  save_nonempty : ∀ u ∈ uploads,
    ∀ bucket ∈ bookBuckets BUCKET_SIZE (u.queries.flatMap fetched), bucket ≠ []
  /-- Any other uploads of the same queries, in any order and however often. -/
  any_order : ∀ uploads' : List Upload, (∀ u ∈ uploads', u.Fetches fetched) →
    (∀ q, (∃ u ∈ uploads', q ∈ u.queries) ↔ ∃ u ∈ uploads, q ∈ u.queries) →
    (∀ a ∈ (answers Upload.run t uploads').1, a = .ok (some ())) →
    liveTriples (answers Upload.run t uploads').2 = liveTriples t'
  /-- Any other buckets of the same books. -/
  any_buckets : ∀ (stmts : Nat → Stmt) (buckets : List (List CreateBook)) (t₁ : BookTable),
    (∀ b, b ∈ buckets.flatten ↔ Fetched uploads fetched b) →
    (saveBuckets stmts 0 buckets).runOn t = (.ok (), t₁) → liveTriples t₁ = liveTriples t'
  /-- The same books created one at a time. -/
  one_at_a_time : ∀ creates : List (Stmt × CreateBook),
    (∀ b, b ∈ creates.map Prod.snd ↔ Fetched uploads fetched b) →
    (∀ a ∈ (answers createOne t creates).1, CreatedOrIgnored a) →
    liveTriples (answers createOne t creates).2 = liveTriples t'

theorem fetchedTriples_eq (uploads : List Upload) (fetched : String → List CreateBook) :
    fetchedTriples uploads fetched = {tr | ∃ b, Fetched uploads fetched b ∧ b.triple = tr} := by
  ext tr
  simp only [fetchedTriples, Upload.triples, triplesOf, Fetched, Set.mem_ofPred_eq,
    List.mem_flatMap]
  constructor
  · rintro ⟨u, hu, b, ⟨q, hq, hb⟩, htr⟩
    exact ⟨b, ⟨u, hu, q, hq, hb⟩, htr⟩
  · rintro ⟨b, ⟨u, hu, q, hq, hb⟩, htr⟩
    exact ⟨u, hu, b, ⟨q, hq, hb⟩, htr⟩

theorem live_distinct (t : BookTable) :
    (t.rows.filter fun r => r.deletedAt.isNone).Pairwise fun r r' => r.triple ≠ r'.triple := by
  rw [List.pairwise_filter]
  refine t.unique.imp fun hapart hd hd' htr => ?_
  rw [Option.isNone_iff_eq_none] at hd hd'
  have := hapart booksTriple booksTriple_mem
  rw [booksTriple_clash.mpr ⟨hd, hd', htr⟩] at this; cases this

/-- **Bulk uploads are a set union**: uploads that all commit, one after another from any table,
leave the live triples there were together with those of every fetched book. -/
theorem uploads_unite {uploads : List Upload} {fetched : String → List CreateBook}
    (hf : ∀ u ∈ uploads, u.Fetches fetched)
    (hcommit : ∀ a ∈ (answers Upload.run t uploads).1, a = .ok (some ())) :
    Unites t uploads fetched (answers Upload.run t uploads).2 := by
  have hadd := uploads_add hf hcommit
  have hlive := hadd.live
  rw [fetchedTriples_eq] at hlive
  have hsame : ∀ {t₁ : BookTable} {books : List CreateBook}, Adds t t₁ (triplesOf books) →
      (∀ b, b ∈ books ↔ Fetched uploads fetched b) →
      liveTriples t₁ = liveTriples (answers Upload.run t uploads).2 := by
    intro t₁ books h hbooks
    rw [h.live, hlive]
    simp only [triplesOf, hbooks]
  constructor
  case triples => exact hlive
  case distinct => exact live_distinct _
  case keeps => exact hadd.keeps
  case save_nonempty => exact fun u _ _ => bookBuckets_ne_nil (by decide)
  case any_order =>
    intro uploads' hf' hq hcommit'
    rw [(uploads_add hf' hcommit').live, fetchedTriples_eq, hlive]
    have hfetched : ∀ b, Fetched uploads' fetched b ↔ Fetched uploads fetched b := by
      intro b
      constructor
      · rintro ⟨u, hu, q, hq', hb⟩
        obtain ⟨u', hu', hq''⟩ := (hq q).mp ⟨u, hu, hq'⟩
        exact ⟨u', hu', q, hq'', hb⟩
      · rintro ⟨u, hu, q, hq', hb⟩
        obtain ⟨u', hu', hq''⟩ := (hq q).mpr ⟨u, hu, hq'⟩
        exact ⟨u', hu', q, hq'', hb⟩
    simp only [hfetched]
  case any_buckets =>
    intro stmts buckets t₁ hbooks hrun
    exact hsame (saveBuckets_adds hrun) hbooks
  case one_at_a_time =>
    intro creates hbooks hans
    exact hsame (creates_add hans) hbooks

def homerUpload : Upload where
  queries := ["homer"]
  fuel := 1
  stmts := .counting
  search _ _ _ := pure { books := [⟨"a", "Odyssey", ["Homer"]⟩, ⟨"b", "Odyssey", ["Homer"]⟩]
                         total := 2, start := 0, offset := 0 }

/-- The message is delivered twice. -/
theorem uploads_unite_redelivered :
    Unites Table.empty [homerUpload, homerUpload]
      (fun _ => [⟨"Odyssey", 0, "Homer"⟩, ⟨"Odyssey", 0, "Homer"⟩])
      (answers Upload.run Table.empty [homerUpload, homerUpload]).2 := by
  have hf : homerUpload.Fetches fun _ => [⟨"Odyssey", 0, "Homer"⟩, ⟨"Odyssey", 0, "Homer"⟩] :=
    fun _ _ _ => rfl
  have hrun : (answers Upload.run Table.empty [homerUpload, homerUpload]).1 =
      [.ok (some ()), .ok (some ())] := rfl
  refine uploads_unite ?_ ?_
  · simp [hf]
  · simp [hrun]

end LibraryService.Domain
