import LibraryService.Database.InsertScripts
import LibraryService.Domain.UploadFaults

/-!
# Books brought in side by side

Creates and bulk uploads whose inserts run in any interleaving, compared with the same commands one
after another.
-/

open Transition Effect Relational LibraryService.Python LibraryService.Database

namespace LibraryService.Domain

open UploadBooksCommand

variable {t t' : BookTable} {st : Stmt} {book : CreateBook} {u : Upload}

/-! ## What the commands send -/

/-- What `BookStorage.create_book` makes of what its INSERT raises. -/
def createBookRaises : Exc → Exc
  | .integrityError c =>
    if c = some "ix__books__title_year_author" then BookMap.alreadyExists
    else .libraryException "Unknown error"
  | e => e

def createdRow (st : Stmt) (book : CreateBook) : BookRow :=
  newBook st 0 (cut 255 book.title) book.year (cut 255 book.author)

def saveOps (stmts : Nat → Stmt) : Nat → List (List CreateBook) →
    List (InsertOp [booksPk, booksTriple] Exc)
  | _, [] => []
  | k, bucket :: buckets =>
    let rows := BookStorage.bulkRows (stmts k) bucket
    ignoreOps booksTriple booksTriple_mem (rows.all BookRow.fits) rows ++
      saveOps stmts (k + 1) buckets

/-- A command that only inserts books. -/
inductive BookInsert
  | create (st : Stmt) (book : CreateBook)
  | upload (u : Upload)

def BookInsert.script (fetched : String → List CreateBook) :
    BookInsert → Script [booksPk, booksTriple] Exc (Except Exc (Option Book))
  | .create st book =>
    insertScript (insertOps (createdRow st book).fits (createdRow st book))
      (some (createdRow st book).toBook) createBookRaises
  | .upload u =>
    insertScript (saveOps u.stmts 0 (bookBuckets BUCKET_SIZE (u.queries.flatMap fetched))) none id

/-- The command in a unit of work of its own; an upload answers no book. -/
def BookInsert.handle (t : BookTable) : BookInsert → Except Exc (Option Book) × BookTable
  | .create st book => respond some (CreateBookCommand.execute .allReturn st book) t
  | .upload u => ((u.run t).1.map fun _ => none, (u.run t).2)

/-- The page loops of an upload end, with the books that are fixed for its queries. -/
def BookInsert.Fetches (fetched : String → List CreateBook) : BookInsert → Prop
  | .create _ _ => True
  | .upload u => u.Fetches fetched

theorem createBookRaises_truthy {e : Exc} (h : Truthy e) : Truthy (createBookRaises e) := by
  unfold createBookRaises
  split
  · split <;> rfl
  · exact h

theorem createBook_error {e : Exc}
    (h : (insertReturning (createdRow st book).fits (createdRow st book)).runOn t = (.error e, t')) :
    (BookStorage.createBook st book).runOn t = (.error (createBookRaises e), t') := by
  refine runOn_bind_error ((runOn_tryCatch_error h).trans ?_)
  cases e with
  | integrityError c =>
    simp only [BookStorage.raiseError, createBookRaises]
    split <;> rfl
  | _ => rfl

theorem create_script (fetched : String → List CreateBook) (st : Stmt) (book : CreateBook)
    (t : BookTable) : ((BookInsert.create st book).script fetched).run duplicate t =
      (BookInsert.create st book).handle t := by
  refine insertScript_run (BookStorage.createBook st book) createBookRaises
    (sends_insert (createdRow st book).fits (createdRow st book)) ?_
    (fun _ _ _ => createBook_error) (fun _ => createBookRaises_truthy) t
  exact fun t t' hrun => runOn_bind_ok (runOn_tryCatch_ok hrun)

theorem saveOps_send (stmts : Nat → Stmt) (k : Nat) (buckets : List (List CreateBook)) :
    Sends (saveOps stmts k buckets) () (saveBuckets stmts k buckets) := by
  induction buckets generalizing k with
  | nil => exact sends_pure ()
  | cons bucket buckets ih => exact (sends_ignore _ _ _ _).bind (ih (k + 1))

variable {fetched : String → List CreateBook}

theorem upload_run (hf : u.Fetches fetched) (t : BookTable) :
    u.run t = respond some (asyncWith .allReturn
      (saveBuckets u.stmts 0 (bookBuckets BUCKET_SIZE (u.queries.flatMap fetched)))) t := by
  have hfetch := fetchBooks_runOn hf [] (World.fresh t)
  rw [Upload.run, request, execute, runOn_bind_ok hfetch, List.nil_append, respond, request]
  dsimp only
  rw [runOn_bind]
  generalize (asyncWith _ _).runOn (World.fresh t) = out
  obtain ⟨r, w⟩ := out
  cases r <;> rfl

theorem upload_script (hf : u.Fetches fetched) (t : BookTable) :
    ((BookInsert.upload u).script fetched).run duplicate t = (BookInsert.upload u).handle t := by
  have hrun := insertScript_run (f := fun _ => (none : Option Book))
    (saveBuckets u.stmts 0 (bookBuckets BUCKET_SIZE (u.queries.flatMap fetched))) id
    (saveOps_send u.stmts 0 (bookBuckets BUCKET_SIZE (u.queries.flatMap fetched)))
    (fun _ _ h => h) (fun _ _ _ h => h) (fun _ he => he) t
  rw [BookInsert.handle, upload_run hf]
  refine hrun.trans ?_
  unfold respond
  cases (request _ t).1 <;> rfl

theorem script_run {c : BookInsert} (hf : c.Fetches fetched) (t : BookTable) :
    (c.script fetched).run duplicate t = c.handle t := by
  cases c with
  | create st book => exact create_script fetched st book t
  | upload u => exact upload_script hf t

/-! ## What a command adds -/

def BookInsert.triples (fetched : String → List CreateBook) : BookInsert → Set Triple
  | .create _ book => {book.triple}
  | .upload u => u.triples fetched

def Added (fetched : String → List CreateBook) (c : BookInsert) (o : Except Exc (Option Book)) :
    Set Triple :=
  {tr | (∃ a, o = .ok a) ∧ tr ∈ c.triples fetched}

theorem adds_nothing {c : BookInsert} {e : Exc} (h : c.handle t = (.error e, t)) :
    liveTriples (c.handle t).2 = liveTriples t ∪ Added fetched c (c.handle t).1 := by
  simp [h, Added]

theorem adds_all {c : BookInsert} {a : Option Book} (h : c.handle t = (.ok a, t'))
    (hadds : Adds t t' (c.triples fetched)) :
    liveTriples (c.handle t).2 = liveTriples t ∪ Added fetched c (c.handle t).1 := by
  rw [h, hadds.live]
  simp [Added]

theorem create_cases (st : Stmt) (book : CreateBook) (t : BookTable) :
    (∃ e, e ≠ BookMap.alreadyExists ∧ (BookInsert.create st book).handle t = (.error e, t)) ∨
      HasTriple t book.triple ∧
        (BookInsert.create st book).handle t = (.error BookMap.alreadyExists, t) ∨
      ¬ HasTriple t book.triple ∧ ∃ a t', (BookInsert.create st book).handle t = (.ok a, t') ∧
        Adds t t' {book.triple} := by
  simp only [BookInsert.handle, respond]
  rcases request_createBook st book t with
    ⟨e, he, hres⟩ | ⟨-, htaken, hres⟩ | ⟨-, hfree, t', hres, hrows, -⟩ <;> rw [hres]
  · refine .inl ⟨e, ?_, rfl⟩
    rcases he with ⟨rfl, -⟩ | ⟨rfl, -⟩ <;> exact Exc.noConfusion
  · exact .inr (.inl ⟨htaken, rfl⟩)
  · exact .inr (.inr ⟨hfree, _, t', rfl, .of_append rfl hrows⟩)

theorem bookInsert_cases {c : BookInsert} (hf : c.Fetches fetched) (t : BookTable) :
    (∃ e, c.handle t = (.error e, t)) ∨
      ∃ a t', c.handle t = (.ok a, t') ∧ Adds t t' (c.triples fetched) := by
  cases c with
  | create st book =>
    rcases create_cases st book t with ⟨e, -, h⟩ | ⟨-, h⟩ | ⟨-, a, t', h, hadds⟩
    · exact .inl ⟨e, h⟩
    · exact .inl ⟨_, h⟩
    · exact .inr ⟨a, t', h, hadds⟩
  | upload u =>
    have hrun := upload_run hf t
    rcases saveOps_send u.stmts 0 (bookBuckets BUCKET_SIZE (u.queries.flatMap fetched)) t with
      ⟨t', hsave, -⟩ | ⟨e, t', hsave, htruth, -⟩
    · rw [respond_ok hsave] at hrun
      exact .inr ⟨none, t', by rw [BookInsert.handle, hrun]; rfl, upload_adds hf hrun⟩
    · rw [respond_error hsave htruth] at hrun
      exact .inl ⟨e, by rw [BookInsert.handle, hrun]; rfl⟩

theorem bookInsert_adds {c : BookInsert} (hf : c.Fetches fetched) (t : BookTable) :
    liveTriples (c.handle t).2 = liveTriples t ∪ Added fetched c (c.handle t).1 := by
  rcases bookInsert_cases hf t with ⟨e, h⟩ | ⟨a, t', h, hadds⟩
  · exact adds_nothing h
  · exact adds_all h hadds

theorem bookInsert_keeps {c : BookInsert} (hf : c.Fetches fetched) (t : BookTable) :
    t.rows <+: (c.handle t).2.rows := by
  rcases bookInsert_cases hf t with ⟨e, h⟩ | ⟨a, t', h, hadds⟩ <;> rw [h]
  exact hadds.keeps

theorem create_has (h : ((BookInsert.create st book).handle t).1 = .error BookMap.alreadyExists) :
    HasTriple ((BookInsert.create st book).handle t).2 book.triple := by
  rcases create_cases st book t with ⟨e, he, hrun⟩ | ⟨htaken, hrun⟩ | ⟨-, a, t', hrun, -⟩ <;>
    rw [hrun] at h ⊢
  · exact absurd (Except.error.inj h) he
  · exact htaken
  · cases h

theorem create_not_ok (h : HasTriple t book.triple) (a : Option Book) :
    ((BookInsert.create st book).handle t).1 ≠ .ok a := by
  rcases create_cases st book t with ⟨e, -, hrun⟩ | ⟨-, hrun⟩ | ⟨hfree, -⟩
  · rw [hrun]; simp
  · rw [hrun]; simp
  · exact absurd h hfree

/-! ## Side by side -/

variable {τ : Type}

abbrev Bringing (τ : Type) := Inserting τ [booksPk, booksTriple] Exc (Except Exc (Option Book))

/-- The commands that have ended could have run in this order, one after another from `t₀`. Those
that succeeded have added their books, each of them once, and the others none. -/
structure Brought (cmd : τ → BookInsert) (fetched : τ → String → List CreateBook) (t₀ : BookTable)
    (s : Bringing τ) (order : List τ) : Prop where
  serial : SerialOrder (fun t i => (cmd i).handle t) t₀ s.outcome s.inserts.table order
  keeps : t₀.rows <+: s.inserts.table.rows
  triples : liveTriples s.inserts.table = liveTriples t₀ ∪
    {tr | ∃ i a, s.outcome i = some (.ok a) ∧ tr ∈ (cmd i).triples (fetched i)}
  refused : ∀ i st book, cmd i = .create st book →
    s.outcome i = some (.error BookMap.alreadyExists) → HasTriple s.inserts.table book.triple
  once : ∀ i j st st' book book' a a', i ≠ j → cmd i = .create st book → cmd j = .create st' book' →
    book.triple = book'.triple → s.outcome i = some (.ok a) → s.outcome j ≠ some (.ok a')

variable {cmd : τ → BookInsert} {fetched : τ → String → List CreateBook} {t₀ : BookTable}
  {s : Bringing τ} {l : List (InsertLabel τ)} {order : List τ}

theorem serially_handle (hf : ∀ i, (cmd i).Fetches (fetched i)) :
    Inserting.serially duplicate (fun i => (cmd i).script (fetched i)) =
      fun t i => (cmd i).handle t :=
  funext fun t => funext fun i => script_run (hf i) t

theorem brought_of_serial (hf : ∀ i, (cmd i).Fetches (fetched i))
    (h : SerialOrder (fun t i => (cmd i).handle t) t₀ s.outcome s.inserts.table order) :
    Brought cmd fetched t₀ s order := by
  have hgrow : ∀ tr t k, HasTriple t tr → HasTriple ((cmd k).handle t).2 tr := by
    intro tr t k htr
    have hlive : tr ∈ liveTriples ((cmd k).handle t).2 := by
      rw [bookInsert_adds (hf k)]
      exact .inl htr
    exact hlive
  have hadded : ∀ i a, ∀ tr ∈ (cmd i).triples (fetched i), ∀ t, ((cmd i).handle t).1 = .ok a →
      HasTriple ((cmd i).handle t).2 tr := by
    intro i a tr htr t ht
    have hlive : tr ∈ liveTriples ((cmd i).handle t).2 := by
      rw [bookInsert_adds (hf i)]
      exact .inr ⟨⟨a, ht⟩, htr⟩
    exact hlive
  constructor
  case serial => exact h
  case keeps =>
    rw [← h.final]
    exact answers_keep (I := fun t => t₀.rows <+: t.rows)
      (fun t i ht => ht.trans (bookInsert_keeps (hf i) t)) (List.prefix_refl _) order
  case triples =>
    rw [h.union (g := fun i => Added (fetched i) (cmd i)) fun t i => bookInsert_adds (hf i) t]
    congr 1
    ext tr
    simp only [Added, Set.mem_ofPred_eq]
    constructor
    · rintro ⟨i, o, hi, ⟨a, rfl⟩, htr⟩
      exact ⟨i, a, hi, htr⟩
    · rintro ⟨i, a, hi, htr⟩
      exact ⟨i, _, hi, ⟨a, rfl⟩, htr⟩
  case refused =>
    intro i st book hc hi
    refine h.lasting (I := fun t => HasTriple t book.triple) hi (fun t ht => ?_) (hgrow book.triple)
    rw [hc] at ht ⊢
    exact create_has ht
  case once =>
    intro i j st st' book book' a a' hij hci hcj htr hi hj
    have hmem : book.triple ∈ (cmd i).triples (fetched i) := by rw [hci]; exact rfl
    have hmem' : book.triple ∈ (cmd j).triples (fetched j) := by rw [hcj]; exact htr
    rcases h.either hij hi hj (hadded i a _ hmem) (hadded j a' _ hmem') (hgrow book.triple) with
      ⟨t, ht, hend⟩ | ⟨t, ht, hend⟩
    · rw [hcj] at hend
      exact create_not_ok (htr ▸ ht) a' hend
    · rw [hci] at hend
      exact create_not_ok ht a hend

variable [DecidableEq τ]

/-- **Creates and uploads side by side** end, in every interleaving of their inserts, as they do one
after another. -/
theorem inserts_brought (hf : ∀ i, (cmd i).Fetches (fetched i))
    (h : Run (ofStep (Inserting.step duplicate fun i => (cmd i).script (fetched i)))
      (Inserting.start (fun i => (cmd i).script (fetched i)) t₀) l s) :
    ∃ order, Brought cmd fetched t₀ s order := by
  obtain ⟨order, hserial⟩ := Inserting.serializable h
  rw [serially_handle hf] at hserial
  exact ⟨order, brought_of_serial hf hserial⟩

def iliadAndOdyssey : Upload where
  queries := ["homer"]
  fuel := 1
  stmts := .counting
  search _ _ _ := pure { books := [⟨"a", "Iliad", ["Homer"]⟩, ⟨"b", "Odyssey", ["Homer"]⟩]
                         total := 2, start := 0, offset := 0 }

def homersBooks (_ : Bool) (_ : String) : List CreateBook :=
  [⟨"Iliad", 0, "Homer"⟩, ⟨"Odyssey", 0, "Homer"⟩]

/-- `true` creates the second book of the upload `false`. -/
def createAndUpload : Bool → BookInsert
  | true => .create (.counting 7) ⟨"Odyssey", 0, "Homer"⟩
  | false => .upload iliadAndOdyssey

/-- The create comes between the two rows of the upload. -/
def createWithin : List (InsertLabel Bool) :=
  [.next false, .next true, .commit true, .next false, .commit false]

theorem inserts_brought_odyssey :
    ∃ s order, Run (ofStep (Inserting.step duplicate fun i =>
        (createAndUpload i).script (homersBooks i)))
        (Inserting.start (fun i => (createAndUpload i).script (homersBooks i)) Table.empty)
        createWithin s ∧
      Brought createAndUpload homersBooks Table.empty s order := by
  have hf : ∀ i, (createAndUpload i).Fetches (homersBooks i) := by
    intro i
    cases i with
    | true => exact trivial
    | false => exact fun _ _ _ => rfl
  have hexec : (exec (Inserting.step duplicate fun i => (createAndUpload i).script (homersBooks i))
      (Inserting.start (fun i => (createAndUpload i).script (homersBooks i)) Table.empty)
      createWithin).isSome = true := rfl
  obtain ⟨s, hs⟩ := Option.isSome_iff_exists.mp hexec
  obtain ⟨order, hbrought⟩ := inserts_brought hf (run_of_exec hs)
  exact ⟨s, order, run_of_exec hs, hbrought⟩

end LibraryService.Domain
