import LibraryService.Database.Atomicity
import LibraryService.Domain.Upload

/-!
# Uploads that fail

`UploadBooksCommand.execute` where any page, any bucket's insert and any session call may raise.
-/

open Effect Relational LibraryService.Database LibraryService.OpenLibrary

namespace LibraryService.Domain

open UploadBooksCommand

variable {υ : Type}

/-- What one upload calls: an upstream with a state of its own, and the database, where the `k`-th
insert may raise before it does anything. -/
structure UploadCalls (υ : Type) where
  search : String → Nat → Nat → Eff υ Exc OpenLibrarySearchResult
  inserts : Nat → Await
  stmts : Nat → Stmt
  awaits : Awaits

namespace UploadCalls

def saveBuckets (c : UploadCalls υ) : Nat → List (List CreateBook) → Eff BookTable Exc Unit
  | _, [] => pure ()
  | k, bucket :: buckets => do
    await (c.inserts k)
    BookService.saveBulkBooks (c.stmts k) bucket
    c.saveBuckets (k + 1) buckets

def execute (c : UploadCalls υ) (fuel : Nat) (queries : List String) :
    Eff (υ × World BookTable) Exc (Option Unit) := do
  match ← Eff.onFst (fetchBooks c.search fuel queries []) with
  | none => pure none
  | some books =>
    Eff.onSnd (asyncWith c.awaits (c.saveBuckets 0 (bookBuckets BUCKET_SIZE books)))
    pure (some ())

end UploadCalls

/-! ## What the upstream answered -/

section Upstream

variable (search : String → Nat → Nat → Eff υ Exc OpenLibrarySearchResult)

/-- The books on a query's pages from an offset on, up to the first page that is not full. -/
inductive Pages (query : String) : Nat → υ → List OpenLibraryBook → υ → Prop
  | last {offset : Nat} {u u' : υ} {r : OpenLibrarySearchResult} :
      (search query BUCKET_SIZE offset).runOn u = (.ok r, u') → r.books.length < BUCKET_SIZE →
      Pages query offset u r.books u'
  | full {offset : Nat} {u u₁ u' : υ} {r : OpenLibrarySearchResult}
      {books : List OpenLibraryBook} :
      (search query BUCKET_SIZE offset).runOn u = (.ok r, u₁) → ¬ r.books.length < BUCKET_SIZE →
      Pages query (offset + BUCKET_SIZE) u₁ books u' →
      Pages query offset u (r.books ++ books) u'

/-- The books of all pages of all queries, asked one after another. -/
inductive Answered : List String → υ → List OpenLibraryBook → υ → Prop
  | nil (u : υ) : Answered [] u [] u
  | cons {query : String} {queries : List String} {u u₁ u' : υ}
      {books rest : List OpenLibraryBook} :
      Pages search query 0 u books u₁ → Answered queries u₁ rest u' →
      Answered (query :: queries) u (books ++ rest) u'

/-- The next `n` pages of a query are all full. -/
def FullPages (query : String) : Nat → Nat → υ → Prop
  | 0, _, _ => True
  | n + 1, offset, u => ∃ r u', (search query BUCKET_SIZE offset).runOn u = (.ok r, u') ∧
      ¬ r.books.length < BUCKET_SIZE ∧ FullPages query n (offset + BUCKET_SIZE) u'

/-- After the pages of some of the queries, the next one's first `n` pages are all full. -/
def Unending (queries : List String) (n : Nat) (u : υ) : Prop :=
  ∃ before query after books u₁, queries = before ++ query :: after ∧
    Answered search before u books u₁ ∧ FullPages search query n 0 u₁

variable {search} {query : String} {u u' : υ} {found : Option (List CreateBook)}

theorem searchPages_cases {fuel offset : Nat} {books : List CreateBook}
    (h : (searchPages search query fuel offset books).runOn u = (.ok found, u')) :
    (found = none ∧ FullPages search query fuel offset u) ∨
      ∃ page, found = some (books ++ page.map createBookOf) ∧
        Pages search query offset u page u' := by
  induction fuel generalizing offset books u with
  | zero => cases h; exact .inl ⟨rfl, trivial⟩
  | succ fuel ih =>
    rw [searchPages] at h
    obtain ⟨r, u₁, hr, h⟩ := bind_eq_ok h
    split at h
    case isTrue hshort =>
      cases h
      exact .inr ⟨_, rfl, .last hr hshort⟩
    case isFalse hfull =>
      rcases ih h with ⟨rfl, hpages⟩ | ⟨page, rfl, hpages⟩
      · exact .inl ⟨rfl, r, u₁, hr, hfull, hpages⟩
      · refine .inr ⟨r.books ++ page, ?_, .full hr hfull hpages⟩
        rw [List.map_append, List.append_assoc]

theorem fetchBooks_cases {fuel : Nat} {queries : List String} {books : List CreateBook}
    (h : (fetchBooks search fuel queries books).runOn u = (.ok found, u')) :
    (found = none ∧ Unending search queries fuel u) ∨
      ∃ pages, found = some (books ++ pages.map createBookOf) ∧
        Answered search queries u pages u' := by
  induction queries generalizing books u with
  | nil => cases h; exact .inr ⟨[], by simp, .nil _⟩
  | cons q queries ih =>
    rw [fetchBooks] at h
    obtain ⟨pages, u₁, hq, h⟩ := bind_eq_ok h
    rcases searchPages_cases hq with ⟨rfl, hfull⟩ | ⟨page, rfl, hpages⟩
    · cases h
      exact .inl ⟨rfl, [], q, queries, [], u, rfl, .nil u, hfull⟩
    · rcases ih h with ⟨rfl, before, q', after, rest, u₂, rfl, hrest, hfull⟩ | ⟨rest, rfl, hrest⟩
      · exact .inl ⟨rfl, q :: before, q', after, _, u₂, rfl, .cons hpages hrest, hfull⟩
      · refine .inr ⟨page ++ rest, ?_, .cons hpages hrest⟩
        rw [List.nil_append, List.map_append, List.append_assoc]

end Upstream

/-! ## The save -/

variable {c : UploadCalls υ} {t t' : BookTable}

theorem saveBuckets_returning (hi : ∀ k, c.inserts k = .returns) (k : Nat)
    (buckets : List (List CreateBook)) :
    c.saveBuckets k buckets = UploadBooksCommand.saveBuckets c.stmts k buckets := by
  induction buckets generalizing k with
  | nil => rfl
  | cons bucket buckets ih =>
    refine eff_ext fun s => ?_
    rw [UploadCalls.saveBuckets, UploadBooksCommand.saveBuckets, hi k,
      runOn_bind_ok (await_runOn_returns s), ih]

theorem saveBuckets_ok {k : Nat} {buckets : List (List CreateBook)}
    (h : (c.saveBuckets k buckets).runOn t = (.ok (), t')) :
    (UploadBooksCommand.saveBuckets c.stmts k buckets).runOn t = (.ok (), t') := by
  induction buckets generalizing t k with
  | nil => exact h
  | cons bucket buckets ih =>
    rw [UploadCalls.saveBuckets] at h
    obtain ⟨_, t₁, hawait, h⟩ := bind_eq_ok h
    obtain ⟨_, t₂, hsave, hrest⟩ := bind_eq_ok h
    cases hi : c.inserts k with
    | raises e => rw [hi] at hawait; cases hawait
    | returns =>
      rw [hi] at hawait; cases hawait
      rw [UploadBooksCommand.saveBuckets, runOn_bind_ok hsave]
      exact ih hrest

theorem await_raises {σ : Type} {P : Exc → Prop} {a : Await} (h : ∀ e, a = .raises e → P e) :
    (await a : Eff σ Exc Unit).Raises P := by
  cases a with
  | returns => exact raises_pure ()
  | raises e => exact raises_throw (h e rfl)

theorem saveBuckets_raises (hi : ∀ k e, c.inserts k = .raises e → e.truth = true) (k : Nat)
    (buckets : List (List CreateBook)) : (c.saveBuckets k buckets).Raises Truthy := by
  induction buckets generalizing k with
  | nil => exact raises_pure ()
  | cons bucket buckets ih =>
    exact (await_raises (hi k)).bind fun _ => insertOnConflictDoNothing_raises.bind fun _ => ih _

/-! ## The whole upload -/

section Phases

variable {fuel : Nat} {queries : List String} {u u' : υ} {w : World BookTable}

theorem execute_unfetched {e : Exc}
    (h : (fetchBooks c.search fuel queries []).runOn u = (.error e, u')) :
    (c.execute fuel queries).runOn (u, w) = (.error e, u', w) := by
  rw [UploadCalls.execute, runOn_bind_error (by rw [runOn_onFst, h])]

theorem execute_fetching (h : (fetchBooks c.search fuel queries []).runOn u = (.ok none, u')) :
    (c.execute fuel queries).runOn (u, w) = (.ok none, u', w) := by
  rw [UploadCalls.execute, runOn_bind_ok (by rw [runOn_onFst, h])]
  rfl

/-- The block that saves all the books. -/
def UploadCalls.save (c : UploadCalls υ) (books : List CreateBook) : Eff (World BookTable) Exc Unit :=
  asyncWith c.awaits (c.saveBuckets 0 (bookBuckets BUCKET_SIZE books))

theorem execute_fetched {books : List CreateBook}
    (h : (fetchBooks c.search fuel queries []).runOn u = (.ok (some books), u')) :
    (c.execute fuel queries).runOn (u, w) =
      (((c.save books).runOn w).1.map some, u', ((c.save books).runOn w).2) := by
  rw [UploadCalls.execute, runOn_bind_ok (by rw [runOn_onFst, h])]
  dsimp only
  rw [← UploadCalls.save, runOn_bind, runOn_onSnd]
  obtain ⟨r, w'⟩ := (c.save books).runOn w
  cases r <;> rfl

end Phases

section Faultless

variable {σ : Type} {search : String → Nat → Nat → Except Exc OpenLibrarySearchResult}

theorem searchPages_ofExcept (query : String) (fuel offset : Nat) (books : List CreateBook) :
    searchPages (fun q l o => (Eff.ofExcept (search q l o) : Eff σ Exc _)) query fuel offset books =
      Eff.ofExcept (searchPages search query fuel offset books) := by
  induction fuel generalizing offset books with
  | zero => rfl
  | succ fuel ih =>
    refine eff_ext fun s => ?_
    rw [searchPages, searchPages]
    cases hr : search query BUCKET_SIZE offset with
    | error e => rfl
    | ok r =>
      rw [runOn_bind_ok (runOn_ofExcept _ s)]
      dsimp only [bind, Except.bind]
      split
      · rfl
      · rw [ih]

theorem fetchBooks_ofExcept (fuel : Nat) (queries : List String) (books : List CreateBook) :
    fetchBooks (fun q l o => (Eff.ofExcept (search q l o) : Eff σ Exc _)) fuel queries books =
      Eff.ofExcept (fetchBooks search fuel queries books) := by
  induction queries generalizing books with
  | nil => rfl
  | cons q queries ih =>
    refine eff_ext fun s => ?_
    rw [fetchBooks, fetchBooks, getAllBooksByQuery, searchPages_ofExcept, getAllBooksByQuery]
    cases searchPages search q fuel 0 [] with
    | error e => rfl
    | ok found =>
      rw [runOn_bind_ok (runOn_ofExcept _ s)]
      cases found with
      | none => rfl
      | some found => exact congrArg (fun x => x.runOn s) (ih (books ++ found))

/-- Over an upstream without a state, and where each insert returns, this is the command of
`UploadBooksCommand`. -/
theorem execute_faultless {c : UploadCalls υ} (hi : ∀ k, c.inserts k = .returns)
    (hs : c.search = fun q l o => Eff.ofExcept (search q l o)) (fuel : Nat) (queries : List String)
    (u : υ) (w : World BookTable) :
    (c.execute fuel queries).runOn (u, w) =
      (Eff.onSnd (UploadBooksCommand.execute c.awaits c.stmts
        (fun q l o => Eff.ofExcept (search q l o)) fuel queries)).runOn (u, w) := by
  have hfetch : (fetchBooks c.search fuel queries []).runOn u = (fetchBooks search fuel queries [], u) := by
    rw [hs, fetchBooks_ofExcept, runOn_ofExcept]
  rw [UploadBooksCommand.execute, fetchBooks_ofExcept, runOn_onSnd, runOn_bind, runOn_ofExcept]
  cases hf : fetchBooks search fuel queries [] with
  | error e => exact execute_unfetched (hf ▸ hfetch)
  | ok found =>
    cases found with
    | none => exact execute_fetching (hf ▸ hfetch)
    | some books =>
      rw [execute_fetched (hf ▸ hfetch), UploadCalls.save, saveBuckets_returning hi]
      dsimp only
      rw [runOn_bind]
      generalize (asyncWith c.awaits _).runOn w = out
      obtain ⟨r, w'⟩ := out
      cases r <;> rfl

end Faultless

/-! ## All or nothing -/

/-- Every row stays, and the live triples become those there were and those of the books, each on
one row. -/
structure Uploaded (t t' : BookTable) (books : List OpenLibraryBook) : Prop where
  adds : Adds t t' (triplesOf (books.map createBookOf))
  distinct : (t'.rows.filter fun r => r.deletedAt.isNone).Pairwise fun r r' => r.triple ≠ r'.triple

/-- How an upload from `u` and `w` may end. -/
structure AllOrNothing (c : UploadCalls υ) (fuel : Nat) (queries : List String) (u : υ)
    (w : World BookTable) (out : Except Exc (Option Unit) × υ × World BookTable) : Prop where
  returned : out.1 = .ok (some ()) → ∃ books, Answered c.search queries u books out.2.1 ∧
    Uploaded w.committed out.2.2.committed books
  raised : ∀ e, out.1 = .error e → c.awaits.close = .returns → out.2.2.committed = w.committed
  /-- After `fuel` full pages of one query its page loop goes on. -/
  fetching : out.1 = .ok none →
    out.2.2.committed = w.committed ∧ Unending c.search queries fuel u
  /-- Also where the session's `close` raises, which is asked only after the commit. -/
  no_prefix : out.2.2.committed = w.committed ∨
    ∃ books, Answered c.search queries u books out.2.1 ∧
      Uploaded w.committed out.2.2.committed books

theorem saveBuckets_uploaded {books : List OpenLibraryBook}
    (h : (c.saveBuckets 0 (bookBuckets BUCKET_SIZE (books.map createBookOf))).runOn t =
      (.ok (), t')) : Uploaded t t' books := by
  refine ⟨?_, live_distinct t'⟩
  have hadd := saveBuckets_adds (saveBuckets_ok h)
  convert hadd using 1
  ext tr
  simp only [triplesOf, List.mem_flatten, Set.mem_ofPred_eq,
    mem_bookBuckets (by decide : 0 < BUCKET_SIZE)]

theorem save_cases (hi : ∀ k e, c.inserts k = .raises e → e.truth = true)
    (books : List OpenLibraryBook) (w : World BookTable) :
    (((c.save (books.map createBookOf)).runOn w).1 = .ok () ∧
        Uploaded w.committed ((c.save (books.map createBookOf)).runOn w).2.committed books) ∨
      ∃ e, ((c.save (books.map createBookOf)).runOn w).1 = .error e ∧
        (((c.save (books.map createBookOf)).runOn w).2.committed = w.committed ∨
          c.awaits.close ≠ .returns ∧
            Uploaded w.committed ((c.save (books.map createBookOf)).runOn w).2.committed books) := by
  rw [UploadCalls.save]
  generalize hbody : c.saveBuckets 0 (bookBuckets BUCKET_SIZE (books.map createBookOf)) = body
  obtain ⟨hcommits, hkeeps⟩ := asyncWith_committed w c.awaits body
  have hreturns := asyncWith_returns_iff w c.awaits body
  by_cases hc : w.Enters c.awaits ∧ c.awaits.Commits (raised (body.runOn w.committed).1)
  · obtain ⟨hin, htruth, hcommit⟩ := hc
    have hdb := hcommits hin ⟨htruth, hcommit⟩
    cases hrun : body.runOn w.committed with
    | mk r db =>
      cases r with
      | error e =>
        rw [← hbody] at hrun
        rw [← hbody, hrun, raised, Option.any_some, saveBuckets_raises hi _ _ hrun] at htruth
        cases htruth
      | ok x =>
        rw [hrun] at hdb
        have hup : Uploaded w.committed db books := saveBuckets_uploaded (hbody ▸ hrun)
        rw [hdb]
        cases hout : ((asyncWith c.awaits body).runOn w).1 with
        | ok x => exact .inl ⟨rfl, hup⟩
        | error e =>
          refine .inr ⟨e, rfl, .inr ⟨fun hclose => ?_, hup⟩⟩
          obtain ⟨x, hx⟩ := hreturns.mpr ⟨hin, ⟨db, _, hrun⟩, hcommit, hclose⟩
          rw [hout] at hx; cases hx
  · cases hout : ((asyncWith c.awaits body).runOn w).1 with
    | error e => exact .inr ⟨e, rfl, .inl (hkeeps hc)⟩
    | ok x =>
      obtain ⟨hin, ⟨db, y, hrun⟩, hcommit, -⟩ := hreturns.mp ⟨x, hout⟩
      exact absurd ⟨hin, by rw [hrun]; rfl, hcommit⟩ hc

/-- **An upload is all or nothing**: it returns with every fetched book live, or raises with the
table as it was. -/
theorem upload_all_or_nothing (c : UploadCalls υ)
    (hi : ∀ k e, c.inserts k = .raises e → e.truth = true) (fuel : Nat) (queries : List String)
    (u : υ) (w : World BookTable) :
    AllOrNothing c fuel queries u w ((c.execute fuel queries).runOn (u, w)) := by
  cases hf : (fetchBooks c.search fuel queries []).runOn u with
  | mk r u' =>
    cases r with
    | error e =>
      rw [execute_unfetched hf]
      exact ⟨nofun, fun _ _ _ => rfl, nofun, .inl rfl⟩
    | ok found =>
      rcases fetchBooks_cases hf with ⟨rfl, hunending⟩ | ⟨books, rfl, hbooks⟩
      · rw [execute_fetching hf]
        exact ⟨nofun, fun _ _ _ => rfl, fun _ => ⟨rfl, hunending⟩, .inl rfl⟩
      · rw [execute_fetched hf, List.nil_append]
        rcases save_cases hi books w with ⟨hret, hup⟩ | ⟨e, hraise, hkept | ⟨hclose, hup⟩⟩
        · rw [hret]
          exact ⟨fun _ => ⟨books, hbooks, hup⟩, nofun, nofun, .inr ⟨books, hbooks, hup⟩⟩
        · rw [hraise]
          exact ⟨nofun, fun _ _ _ => hkept, nofun, .inl hkept⟩
        · rw [hraise]
          exact ⟨nofun, fun _ _ h => absurd h hclose, nofun, .inr ⟨books, hbooks, hup⟩⟩

/-- Two queries with one book each, from an upstream that counts its calls; the connection is lost
before the insert. -/
def lostConnection : UploadCalls Nat where
  search q _ _ := do
    modify (· + 1)
    pure { books := [⟨q, q, ["Homer"]⟩], total := 1, start := 0, offset := 0 }
  inserts _ := .raises (.other .exception "ConnectionLost" true)
  stmts := .counting
  awaits := .allReturn

theorem upload_all_or_nothing_lost :
    AllOrNothing lostConnection 1 ["Iliad", "Odyssey"] 0 (World.fresh Table.empty)
      ((lostConnection.execute 1 ["Iliad", "Odyssey"]).runOn (0, World.fresh Table.empty)) := by
  refine upload_all_or_nothing lostConnection (fun k e h => ?_) 1 ["Iliad", "Odyssey"] 0 _
  cases h
  rfl

end LibraryService.Domain
