import LibraryService.General.Effect
import LibraryService.Domain.UploadPages

/-!
# The requests of the page loop

How often the page loop asks the upstream, and for what, over an upstream that logs its requests.
-/

open Effect LibraryService.OpenLibrary

namespace LibraryService.Domain

/-- The endpoint, and the requests made to it so far. -/
def logged (endpoint : SearchParams → OpenLibrarySearchStruct) (p : SearchParams) :
    Eff (List SearchParams) Exc OpenLibrarySearchStruct :=
  Eff.of fun log => (.ok (endpoint p), log ++ [p])

/-- The requests for `k` successive pages, the first of them at an offset. -/
def pageRequests (query : String) (offset : Nat) : Nat → List SearchParams
  | 0 => []
  | k + 1 => searchParams query BUCKET_SIZE offset :: pageRequests query (offset + BUCKET_SIZE) k

variable {endpoint : SearchParams → OpenLibrarySearchStruct} {query : String}
  {docs : List OpenLibraryDocStruct}

theorem runOn_search_logged (limit offset : Nat) (log : List SearchParams) :
    (search (logged endpoint) query limit offset).runOn log =
      (.ok (searchResult (endpoint (searchParams query limit offset))),
        log ++ [searchParams query limit offset]) := rfl

/-! ## Pages in a row -/

theorem pageRequests_eq_map (query : String) (offset k : Nat) :
    pageRequests query offset k =
      (List.range k).map fun i => searchParams query BUCKET_SIZE (offset + i * BUCKET_SIZE) := by
  induction k generalizing offset with
  | zero => rfl
  | succ k ih =>
    rw [pageRequests, ih, List.range_succ_eq_map, List.map_cons, List.map_map]
    simp [Nat.succ_mul, Nat.add_assoc, Nat.add_comm BUCKET_SIZE]

theorem offset_le_of_mem {k offset : Nat} {p : SearchParams} (h : p ∈ pageRequests query offset k) :
    p.limit = BUCKET_SIZE ∧ offset ≤ p.offset := by
  rw [pageRequests_eq_map, List.mem_map] at h
  obtain ⟨i, -, rfl⟩ := h
  simp [searchParams]

theorem pageRequests_disjoint (query : String) (offset k : Nat) :
    (pageRequests query offset k).Pairwise fun p p' => p.offset + p.limit ≤ p'.offset := by
  induction k generalizing offset with
  | zero => exact .nil
  | succ k ih =>
    apply List.Pairwise.cons
    · intro p hp
      exact (offset_le_of_mem hp).2
    · exact ih _

theorem flatMap_pageRequests (h : Serves endpoint query docs) (offset k : Nat) :
    (pageRequests query offset k).flatMap (fun p => (endpoint p).docs) =
      (docs.drop offset).take (k * BUCKET_SIZE) := by
  induction k generalizing offset with
  | zero => simp [pageRequests]
  | succ k ih =>
    rw [pageRequests, List.flatMap_cons, ih, h, ← List.drop_drop, Nat.succ_mul,
      Nat.add_comm (k * BUCKET_SIZE), List.take_add]

/-! ## The loop -/

/-- The loop from one page on: each page that it takes for a full one is one, so the catalogue is
shorter by a page with each turn. -/
theorem searchPages_requests (h : Serves endpoint query docs) {fuel : Nat} (offset : Nat)
    (books : List CreateBook) (log : List SearchParams)
    (hfuel : (docs.drop offset).length / BUCKET_SIZE < fuel) :
    ∃ k found, 0 < k ∧ k ≤ (docs.drop offset).length / BUCKET_SIZE + 1 ∧
      (searchPages (search (logged endpoint)) query fuel offset books).runOn log =
        (.ok (some found), log ++ pageRequests query offset k) := by
  induction fuel generalizing offset books log with
  | zero => exact absurd hfuel (Nat.not_lt_zero _)
  | succ fuel ih =>
    have hdocs : (endpoint (searchParams query BUCKET_SIZE offset)).docs =
        (docs.drop offset).take BUCKET_SIZE := h _ _
    rw [searchPages, runOn_bind_ok (runOn_search_logged BUCKET_SIZE offset log)]
    dsimp only
    split
    case isTrue hshort => exact ⟨1, _, Nat.one_pos, Nat.le_add_left 1 _, rfl⟩
    case isFalse hfull =>
      have hlen : BUCKET_SIZE ≤ (docs.drop offset).length := by
        have hle := List.length_filterMap_le bookOfDoc ((docs.drop offset).take BUCKET_SIZE)
        rw [List.length_take] at hle
        simp only [searchResult, hdocs] at hfull
        omega
      have hturn : (docs.drop offset).length / BUCKET_SIZE =
          (docs.drop (offset + BUCKET_SIZE)).length / BUCKET_SIZE + 1 := by
        rw [← List.drop_drop]
        generalize docs.drop offset = rest at hlen ⊢
        rw [List.length_drop]
        unfold BUCKET_SIZE at hlen ⊢
        omega
      obtain ⟨k, found, hk, hle, hrun⟩ := ih (offset + BUCKET_SIZE) _
        (log ++ [searchParams query BUCKET_SIZE offset]) (by omega)
      refine ⟨k + 1, found, by omega, by omega, ?_⟩
      rw [hrun, List.append_assoc]
      rfl

/-- What holds of the requests of one query, when the catalogue has `n` docs. -/
structure BoundedRequests (query : String) (n : Nat) (requests : List SearchParams) : Prop where
  /-- At most `n // BUCKET_SIZE + 1` of them, at offsets 0, `BUCKET_SIZE`, 2 * `BUCKET_SIZE`, ... -/
  pages : ∃ k, 0 < k ∧ k ≤ n / BUCKET_SIZE + 1 ∧
    requests = (List.range k).map fun i => searchParams query BUCKET_SIZE (i * BUCKET_SIZE)
  disjoint : requests.Pairwise fun p p' => p.offset + p.limit ≤ p'.offset

/-- **The page loop ends**, after at most `n // BUCKET_SIZE + 1` requests for successive pages. The
docs that they bring are the first docs of the catalogue, each once. -/
theorem getAllBooksByQuery_requests (h : Serves endpoint query docs) (fuel : Nat)
    (hfuel : docs.length / BUCKET_SIZE < fuel) :
    ∃ found requests,
      (getAllBooksByQuery (search (logged endpoint)) fuel query).runOn [] =
        (.ok (some found), requests) ∧
      BoundedRequests query docs.length requests ∧
      requests.flatMap (fun p => (endpoint p).docs) <+: docs := by
  obtain ⟨k, found, hk, hle, hrun⟩ := searchPages_requests h 0 [] [] (by simpa using hfuel)
  refine ⟨found, pageRequests query 0 k, hrun, ⟨⟨k, hk, ?_, ?_⟩, ?_⟩, ?_⟩
  · simpa using hle
  · simp [pageRequests_eq_map]
  · exact pageRequests_disjoint query 0 k
  · rw [flatMap_pageRequests h, List.drop_zero]
    exact List.take_prefix _ _

theorem goodCatalogue_requests : ∃ found requests,
    (getAllBooksByQuery (search (logged (serve goodCatalogue))) 3 "homer").runOn [] =
      (.ok (some found), requests) ∧
    BoundedRequests "homer" goodCatalogue.length requests ∧
    requests.flatMap (fun p => (serve goodCatalogue p).docs) <+: goodCatalogue :=
  getAllBooksByQuery_requests (fun _ _ => rfl) 3 (by
    have hlen : goodCatalogue.length = 204 := rfl
    rw [hlen]
    decide)

end LibraryService.Domain
