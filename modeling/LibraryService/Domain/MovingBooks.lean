import LibraryService.General.MovingPages
import LibraryService.Domain.BookMap
import LibraryService.Domain.Upload
import LibraryService.Domain.Pagination

/-!
# Books page by page while they change

The list query at offsets 0, `limit`, 2 `limit`, .. with any requests answered between the pages.
-/

open Transition Effect Relational Paging LibraryService.Python LibraryService.Database

namespace LibraryService.Domain

variable {t t' : BookTable} {r : BookRow} {a : Nat}

/-! ## Live ids -/

def idsOf (rows : List BookRow) : List Nat := rows.map fun r => r.id.int.toNat

def liveIds (t : BookTable) : Finset Nat := (idsOf (booksById t)).toFinset

theorem mem_liveIds : a ∈ liveIds t ↔ ∃ r ∈ t.rows, r.deletedAt = none ∧ r.id.int.toNat = a := by
  rw [liveIds, List.mem_toFinset, idsOf, List.mem_map]
  simp only [mem_booksById, and_assoc]

theorem idsOf_sorted (t : BookTable) : (idsOf (booksById t)).Pairwise (· < ·) := by
  have hsorted := pairwise_orderBy Scan.asStored (fun r : BookRow => r.id.int.toNat) (liveBooks t)
  rw [idsOf, List.pairwise_map]
  refine (hsorted.and booksById_nodup).imp_of_mem fun {r r'} hr hr' h => ?_
  apply lt_of_le_of_ne h.1
  intro hid
  exact h.2 (book_id_unique (mem_booksById.mp hr).1 (mem_booksById.mp hr').1
    (UUID.eq_of_toNat hid))

theorem card_liveIds (t : BookTable) : (liveIds t).card = (liveBooks t).length := by
  have hnodup : (idsOf (booksById t)).Nodup := (idsOf_sorted t).imp fun h => h.ne
  rw [liveIds, List.toFinset_card_of_nodup hnodup, idsOf, List.length_map, length_booksById]

/-! ## What one request does to them -/

/-- How many live books a request removes: a delete that is answered takes one. -/
def removes (t : BookTable) (req : BookRequest) : Nat :=
  match req, (handleBook t req).1 with
  | .delete _ _, .ok _ => 1
  | _, _ => 0

/-- How many rows a request inserts; no request takes a row away. -/
def adds (t : BookTable) (req : BookRequest) : Nat :=
  (handleBook t req).2.rows.length - t.rows.length

/-- No more live ids have gone than this, and no more have come than rows were inserted. -/
structure Moves (t t' : BookTable) (gone : Nat) : Prop where
  gone : (liveIds t \ liveIds t').card ≤ gone
  come : (liveIds t' \ liveIds t).card ≤ t'.rows.length - t.rows.length

theorem Moves.refl (t : BookTable) (n : Nat) : Moves t t n := ⟨by simp, by simp⟩

theorem Moves.of_new {rows : List BookRow} (h : t'.rows = t.rows ++ rows) : Moves t t' 0 := by
  constructor
  · rw [Nat.le_zero, Finset.card_eq_zero, Finset.sdiff_eq_empty_iff_subset]
    intro a ha
    obtain ⟨r, hr, hd, rfl⟩ := mem_liveIds.mp ha
    exact mem_liveIds.mpr ⟨r, h ▸ List.mem_append_left _ hr, hd, rfl⟩
  · calc (liveIds t' \ liveIds t).card ≤ (idsOf rows).toFinset.card := by
          apply Finset.card_le_card
          intro a ha
          rw [Finset.mem_sdiff, mem_liveIds] at ha
          obtain ⟨⟨r, hr, hd, rfl⟩, hnot⟩ := ha
          rw [List.mem_toFinset, idsOf, List.mem_map]
          rcases List.mem_append.mp (h ▸ hr) with hold | hr
          · exact absurd (mem_liveIds.mpr ⟨r, hold, hd, rfl⟩) hnot
          · exact ⟨r, hr, rfl⟩
      _ ≤ (idsOf rows).length := List.toFinset_card_le _
      _ = t'.rows.length - t.rows.length := by
          rw [h, List.length_append, Nat.add_sub_cancel_left, idsOf, List.length_map]

theorem Moves.of_replaced (r r' : BookRow) (hid : r'.id = r.id)
    (hmem : ∀ x, x ∈ t'.rows ↔ x = r' ∨ x ∈ t.rows ∧ x.id ≠ r.id) (hr : r ∈ t.rows)
    (hlive : r.deletedAt = none) :
    Moves t t' (if r'.deletedAt = none then 0 else 1) := by
  have hold : ∀ a ∈ liveIds t, a ∉ liveIds t' → a = r.id.int.toNat ∧ r'.deletedAt ≠ none := by
    intro a ha hnot
    obtain ⟨x, hx, hd, rfl⟩ := mem_liveIds.mp ha
    by_cases hxid : x.id = r.id
    · refine ⟨by rw [hxid], fun hd' => hnot (mem_liveIds.mpr ⟨r', (hmem r').mpr (.inl rfl), hd', ?_⟩)⟩
      rw [hid, hxid]
    · exact absurd (mem_liveIds.mpr ⟨x, (hmem x).mpr (.inr ⟨hx, hxid⟩), hd, rfl⟩) hnot
  constructor
  · split
    case isTrue hd' =>
      rw [Nat.le_zero, Finset.card_eq_zero, Finset.sdiff_eq_empty_iff_subset]
      intro a ha
      by_contra hnot
      exact (hold a ha hnot).2 hd'
    case isFalse =>
      refine (Finset.card_le_card fun a ha => ?_).trans (Finset.card_singleton r.id.int.toNat).le
      rw [Finset.mem_sdiff] at ha
      exact Finset.mem_singleton.mpr (hold a ha.1 ha.2).1
  · suffices hnone : liveIds t' \ liveIds t = ∅ by simp [hnone]
    rw [Finset.sdiff_eq_empty_iff_subset]
    intro a ha
    obtain ⟨x, hx, hd, rfl⟩ := mem_liveIds.mp ha
    rcases (hmem x).mp hx with rfl | ⟨hx, -⟩
    · exact mem_liveIds.mpr ⟨r, hr, hlive, by rw [hid]⟩
    · exact mem_liveIds.mpr ⟨x, hx, hd, rfl⟩

theorem handle_create_moves (t : BookTable) (st : Stmt) (book : CreateBook) :
    Moves t (handleBook t (.create st book)).2 0 := by
  simp only [handleBook, respond]
  rcases request_createBook st book t with
    ⟨e, -, hres⟩ | ⟨-, -, hres⟩ | ⟨-, -, t', hres, hrows, -⟩ <;> rw [hres]
  · exact .refl t _
  · exact .refl t _
  · exact .of_new hrows

theorem handle_update_moves (t : BookTable) (st : Stmt) (u : UpdateBook) :
    Moves t (handleBook t (.update st u)).2 0 := by
  simp only [handleBook, respond]
  cases hlive : liveRow t u.id with
  | none =>
    rw [request_updateBook_missing st hlive]
    exact .refl t _
  | some r =>
    obtain ⟨hr, hid, hd⟩ := liveRow_eq_some.mp hlive
    rcases request_updateBook st hlive with
      ⟨e, -, hres⟩ | ⟨-, -, ⟨-, hres⟩ | ⟨-, t', hres, hmem⟩⟩ <;> rw [hres]
    · exact .refl t _
    · exact .refl t _
    · have hd' : (updatedRow st u r).deletedAt = none := hd
      have hmoves := Moves.of_replaced r (updatedRow st u r) rfl (hid ▸ hmem) hr hd
      rwa [if_pos hd'] at hmoves

theorem handle_delete_moves (t : BookTable) (st : Stmt) (bookId : UUID) :
    Moves t (handleBook t (.delete st bookId)).2 (removes t (.delete st bookId)) := by
  simp only [removes, handleBook, respond]
  rcases request_deleteBook st bookId t with ⟨-, hres⟩ | ⟨r, t', hlive, hres, hmem⟩ <;> rw [hres]
  · exact .refl t _
  · obtain ⟨hr, rfl, hd⟩ := liveRow_eq_some.mp hlive
    have hd' : ¬ (markDeleted st r).deletedAt = none := Option.some_ne_none _
    have hmoves := Moves.of_replaced r (markDeleted st r) rfl hmem hr hd
    rwa [if_neg hd'] at hmoves

theorem handle_saveBulk_moves (t : BookTable) (st : Stmt) (books : List CreateBook) :
    Moves t (handleBook t (.saveBulk st books)).2 0 := by
  simp only [handleBook, saveBulkBooks]
  cases hrun : (BookService.saveBulkBooks st books).runOn t with
  | mk res t' =>
    cases res with
    | error e =>
      rw [respond_error hrun (insertOnConflictDoNothing_raises hrun)]
      exact .refl t _
    | ok =>
      rw [respond_ok hrun]
      obtain ⟨rows, hrows⟩ := (saveBulkBooks_adds hrun).keeps
      exact .of_new hrows.symm

theorem handleBook_moves (t : BookTable) (req : BookRequest) :
    Moves t (handleBook t req).2 (removes t req) := by
  cases req with
  | create st book => exact handle_create_moves t st book
  | update st u => exact handle_update_moves t st u
  | delete st bookId => exact handle_delete_moves t st bookId
  | saveBulk st books => exact handle_saveBulk_moves t st books
  | fetch bookId =>
    rw [handleBook, respond]
    rcases request_fetchBook bookId t with ⟨-, hres⟩ | ⟨r, -, hres⟩ <;> rw [hres] <;>
      exact .refl t _

theorem card_sdiff_triangle {κ : Type} [DecidableEq κ] (s t u : Finset κ) :
    (s \ u).card ≤ (s \ t).card + (t \ u).card :=
  (Finset.card_le_card (sdiff_triangle s t u)).trans (Finset.card_union_le _ _)

theorem answers_gone (t : BookTable) (reqs : List BookRequest) :
    (liveIds t \ liveIds (answers handleBook t reqs).2).card ≤ spent handleBook removes t reqs :=
  spent_le (d := fun t t' => (liveIds t \ liveIds t').card) (fun t => by simp)
    (fun _ _ _ => card_sdiff_triangle _ _ _) (fun t req => (handleBook_moves t req).gone) t reqs

theorem answers_come (t : BookTable) (reqs : List BookRequest) :
    (liveIds (answers handleBook t reqs).2 \ liveIds t).card ≤ spent handleBook adds t reqs :=
  spent_le (d := fun t t' => (liveIds t' \ liveIds t).card) (fun t => by simp)
    (fun _ _ _ => (card_sdiff_triangle _ _ _).trans_eq (Nat.add_comm _ _))
    (fun t req => (handleBook_moves t req).come) t reqs

/-! ## Reading on while requests are answered -/

/-- The table that the `k`-th page is read from: `writes k` are answered between it and the next. -/
def tableAt (writes : Nat → List BookRequest) (t : BookTable) : Nat → BookTable
  | 0 => t
  | k + 1 => (answers handleBook (tableAt writes t k) (writes k)).2

variable (writes : Nat → List BookRequest) (t : BookTable) (limit : Nat) (scans : Nat → Scan BookRow)

/-- The books of the `k`-th page. -/
def itemsAt (k : Nat) : List Book := itemsOf (bookPage (tableAt writes t k) limit scans k)

/-- The book is live at the readings `0` to `K`. -/
def Stays (K : Nat) (bookId : UUID) : Prop :=
  ∀ k ≤ K, (liveRow (tableAt writes t k) bookId).isSome = true

def Shown (k : Nat) (bookId : UUID) : Prop := ∃ b ∈ itemsAt writes t limit scans k, b.id = bookId

/-- The books that stay and that no page shows. -/
def Missed (K : Nat) (i : UUID) : Prop :=
  Stays writes t K i ∧ ∀ k ≤ K, ¬ Shown writes t limit scans k i

/-- The books that stay and that two pages show. -/
def Repeated (K : Nat) (i : UUID) : Prop :=
  Stays writes t K i ∧
    ∃ k ≤ K, ∃ j < k, Shown writes t limit scans j i ∧ Shown writes t limit scans k i

/-- How many books have been deleted before the `K`-th page. -/
def removed (K : Nat) : Nat :=
  ∑ k ∈ Finset.range K, spent handleBook removes (tableAt writes t k) (writes k)

/-- How many rows have been inserted before the `K`-th page. -/
def added (K : Nat) : Nat :=
  ∑ k ∈ Finset.range K, spent handleBook adds (tableAt writes t k) (writes k)

/-- Up to a page that is not full, no more books that stay are missed than are deleted meanwhile, and
no more are shown twice than rows are inserted. -/
structure ReadsOn (K : Nat) : Prop where
  missed : (itemsAt writes t limit scans K).length < limit →
    ∀ ids : List UUID, ids.Nodup → (∀ i ∈ ids, Missed writes t limit scans K i) →
      ids.length ≤ removed writes t K
  repeated : ∀ ids : List UUID, ids.Nodup → (∀ i ∈ ids, Repeated writes t limit scans K i) →
    ids.length ≤ added writes t K
  complete : (itemsAt writes t limit scans K).length < limit → removed writes t K = 0 →
    ∀ i, (liveRow t i).isSome = true → ∃ k ≤ K, Shown writes t limit scans k i
  once : added writes t K = 0 → ∀ i, ∀ k ≤ K, ∀ j < k,
    Shown writes t limit scans j i → ¬ Shown writes t limit scans k i

variable {writes t limit scans} {k K : Nat} {i : UUID}

theorem shown_iff : Shown writes t limit scans k i ↔
    i.int.toNat ∈ onPage limit k (liveIds (tableAt writes t k)) := by
  have hids : (itemsAt writes t limit scans k).map (fun b => b.id.int.toNat) =
      page limit (k * limit) (idsOf (booksById (tableAt writes t k))) := by
    rw [itemsAt, bookPage_eq, itemsOf, map_page, List.map_map, idsOf]
    rfl
  rw [liveIds, ← mem_page_iff (idsOf_sorted _), ← hids, List.mem_map]
  constructor
  · rintro ⟨b, hb, rfl⟩
    exact ⟨b, hb, rfl⟩
  · rintro ⟨b, hb, hid⟩
    exact ⟨b, hb, UUID.eq_of_toNat hid⟩

theorem liveRow_isSome : (liveRow t i).isSome = true ↔ i.int.toNat ∈ liveIds t := by
  rw [mem_liveIds, Option.isSome_iff_exists]
  constructor
  · rintro ⟨r, hr⟩
    obtain ⟨hmem, rfl, hd⟩ := liveRow_eq_some.mp hr
    exact ⟨r, hmem, hd, rfl⟩
  · rintro ⟨r, hmem, hd, hid⟩
    exact ⟨r, liveRow_eq_some.mpr ⟨hmem, UUID.eq_of_toNat hid, hd⟩⟩

theorem stays_iff : Stays writes t K i ↔
    i.int.toNat ∈ steady (fun k => liveIds (tableAt writes t k)) K := by
  rw [mem_steady]
  simp only [Stays, liveRow_isSome, Nat.lt_succ_iff]

theorem length_ids {ids : List UUID} (h : ids.Nodup) {s : Finset Nat}
    (hs : ∀ i ∈ ids, i.int.toNat ∈ s) : ids.length ≤ s.card := by
  have hnodup : (ids.map fun i => i.int.toNat).Nodup :=
    h.map fun _ _ heq => UUID.eq_of_toNat heq
  rw [← List.length_map (fun i : UUID => i.int.toNat), ← List.toFinset_card_of_nodup hnodup]
  apply Finset.card_le_card
  intro a ha
  obtain ⟨i, hi, rfl⟩ := List.mem_map.mp (List.mem_toFinset.mp ha)
  exact hs i hi

theorem card_of_short (h : (itemsAt writes t limit scans K).length < limit) :
    (liveIds (tableAt writes t K)).card < (K + 1) * limit := by
  rw [itemsAt, bookPage_eq, itemsOf, length_page, List.length_map, length_booksById,
    ← card_liveIds] at h
  rw [Nat.succ_mul]
  omega

theorem missed_le (hshort : (itemsAt writes t limit scans K).length < limit) {ids : List UUID}
    (hnodup : ids.Nodup) (hids : ∀ i ∈ ids, Missed writes t limit scans K i) :
    ids.length ≤ removed writes t K := by
  refine (length_ids hnodup fun i hi => ?_).trans
    ((card_unseen_le (s := fun k => liveIds (tableAt writes t k)) (card_of_short hshort)).trans
      (Finset.sum_le_sum fun k _ => answers_gone _ _))
  obtain ⟨hstays, hmissed⟩ := hids i hi
  refine Finset.mem_filter.mpr ⟨stays_iff.mp hstays, fun k hk hon => ?_⟩
  exact hmissed k (Nat.le_of_lt_succ hk) (shown_iff.mpr hon)

theorem repeated_le {ids : List UUID} (hnodup : ids.Nodup)
    (hids : ∀ i ∈ ids, Repeated writes t limit scans K i) : ids.length ≤ added writes t K := by
  refine (length_ids hnodup fun i hi => ?_).trans
    ((card_seenTwice_le (fun k => liveIds (tableAt writes t k)) limit K).trans
      (Finset.sum_le_sum fun k _ => answers_come _ _))
  obtain ⟨hstays, k, hk, j, hj, hshown, hshown'⟩ := hids i hi
  exact Finset.mem_filter.mpr ⟨stays_iff.mp hstays, k, Nat.lt_succ_of_le hk, j, hj,
    shown_iff.mp hshown, shown_iff.mp hshown'⟩

theorem sum_zero {f : Nat → Nat} (h : ∑ k ∈ Finset.range K, f k = 0) (hk : k < K) : f k = 0 :=
  Finset.sum_eq_zero_iff.mp h k (Finset.mem_range.mpr hk)

theorem liveIds_grow (h : removed writes t K = 0) (hk : k < K) :
    liveIds (tableAt writes t k) ⊆ liveIds (tableAt writes t (k + 1)) := by
  have hgone := answers_gone (tableAt writes t k) (writes k)
  rw [sum_zero h hk, Nat.le_zero, Finset.card_eq_zero] at hgone
  exact Finset.sdiff_eq_empty_iff_subset.mp hgone

theorem liveIds_shrink (h : added writes t K = 0) (hk : k < K) :
    liveIds (tableAt writes t (k + 1)) ⊆ liveIds (tableAt writes t k) := by
  have hcome := answers_come (tableAt writes t k) (writes k)
  rw [sum_zero h hk, Nat.le_zero, Finset.card_eq_zero] at hcome
  exact Finset.sdiff_eq_empty_iff_subset.mp hcome

theorem stays_of_removed (h : removed writes t K = 0) (hlive : (liveRow t i).isSome = true) :
    Stays writes t K i := by
  intro k hk
  induction k with
  | zero => exact hlive
  | succ k ih =>
    exact liveRow_isSome.mpr (liveIds_grow h hk (liveRow_isSome.mp (ih (Nat.le_of_lt hk))))

theorem stays_of_added (h : added writes t K = 0)
    (hlive : (liveRow (tableAt writes t K) i).isSome = true) : Stays writes t K i := by
  intro k hk
  induction hk using Nat.decreasingInduction with
  | self => exact hlive
  | of_succ k hk ih => exact liveRow_isSome.mpr (liveIds_shrink h hk (liveRow_isSome.mp ih))

theorem added_mono (hk : k ≤ K) : added writes t k ≤ added writes t K :=
  Finset.sum_le_sum_of_subset (Finset.range_mono hk)

/-- **Paging while books are written** misses, of the books that stay, no more than are deleted
between the pages, and repeats no more than rows are inserted. -/
theorem books_read_on (writes : Nat → List BookRequest) (t : BookTable) (limit : Nat)
    (scans : Nat → Scan BookRow) (K : Nat) : ReadsOn writes t limit scans K := by
  constructor
  case missed => exact fun hshort ids => missed_le hshort
  case repeated => exact fun ids => repeated_le
  case complete =>
    intro hshort hzero i hlive
    by_contra hnot
    have hmissed : Missed writes t limit scans K i :=
      ⟨stays_of_removed hzero hlive, fun k hk hshown => hnot ⟨k, hk, hshown⟩⟩
    have hone := missed_le hshort (List.nodup_singleton i) (by simpa using hmissed)
    simp [hzero] at hone
  case once =>
    intro hzero i k hk j hj hshown hshown'
    have hzero' : added writes t k = 0 := Nat.le_zero.mp (hzero ▸ added_mono hk)
    have hlive : (liveRow (tableAt writes t k) i).isSome = true :=
      liveRow_isSome.mpr (Finset.mem_filter.mp (shown_iff.mp hshown')).1
    have hrepeated : Repeated writes t limit scans k i :=
      ⟨stays_of_added hzero' hlive, k, le_refl k, j, hj, hshown, hshown'⟩
    have hone := repeated_le (List.nodup_singleton i) (by simpa using hrepeated)
    simp [hzero'] at hone

end LibraryService.Domain
