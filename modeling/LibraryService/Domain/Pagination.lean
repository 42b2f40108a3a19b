import LibraryService.Database.BookStorage
import LibraryService.Domain.Books
import LibraryService.Domain.UserCommands

/-!
# Books and users page by page

The list queries at offsets 0, `limit`, 2 `limit`, .. on a table that nobody changes meanwhile.
-/

open Effect Relational Paging LibraryService.Python LibraryService.Database

namespace LibraryService.Domain

variable {α : Type}

def itemsOf : Except Exc (Pagination α) → List α
  | .ok p => p.items
  | .error _ => []

/-- Every answer has the total and a page of the right size, and the pages up to the total, one
after another, have exactly the live ones, as `ordered` says. -/
structure Visits (answers : Nat → Except Exc (Pagination α)) (limit total : Nat)
    (ordered : α → α → Prop) (live : α → Prop) : Prop where
  answered : ∀ k, ∃ items, answers k = .ok ⟨total, items⟩ ∧
    items.length = min limit (total - k * limit)
  pairwise : (walk limit total fun k => itemsOf (answers k)).Pairwise ordered
  mem_iff : ∀ a, a ∈ walk limit total (fun k => itemsOf (answers k)) ↔ live a

variable {limit total k : Nat}

/-! ## Books -/

section Books

variable {t : BookTable} {scans : Nat → Scan BookRow}

def liveBooks (t : BookTable) : List BookRow := t.rows.filter fun r => r.deletedAt.isNone

theorem mem_liveBooks {r : BookRow} : r ∈ liveBooks t ↔ r ∈ t.rows ∧ r.deletedAt = none := by
  simp [liveBooks]

/-- The answer to the `k`-th request. -/
def bookPage (t : BookTable) (limit : Nat) (scans : Nat → Scan BookRow) (k : Nat) :
    Except Exc BookPagination :=
  (request (FetchBookListQuery.execute .allReturn (scans k) ⟨limit, k * limit⟩) t).1

def booksById (t : BookTable) : List BookRow :=
  Scan.asStored.orderBy (fun r => r.id.int.toNat) (liveBooks t)

theorem UUID.eq_of_toNat {u v : UUID} (h : u.int.toNat = v.int.toNat) : u = v := by
  cases u
  cases v
  simpa using BitVec.eq_of_toNat_eq h

/-- The ids leave the executions no choice. -/
theorem orderBy_id (t : BookTable) (scan : Scan BookRow) :
    scan.orderBy (fun r => r.id.int.toNat) (liveBooks t) = booksById t := by
  apply orderBy_eq
  intro r hr r' hr' h
  exact book_id_unique (mem_liveBooks.mp hr).1 (mem_liveBooks.mp hr').1 (UUID.eq_of_toNat h)

theorem bookPage_eq (t : BookTable) (limit : Nat) (scans : Nat → Scan BookRow) (k : Nat) :
    bookPage t limit scans k =
      .ok ⟨(liveBooks t).length, page limit (k * limit) ((booksById t).map BookRow.toBook)⟩ := by
  have hrun : (BookService.fetchBookList (scans k) ⟨limit, k * limit⟩).runOn t =
      (.ok ⟨(liveBooks t).length, page limit (k * limit) ((booksById t).map BookRow.toBook)⟩, t) := by
    rw [← orderBy_id t (scans k), ← map_page, liveBooks, ← List.countP_eq_length_filter]
    rfl
  rw [bookPage, FetchBookListQuery.execute, request_ok hrun]

theorem length_booksById : (booksById t).length = (liveBooks t).length :=
  (perm_orderBy _ _ _).length_eq

theorem mem_booksById {r : BookRow} : r ∈ booksById t ↔ r ∈ t.rows ∧ r.deletedAt = none :=
  (perm_orderBy _ _ _).mem_iff.trans mem_liveBooks

theorem booksById_nodup : (booksById t).Nodup := by
  apply (perm_orderBy _ _ _).nodup_iff.mpr
  exact t.nodup.filter _

/-- **Paging through books visits every live book exactly once**, in the order of the ids, whatever
order each execution comes by the rows in. -/
theorem book_pages_visit (t : BookTable) (hlimit : 0 < limit) (scans : Nat → Scan BookRow) :
    Visits (bookPage t limit scans) limit (t.rows.countP fun r => r.deletedAt.isNone)
      (fun b b' => b.id.int.toNat < b'.id.int.toNat)
      (fun b => ∃ r ∈ t.rows, r.deletedAt = none ∧ r.toBook = b) := by
  have htotal : (t.rows.countP fun r => r.deletedAt.isNone) = ((booksById t).map BookRow.toBook).length := by
    rw [List.length_map, length_booksById, liveBooks, List.countP_eq_length_filter]
  have hwalk : (walk limit (t.rows.countP fun r => r.deletedAt.isNone)
      fun k => itemsOf (bookPage t limit scans k)) = (booksById t).map BookRow.toBook := by
    simp only [bookPage_eq, itemsOf, htotal]
    exact walk_page hlimit _
  constructor
  case answered =>
    intro k
    refine ⟨_, by rw [bookPage_eq, htotal, List.length_map, length_booksById], ?_⟩
    rw [length_page, htotal]
  case pairwise =>
    rw [hwalk, List.pairwise_map]
    have hsorted := pairwise_orderBy Scan.asStored (fun r : BookRow => r.id.int.toNat) (liveBooks t)
    refine (hsorted.and booksById_nodup).imp_of_mem fun {r r'} hr hr' h => ?_
    apply lt_of_le_of_ne h.1
    intro hid
    have hrow := mem_booksById.mp hr
    have hrow' := mem_booksById.mp hr'
    exact h.2 (book_id_unique hrow.1 hrow'.1 (UUID.eq_of_toNat hid))
  case mem_iff =>
    intro b
    rw [hwalk, List.mem_map]
    simp only [mem_booksById, and_assoc]

def shelfRow (id : UUID) (title : String) (deletedAt : Option Instant) : BookRow :=
  { id, title, year := 1913, author := "Proust", createdAt := 0, updatedAt := 0, deletedAt }

def shelf : BookTable :=
  ⟨[shelfRow ⟨3⟩ "Guermantes" none, shelfRow ⟨2⟩ "Swann" (some 1), shelfRow ⟨1⟩ "Swann" none],
    by decide⟩

theorem book_pages_visit_shelf :
    Visits (bookPage shelf 1 (shifting 1)) 1 2 (fun b b' => b.id.int.toNat < b'.id.int.toNat)
      (fun b => ∃ r ∈ shelf.rows, r.deletedAt = none ∧ r.toBook = b) :=
  book_pages_visit shelf Nat.one_pos (shifting 1)

end Books

/-! ## Users -/

section Users

variable {t : UserTable} {scans : Nat → Scan UserRow} {r : UserRow} {u : User} {f : UserRow → User}

def liveUsers (t : UserTable) : List UserRow := t.rows.filter fun r => r.deletedAt.isNone

theorem mem_liveUsers : r ∈ liveUsers t ↔ r ∈ t.rows ∧ r.deletedAt = none := by
  simp [liveUsers]

/-- The answer to the `k`-th request. -/
def userPage (t : UserTable) (limit : Nat) (scans : Nat → Scan UserRow) (k : Nat) :
    Except Exc UserPagination :=
  (request (FetchUserListQuery.execute .allReturn (scans k) ⟨limit, k * limit⟩) t).1

def VisitsUsers (t : UserTable) (limit : Nat) (scans : Nat → Scan UserRow) : Prop :=
  Visits (userPage t limit scans) limit (t.rows.countP fun r => r.deletedAt.isNone) (· ≠ ·)
    fun u => ∃ r ∈ t.rows, r.deletedAt = none ∧ rowToUser r = .ok u

theorem rowToUser_eq_ok (h : rowToUser r = .ok u) : r.Known ∧ u.id = r.id := by
  obtain ⟨s, hs, h⟩ := except_bind_eq_ok h
  cases h
  exact ⟨⟨s, hs⟩, rfl⟩

theorem fetchUserList_runOn {scan : Scan UserRow} {params : UserPaginationParams}
    (hf : ∀ r ∈ liveUsers t, rowToUser r = .ok (f r)) :
    (UserService.fetchUserList scan params).runOn t = (.ok ⟨(liveUsers t).length,
      (page params.limit params.offset (scan.list (liveUsers t))).map f⟩, t) := by
  have hrows : (page params.limit params.offset (scan.list (liveUsers t))).mapM rowToUser =
      .ok ((page params.limit params.offset (scan.list (liveUsers t))).map f) :=
    mapM_ok fun r hr => hf r ((scan.perm _).mem_iff.mp (mem_of_mem_page hr))
  have hitems : (UserStorage.fetchUserList scan params).runOn t =
      (.ok ((page params.limit params.offset (scan.list (liveUsers t))).map f), t) := by
    unfold UserStorage.fetchUserList
    rw [runOn_bind_ok (runOn_get t)]
    exact ofExcept_ok hrows t
  unfold UserService.fetchUserList
  rw [runOn_bind_ok (a := (liveUsers t).length) (t := t), runOn_bind_ok hitems, runOn_pure]
  unfold UserStorage.countUsers
  rw [runOn_bind_ok (runOn_get t), liveUsers, ← List.countP_eq_length_filter, runOn_pure]

theorem userPage_eq (hf : ∀ r ∈ liveUsers t, rowToUser r = .ok (f r)) (k : Nat) :
    userPage t limit scans k = .ok ⟨(liveUsers t).length,
      (page limit (k * limit) ((scans k).list (liveUsers t))).map f⟩ := by
  unfold userPage FetchUserListQuery.execute
  rw [request_ok (fetchUserList_runOn hf)]

theorem known_of_userPage {p : UserPagination} (h : userPage t limit scans k = .ok p)
    (hr : r ∈ page limit (k * limit) ((scans k).list (liveUsers t))) : r.Known := by
  unfold userPage request at h
  obtain ⟨w, hw⟩ : ∃ w, (FetchUserListQuery.execute .allReturn (scans k) ⟨limit, k * limit⟩).runOn
      (World.fresh t) = (.ok p, w) := ⟨_, Prod.ext h rfl⟩
  obtain ⟨total, t₁, hcount, hrest⟩ := bind_eq_ok (asyncWith_eq_ok rfl hw)
  cases hcount
  obtain ⟨items, _, hitems, -⟩ := bind_eq_ok hrest
  obtain ⟨_, _, hget, hrows⟩ := bind_eq_ok hitems
  cases hget
  rw [runOn_ofExcept, Prod.mk.injEq] at hrows
  obtain ⟨u, hu⟩ := mapM_eq_ok hrows.1 r hr
  exact (rowToUser_eq_ok hu).1

theorem exists_users (h : ∀ r ∈ liveUsers t, r.Known) :
    ∃ f : UserRow → User, ∀ r ∈ liveUsers t, rowToUser r = .ok (f r) := by
  have hget : ∀ r ∈ liveUsers t, ∃ u, rowToUser r = .ok u := fun r hr =>
    (rowToUser_known (h r hr)).imp fun _ hu => hu.1
  have : Nonempty User := ⟨⟨⟨0⟩, "", "", false, ∅, 0, 0⟩⟩
  choose! f hf using hget
  exact ⟨f, hf⟩

theorem visitsUsers_onePage (hknown : ∀ r ∈ liveUsers t, r.Known) (h : (liveUsers t).length ≤ limit)
    (scans : Nat → Scan UserRow) : VisitsUsers t limit scans := by
  obtain ⟨f, hf⟩ := exists_users hknown
  have htotal : (t.rows.countP fun r => r.deletedAt.isNone) = (liveUsers t).length := by
    rw [liveUsers, List.countP_eq_length_filter]
  have hwalk : (walk limit (liveUsers t).length fun k => itemsOf (userPage t limit scans k)) =
      ((scans 0).list (liveUsers t)).map f := by
    simp only [userPage_eq hf, itemsOf]
    rw [← walk_onePage h scans, walk, walk, List.map_flatMap]
  have hmem : ∀ r, r ∈ (scans 0).list (liveUsers t) ↔ r ∈ liveUsers t := fun r =>
    ((scans 0).perm _).mem_iff
  unfold VisitsUsers
  rw [htotal]
  constructor
  case answered =>
    intro k
    refine ⟨_, userPage_eq hf k, ?_⟩
    rw [List.length_map, length_page, ((scans k).perm _).length_eq]
  case pairwise =>
    rw [hwalk, List.pairwise_map]
    have hnodup : ((scans 0).list (liveUsers t)).Nodup :=
      ((scans 0).perm _).nodup_iff.mpr (t.nodup.filter _)
    refine List.Pairwise.imp_of_mem (fun {r r'} hr hr' hne hff => hne ?_) hnodup
    have hr := (hmem r).mp hr
    have hr' := (hmem r').mp hr'
    apply user_id_unique (mem_liveUsers.mp hr).1 (mem_liveUsers.mp hr').1
    rw [← (rowToUser_eq_ok (hf r hr)).2, ← (rowToUser_eq_ok (hf r' hr')).2, hff]
  case mem_iff =>
    intro u
    rw [hwalk, List.mem_map]
    constructor
    · rintro ⟨r, hr, rfl⟩
      have hr := (hmem r).mp hr
      exact ⟨r, (mem_liveUsers.mp hr).1, (mem_liveUsers.mp hr).2, hf r hr⟩
    · rintro ⟨r, hrow, hlive, hu⟩
      have hr := mem_liveUsers.mpr ⟨hrow, hlive⟩
      refine ⟨r, (hmem r).mpr hr, ?_⟩
      rw [hf r hr] at hu
      exact Except.ok.inj hu

def userRow (id : UUID) (username email : String) : UserRow :=
  { id, username, email, passwordHash := none, isSuperuser := false, permissions := [], createdAt := 0,
    updatedAt := 0, deletedAt := none }

def ada : UserRow := userRow ⟨1⟩ "ada" "ada@example.com"

def grace : UserRow := userRow ⟨2⟩ "grace" "grace@example.com"

def twoUsers : UserTable := ⟨[ada, grace], by decide⟩

def adaUser : User :=
  { id := ⟨1⟩, username := "ada", email := "ada@example.com", isSuperuser := false, permissions := ∅,
    createdAt := 0, updatedAt := 0 }

/-- Each execution may come by the rows in another order: one user is on both pages, and the other
one on none. -/
theorem user_page_repeats :
    (walk 1 2 fun k => itemsOf (userPage twoUsers 1 (shifting 1) k)) = [adaUser, adaUser] ∧
      ¬ VisitsUsers twoUsers 1 (shifting 1) := by
  have hwalk : (walk 1 2 fun k => itemsOf (userPage twoUsers 1 (shifting 1) k)) =
    [adaUser, adaUser] := rfl
  refine ⟨hwalk, fun h => ?_⟩
  have hpairwise := h.pairwise
  have htotal : (twoUsers.rows.countP fun r => r.deletedAt.isNone) = 2 := rfl
  rw [htotal, hwalk] at hpairwise
  simp at hpairwise

/-- **Paging through users visits every live user exactly once**, in whatever orders the executions
come by the rows, exactly where one page holds them all. -/
theorem user_pages_visit_iff (t : UserTable) (hlimit : 0 < limit) :
    (∀ scans, VisitsUsers t limit scans) ↔
      (∀ r ∈ t.rows, r.deletedAt = none → r.Known) ∧
        (t.rows.countP fun r => r.deletedAt.isNone) ≤ limit := by
  have htotal : (t.rows.countP fun r => r.deletedAt.isNone) = (liveUsers t).length := by
    rw [liveUsers, List.countP_eq_length_filter]
  rw [htotal]
  constructor
  · intro h
    have hknown : ∀ r ∈ liveUsers t, r.Known := by
      intro r hr
      rw [← walk_page hlimit (liveUsers t), mem_walk] at hr
      obtain ⟨k, -, hr⟩ := hr
      obtain ⟨items, hpage, -⟩ := (h fun _ => .asStored).answered k
      exact known_of_userPage hpage hr
    refine ⟨fun r hr hlive => hknown r (mem_liveUsers.mpr ⟨hr, hlive⟩), ?_⟩
    by_contra hmany
    obtain ⟨f, hf⟩ := exists_users hknown
    have hpairwise := (h (shifting limit)).pairwise
    rw [htotal] at hpairwise
    simp only [userPage_eq hf, itemsOf] at hpairwise
    rw [walk, ← List.map_flatMap] at hpairwise
    exact walk_shifting hlimit (Nat.lt_of_not_le hmany) (List.Nodup.of_map f hpairwise)
  · rintro ⟨hknown, h⟩ scans
    apply visitsUsers_onePage _ h
    intro r hr
    exact hknown r (mem_liveUsers.mp hr).1 (mem_liveUsers.mp hr).2

theorem user_pages_visit_two : 0 < 2 ∧ ∀ scans, VisitsUsers twoUsers 2 scans := by
  refine ⟨Nat.two_pos, (user_pages_visit_iff twoUsers Nat.two_pos).mpr ⟨?_, Nat.le_refl 2⟩⟩
  intro r hr _
  simp only [twoUsers, List.mem_cons, List.not_mem_nil, or_false] at hr
  rcases hr with rfl | rfl
  · exact ⟨∅, rfl⟩
  · exact ⟨∅, rfl⟩

end Users

end LibraryService.Domain
