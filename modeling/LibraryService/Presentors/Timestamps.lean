import LibraryService.Domain.BookCommands
import LibraryService.Domain.BookMap
import LibraryService.Presentors.UserWrites

/-!
# Row timestamps

The times that a run of writes leaves in the rows of both tables, and the clock they are read from.
-/

open Transition Effect Relational LibraryService.Python LibraryService.Database LibraryService.Domain

namespace LibraryService.Presentors

/-! ## Both tables -/

inductive RowKey
  | book (id : UUID)
  | user (id : UUID)
  deriving DecidableEq, Repr

/-- A row as its `TimestampedMixin` sees it. -/
structure Stamps where
  key : RowKey
  createdAt : Instant
  updatedAt : Instant
  deletedAt : Option Instant
  deriving DecidableEq, Repr

def bookStamps (r : BookRow) : Stamps :=
  { key := .book r.id, createdAt := r.createdAt, updatedAt := r.updatedAt, deletedAt := r.deletedAt }

def userStamps (r : UserRow) : Stamps :=
  { key := .user r.id, createdAt := r.createdAt, updatedAt := r.updatedAt, deletedAt := r.deletedAt }

structure Tables where
  books : BookTable
  users : UserTable

def Tables.empty : Tables := ⟨Table.empty, Table.empty⟩

def Tables.stamps (s : Tables) : List Stamps :=
  s.books.rows.map bookStamps ++ s.users.rows.map userStamps

variable {isEmail : EmailCheck}

inductive TableWrite (isEmail : EmailCheck)
  | book (req : BookRequest)
  | user (w : UserWrite isEmail)

inductive TableAnswer
  | book (res : Except Exc BookAnswer)
  | user (res : Except Exc UserResponse)

def handleTables (iter : IterOrder) (crypt : CryptContext) (s : Tables) :
    TableWrite isEmail → TableAnswer × Tables
  | .book req => (.book (handleBook s.books req).1, { s with books := (handleBook s.books req).2 })
  | .user w =>
    (.user (handleWrite iter crypt s.users w).1, { s with users := (handleWrite iter crypt s.users w).2 })

/-! ## The clock -/

namespace TableWrite

/-- The statement of a write that inserts rows. -/
def inserting : TableWrite isEmail → Option Stmt
  | book (.create st _) | book (.saveBulk st _) | user (.create st _) | user (.register st _ _) =>
    some st
  | book (.update _ _) | book (.delete _ _) | book (.fetch _) | user (.update _ _ _)
  | user (.delete _ _) => none

/-- The readings of the clock that a write puts into rows: the start of an inserting transaction,
and Python's clock for the others. -/
def readings : TableWrite isEmail → List Instant
  | book (.create st _) | book (.saveBulk st _) | user (.create st _) | user (.register st _ _) =>
    [st.txnStart]
  | book (.update st _) | user (.update st _ _) => [st.clock 0]
  | book (.delete st _) | user (.delete st _) => [st.clock 0, st.clock 1]
  | book (.fetch _) => []

/-- The session of an inserting write takes the wall clock of UTC for what it is. -/
def InUtc (w : TableWrite isEmail) : Prop :=
  ∀ st, w.inserting = some st → st.zone st.txnStart = st.txnStart

end TableWrite

/-- All readings of the run come from one clock that never runs backwards. -/
def OneClock (reqs : List (TableWrite isEmail)) : Prop :=
  (reqs.flatMap TableWrite.readings).Pairwise (· ≤ ·)

variable (iter : IterOrder) (crypt : CryptContext)

def tablesAfter (reqs : List (TableWrite isEmail)) : Tables :=
  (answers (handleTables iter crypt) Tables.empty reqs).2

/-- The row was created when its inserting transaction started, and is not older than that. -/
structure TrueStamps (reqs : List (TableWrite isEmail)) (x : Stamps) : Prop where
  inserted : ∃ before w after st, reqs = before ++ w :: after ∧ w.inserting = some st ∧
    (∀ y ∈ (tablesAfter iter crypt before).stamps, y.key ≠ x.key) ∧
    (∃ y ∈ (tablesAfter iter crypt (before ++ [w])).stamps, y.key = x.key) ∧
    x.createdAt = st.txnStart
  updated : x.createdAt ≤ x.updatedAt
  deleted : ∀ d, x.deletedAt = some d → x.createdAt ≤ d

variable {iter crypt} {s : Tables} {w : TableWrite isEmail} {old old' : List Stamps} {x : Stamps}
  {reqs : List (TableWrite isEmail)}

/-! ## What one write does to the stamps -/

/-- Where a row after a write comes from: it was there, or is new, or took the place of a row with
its key and its creation time. -/
inductive Stamped (w : TableWrite isEmail) (old : List Stamps) (x : Stamps) : Prop
  | kept (h : x ∈ old)
  | inserted (st : Stmt) (hw : w.inserting = some st) (hnew : ∀ y ∈ old, y.key ≠ x.key)
      (hcreated : x.createdAt = st.serverNow) (hupdated : x.updatedAt = st.serverNow)
      (hdeleted : x.deletedAt = none)
  | touched (y : Stamps) (hy : y ∈ old) (hkey : x.key = y.key)
      (hcreated : x.createdAt = y.createdAt) (hupdated : x.updatedAt ∈ w.readings)
      (hdeleted : x.deletedAt = y.deletedAt ∨ ∃ d ∈ w.readings, x.deletedAt = some d)

theorem Stamped.mono (h : Stamped w old x) (hold : ∀ y ∈ old, y ∈ old')
    (hnew : ∀ y ∈ old', y ∈ old ∨ y.key ≠ x.key) : Stamped w old' x := by
  cases h with
  | kept h => exact .kept (hold x h)
  | inserted st hw hfresh hcreated hupdated hdeleted =>
    refine .inserted st hw (fun y hy => ?_) hcreated hupdated hdeleted
    rcases hnew y hy with hy | hne
    · exact hfresh y hy
    · exact hne
  | touched y hy hkey hcreated hupdated hdeleted =>
    exact .touched y (hold y hy) hkey hcreated hupdated hdeleted

section Rows

variable {ρ : Type} {stampsOf : ρ → Stamps} {rows : List ρ} {r x : ρ}

theorem stamped_same (hx : x ∈ rows) : Stamped w (rows.map stampsOf) (stampsOf x) :=
  .kept (List.mem_map_of_mem hx)

theorem stamped_new {st : Stmt} (hw : w.inserting = some st)
    (hnew : ∀ y ∈ rows, (stampsOf y).key ≠ (stampsOf x).key)
    (hx : stampsOf x = ⟨(stampsOf x).key, st.serverNow, st.serverNow, none⟩) :
    Stamped w (rows.map stampsOf) (stampsOf x) := by
  rw [hx] at hnew ⊢
  refine .inserted st hw ?_ rfl rfl rfl
  simpa using hnew

theorem stamped_replaced (r' : ρ) (hr : r ∈ rows) (hkey : (stampsOf r').key = (stampsOf r).key)
    (hcreated : (stampsOf r').createdAt = (stampsOf r).createdAt)
    (hupdated : (stampsOf r').updatedAt ∈ w.readings)
    (hdeleted : (stampsOf r').deletedAt = (stampsOf r).deletedAt ∨
      ∃ d ∈ w.readings, (stampsOf r').deletedAt = some d)
    (hx : x = r' ∨ x ∈ rows) : Stamped w (rows.map stampsOf) (stampsOf x) := by
  rcases hx with rfl | hx
  · exact .touched (stampsOf r) (List.mem_map_of_mem hr) hkey hcreated hupdated hdeleted
  · exact stamped_same hx

end Rows

theorem handleBook_stamped (t : BookTable) (req : BookRequest) {x : BookRow}
    (hx : x ∈ (handleBook t req).2.rows) :
    Stamped (.book req : TableWrite isEmail) (t.rows.map bookStamps) (bookStamps x) := by
  cases req with
  | create st book =>
    rw [handleBook, respond_snd] at hx
    rcases request_createBook st book t with
      ⟨e, -, hres⟩ | ⟨-, -, hres⟩ | ⟨-, -, t', hres, hrows, hnew⟩ <;> rw [hres] at hx
    · exact stamped_same hx
    · exact stamped_same hx
    · rw [hrows, List.mem_append, List.mem_singleton] at hx
      rcases hx with hx | rfl
      · exact stamped_same hx
      · exact stamped_new rfl (by simpa [bookStamps] using hnew) rfl
  | update st u =>
    rw [handleBook, respond_snd] at hx
    cases hlive : liveRow t u.id with
    | none =>
      rw [request_updateBook_missing st hlive] at hx
      exact stamped_same hx
    | some r =>
      rcases request_updateBook st hlive with
        ⟨e, -, hres⟩ | ⟨-, -, ⟨-, hres⟩ | ⟨-, t', hres, hmem⟩⟩ <;> rw [hres] at hx
      · exact stamped_same hx
      · exact stamped_same hx
      · exact stamped_replaced (updatedRow st u r) (liveRow_eq_some.mp hlive).1 rfl rfl (.head _)
          (.inl rfl) (((hmem x).mp hx).imp_right And.left)
  | delete st bookId =>
    rw [handleBook, respond_snd] at hx
    rcases request_deleteBook st bookId t with ⟨-, hres⟩ | ⟨r, t', hlive, hres, hmem⟩ <;>
      rw [hres] at hx
    · exact stamped_same hx
    · exact stamped_replaced (markDeleted st r) (liveRow_eq_some.mp hlive).1 rfl rfl
        (.tail _ (.head _)) (.inr ⟨_, .head _, rfl⟩) (((hmem x).mp hx).imp_right And.left)
  | saveBulk st books =>
    rw [handleBook, respond_snd] at hx
    rcases request_cases t (BookService.saveBulkBooks st books)
      (fun e t' h => insertOnConflictDoNothing_raises h) with ⟨e, hres⟩ | ⟨_, t', hrun, hres⟩ <;>
      rw [saveBulkBooks, hres] at hx
    · exact stamped_same hx
    · rcases saveBulkBooks_new hrun hx with hx | ⟨hx, hnew⟩
      · exact stamped_same hx
      · obtain ⟨k, hk, rfl⟩ := mem_bulkRows.mp hx
        exact stamped_new rfl (by simpa [bookStamps] using hnew) rfl
  | fetch bookId =>
    rw [handleBook, respond_snd] at hx
    rcases request_fetchBook bookId t with ⟨-, hres⟩ | ⟨r, -, hres⟩ <;> rw [hres] at hx
    · exact stamped_same hx
    · exact stamped_same hx

theorem create_stamped {t : UserTable} {st : Stmt} {user : CreateUser} (hw : w.inserting = some st)
    {x : UserRow} (hx : x ∈ (request (CreateUserCommand.execute .allReturn st iter user) t).2.rows) :
    Stamped w (t.rows.map userStamps) (userStamps x) := by
  rcases request_createUser st iter user t with
    ⟨e, -, hres⟩ | ⟨-, -, hres⟩ | ⟨-, -, hnew, u, t', -, hres, hrows⟩ <;> rw [hres] at hx
  · exact stamped_same hx
  · exact stamped_same hx
  · rw [hrows, List.mem_append, List.mem_singleton] at hx
    rcases hx with hx | rfl
    · exact stamped_same hx
    · exact stamped_new hw (by simpa [userStamps] using hnew) rfl

theorem handleWrite_stamped {t : UserTable} (hknown : AllKnown t) (w : UserWrite isEmail)
    {x : UserRow} (hx : x ∈ (handleWrite iter crypt t w).2.rows) :
    Stamped (.user w) (t.rows.map userStamps) (userStamps x) := by
  cases w with
  | create st data =>
    rw [handleWrite_create] at hx
    exact create_stamped rfl hx
  | register st salt data =>
    rw [handleWrite_register] at hx
    cases hhash : crypt.hash salt data.password with
    | ok passwordHash =>
      rw [request_register hhash] at hx
      exact create_stamped rfl hx
    | error e =>
      rw [request_register_error hhash] at hx
      exact stamped_same hx
  | update st userId data =>
    cases hempty : data.isEmpty with
    | true =>
      rw [handleWrite_update_empty iter crypt t st userId hempty] at hx
      exact stamped_same hx
    | false =>
      rw [handleWrite_update iter crypt t st userId hempty] at hx
      cases hlive : liveUser t userId with
      | none =>
        rw [request_updateUser_missing hlive] at hx
        exact stamped_same hx
      | some r =>
        have hr := (liveUser_eq_some.mp hlive).1
        rcases request_updateUser st (u := ⟨userId, data.username, data.email⟩) hlive (hknown r hr)
          with ⟨e, -, hres⟩ | ⟨-, -, -, user, t', -, hres, hmem⟩ <;> rw [hres] at hx
        · exact stamped_same hx
        · exact stamped_replaced (updatedUser st ⟨userId, data.username, data.email⟩ r) hr rfl rfl
            (.head _) (.inl rfl) (((hmem x).mp hx).imp_right And.left)
  | delete st userId =>
    rw [handleWrite, respond_snd] at hx
    rcases request_deleteUser st userId t with ⟨-, hres⟩ | ⟨r, t', hlive, hres, hmem⟩ <;>
      rw [deleteUserById, hres] at hx
    · exact stamped_same hx
    · exact stamped_replaced (markUserDeleted st r) (liveUser_eq_some.mp hlive).1 rfl rfl
        (.tail _ (.head _)) (.inr ⟨_, .head _, rfl⟩) (((hmem x).mp hx).imp_right And.left)

theorem handleTables_stamped (hknown : AllKnown s.users)
    (hx : x ∈ (handleTables iter crypt s w).2.stamps) : Stamped w s.stamps x := by
  cases w with
  | book req =>
    rcases List.mem_append.mp hx with hx | hx
    · obtain ⟨r, hr, rfl⟩ := List.mem_map.mp hx
      refine (handleBook_stamped s.books req hr).mono (fun y hy => List.mem_append_left _ hy) ?_
      intro y hy
      refine (List.mem_append.mp hy).imp_right fun hy => ?_
      obtain ⟨z, -, rfl⟩ := List.mem_map.mp hy
      simp [bookStamps, userStamps]
    · exact .kept (List.mem_append_right _ hx)
  | user w =>
    rcases List.mem_append.mp hx with hx | hx
    · exact .kept (List.mem_append_left _ hx)
    · obtain ⟨r, hr, rfl⟩ := List.mem_map.mp hx
      refine (handleWrite_stamped hknown w hr).mono (fun y hy => List.mem_append_right _ hy) ?_
      intro y hy
      refine (List.mem_append.mp hy).symm.imp_right fun hy => ?_
      obtain ⟨z, -, rfl⟩ := List.mem_map.mp hy
      simp [bookStamps, userStamps]

/-! ## Runs -/

theorem tablesAfter_snoc (reqs : List (TableWrite isEmail)) (w : TableWrite isEmail) :
    tablesAfter iter crypt (reqs ++ [w]) = (handleTables iter crypt (tablesAfter iter crypt reqs) w).2 := by
  rw [tablesAfter, answers_append]
  rfl

theorem tablesAfter_known (reqs : List (TableWrite isEmail)) :
    AllKnown (tablesAfter iter crypt reqs).users := by
  refine answers_keep (I := fun s : Tables => AllKnown s.users) (fun s w h => ?_) .empty reqs
  cases w with
  | book req => exact h
  | user w => exact (handleWrite_change iter crypt h w).known h

theorem TrueStamps.snoc (h : TrueStamps iter crypt reqs x) (w : TableWrite isEmail) :
    TrueStamps iter crypt (reqs ++ [w]) x := by
  obtain ⟨⟨before, v, after, st, rfl, hv⟩, hupdated, hdeleted⟩ := h
  exact ⟨⟨before, v, after ++ [w], st, by simp, hv⟩, hupdated, hdeleted⟩

theorem mem_readings {st : Stmt} (h : w.inserting = some st) : st.txnStart ∈ w.readings := by
  unfold TableWrite.inserting at h
  unfold TableWrite.readings
  split at h <;> cases h <;> exact .head _

theorem created_le (h : TrueStamps iter crypt reqs x) (hclock : OneClock (reqs ++ [w])) {i : Instant}
    (hi : i ∈ w.readings) : x.createdAt ≤ i := by
  obtain ⟨before, v, after, st, rfl, hv, -, -, hcreated⟩ := h.inserted
  unfold OneClock at hclock
  rw [List.flatMap_append, List.pairwise_append] at hclock
  rw [hcreated]
  apply hclock.2.2
  · simp [mem_readings hv]
  · simpa using hi

/-- **Row timestamps are true** in every run of writes in which the sessions of all inserting
transactions take the wall clock of UTC for what it is, and all clock readings are of one clock. -/
theorem row_stamps_true (hclock : OneClock reqs) (hutc : ∀ w ∈ reqs, w.InUtc) :
    ∀ x ∈ (tablesAfter iter crypt reqs).stamps, TrueStamps iter crypt reqs x := by
  induction reqs using List.reverseRecOn with
  | nil => exact fun x hx => absurd hx List.not_mem_nil
  | append_singleton reqs w ih =>
    have hbefore : OneClock reqs := by
      unfold OneClock at hclock
      rw [List.flatMap_append, List.pairwise_append] at hclock
      exact hclock.1
    have hold := ih hbefore fun v hv => hutc v (by simp [hv])
    intro x hx
    have hx' := hx
    rw [tablesAfter_snoc] at hx'
    cases handleTables_stamped (tablesAfter_known reqs) hx' with
    | kept h => exact (hold x h).snoc w
    | inserted st hw hnew hcreated hupdated hdeleted =>
      have hserver : st.serverNow = st.txnStart := hutc w (by simp) st hw
      refine ⟨⟨reqs, w, [], st, rfl, hw, hnew, ⟨x, hx, rfl⟩, hcreated.trans hserver⟩, ?_, ?_⟩
      · rw [hcreated, hupdated]
      · intro d hd
        rw [hdeleted] at hd
        cases hd
    | touched y hy hkey hcreated hupdated hdeleted =>
      have htrue := (hold y hy)
      obtain ⟨hinserted, -, hdel⟩ := htrue.snoc w
      refine ⟨by rw [hkey, hcreated]; exact hinserted, ?_, ?_⟩
      · rw [hcreated]
        exact created_le htrue hclock hupdated
      · intro d hd
        rw [hcreated]
        rcases hdeleted with hsame | ⟨d', hd', hset⟩
        · exact hdel d (hsame ▸ hd)
        · rw [hset] at hd
          cases hd
          exact created_le htrue hclock hd'

/-- Ada and a book are created, the book gets a new title and is deleted, all in UTC. -/
def utcRun : List (TableWrite toyEmail) :=
  [.user createAda, .book (.create (.counting 0) ⟨"Iliad", 1488, "Homer"⟩),
    .book (.update (.counting 0) ⟨⟨0⟩, some (some "Odyssey"), none, none⟩),
    .book (.delete (.counting 0) ⟨0⟩)]

theorem row_stamps_true_utcRun :
    (tablesAfter .declared toyCrypt utcRun).stamps.length = 2 ∧
      ∀ x ∈ (tablesAfter .declared toyCrypt utcRun).stamps,
        TrueStamps .declared toyCrypt utcRun x := by
  have hclock : OneClock utcRun := by
    change List.Pairwise (· ≤ ·) [(0 : Int), 0, 1, 1, 2]
    decide
  refine ⟨rfl, row_stamps_true hclock fun w hw st hst => ?_⟩
  simp only [utcRun, createAda, List.mem_cons, List.not_mem_nil, or_false] at hw
  rcases hw with rfl | rfl | rfl | rfl <;> cases hst <;> rfl

/-- A session five hours behind UTC, and an update one second after the create. -/
def behindRun : List (TableWrite toyEmail) :=
  [.book (.create { Stmt.counting 0 with zone := fun i => i + 5 * 3600 } ⟨"Iliad", 1488, "Homer"⟩),
    .book (.update (.counting 0) ⟨⟨0⟩, some (some "Odyssey"), none, none⟩)]

/-- The row was created five hours after it was updated. -/
theorem behind_utc_created_late :
    OneClock behindRun ∧ ∃ x ∈ (tablesAfter .declared toyCrypt behindRun).stamps,
      x.createdAt = 5 * 3600 ∧ x.updatedAt = 1 ∧ ¬ TrueStamps .declared toyCrypt behindRun x := by
  constructor
  · change List.Pairwise (· ≤ ·) [(0 : Int), 1]
    decide
  · refine ⟨_, List.mem_singleton.mpr rfl, rfl, rfl, fun h => ?_⟩
    exact absurd h.updated (by decide)

end LibraryService.Presentors
