import LibraryService.General.RowLocks
import LibraryService.Domain.BookMap

/-!
# Book commands side by side

`DeleteBookByIdCommand` and `UpdateBookByIdCommand` as the statements that each sends in a
transaction of its own, under READ COMMITTED: a statement sees what is committed when it runs, and
an UPDATE waits for the lock of its row and for versions that might be duplicates of its own.
-/

open Transition Effect Relational LibraryService.Python LibraryService.Database

namespace LibraryService.Domain

section Replace

variable {t : BookTable} {o n : BookRow} {bookId : UUID}
  {h : ∀ r ∈ t.rows, r ≠ o → Apart [booksPk, booksTriple] r n}

theorem liveRow_replace (ho : o ∈ t.rows) (hid : n.id = o.id) :
    liveRow (t.replace o n h) bookId =
      if bookId = o.id then if n.deletedAt = none then some n else none else liveRow t bookId := by
  ext x
  rw [liveRow_eq_some, Table.mem_replace h ho]
  split
  case isTrue hb =>
    subst hb
    have hnone : x ∈ t.rows ∧ x ≠ o → x.id ≠ o.id := fun hx hxid => hx.2 (book_id_unique hx.1 ho hxid)
    split
    case isTrue hd =>
      rw [Option.some.injEq]
      constructor
      · rintro ⟨rfl | hx, hxid, -⟩
        · rfl
        · exact absurd hxid (hnone hx)
      · rintro rfl
        exact ⟨.inl rfl, hid, hd⟩
    case isFalse hd =>
      refine iff_of_false ?_ nofun
      rintro ⟨rfl | hx, hxid, hxd⟩
      · exact hd hxd
      · exact hnone hx hxid
  case isFalse hb =>
    rw [liveRow_eq_some]
    constructor
    · rintro ⟨rfl | hx, hxid, hxd⟩
      · exact absurd (hxid.symm.trans hid) hb
      · exact ⟨hx.1, hxid, hxd⟩
    · rintro ⟨hx, hxid, hxd⟩
      exact ⟨.inr ⟨hx, by rintro rfl; exact hb hxid.symm⟩, hxid, hxd⟩

end Replace

inductive BookWrite
  | delete (st : Stmt) (bookId : UUID)
  | update (st : Stmt) (u : UpdateBook)

namespace BookWrite

def bookId : BookWrite → UUID
  | .delete _ bookId => bookId
  | .update _ u => u.id

def request : BookWrite → BookRequest
  | .delete st bookId => .delete st bookId
  | .update st u => .update st u

/-- The UPDATE, with what the storage makes of its result. -/
def statement : BookWrite → Eff BookTable Exc BookAnswer
  | .delete st bookId => do
    BookStorage.deleteBookById st bookId
    pure .done
  | .update st u => do
    let book ← BookStorage.updateBookById st u
    pure (.book book)

/-- The SET clause. -/
def assign : BookWrite → BookRow → Except Exc BookRow
  | .delete st _ => setDeleted st
  | .update st u => setBook st u.toDict

def fits : BookWrite → Bool
  | .delete _ _ => true
  | .update _ u => u.toDict.all BookValue.fits

/-- The row that the WHERE clause finds in the newest committed versions, and its new version; none
where a parameter or a NULL is refused first. -/
def version (c : BookWrite) (t : BookTable) : Option (BookRow × BookRow) :=
  if c.fits then
    (t.rows.find? fun r => decide (r.id = c.bookId)).bind fun o =>
      match c.assign o with
      | .error _ => none
      | .ok n => some (o, n)
  else none

end BookWrite

/-- How far a command is; `failed` is one that an error from outside its statements rolled back. -/
inductive Phase
  | begun
  | found
  | wrote (answer : BookAnswer)
  | ended (outcome : Except Exc BookAnswer)
  | failed (e : Exc)
  deriving DecidableEq

structure Side (τ : Type) where
  versions : Versions τ [booksPk, booksTriple]
  phase : τ → Phase

inductive Label (τ : Type)
  | select (i : τ)
  | update (i : τ)
  | commit (i : τ)
  | fail (i : τ) (e : Exc)

namespace Side

variable {τ : Type} [DecidableEq τ]

def start (τ : Type) (t : BookTable) : Side τ := ⟨.start τ t, fun _ => .begun⟩

def move (s : Side τ) (i : τ) (p : Phase) : Side τ :=
  { s with phase := Function.update s.phase i p }

@[simp] theorem phase_move_self (s : Side τ) (i : τ) (p : Phase) : (s.move i p).phase i = p :=
  Function.update_self ..

@[simp] theorem phase_move_of_ne {s : Side τ} {i j : τ} (h : j ≠ i) (p : Phase) :
    (s.move i p).phase j = s.phase j :=
  Function.update_of_ne h ..

variable (cmd : τ → BookWrite)

/-- `SELECT EXISTS`; the command of a missing book raises, and is rolled back. -/
def select (s : Side τ) (i : τ) : Side τ :=
  match ((BookStorage.existsBookById (cmd i).bookId).runOn s.versions.table).1 with
  | .ok true => s.move i .found
  | .ok false => s.move i (.ended (.error (entityNotFound "Book" (cmd i).bookId)))
  | .error e => s.move i (.ended (.error e))

/-- The UPDATE. A command whose statement raises is rolled back at once. -/
def update (s : Side τ) (i : τ) : Option (Side τ) :=
  let result := ((cmd i).statement.runOn s.versions.table).1
  match (cmd i).version s.versions.table with
  | none => some (s.move i (.ended result))
  | some (o, n) =>
    if s.versions.Waits o n then none
    else
      match result with
      | .error e => some (s.move i (.ended (.error e)))
      | .ok answer =>
        if h : s.versions.Admits i o n then
          some ({ s with versions := s.versions.write i o n h }.move i (.wrote answer))
        else none

def step (s : Side τ) : Label τ → Option (Side τ)
  | .select i => if s.phase i = .begun then some (s.select cmd i) else none
  | .update i => if s.phase i = .found then s.update cmd i else none
  | .commit i =>
    match s.phase i with
    | .wrote answer =>
      some ({ s with versions := s.versions.commit i }.move i (.ended (.ok answer)))
    | _ => none
  | .fail i e =>
    match s.phase i with
    | .ended _ | .failed _ => none
    | _ => some ({ s with versions := s.versions.abort i }.move i (.failed e))

end Side

/-! ## What one UPDATE does -/

namespace BookWrite

variable {c : BookWrite} {t : BookTable} {o n : BookRow}

def answer : BookWrite → BookRow → BookAnswer
  | .delete _ _, _ => .done
  | .update _ _, n => .book n.toBook

theorem version_eq_some : c.version t = some (o, n) ↔
    c.fits = true ∧ o ∈ t.rows ∧ o.id = c.bookId ∧ c.assign o = .ok n := by
  unfold version
  constructor
  · intro h
    split at h
    case isFalse => cases h
    case isTrue hfits =>
      obtain ⟨r, hr, h⟩ := Option.bind_eq_some_iff.mp h
      split at h
      · cases h
      · rename_i ha
        cases h
        exact ⟨hfits, List.mem_of_find?_eq_some hr, by simpa using List.find?_some hr, ha⟩
  · rintro ⟨hfits, ho, hid, ha⟩
    rw [if_pos hfits]
    have hfind : t.rows.find? (fun r => decide (r.id = c.bookId)) = some o := by
      cases hr : t.rows.find? fun r => decide (r.id = c.bookId) with
      | none => simpa [hid] using List.find?_eq_none.mp hr o ho
      | some r =>
        have hrid : r.id = c.bookId := by simpa using List.find?_some hr
        rw [book_id_unique (List.mem_of_find?_eq_some hr) ho (hrid.trans hid.symm)]
    rw [hfind, Option.bind_some, ha]

theorem statement_ok (hv : c.version t = some (o, n))
    (hn : ∀ r ∈ t.rows, r ≠ o → Apart [booksPk, booksTriple] r n) :
    c.statement.runOn t = (.ok (c.answer n), t.replace o n hn) := by
  obtain ⟨hfits, ho, hid, ha⟩ := version_eq_some.mp hv
  obtain ⟨a, b, hpicks⟩ := picks_id ho hid
  have hupd := updateReturning_ok (Table.updateWhere_replace hn hpicks ha)
  cases c with
  | delete st bookId => exact runOn_bind_ok (runOn_bind_ok hupd)
  | update st u =>
    have hstmt := hupd
    rw [← hfits] at hstmt
    exact runOn_bind_ok (runOn_bind_ok (runOn_tryCatch_ok (runOn_bind_ok hstmt)))

theorem statement_raises (c : BookWrite) : c.statement.Raises Truthy := by
  cases c with
  | delete st bookId => exact (deleteBookById_raises st bookId).bind fun _ => raises_pure _
  | update st u => exact (updateBookById_raises st u).bind fun _ => raises_pure _

theorem statement_error {e : Exc}
    (h : (updateReturning c.fits (fun r => decide (r.id = c.bookId)) c.assign).runOn t =
      (.error e, t)) : ∃ e', (c.statement.runOn t).1 = .error e' := by
  cases c with
  | delete st bookId =>
    have hdelete : (BookStorage.deleteBookById st bookId).runOn t = (.error e, t) :=
      runOn_bind_error h
    exact ⟨e, runOn_bind_fst (congrArg Prod.fst hdelete)⟩
  | update st u =>
    change (updateReturning (u.toDict.all BookValue.fits) (fun r => decide (r.id = u.id))
      (setBook st u.toDict)).runOn t = _ at h
    rw [statement, BookStorage.updateBookById]
    refine Exists.imp (fun _ he => runOn_bind_fst (runOn_bind_fst he)) ?_
    rw [runOn_tryCatch_error (runOn_bind_error h)]
    split
    case h_1 => exact ⟨_, rfl⟩
    case h_2 name =>
      unfold BookStorage.raiseError
      split <;> exact ⟨_, rfl⟩
    case h_3 => exact ⟨_, rfl⟩

theorem statement_cases (ho : o ∈ t.rows) (hid : o.id = c.bookId) :
    (∃ n hn, c.version t = some (o, n) ∧
        c.statement.runOn t = (.ok (c.answer n), t.replace o n hn)) ∨
      ∃ e, (c.statement.runOn t).1 = .error e := by
  cases hfits : c.fits with
  | false =>
    have hupd := updateReturning_unfit (fun r => decide (r.id = c.bookId)) c.assign t
    rw [← hfits] at hupd
    exact .inr (statement_error hupd)
  | true =>
    obtain ⟨a, b, hpicks⟩ := picks_id ho hid
    cases ha : c.assign o with
    | error e =>
      have hupd := updateReturning_error (Table.updateWhere_rejected hpicks ha)
      rw [← hfits] at hupd
      exact .inr (statement_error hupd)
    | ok n =>
      rcases Table.updateWhere_cases duplicate hpicks ha with ⟨ix, -, herr, -⟩ | ⟨t', -, hapart, -⟩
      · have hupd := updateReturning_error herr
        rw [← hfits] at hupd
        exact .inr (statement_error hupd)
      · have hn : ∀ r ∈ t.rows, r ≠ o → Apart [booksPk, booksTriple] r n := by
          intro r hr hne
          refine hapart r hr (decide_eq_false fun hrid => hne ?_)
          exact book_id_unique hr ho (hrid.trans hid.symm)
        have hv := version_eq_some.mpr ⟨hfits, ho, hid, ha⟩
        exact .inl ⟨n, hn, hv, statement_ok hv hn⟩

end BookWrite

/-! ## What one step does -/

section Steps

variable {τ : Type} [DecidableEq τ] {cmd : τ → BookWrite} {s s' : Side τ} {i : τ}

/-- Every step there is. -/
inductive Stepped (cmd : τ → BookWrite) (s : Side τ) : Label τ → Side τ → Prop
  | found {i : τ} {o : BookRow} : s.phase i = .begun →
      liveRow s.versions.table (cmd i).bookId = some o → Stepped cmd s (.select i) (s.move i .found)
  | missing {i : τ} : s.phase i = .begun → liveRow s.versions.table (cmd i).bookId = none →
      Stepped cmd s (.select i) (s.move i (.ended (.error (entityNotFound "Book" (cmd i).bookId))))
  | wrote {i : τ} {o n : BookRow} {a : BookAnswer} (h : s.versions.Admits i o n) :
      s.phase i = .found → (cmd i).version s.versions.table = some (o, n) →
      ((cmd i).statement.runOn s.versions.table).1 = .ok a →
      Stepped cmd s (.update i) ({ s with versions := s.versions.write i o n h }.move i (.wrote a))
  | ended {i : τ} {r : Except Exc BookAnswer} : s.phase i = .found →
      ((cmd i).statement.runOn s.versions.table).1 = r →
      ((cmd i).version s.versions.table = none ∨ ∃ e, r = .error e) →
      Stepped cmd s (.update i) (s.move i (.ended r))
  | committed {i : τ} {a : BookAnswer} : s.phase i = .wrote a →
      Stepped cmd s (.commit i)
        ({ s with versions := s.versions.commit i }.move i (.ended (.ok a)))
  | failed {i : τ} {e : Exc} : (∀ r, s.phase i ≠ .ended r) → (∀ e', s.phase i ≠ .failed e') →
      Stepped cmd s (.fail i e) ({ s with versions := s.versions.abort i }.move i (.failed e))

theorem select_stepped (hp : s.phase i = .begun) : Stepped cmd s (.select i) (s.select cmd i) := by
  unfold Side.select
  rw [existsBookById_runOn]
  cases hlive : liveRow s.versions.table (cmd i).bookId with
  | some o => exact .found hp hlive
  | none => exact .missing hp hlive

theorem update_stepped (hp : s.phase i = .found) (h : s.update cmd i = some s') :
    Stepped cmd s (.update i) s' := by
  unfold Side.update at h
  simp only [] at h
  split at h
  case h_1 hv =>
    cases h
    exact .ended hp rfl (.inl hv)
  case h_2 o n hv =>
    split at h
    case isTrue => cases h
    case isFalse =>
      split at h
      case h_1 e he =>
        cases h
        exact .ended hp he (.inr ⟨e, rfl⟩)
      case h_2 a ha =>
        split at h
        case isTrue hadm =>
          cases h
          exact .wrote hadm hp hv ha
        case isFalse => cases h

theorem step_stepped {l : Label τ} (h : s.step cmd l = some s') : Stepped cmd s l s' := by
  cases l with
  | select i =>
    rw [Side.step] at h
    split at h
    case isTrue hp => cases h; exact select_stepped hp
    case isFalse => cases h
  | update i =>
    rw [Side.step] at h
    split at h
    case isTrue hp => exact update_stepped hp h
    case isFalse => cases h
  | commit i =>
    rw [Side.step] at h
    split at h
    case h_1 a hp => cases h; exact .committed hp
    case h_2 => cases h
  | fail i e =>
    rw [Side.step] at h
    split at h
    case h_1 => cases h
    case h_2 => cases h
    case h_3 hended hfailed => cases h; exact .failed hended hfailed

/-! ## What holds an UPDATE up -/

/-- Only a command between its UPDATE and its end has written a version. -/
def Owned (s : Side τ) : Prop := ∀ v ∈ s.versions.pending, ∃ a, s.phase v.owner = .wrote a

omit [DecidableEq τ] in
theorem Owned.ne (h : Owned s) (hp : ∀ a, s.phase i ≠ .wrote a) {v : Pending τ BookRow}
    (hv : v ∈ s.versions.pending) : v.owner ≠ i := by
  rintro rfl
  obtain ⟨a, ha⟩ := h v hv
  exact hp a ha

theorem Owned.move {p : Phase} {vs : Versions τ [booksPk, booksTriple]} (h : Owned s)
    (hvs : ∀ v ∈ vs.pending, v ∈ s.versions.pending ∧ v.owner ≠ i) :
    Owned ({ s with versions := vs }.move i p) := by
  intro v hv
  obtain ⟨hv, hne⟩ := hvs v hv
  rw [Side.phase_move_of_ne hne]
  exact h v hv

theorem stepped_owned {l : Label τ} (h : Owned s) (hstep : Stepped cmd s l s') : Owned s' := by
  cases hstep with
  | found hp | missing hp | ended hp =>
    exact h.move fun v hv => ⟨hv, h.ne (fun a ha => by rw [hp] at ha; cases ha) hv⟩
  | wrote hadm hp =>
    intro v hv
    rcases List.mem_append.mp hv with hv | hv
    · rw [Side.phase_move_of_ne (hadm.first v hv)]
      exact h v hv
    · rw [List.mem_singleton.mp hv]
      exact ⟨_, Side.phase_move_self ..⟩
  | committed => exact h.move fun v hv => Versions.mem_commit.mp hv
  | failed => exact h.move fun v hv => Versions.mem_abort.mp hv

theorem run_owned {t₀ : BookTable} {l : List (Label τ)}
    (h : Run (ofStep (Side.step cmd)) (Side.start τ t₀) l s) : Owned s :=
  h.invariant (I := Owned) (fun _ hv => absurd hv List.not_mem_nil)
    fun _ _ _ hx hstep => stepped_owned hx (step_stepped hstep)

theorem update_eq_none (h : Owned s) (hp : s.phase i = .found) :
    s.step cmd (.update i) = none ↔
      ∃ o n, (cmd i).version s.versions.table = some (o, n) ∧ s.versions.Waits o n := by
  rw [Side.step, if_pos hp, Side.update]
  cases hv : (cmd i).version s.versions.table with
  | none => simp
  | some p =>
    obtain ⟨o, n⟩ := p
    simp only [Option.some.injEq, Prod.mk.injEq]
    by_cases hw : s.versions.Waits o n
    · rw [if_pos hw]
      exact iff_of_true rfl ⟨o, n, ⟨rfl, rfl⟩, hw⟩
    · rw [if_neg hw]
      refine iff_of_false ?_ (by rintro ⟨_, _, ⟨rfl, rfl⟩, hw'⟩; exact hw hw')
      obtain ⟨-, ho, hid, -⟩ := BookWrite.version_eq_some.mp hv
      rcases BookWrite.statement_cases ho hid with ⟨n', hn, hv', hrun⟩ | ⟨e, hrun⟩
      · rw [hv] at hv'
        cases hv'
        have hfirst : ∀ v ∈ s.versions.pending, v.owner ≠ i :=
          fun v => h.ne fun a ha => by rw [hp] at ha; cases ha
        rw [hrun]
        simp only []
        rw [dif_pos ⟨ho, hfirst, hw, hn⟩]
        nofun
      · rw [hrun]
        nofun

/-- In every run, an UPDATE that comes to its turn is held up by a wait only. -/
theorem held_up_by_waits {t₀ : BookTable} {l : List (Label τ)}
    (h : Run (ofStep (Side.step cmd)) (Side.start τ t₀) l s) (hp : s.phase i = .found) :
    s.step cmd (.update i) = none ↔
      ∃ o n, (cmd i).version s.versions.table = some (o, n) ∧ s.versions.Waits o n :=
  update_eq_none (run_owned h) hp

end Steps

end LibraryService.Domain
