import LibraryService.General.Effect
import LibraryService.General.Paging
import LibraryService.General.Relational
import LibraryService.Application.Exceptions
import LibraryService.Python.Text

/-!
# Statements

What PostgreSQL and its driver do with one statement on one table.
-/

open Effect Relational LibraryService.Python

namespace LibraryService.Database

abbrev Instant := Int

/-- What one statement reads from outside the tables. -/
structure Stmt where
  /-- `now()`: the start of its transaction. -/
  txnStart : Instant
  /-- The session's `TimeZone`: the instant that a wall clock reading without a zone means. -/
  zone : Instant → Instant
  clock : Nat → Instant
  uuid4 : Nat → UUID

/-- `TIMEZONE('utc', now())`, stored in a timestamptz column: the wall clock of UTC at `now()`,
read in the session's `TimeZone`. -/
def Stmt.serverNow (st : Stmt) : Instant := st.zone st.txnStart

/-- A session in UTC, which draws the ids from `k` on. -/
def Stmt.counting (k : Nat) : Stmt where
  txnStart := 0
  zone := id
  clock j := j + 1
  uuid4 j := ⟨BitVec.ofNat 128 (k + j)⟩

/-! ## Column types -/

/-- A text parameter cannot hold a NUL character. -/
def isText (s : String) : Bool := !s.toList.contains '\x00'

def isInt4 (n : Int) : Bool := decide (-2 ^ 31 ≤ n) && decide (n < 2 ^ 31)

/-- PostgreSQL refuses what is longer unless it is `Padded`; here that is refused as well. -/
def isVarchar255 (s : String) : Bool := decide (s.length ≤ 255)

/-- Nothing but blanks past 255 characters: PostgreSQL cuts them off where it assigns the value. -/
def Padded (s : String) : Prop := 255 < s.length ∧ ∀ c ∈ s.toList.drop 255, c = ' '

instance (s : String) : Decidable (Padded s) := inferInstanceAs (Decidable (_ ∧ _))

/-- A value for one column of an UPDATE, where `None` stands for NULL. -/
def nullable {α : Type} (ok : α → Bool) : Option α → Bool
  | none => true
  | some a => ok a

@[simp] theorem isText_iff (s : String) : isText s = true ↔ '\x00' ∉ s.toList := by
  simp [isText]

@[simp] theorem isInt4_iff (n : Int) : isInt4 n = true ↔ -2 ^ 31 ≤ n ∧ n < 2 ^ 31 := by
  simp [isInt4]

@[simp] theorem isVarchar255_iff (s : String) : isVarchar255 s = true ↔ s.length ≤ 255 := by
  simp [isVarchar255]

theorem isText_cut {n : Nat} {s : String} (h : isText s = true) : isText (cut n s) = true := by
  rw [isText_iff] at h ⊢
  exact fun hmem => h (mem_cut hmem)

/-! ## Statements on a table -/

variable {ρ : Type} {ixs : List (UniqueIndex ρ)}

/-- A value that its column's type refuses fails the statement before any row is touched. -/
def check {σ : Type} (fits : Bool) : Eff σ Exc Unit := if fits then pure () else throw .dbapiError

def duplicate (name : String) : Exc := .integrityError (some name)

def insertReturning (fits : Bool) (row : ρ) : Eff (Table ixs) Exc ρ := do
  check fits
  match (← get).insert row with
  | .error name => throw (duplicate name)
  | .ok t =>
    set t
    pure row

def insertAll (target : UniqueIndex ρ) : List ρ → Table ixs → Except String (Table ixs)
  | [], t => .ok t
  | r :: rs, t =>
    match t.insertOnConflictDoNothing target r with
    | .error name => .error name
    | .ok t => insertAll target rs t

/-- Without rows the statement inserts defaults, and the columns that have none are NULL. -/
def insertOnConflictDoNothing (target : UniqueIndex ρ) (fits : Bool) (rows : List ρ) :
    Eff (Table ixs) Exc Unit := do
  if rows.isEmpty then throw (.integrityError none)
  check fits
  match insertAll target rows (← get) with
  | .error name => throw (duplicate name)
  | .ok t => set t

def updateReturning (fits : Bool) (p : ρ → Bool) (assign : ρ → Except Exc ρ) :
    Eff (Table ixs) Exc (List ρ) := do
  check fits
  match (← get).updateWhere duplicate p assign with
  | .error e => throw e
  | .ok (t, returned) =>
    set t
    pure returned

/-- `result.one()`. -/
def one {σ α : Type} : List α → Eff σ Exc α
  | [] => throw .noResultFound
  | [a] => pure a
  | _ => throw (.other .exception "MultipleResultsFound" true)

/-! ## What they do -/

variable {t t' : Table ixs} {r : ρ} {n : String}

theorem check_true {σ : Type} (s : σ) : (check true).runOn s = (.ok (), s) := rfl

theorem check_false {σ : Type} (s : σ) : (check false).runOn s = (.error .dbapiError, s) := rfl

theorem insertReturning_cases (fits : Bool) (r : ρ) (t : Table ixs) :
    fits = false ∧ (insertReturning fits r).runOn t = (.error .dbapiError, t) ∨
      fits = true ∧ (∃ ix ∈ ixs, ∃ x ∈ t.rows, ix.clash x r = true ∧
        (insertReturning fits r).runOn t = (.error (duplicate ix.name), t)) ∨
      fits = true ∧ (∀ x ∈ t.rows, Apart ixs x r) ∧ ∃ t', t'.rows = t.rows ++ [r] ∧
        (insertReturning fits r).runOn t = (.ok r, t') := by
  unfold insertReturning
  cases fits with
  | false => exact .inl ⟨rfl, runOn_bind_error (check_false t)⟩
  | true =>
    rw [runOn_bind_ok (check_true t), runOn_bind_ok (runOn_get t)]
    rcases t.insert_cases r with ⟨ix, hix, hins, x, hx, hclash⟩ | ⟨t', hins, hapart, hrows⟩
    · rw [hins]
      exact .inr (.inl ⟨rfl, ix, hix, x, hx, hclash, rfl⟩)
    · rw [hins]
      exact .inr (.inr ⟨rfl, hapart, t', hrows, rfl⟩)

theorem insertOnConflictDoNothing_ok {target : UniqueIndex ρ} {rows : List ρ} (hne : rows ≠ [])
    (h : insertAll target rows t = .ok t') :
    (insertOnConflictDoNothing target true rows).runOn t = (.ok (), t') := by
  rw [insertOnConflictDoNothing, if_neg (by simpa using hne), runOn_bind_ok (check_true t),
    runOn_bind_ok (runOn_get t), h]
  rfl

theorem insertOnConflictDoNothing_eq_ok {target : UniqueIndex ρ} {fits : Bool} {rows : List ρ}
    (h : (insertOnConflictDoNothing target fits rows).runOn t = (.ok (), t')) :
    rows ≠ [] ∧ fits = true ∧ insertAll target rows t = .ok t' := by
  by_cases hne : rows = []
  · subst hne; cases h
  cases fits with
  | false =>
    rw [insertOnConflictDoNothing, if_neg (by simpa using hne),
      runOn_bind_error (check_false t)] at h
    cases h
  | true =>
    cases hins : insertAll target rows t with
    | ok t₁ =>
      rw [insertOnConflictDoNothing_ok hne hins] at h
      cases h
      exact ⟨hne, rfl, rfl⟩
    | error n =>
      rw [insertOnConflictDoNothing, if_neg (by simpa using hne), runOn_bind_ok (check_true t),
        runOn_bind_ok (runOn_get t), hins] at h
      cases h

variable {p : ρ → Bool} {assign : ρ → Except Exc ρ} {e : Exc}

theorem updateReturning_unfit (p : ρ → Bool) (assign : ρ → Except Exc ρ) (t : Table ixs) :
    (updateReturning false p assign).runOn t = (.error .dbapiError, t) := by
  rw [updateReturning, runOn_bind_error (check_false t)]

theorem updateReturning_error (h : t.updateWhere duplicate p assign = .error e) :
    (updateReturning true p assign).runOn t = (.error e, t) := by
  rw [updateReturning, runOn_bind_ok (check_true t), runOn_bind_ok (runOn_get t), h]
  rfl

theorem updateReturning_ok {returned : List ρ}
    (h : t.updateWhere duplicate p assign = .ok (t', returned)) :
    (updateReturning true p assign).runOn t = (.ok returned, t') := by
  rw [updateReturning, runOn_bind_ok (check_true t), runOn_bind_ok (runOn_get t), h]
  rfl

/-! ## What they raise -/

/-- An exception object that Python takes for true. -/
abbrev Truthy (e : Exc) : Prop := e.truth = true

theorem check_raises {σ : Type} (fits : Bool) : (check fits : Eff σ Exc Unit).Raises Truthy := by
  cases fits with
  | true => exact raises_pure ()
  | false => exact raises_throw rfl

theorem updateReturning_raises {fits : Bool} (h : ∀ r e, assign r = .error e → Truthy e) :
    (updateReturning fits p assign : Eff (Table ixs) Exc _).Raises Truthy := by
  refine (check_raises fits).bind fun _ => raises_get.bind fun t => ?_
  split
  case h_1 e hupd =>
    refine raises_throw ?_
    rcases Table.updateWhere_raises hupd with ⟨r, hr⟩ | ⟨n, rfl⟩
    · exact h r e hr
    · rfl
  case h_2 => exact (raises_set _).bind fun _ => raises_pure _

theorem insertOnConflictDoNothing_raises {target : UniqueIndex ρ} {fits : Bool} {rows : List ρ} :
    (insertOnConflictDoNothing target fits rows : Eff (Table ixs) Exc _).Raises Truthy := by
  have hinsert : (do
      check fits
      match insertAll target rows (← get) with
      | .error name => throw (duplicate name)
      | .ok t => set t : Eff (Table ixs) Exc _).Raises Truthy := by
    refine (check_raises fits).bind fun _ => raises_get.bind fun t => ?_
    split
    · exact raises_throw rfl
    · exact raises_set _
  unfold insertOnConflictDoNothing
  split
  · have hempty : (throw (.integrityError none) : Eff (Table ixs) Exc PUnit).Raises Truthy :=
      raises_throw rfl
    exact hempty.bind fun _ => hinsert
  · exact hinsert

theorem one_raises {σ α : Type} : ∀ l : List α, (one l : Eff σ Exc α).Raises Truthy
  | [] => raises_throw rfl
  | [a] => raises_pure a
  | _ :: _ :: _ => raises_throw rfl

end LibraryService.Database
