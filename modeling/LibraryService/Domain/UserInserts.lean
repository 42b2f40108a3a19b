import LibraryService.Database.InsertScripts
import LibraryService.Domain.UserCommands

/-!
# Users brought in side by side

Registrations and creates of users whose inserts run in any interleaving.
-/

open Transition Effect Relational LibraryService.Python LibraryService.Database

namespace LibraryService.Domain

variable {t t' : UserTable} {st : Stmt} {iter : IterOrder} {user : CreateUser}

/-! ## What the commands send -/

def userExists : Exc := .entityAlreadyExistsException "User already exists"

/-- What `UserStorage.create_user` makes of what its INSERT raises. -/
def createUserRaises : Exc → Exc
  | .integrityError c =>
    if c = some "uq__users__username" ∨ c = some "uq__users__email" then userExists
    else .libraryException "Unknown error"
  | e => e

/-- The user that the row of an INSERT is read back as. -/
def createdUser (st : Stmt) (iter : IterOrder) (user : CreateUser) : User :=
  { id := st.uuid4 0
    username := user.username
    email := user.email
    isSuperuser := user.isSuperuser
    permissions := (iter.list user.permissions).toFinset
    createdAt := st.serverNow
    updatedAt := st.serverNow }

def createUserScript (st : Stmt) (iter : IterOrder) (user : CreateUser) :
    Script [usersPk, usersEmail, usersUsername] Exc (Except Exc User) :=
  insertScript (insertOps (newUser st iter user).fits (newUser st iter user))
    (createdUser st iter user) createUserRaises

/-- A command that inserts a user; the hash of a registration is made before its transaction. -/
inductive UserInsert
  | create (st : Stmt) (iter : IterOrder) (user : CreateUser)
  | register (st : Stmt) (iter : IterOrder) (crypt : CryptContext) (salt : String)
      (dto : RegisterUser)

def registered (dto : RegisterUser) (passwordHash : String) : CreateUser :=
  { username := dto.username, email := dto.email, passwordHash := some passwordHash }

def UserInsert.script : UserInsert →
    Script [usersPk, usersEmail, usersUsername] Exc (Except Exc User)
  | .create st iter user => createUserScript st iter user
  | .register st iter crypt salt dto =>
    match crypt.hash salt dto.password with
    | .error e => ⟨[.raise e], fun _ => .error e⟩
    | .ok passwordHash => createUserScript st iter (registered dto passwordHash)

/-- The row it would insert, if it comes to that. -/
def UserInsert.row : UserInsert → Except Exc UserRow
  | .create st iter user => .ok (newUser st iter user)
  | .register st iter crypt salt dto =>
    (crypt.hash salt dto.password).map fun passwordHash =>
      newUser st iter (registered dto passwordHash)

/-- The command in a unit of work of its own. -/
def UserInsert.handle (t : UserTable) : UserInsert → Except Exc User × UserTable
  | .create st iter user => request (CreateUserCommand.execute .allReturn st iter user) t
  | .register st iter crypt salt dto =>
    request (RegisterUserCommand.execute .allReturn st iter crypt salt dto) t

theorem rowToUser_newUser (st : Stmt) (iter : IterOrder) (user : CreateUser) :
    rowToUser (newUser st iter user) = .ok (createdUser st iter user) := by
  have hperms : Permission.frozenset (newUser st iter user).permissions = _ :=
    frozenset_value (iter.list user.permissions)
  rw [rowToUser, hperms]
  rfl

theorem createUserRaises_truthy {e : Exc} (h : Truthy e) : Truthy (createUserRaises e) := by
  unfold createUserRaises
  split
  · split <;> rfl
  · exact h

theorem createUser_error {e : Exc}
    (h : (insertReturning (newUser st iter user).fits (newUser st iter user)).runOn t =
      (.error e, t')) :
    (UserStorage.createUser st iter user).runOn t = (.error (createUserRaises e), t') := by
  refine runOn_bind_error ((runOn_tryCatch_error h).trans ?_)
  cases e with
  | integrityError c =>
    simp only [UserStorage.raiseError, createUserRaises, List.mem_cons, List.not_mem_nil, or_false]
    split <;> rfl
  | _ => rfl

theorem createUser_script (st : Stmt) (iter : IterOrder) (user : CreateUser) (t : UserTable) :
    (createUserScript st iter user).run duplicate t =
      request (CreateUserCommand.execute .allReturn st iter user) t := by
  have hrun := insertScript_run (f := id) (UserStorage.createUser st iter user) createUserRaises
    (b := createdUser st iter user) (sends_insert (newUser st iter user).fits (newUser st iter user))
    (fun t t' hrun => (runOn_bind_ok (runOn_tryCatch_ok hrun)).trans
      (ofExcept_ok (rowToUser_newUser _ _ _) t'))
    (fun _ _ _ => createUser_error) (fun _ => createUserRaises_truthy) t
  rw [respond, Except.map_id] at hrun
  exact hrun

theorem userScript_run (c : UserInsert) (t : UserTable) :
    c.script.run duplicate t = c.handle t := by
  cases c with
  | create st iter user => exact createUser_script st iter user t
  | register st iter crypt salt dto =>
    simp only [UserInsert.script, UserInsert.handle]
    cases hhash : crypt.hash salt dto.password with
    | error e =>
      rw [request_register_error hhash]
      rfl
    | ok passwordHash =>
      rw [request_register hhash]
      exact createUser_script st iter (registered dto passwordHash) t

/-! ## What a command adds -/

/-- Every way an INSERT of this row can go: it raises something else, one of its names is taken, or
it is added. -/
def Goes (t : UserTable) (row : UserRow) (res : Except Exc User × UserTable) : Prop :=
  (∃ e, e ≠ userExists ∧ res = (.error e, t)) ∨
    (∃ x ∈ t.rows, SameNames x row) ∧ res = (.error userExists, t) ∨
    (¬ ∃ x ∈ t.rows, SameNames x row) ∧
      ∃ u t', rowToUser row = .ok u ∧ res = (.ok u, t') ∧ t'.rows = t.rows ++ [row]

theorem create_goes (st : Stmt) (iter : IterOrder) (user : CreateUser) (t : UserTable) :
    Goes t (newUser st iter user)
      (request (CreateUserCommand.execute .allReturn st iter user) t) := by
  rcases request_createUser st iter user t with
    ⟨e, he, hres⟩ | ⟨-, htaken, hres⟩ | ⟨-, hfree, -, u, t', hu, hres, hrows⟩
  · refine .inl ⟨e, ?_, hres⟩
    rcases he with ⟨rfl, -⟩ | ⟨rfl, -⟩ <;> exact Exc.noConfusion
  · exact .inr (.inl ⟨htaken, hres⟩)
  · exact .inr (.inr ⟨hfree, u, t', hu, hres, hrows⟩)

theorem userInsert_cases (c : UserInsert) (t : UserTable) :
    (∃ e, c.row = .error e ∧ c.handle t = (.error e, t)) ∨
      ∃ row, c.row = .ok row ∧ Goes t row (c.handle t) := by
  cases c with
  | create st iter user => exact .inr ⟨_, rfl, create_goes st iter user t⟩
  | register st iter crypt salt dto =>
    simp only [UserInsert.row, UserInsert.handle]
    cases hhash : crypt.hash salt dto.password with
    | error e => exact .inl ⟨e, rfl, request_register_error hhash t⟩
    | ok passwordHash =>
      rw [request_register hhash]
      exact .inr ⟨_, rfl, create_goes st iter (registered dto passwordHash) t⟩

/-- The row that the table has got from a command with this outcome. -/
def insertedRow (c : UserInsert) : Except Exc User → List UserRow
  | .ok _ => c.row.toOption.toList
  | .error _ => []

theorem handle_appends (c : UserInsert) (t : UserTable) :
    (c.handle t).2.rows = t.rows ++ insertedRow c (c.handle t).1 := by
  rcases userInsert_cases c t with ⟨e, -, hrun⟩ | ⟨row, hrow, hgoes⟩
  · simp [hrun, insertedRow]
  · rcases hgoes with ⟨e, -, hrun⟩ | ⟨-, hrun⟩ | ⟨-, u, t', -, hrun, hrows⟩
    · simp [hrun, insertedRow]
    · simp [hrun, insertedRow]
    · simp [hrun, insertedRow, hrow, hrows, Except.toOption]

/-! ## Side by side -/

variable {τ : Type}

abbrev Registering (τ : Type) :=
  Inserting τ [usersPk, usersEmail, usersUsername] Exc (Except Exc User)

/-- The commands that have ended could have run in this order, one after another from `t₀`. The
table has got the rows of those that succeeded; these are users of different names, and a command
is refused for a name only where a row has it. -/
structure Registered (cmd : τ → UserInsert) (t₀ : UserTable) (s : Registering τ) (order : List τ) :
    Prop where
  serial : SerialOrder (fun t i => (cmd i).handle t) t₀ s.outcome s.inserts.table order
  rows : s.inserts.table.rows = t₀.rows ++
    order.flatMap fun i => (s.outcome i).elim [] (insertedRow (cmd i))
  distinct : ∀ i j u v, i ≠ j → s.outcome i = some (.ok u) → s.outcome j = some (.ok v) →
    u.id ≠ v.id ∧ u.username ≠ v.username ∧ u.email ≠ v.email
  refused : ∀ i row, (cmd i).row = .ok row → s.outcome i = some (.error userExists) →
    ∃ x ∈ s.inserts.table.rows, SameNames x row

variable {cmd : τ → UserInsert} {t₀ : UserTable} {s : Registering τ} {order : List τ}
  {l : List (InsertLabel τ)} {i j : τ}

theorem succeeded_row {c : UserInsert} {u : User} (h : (c.handle t).1 = .ok u) :
    ∃ row, c.row = .ok row ∧ rowToUser row = .ok u := by
  rcases userInsert_cases c t with ⟨e, -, hrun⟩ | ⟨row, hrow, hgoes⟩
  · rw [hrun] at h; cases h
  · rcases hgoes with ⟨e, -, hrun⟩ | ⟨-, hrun⟩ | ⟨-, u', t', hu, hrun, -⟩
    · rw [hrun] at h; cases h
    · rw [hrun] at h; cases h
    · rw [hrun] at h; cases h
      exact ⟨row, hrow, hu⟩

theorem registered_of_serial
    (h : SerialOrder (fun t i => (cmd i).handle t) t₀ s.outcome s.inserts.table order) :
    Registered cmd t₀ s order := by
  have hrows := h.appends (f := fun t => t.rows) (g := fun i => insertedRow (cmd i))
    fun t i => handle_appends (cmd i) t
  have hrow : ∀ i u, s.outcome i = some (.ok u) →
      i ∈ order ∧ ∃ row, rowToUser row = .ok u ∧
        row ∈ (s.outcome i).elim [] (insertedRow (cmd i)) := by
    intro i u hi
    have hmem := (h.mem_iff i).mpr (by rw [hi]; rfl)
    obtain ⟨before, after, rfl⟩ := List.append_of_mem hmem
    obtain ⟨row, hr, hu⟩ := succeeded_row (Option.some.inj ((answers_at h.outcomes).symm.trans hi))
    exact ⟨hmem, row, hu, by simp [hi, insertedRow, hr, Except.toOption]⟩
  constructor
  case serial => exact h
  case rows => exact hrows
  case distinct =>
    intro i j u v hij hi hj
    obtain ⟨hio, r, hu, hr⟩ := hrow i u hi
    obtain ⟨hjo, r', hv, hr'⟩ := hrow j v hj
    have hunique := s.inserts.table.unique
    rw [hrows, List.pairwise_append] at hunique
    have hsymm : Std.Symm fun a b => ∀ x ∈ (s.outcome a).elim [] (insertedRow (cmd a)),
        ∀ y ∈ (s.outcome b).elim [] (insertedRow (cmd b)),
          Apart [usersPk, usersEmail, usersUsername] x y :=
      ⟨fun _ _ hab x hx y hy => (hab y hy x hx).symm⟩
    have hapart := (List.pairwise_flatMap.mp hunique.2.1).2.forall hio hjo hij r hr r' hr'
    obtain ⟨hid, huser, hemail⟩ := rowToUser_names hu
    obtain ⟨hid', huser', hemail'⟩ := rowToUser_names hv
    rw [hid, hid', huser, huser', hemail, hemail']
    refine ⟨fun heq => ?_, fun heq => not_apart_of_sameNames (.inl heq) hapart,
      fun heq => not_apart_of_sameNames (.inr heq) hapart⟩
    have := hapart usersPk usersPk_mem
    simp [usersPk_clash, heq] at this
  case refused =>
    intro i row hr hi
    refine h.lasting (I := fun t => ∃ x ∈ t.rows, SameNames x row) hi (fun t ht => ?_) ?_
    · rcases userInsert_cases (cmd i) t with ⟨e, he, -⟩ | ⟨row', hrow', hgoes⟩
      · rw [hr] at he; cases he
      · rw [hr] at hrow'; cases hrow'
        rcases hgoes with ⟨e, he, hrun⟩ | ⟨htaken, hrun⟩ | ⟨-, u, t', -, hrun, -⟩
        · rw [hrun] at ht
          exact absurd (Except.error.inj ht) he
        · rw [hrun]
          exact htaken
        · rw [hrun] at ht; cases ht
    · rintro t k ⟨x, hx, hsame⟩
      exact ⟨x, by rw [handle_appends]; exact List.mem_append_left _ hx, hsame⟩

variable [DecidableEq τ]

/-- **Registrations and creates side by side** end, in every interleaving of their inserts, as they
do one after another: of those that share a name at most one succeeds. -/
theorem inserts_registered
    (h : Run (ofStep (Inserting.step duplicate fun i => (cmd i).script))
      (Inserting.start (fun i => (cmd i).script) t₀) l s) :
    ∃ order, Registered cmd t₀ s order := by
  obtain ⟨order, hserial⟩ := Inserting.serializable h
  have hserially : Inserting.serially duplicate (fun i => (cmd i).script) =
      fun t i => (cmd i).handle t :=
    funext fun t => funext fun i => userScript_run (cmd i) t
  rw [hserially] at hserial
  exact ⟨order, registered_of_serial hserial⟩

/-- Two users that want one name, and another one. -/
def adasAndBob : Fin 3 → UserInsert
  | 0 => .create (.counting 0) .declared { username := "ada", email := "ada@example.com" }
  | 1 => .create (.counting 1) .declared { username := "ada", email := "ada@example.org" }
  | 2 => .create (.counting 2) .declared { username := "bob", email := "bob@example.com" }

/-- The transaction of the third is open while the others come to their ends. -/
def bobAround (ada other bob : Fin 3) : List (InsertLabel (Fin 3)) :=
  [.next bob, .next ada, .commit ada, .next other, .commit bob]

theorem inserts_registered_ada :
    ∃ s order, Run (ofStep (Inserting.step duplicate fun i => (adasAndBob i).script))
        (Inserting.start (fun i => (adasAndBob i).script) Table.empty) (bobAround 0 1 2) s ∧
      Registered adasAndBob Table.empty s order := by
  have hexec : (exec (Inserting.step duplicate fun i => (adasAndBob i).script)
      (Inserting.start (fun i => (adasAndBob i).script) Table.empty) (bobAround 0 1 2)).isSome =
      true := rfl
  obtain ⟨s, hs⟩ := Option.isSome_iff_exists.mp hexec
  obtain ⟨order, hregistered⟩ := inserts_registered (run_of_exec hs)
  exact ⟨s, order, run_of_exec hs, hregistered⟩

end LibraryService.Domain
