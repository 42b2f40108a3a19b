import LibraryService.Database.Layout
import LibraryService.Domain.StoredRows

/-!
# Deployments

The commands of the service and those of Alembic, in any order, on one database.
-/

open Transition Effect Relational Ddl LibraryService.Python LibraryService.Database

namespace LibraryService.Domain

inductive DeploymentEvent
  | alembic (st : Stmt) (command : Alembic)
  | book (req : BookRequest)
  | user (cmd : UserCommand)

inductive DeploymentAnswer
  | version (version : Option String)
  | book (res : Except Exc BookAnswer)
  | user (res : Except Exc CommandResult)
  | notServed

/-- The service is run on the schema of the last revision. -/
def tablesOf (s : Deployed) : Option (BookTable × UserTable) :=
  if s.version = headOf revisions then do
    let books ← readBooks s.db
    let users ← readUsers s.db
    pure (books, users)
  else none

def handleDeployed (iter : IterOrder) (crypt : CryptContext) (s : Deployed) :
    DeploymentEvent → DeploymentAnswer × Deployed
  | .alembic st command =>
    let s' := command.run revisions (ServerDefault.value st) s
    (.version s'.version, s')
  | .book req =>
    match tablesOf s with
    | none => (.notServed, s)
    | some (books, _) =>
      let (res, books') := handleBook books req
      (.book res, { s with db := writeRows s.db "books" (books'.rows.map BookRow.fields) })
  | .user cmd =>
    match tablesOf s with
    | none => (.notServed, s)
    | some (_, users) =>
      let (res, users') := executeUser iter crypt users cmd
      (.user res, { s with db := writeRows s.db "users" (users'.rows.map UserRow.fields) })

/-! ## What the stored tables stand for -/

/-- The tables as the commands see them: a revision up keeps every row, the one down from the last
revision the rows without their credentials, and the one below nothing. -/
def handleStage (iter : IterOrder) (crypt : CryptContext) (stage : Stage) :
    DeploymentEvent → DeploymentAnswer × Stage
  | .alembic _ command => (.version (stage.run command).deployed.version, stage.run command)
  | .book req =>
    match stage with
    | .head books users => (.book (handleBook books req).1, .head (handleBook books req).2 users)
    | stage => (.notServed, stage)
  | .user cmd =>
    match stage with
    | .head books users =>
      (.user (executeUser iter crypt users cmd).1, .head books (executeUser iter crypt users cmd).2)
    | stage => (.notServed, stage)

variable {iter : IterOrder} {crypt : CryptContext} {stage : Stage} {e : DeploymentEvent}

theorem tablesOf_head (books : BookTable) (users : UserTable) :
    tablesOf (Stage.head books users).deployed = some (books, users) := by
  have hversion : (Stage.head books users).deployed.version = headOf revisions := rfl
  rw [tablesOf, if_pos hversion, readBooks_head, readUsers_head]
  rfl

theorem handle_deployed (iter : IterOrder) (crypt : CryptContext) (stage : Stage)
    (e : DeploymentEvent) : handleDeployed iter crypt stage.deployed e =
      ((handleStage iter crypt stage e).1, (handleStage iter crypt stage e).2.deployed) := by
  cases e with
  | alembic st command =>
    simp only [handleDeployed, handleStage, run_deployed]
  | book req =>
    cases stage with
    | base => rfl
    | initial books users bare => rfl
    | head books users =>
      simp only [handleDeployed, tablesOf_head]
      rfl
  | user cmd =>
    cases stage with
    | base => rfl
    | initial books users bare => rfl
    | head books users =>
      simp only [handleDeployed, tablesOf_head]
      rfl

/-! ## Runs -/

/-- The rows of the stage fit their columns. -/
def Stored : Stage → Prop
  | .base => True
  | .initial books users _ | .head books users => BooksFit books ∧ UsersFit users

theorem Stored.fits (h : Stored stage) : stage.Fits := by
  cases stage with
  | base => trivial
  | initial books users bare => exact ⟨h.1, fun r hr => (h.2 r hr).1⟩
  | head books users => exact ⟨h.1, fun r hr => (h.2 r hr).1⟩

theorem bareUsers_fit {users : UserTable} (h : UsersFit users) : UsersFit (bareUsers users) := by
  intro r hr
  obtain ⟨x, hx, rfl⟩ := List.mem_map.mp hr
  obtain ⟨hfits, -⟩ := h x hx
  simp only [UserRow.fits, Bool.and_eq_true] at hfits
  exact ⟨by simp [UserRow.fits, UserRow.bare, hfits.1, nullable], ⟨∅, rfl⟩⟩

theorem stored_upgradeOne {stage' : Stage} (h : Stored stage) (hup : stage.upgradeOne = some stage') :
    Stored stage' := by
  cases stage with
  | base => cases hup; exact ⟨booksFit_empty, usersFit_empty⟩
  | initial books users bare => cases hup; exact h
  | head books users => cases hup

theorem stored_downgradeOne {stage' : Stage} (h : Stored stage)
    (hdown : stage.downgradeOne = some stage') : Stored stage' := by
  cases stage with
  | base => cases hdown
  | initial books users bare => cases hdown; trivial
  | head books users => cases hdown; exact ⟨h.1, bareUsers_fit h.2⟩

/-- A command of Alembic leaves the stage, or leads up from it, or down. -/
theorem stage_run_cases (stage : Stage) (c : Alembic) : stage.run c = stage ∨
    (∃ n, times Stage.upgradeOne n stage = some (stage.run c)) ∨
      ∃ n, times Stage.downgradeOne n stage = some (stage.run c) := by
  cases c with
  | upgrade n =>
    simp only [Stage.run]
    cases hrun : times Stage.upgradeOne n stage with
    | none => exact .inl rfl
    | some y => exact .inr (.inl ⟨n, hrun⟩)
  | downgrade n =>
    simp only [Stage.run]
    cases hrun : times Stage.downgradeOne n stage with
    | none => exact .inl rfl
    | some y => exact .inr (.inr ⟨n, hrun⟩)

theorem stored_run (h : Stored stage) (c : Alembic) : Stored (stage.run c) := by
  rcases stage_run_cases stage c with heq | ⟨n, hup⟩ | ⟨n, hdown⟩
  · rw [heq]
    exact h
  · exact times_keeps (fun _ _ => stored_upgradeOne) h hup
  · exact times_keeps (fun _ _ => stored_downgradeOne) h hdown

theorem stored_handle (h : Stored stage) (e : DeploymentEvent) :
    Stored (handleStage iter crypt stage e).2 := by
  cases e with
  | alembic st command => exact stored_run h command
  | book req =>
    cases stage with
    | base | initial _ _ _ => exact h
    | head books users => exact ⟨handleBook_fits h.1 req, h.2⟩
  | user cmd =>
    cases stage with
    | base | initial _ _ _ => exact h
    | head books users => exact ⟨h.1, executeUser_fits h.2 iter crypt cmd⟩

theorem answers_deployed (iter : IterOrder) (crypt : CryptContext) (stage : Stage)
    (events : List DeploymentEvent) : answers (handleDeployed iter crypt) stage.deployed events =
      ((answers (handleStage iter crypt) stage events).1,
        (answers (handleStage iter crypt) stage events).2.deployed) := by
  induction events generalizing stage with
  | nil => rfl
  | cons e events ih => simp only [answers, handle_deployed, ih]

theorem upToDate_of_head (h : stage.deployed.version = headOf revisions) :
    UpToDate stage.deployed.db := by
  cases stage with
  | base => cases h
  | initial books users bare =>
    have hne : some initialMigration.revision ≠ headOf revisions := by decide
    exact absurd h hne
  | head books users => exact upToDate_head books users

/-- **The service over its migrations.** Whatever is run on a database that starts empty, it answers
and holds what the stages say, it is valid, and at the last revision its schema is the one that the
code declares. -/
theorem deployments_keep_rows (iter : IterOrder) (crypt : CryptContext)
    (events : List DeploymentEvent) :
    let run := answers (handleDeployed iter crypt) ⟨none, []⟩ events
    let stages := answers (handleStage iter crypt) .base events
    run.1 = stages.1 ∧ run.2 = stages.2.deployed ∧ Valid run.2.db ∧
      (run.2.version = headOf revisions → UpToDate run.2.db) := by
  intro run stages
  have hrun : run = (stages.1, stages.2.deployed) := answers_deployed iter crypt .base events
  have hstored : Stored stages.2 :=
    answers_keep (I := Stored) (s := .base) (fun _ e h => stored_handle h e) trivial events
  rw [hrun]
  exact ⟨rfl, rfl, deployed_valid hstored.fits, upToDate_of_head⟩

end LibraryService.Domain
