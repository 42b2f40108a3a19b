import LibraryService.Domain.Deployments

/-!
# Logins over migrations

Which credentials a login accepts after any run of the commands and the migrations.
-/

open Transition Effect Relational Ddl LibraryService.Python LibraryService.Database

namespace LibraryService.Domain

namespace Ledger

/-- The same users, none of them with a password. -/
def wiped (l : Ledger) : Ledger := fun userId => (l userId).map fun a => { a with password := none }

/-- What is left of the users at a revision: all at the last one, no password at the one before, and
nothing without tables. -/
def migrated (l : Ledger) : Option String → Ledger
  | none => fun _ => none
  | some revision => if revision = addPasswordFields.revision then l else l.wiped

def recordEvent (l : Ledger) : DeploymentEvent → DeploymentAnswer → Ledger
  | .alembic _ _, .version version => l.migrated version
  | .user cmd, .user res => l.record cmd res
  | _, _ => l

def ofEvents (history : List (DeploymentEvent × DeploymentAnswer)) : Ledger :=
  history.foldl (fun l p => l.recordEvent p.1 p.2) fun _ => none

end Ledger

/-! ## What the stages have to do with the ledger -/

variable {iter : IterOrder} {crypt : CryptContext} {stage stage' : Stage} {l : Ledger}
  {users : UserTable}

def StageRecords (crypt : CryptContext) (l : Ledger) : Stage → Prop
  | .base => l = fun _ => none
  | .initial _ users _ | .head _ users => Records crypt l users

theorem Records.wiped (h : Records crypt l users) : Records crypt l.wiped (bareUsers users) := by
  refine ⟨fun x hx => ?_, fun userId a ha => ?_, fun x hx => ?_⟩
  · obtain ⟨r, hr, rfl⟩ := List.mem_map.mp hx
    obtain ⟨account, hacc, hback⟩ := h.rows r hr
    refine ⟨{ account with password := none }, ?_, .none, hback.username, hback.deleted⟩
    have hid : r.bare.id = r.id := rfl
    rw [Ledger.wiped, hid, hacc]
    rfl
  · obtain ⟨account, hacc, -⟩ := Option.map_eq_some_iff.mp ha
    obtain ⟨r, hr, hid⟩ := h.accounts userId account hacc
    exact ⟨r.bare, List.mem_map_of_mem hr, hid⟩
  · obtain ⟨r, hr, rfl⟩ := List.mem_map.mp hx
    exact ⟨∅, rfl⟩

theorem bareUsers_self (h : ∀ r ∈ users.rows, r.bare = r) : bareUsers users = users := by
  obtain ⟨rows, unique⟩ := users
  have hrows : rows.map UserRow.bare = rows := (List.map_congr_left h).trans (List.map_id _)
  simp only [bareUsers, hrows]

theorem migrated_initial (l : Ledger) (books : BookTable) (users : UserTable) (bare) :
    l.migrated (Stage.initial books users bare).deployed.version = l.wiped := rfl

theorem StageRecords.same (h : StageRecords crypt l stage) :
    StageRecords crypt (l.migrated stage.deployed.version) stage := by
  cases stage with
  | base => rfl
  | initial books users bare =>
    rw [migrated_initial]
    have hwiped := Records.wiped h
    rwa [bareUsers_self bare] at hwiped
  | head books users => exact h

theorem StageRecords.up (h : StageRecords crypt l stage) (hup : stage.upgradeOne = some stage') :
    StageRecords crypt l stage' := by
  cases stage with
  | base =>
    cases hup
    obtain rfl := h
    exact records_empty
  | initial books users bare => cases hup; exact h
  | head books users => cases hup

theorem StageRecords.down (h : StageRecords crypt (l.migrated stage.deployed.version) stage)
    (hdown : stage.downgradeOne = some stage') :
    StageRecords crypt (l.migrated stage'.deployed.version) stage' := by
  cases stage with
  | base => cases hdown
  | initial books users bare => cases hdown; rfl
  | head books users => cases hdown; exact Records.wiped h

theorem StageRecords.run (h : StageRecords crypt l stage) (c : Alembic) :
    StageRecords crypt (l.migrated (stage.run c).deployed.version) (stage.run c) := by
  rcases stage_run_cases stage c with heq | ⟨n, hup⟩ | ⟨n, hdown⟩
  · rw [heq]
    exact h.same
  · exact (times_keeps (fun _ _ => StageRecords.up) h hup).same
  · exact times_keeps (I := fun x => StageRecords crypt (l.migrated x.deployed.version) x)
      (fun _ _ => StageRecords.down) h.same hdown

def DeploymentEvent.Admissible : DeploymentEvent → Prop
  | .user cmd => cmd.Admissible
  | _ => True

theorem StageRecords.handle (h : StageRecords crypt l stage) (iter : IterOrder) (e : DeploymentEvent)
    (he : e.Admissible) : StageRecords crypt
      (l.recordEvent e (handleStage iter crypt stage e).1) (handleStage iter crypt stage e).2 := by
  cases e with
  | alembic st command => exact h.run command
  | book req =>
    cases stage with
    | base | initial _ _ _ | head _ _ => exact h
  | user cmd =>
    cases stage with
    | base | initial _ _ _ => exact h
    | head books users => exact executeUser_records h iter cmd he

/-- **Logins over migrations.** Whatever commands and migrations were run, at the last revision a
login accepts exactly the credentials that were registered since the tables were last below it. -/
theorem login_accepts_since_migration (iter : IterOrder) (hcrypt : VerifiesOwn crypt)
    {events : List DeploymentEvent} (hevents : ∀ e ∈ events, e.Admissible) :
    let run := answers (handleDeployed iter crypt) ⟨none, []⟩ events
    ∀ tables, tablesOf run.2 = some tables →
      AcceptsExactly crypt (Ledger.ofEvents (events.zip run.1)) tables.2 := by
  intro run tables htables
  have hrun : run = _ := answers_deployed iter crypt .base events
  have hrecords := answers_observed (m := handleStage iter crypt) (I := StageRecords crypt)
    (f := Ledger.recordEvent) (s := .base) (x := fun _ => none)
    (fun l stage e h he => h.handle iter e he) rfl hevents
  rw [hrun] at htables ⊢
  generalize answers (handleStage iter crypt) .base events = stages at htables hrecords ⊢
  obtain ⟨given, stage⟩ := stages
  cases stage with
  | base => cases htables
  | initial books users bare => cases htables
  | head books users =>
    rw [tablesOf_head] at htables
    cases htables
    exact Records.acceptsExactly hrecords hcrypt

/-- Bob is registered before the credentials go and come back, Ada after. -/
def bobsMigration : List DeploymentEvent :=
  [.alembic (.counting 0) (.upgrade 2),
    .user (.register (.counting 0) "salt" ⟨"bob", "bob@x.org", "correct horse"⟩),
    .alembic (.counting 0) (.downgrade 1), .alembic (.counting 0) (.upgrade 1),
    .user (.register (.counting 1) "salt" ⟨"ada", "ada@x.org", "battery staple"⟩)]

theorem login_accepts_since_migration_bob :
    let run := answers (handleDeployed .declared plainCrypt) ⟨none, []⟩ bobsMigration
    (∀ tables, tablesOf run.2 = some tables →
      AcceptsExactly plainCrypt (Ledger.ofEvents (bobsMigration.zip run.1)) tables.2) ∧
      (tablesOf run.2).isSome = true ∧
      Ledger.ofEvents (bobsMigration.zip run.1) ⟨0⟩ = some ⟨none, "bob", false⟩ ∧
      (Ledger.ofEvents (bobsMigration.zip run.1)).Accepts ⟨1⟩ ⟨"ada", "battery staple"⟩ := by
  have hcrypt : VerifiesOwn plainCrypt := fun _ _ _ _ _ _ h => by obtain rfl := Except.ok.inj h; rfl
  have hadmissible : ∀ e ∈ bobsMigration, e.Admissible := by
    simp only [bobsMigration, List.forall_mem_cons, DeploymentEvent.Admissible,
      UserCommand.Admissible, AdmissiblePassword]
    exact ⟨trivial, by decide, trivial, trivial, by decide, fun _ h => absurd h List.not_mem_nil⟩
  refine ⟨login_accepts_since_migration .declared hcrypt hadmissible, ?_, ?_, ?_⟩
  all_goals
    rw [show (⟨none, []⟩ : Deployed) = Stage.base.deployed from rfl, answers_deployed]
    rfl

end LibraryService.Domain
