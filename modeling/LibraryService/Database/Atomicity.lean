import LibraryService.Database.Books
import LibraryService.Database.UowBlocks

/-!
# All writes of a block, or none

What an `async with uow` block leaves committed, whatever its session calls do.
-/

open Effect Relational LibraryService.Domain

namespace LibraryService.Database

variable {DB α : Type} {a : Awaits} {w : World DB} {s : Session DB}

/-- `create_transaction` opens a transaction and returns. -/
def World.Enters (w : World DB) (a : Awaits) : Prop :=
  (w.session = none ∨ w.transaction = none) ∧ a.begin = .returns

/-- The exit goes on to a commit, and the commit returns. -/
def Awaits.Commits (a : Awaits) (excVal : Option Exc) : Prop :=
  excVal.any Exc.truth = false ∧ a.commit = .returns

def raised : Except Exc α → Option Exc
  | .ok _ => none
  | .error e => some e

/-! ## One call after the other -/

theorem aenter_cases (w : World DB) (a : Awaits) :
    (w.Enters a ∧ ∃ w₁ s, (aenter a).runOn w = (.ok (), w₁) ∧ w₁.session = some s ∧
        s.view = w.committed ∧ w₁.committed = w.committed) ∨
      (¬ w.Enters a ∧ ∃ e w₁, (aenter a).runOn w = (.error e, w₁) ∧
        w₁.committed = w.committed) := by
  unfold aenter createTransaction World.Enters
  rw [runOn_bind_ok (runOn_get w)]
  cases hs : w.session with
  | none =>
    simp only []
    rw [runOn_bind_ok (runOn_set _ w)]
    cases hb : a.begin with
    | returns =>
      rw [beginTransaction_returns rfl hb]
      exact .inl ⟨⟨.inl trivial, rfl⟩, _, _, rfl, rfl, rfl, rfl⟩
    | raises e =>
      rw [beginTransaction_raises rfl hb]
      exact .inr ⟨fun h => Await.noConfusion h.2, _, _, rfl, rfl⟩
  | some s =>
    cases ht : w.transaction with
    | some n => exact .inr ⟨fun h => h.1.elim nofun nofun, _, _, rfl, rfl⟩
    | none =>
      simp only []
      cases hb : a.begin with
      | returns =>
        rw [beginTransaction_returns hs hb]
        exact .inl ⟨⟨.inr trivial, rfl⟩, _, _, rfl, rfl, rfl, rfl⟩
      | raises e =>
        rw [beginTransaction_raises hs hb]
        exact .inr ⟨fun h => Await.noConfusion h.2, _, _, rfl, rfl⟩

theorem closeTransaction_committed (a : Awaits) (h : w.session = some s) :
    ((closeTransaction a).runOn w).2.committed = w.committed := by
  cases hc : a.close with
  | returns => rw [closeTransaction_returns h hc]
  | raises e => rw [closeTransaction_raises h hc]

theorem aexit_committed (a : Awaits) (excVal : Option Exc) (h : w.session = some s) :
    (a.Commits excVal → ((aexit a excVal).runOn w).2.committed = s.view) ∧
      (¬ a.Commits excVal → ((aexit a excVal).runOn w).2.committed = w.committed) := by
  unfold aexit settle Awaits.Commits
  cases hexc : excVal.any Exc.truth with
  | true =>
    refine ⟨fun h => Bool.noConfusion h.1, fun _ => ?_⟩
    rw [if_pos rfl]
    cases hr : a.rollback with
    | returns => rw [runOn_bind_ok (rollback_returns h hr), closeTransaction_committed a rfl]
    | raises e => rw [runOn_bind_error (rollback_raises h hr)]
  | false =>
    rw [if_neg Bool.false_ne_true]
    cases hc : a.commit with
    | returns =>
      refine ⟨fun _ => ?_, fun hn => absurd ⟨rfl, rfl⟩ hn⟩
      rw [runOn_bind_ok (commit_returns h hc)]
      exact closeTransaction_committed a h
    | raises e =>
      refine ⟨fun h => Await.noConfusion h.2, fun _ => ?_⟩
      rw [runOn_bind_error (commit_raises h hc)]

/-- A block's committed state: what its body made where it committed, the old one elsewhere. -/
theorem asyncWith_committed (w : World DB) (a : Awaits) (body : Eff DB Exc α) :
    (w.Enters a → a.Commits (raised (body.runOn w.committed).1) →
        ((asyncWith a body).runOn w).2.committed = (body.runOn w.committed).2) ∧
      (¬ (w.Enters a ∧ a.Commits (raised (body.runOn w.committed).1)) →
        ((asyncWith a body).runOn w).2.committed = w.committed) := by
  rw [asyncWith]
  rcases aenter_cases w a with ⟨hin, w₁, s, hrun, hs, hview, hc⟩ | ⟨hin, e, w₁, hrun, hc⟩
  · rw [runOn_bind_ok hrun, runOn_bind_ok (runBody_runOn hs body), hview]
    generalize body.runOn w.committed = out
    obtain ⟨r, db⟩ := out
    have hexit := aexit_committed (w := { w₁ with session := some { s with view := db } })
      (s := { s with view := db }) a (raised r) rfl
    cases r with
    | ok x =>
      rw [runOn_bind_snd _ fun _ _ => rfl]
      exact ⟨fun _ => hexit.1, fun hn => (hexit.2 fun h => hn ⟨hin, h⟩).trans hc⟩
    | error e =>
      rw [runOn_bind_snd _ fun _ _ => rfl]
      exact ⟨fun _ => hexit.1, fun hn => (hexit.2 fun h => hn ⟨hin, h⟩).trans hc⟩
  · rw [runOn_bind_error hrun]
    exact ⟨fun h => absurd h hin, fun _ => hc⟩

/-! ## All or nothing -/

def Finishes (body : Eff DB Exc α) (db db' : DB) : Prop := ∃ x, body.runOn db = (.ok x, db')

theorem asyncWith_returns_iff (w : World DB) (a : Awaits) (body : Eff DB Exc α) :
    (∃ x, ((asyncWith a body).runOn w).1 = .ok x) ↔
      w.Enters a ∧ (∃ db, Finishes body w.committed db) ∧ a.commit = .returns ∧
        a.close = .returns := by
  rw [asyncWith]
  rcases aenter_cases w a with ⟨hin, w₁, s, hrun, hs, hview, -⟩ | ⟨hin, e, w₁, hrun, -⟩
  · rw [runOn_bind_ok hrun, runOn_bind_ok (runBody_runOn hs body), hview]
    unfold Finishes
    cases hbody : body.runOn w.committed with
    | mk r db =>
      cases r with
      | error e =>
        refine iff_of_false ?_ (by simp)
        rintro ⟨x, hx⟩
        obtain ⟨_, _, _, hthrow⟩ := bind_eq_ok (Prod.ext hx rfl)
        cases hthrow
      | ok x =>
        dsimp only
        by_cases hgood : a.settle none = .returns ∧ a.close = .returns
        · obtain ⟨w', hw', -⟩ :=
            aexit_resets (w := { w₁ with session := some { s with view := db } }) rfl
              hgood.1 hgood.2
          rw [runOn_bind_ok hw']
          exact iff_of_true ⟨x, rfl⟩ ⟨hin, ⟨db, x, rfl⟩, hgood⟩
        · obtain ⟨e, he, -⟩ :=
            aexit_stuck (w := { w₁ with session := some { s with view := db } }) rfl hgood
          rw [runOn_bind_error (Prod.ext he rfl)]
          exact iff_of_false (by simp) fun h => hgood h.2.2
  · rw [runOn_bind_error hrun]
    exact iff_of_false (by simp) fun h => hin h.1

/-- All writes of the body are committed where it finished and the commit succeeded, and none of
them in every other case. -/
structure Atomic (w : World DB) (a : Awaits) (body : Eff DB Exc α) : Prop where
  all : ∀ db, w.Enters a → Finishes body w.committed db → a.commit = .returns →
    ((asyncWith a body).runOn w).2.committed = db
  otherwise : ¬ (w.Enters a ∧ (∃ db, Finishes body w.committed db) ∧ a.commit = .returns) →
    ((asyncWith a body).runOn w).2.committed = w.committed

/-- The body raises an exception object that Python takes for false, after which the block
commits. -/
def CommitsRaised (w : World DB) (a : Awaits) (body : Eff DB Exc α) (db : DB) : Prop :=
  w.Enters a ∧ a.commit = .returns ∧ ∃ e, e.truth = false ∧ body.runOn w.committed = (.error e, db)

/-- **A block is atomic** exactly when its body has changed nothing where it raises an exception
object that is false and the commit returns. -/
theorem uow_atomic_iff (w : World DB) (a : Awaits) (body : Eff DB Exc α) :
    Atomic w a body ↔ ∀ db, CommitsRaised w a body db → db = w.committed := by
  have hblock := asyncWith_committed w a body
  cases hbody : body.runOn w.committed with
  | mk r db =>
    rw [hbody] at hblock
    dsimp only at hblock
    obtain ⟨hcommits, hkeeps⟩ := hblock
    constructor
    · rintro ⟨-, hother⟩ db' ⟨hin, hc, e, he, hrun⟩
      rw [hbody] at hrun; cases hrun
      rw [← hcommits hin ⟨by simp [raised, he], hc⟩]
      refine hother fun ⟨_, ⟨_, x, hx⟩, _⟩ => ?_
      rw [hbody] at hx; cases hx
    · intro h
      constructor
      case all =>
        rintro db' hin ⟨x, hx⟩ hc
        rw [hbody] at hx; cases hx
        exact hcommits hin ⟨rfl, hc⟩
      case otherwise =>
        intro hn
        by_cases hin : w.Enters a ∧ a.Commits (raised r)
        · obtain ⟨hin, htruth, hc⟩ := hin
          cases r with
          | ok x => exact absurd ⟨hin, ⟨db, x, hbody⟩, hc⟩ hn
          | error e =>
            rw [hcommits hin ⟨htruth, hc⟩]
            exact h db ⟨hin, hc, e, by simpa [raised] using htruth, hbody⟩
        · exact hkeeps hin

/-- A book is created, and then an exception object of length zero is raised. -/
def createThenRaise : Eff BookTable Exc Unit := do
  let _ ← BookStorage.createBook (.counting 0) ⟨"Iliad", 0, "Homer"⟩
  throw (.other .exception "ErrorList" false)

/-- The half-done block is committed. -/
theorem uow_commits_false_exception :
    ¬ Atomic (World.fresh (Table.empty : BookTable)) .allReturn createThenRaise := by
  intro h
  have hempty := h.otherwise fun ⟨_, ⟨_, _, hx⟩, _⟩ => by cases hx
  exact absurd (congrArg (fun t : BookTable => t.rows.length) hempty) (by decide)

end LibraryService.Database
