import LibraryService.General.Effect
import LibraryService.General.Transition
import LibraryService.Application.Exceptions

/-!
# The unit of work

`AbstractUow` and `SqlalchemyUow`, over a session whose awaited calls may each return or raise.
-/

open Transition Effect

namespace LibraryService.Database

/-- How an awaited call ends; a cancellation delivered there is `raises .cancelledError`. -/
inductive Await
  | returns
  | raises (e : Exc)
  deriving DecidableEq, Repr

/-- How each session call of one block ends, if the block comes to await it. -/
structure Awaits where
  begin : Await
  commit : Await
  rollback : Await
  close : Await
  deriving DecidableEq, Repr

def Awaits.allReturn : Awaits := ⟨.returns, .returns, .returns, .returns⟩

/-- An `AsyncSession`: what its statements see and change. -/
structure Session (DB : Type) where
  id : Nat
  view : DB

/-- The database and one `SqlalchemyUow`, with its `_session` and `_transaction`. -/
structure World (DB : Type) where
  committed : DB
  opened : Nat
  closing : List Nat
  session : Option (Session DB)
  transaction : Option Nat

def World.fresh {DB : Type} (db : DB) : World DB :=
  { committed := db, opened := 0, closing := [], session := none, transaction := none }

variable {DB α : Type}

def await {σ : Type} : Await → Eff σ Exc Unit
  | .returns => pure ()
  | .raises e => throw e

def currentSession : Eff (World DB) Exc (Session DB) := do
  match (← get).session with
  | none => throw (.exception "Session is not created")
  | some s => pure s

def commit (a : Awaits) : Eff (World DB) Exc Unit := do
  let s ← currentSession
  await a.commit
  modify fun w => { w with committed := s.view }

def rollback (a : Awaits) : Eff (World DB) Exc Unit := do
  let s ← currentSession
  await a.rollback
  modify fun w => { w with session := some { s with view := w.committed }, transaction := none }

def beginTransaction (a : Awaits) : Eff (World DB) Exc Unit := do
  let s ← currentSession
  await a.begin
  modify fun w =>
    { w with session := some { s with view := w.committed }, transaction := some s.id }

def createTransaction (a : Awaits) : Eff (World DB) Exc Unit := do
  let w ← get
  match w.session with
  | some _ =>
    match w.transaction with
    | some _ => throw (.exception "Session is already in transaction")
    | none => beginTransaction a
  | none =>
    set { w with session := some ⟨w.opened, w.committed⟩, opened := w.opened + 1 }
    beginTransaction a

def closeTransaction (a : Awaits) : Eff (World DB) Exc Unit := do
  let s ← currentSession
  modify fun w => { w with closing := w.closing ++ [s.id] }
  await a.close
  modify fun w => { w with transaction := none, session := none }

def aenter (a : Awaits) : Eff (World DB) Exc Unit := createTransaction a

/-- `if exc_val:` asks for the truth value of the exception object. -/
def settle (a : Awaits) (excVal : Option Exc) : Eff (World DB) Exc Unit :=
  if excVal.any Exc.truth then rollback a else commit a

def aexit (a : Awaits) (excVal : Option Exc) : Eff (World DB) Exc Unit := do
  settle a excVal
  closeTransaction a

def runBody (body : Eff DB Exc α) : Eff (World DB) Exc (Except Exc α) := do
  let s ← currentSession
  let (r, view) := body.runOn s.view
  modify fun w => { w with session := some { s with view := view } }
  pure r

/-- `async with uow: body`. -/
def asyncWith (a : Awaits) (body : Eff DB Exc α) : Eff (World DB) Exc α := do
  aenter a
  match ← runBody body with
  | .ok x =>
    aexit a none
    pure x
  | .error e =>
    aexit a (some e)
    throw e

/-! ## What each call does -/

section Calls

variable {a : Awaits} {w : World DB} {s : Session DB} {e : Exc}

theorem currentSession_runOn (h : w.session = some s) :
    currentSession.runOn w = (.ok s, w) := by
  rw [currentSession, runOn_bind_ok (runOn_get w)]
  simp only [h, runOn_pure]

theorem await_runOn_returns {σ : Type} (t : σ) : (await .returns).runOn t = (.ok (), t) := rfl

theorem await_runOn_raises {σ : Type} (t : σ) : (await (.raises e)).runOn t = (.error e, t) := rfl

theorem commit_returns (h : w.session = some s) (ha : a.commit = .returns) :
    (commit a).runOn w = (.ok (), { w with committed := s.view }) := by
  rw [commit, runOn_bind_ok (currentSession_runOn h), ha, runOn_bind_ok (await_runOn_returns w)]
  rfl

theorem commit_raises (h : w.session = some s) (ha : a.commit = .raises e) :
    (commit a).runOn w = (.error e, w) := by
  rw [commit, runOn_bind_ok (currentSession_runOn h), ha, runOn_bind_error (await_runOn_raises w)]

theorem rollback_returns (h : w.session = some s) (ha : a.rollback = .returns) :
    (rollback a).runOn w = (.ok (),
      { w with session := some { s with view := w.committed }, transaction := none }) := by
  rw [rollback, runOn_bind_ok (currentSession_runOn h), ha, runOn_bind_ok (await_runOn_returns w)]
  rfl

theorem rollback_raises (h : w.session = some s) (ha : a.rollback = .raises e) :
    (rollback a).runOn w = (.error e, w) := by
  rw [rollback, runOn_bind_ok (currentSession_runOn h), ha,
    runOn_bind_error (await_runOn_raises w)]

theorem beginTransaction_returns (h : w.session = some s) (ha : a.begin = .returns) :
    (beginTransaction a).runOn w = (.ok (),
      { w with session := some { s with view := w.committed }, transaction := some s.id }) := by
  rw [beginTransaction, runOn_bind_ok (currentSession_runOn h), ha,
    runOn_bind_ok (await_runOn_returns w)]
  rfl

theorem beginTransaction_raises (h : w.session = some s) (ha : a.begin = .raises e) :
    (beginTransaction a).runOn w = (.error e, w) := by
  rw [beginTransaction, runOn_bind_ok (currentSession_runOn h), ha,
    runOn_bind_error (await_runOn_raises w)]

theorem closeTransaction_returns (h : w.session = some s) (ha : a.close = .returns) :
    (closeTransaction a).runOn w = (.ok (),
      { w with closing := w.closing ++ [s.id], transaction := none, session := none }) := by
  rw [closeTransaction, runOn_bind_ok (currentSession_runOn h), runOn_bind_ok (runOn_modify _ w), ha,
    runOn_bind_ok (await_runOn_returns _)]
  rfl

theorem closeTransaction_raises (h : w.session = some s) (ha : a.close = .raises e) :
    (closeTransaction a).runOn w = (.error e, { w with closing := w.closing ++ [s.id] }) := by
  rw [closeTransaction, runOn_bind_ok (currentSession_runOn h), runOn_bind_ok (runOn_modify _ w), ha,
    runOn_bind_error (await_runOn_raises _)]

theorem runBody_runOn (h : w.session = some s) (body : Eff DB Exc α) :
    (runBody body).runOn w = (.ok (body.runOn s.view).1,
      { w with session := some { s with view := (body.runOn s.view).2 } }) := by
  rw [runBody, runOn_bind_ok (currentSession_runOn h)]
  rfl

end Calls

/-! ## A block in which every call returns -/

section Returning

variable {w : World DB} {body : Eff DB Exc α} {x : α} {e : Exc} {db db' : DB}

def World.inside (w : World DB) (view : DB) : World DB :=
  { w with
    session := some ⟨w.opened, view⟩
    opened := w.opened + 1
    transaction := some w.opened }

def World.after (w : World DB) (db : DB) : World DB :=
  { committed := db
    opened := w.opened + 1
    closing := w.closing ++ [w.opened]
    session := none
    transaction := none }

theorem aenter_allReturn (h : w.session = none) :
    (aenter .allReturn).runOn w = (.ok (), w.inside w.committed) := by
  unfold aenter createTransaction
  rw [runOn_bind_ok (runOn_get w), h]
  exact (runOn_bind_ok (runOn_set _ w)).trans
    (beginTransaction_returns (s := ⟨w.opened, w.committed⟩) rfl rfl)

theorem aexit_allReturn_none (w : World DB) (view : DB) :
    (aexit .allReturn none).runOn (w.inside view) = (.ok (), w.after view) := by
  have hcommit : (settle .allReturn none).runOn (w.inside view) = _ :=
    commit_returns (s := ⟨w.opened, view⟩) rfl rfl
  rw [aexit, runOn_bind_ok hcommit]
  exact closeTransaction_returns (s := ⟨w.opened, view⟩) rfl rfl

theorem aexit_allReturn_some (w : World DB) (view : DB) (he : e.truth = true) :
    (aexit .allReturn (some e)).runOn (w.inside view) = (.ok (), w.after w.committed) := by
  have hsettle : (settle .allReturn (some e) : Eff (World DB) Exc Unit) = rollback .allReturn :=
    if_pos he
  have hrollback : (rollback .allReturn).runOn (w.inside view) = _ :=
    rollback_returns (s := ⟨w.opened, view⟩) rfl rfl
  rw [aexit, hsettle, runOn_bind_ok hrollback]
  exact closeTransaction_returns (s := ⟨w.opened, w.committed⟩) rfl rfl

theorem asyncWith_ok (hs : w.session = none) (h : body.runOn w.committed = (.ok x, db)) :
    (asyncWith .allReturn body).runOn w = (.ok x, w.after db) := by
  have hbody : (runBody body).runOn (w.inside w.committed) = (.ok (.ok x), w.inside db) := by
    rw [runBody_runOn (s := ⟨w.opened, w.committed⟩) rfl, h]
    rfl
  rw [asyncWith, runOn_bind_ok (aenter_allReturn hs), runOn_bind_ok hbody]
  exact runOn_bind_ok (aexit_allReturn_none w db)

theorem asyncWith_error (hs : w.session = none) (h : body.runOn w.committed = (.error e, db))
    (he : e.truth = true) :
    (asyncWith .allReturn body).runOn w = (.error e, w.after w.committed) := by
  have hbody : (runBody body).runOn (w.inside w.committed) = (.ok (.error e), w.inside db) := by
    rw [runBody_runOn (s := ⟨w.opened, w.committed⟩) rfl, h]
    rfl
  rw [asyncWith, runOn_bind_ok (aenter_allReturn hs), runOn_bind_ok hbody]
  exact runOn_bind_ok (aexit_allReturn_some w db he)

theorem asyncWith_eq_ok {w' : World DB} (hs : w.session = none)
    (h : (asyncWith .allReturn body).runOn w = (.ok x, w')) :
    body.runOn w.committed = (.ok x, w'.committed) := by
  cases hbody : body.runOn w.committed with
  | mk r db =>
    cases r with
    | ok y =>
      rw [asyncWith_ok hs hbody] at h
      cases h
      rfl
    | error e =>
      have hrun : (runBody body).runOn (w.inside w.committed) = (.ok (.error e), w.inside db) := by
        rw [runBody_runOn (s := ⟨w.opened, w.committed⟩) rfl, hbody]
        rfl
      rw [asyncWith, runOn_bind_ok (aenter_allReturn hs), runOn_bind_ok hrun] at h
      dsimp only at h
      obtain ⟨_, _, _, hthrow⟩ := bind_eq_ok h
      cases hthrow

/-- What a request with a unit of work of its own answers, and the database it leaves. -/
def request (x : Eff (World DB) Exc α) (db : DB) : Except Exc α × DB :=
  ((x.runOn (World.fresh db)).1, (x.runOn (World.fresh db)).2.committed)

theorem request_ok (h : body.runOn db = (.ok x, db')) :
    request (asyncWith .allReturn body) db = (.ok x, db') := by
  rw [request, asyncWith_ok rfl h]
  rfl

theorem request_error (h : body.runOn db = (.error e, db')) (he : e.truth = true) :
    request (asyncWith .allReturn body) db = (.error e, db) := by
  rw [request, asyncWith_error rfl h he]
  rfl

theorem request_cases (db : DB) (body : Eff DB Exc α)
    (htruth : ∀ e db', body.runOn db = (.error e, db') → e.truth = true) :
    (∃ e, request (asyncWith .allReturn body) db = (.error e, db)) ∨
      ∃ x db', body.runOn db = (.ok x, db') ∧
        request (asyncWith .allReturn body) db = (.ok x, db') := by
  cases h : body.runOn db with
  | mk r db' =>
    cases r with
    | ok x => exact .inr ⟨x, db', rfl, request_ok h⟩
    | error e => exact .inl ⟨e, request_error h (htruth e db' h)⟩

def respond {β : Type} (f : α → β) (x : Eff (World DB) Exc α) (db : DB) : Except Exc β × DB :=
  ((request x db).1.map f, (request x db).2)

theorem respond_snd {β : Type} (f : α → β) (y : Eff (World DB) Exc α) (db : DB) :
    (respond f y db).2 = (request y db).2 := rfl

theorem respond_ok {β : Type} {f : α → β} (h : body.runOn db = (.ok x, db')) :
    respond f (asyncWith .allReturn body) db = (.ok (f x), db') := by
  rw [respond, request_ok h]
  rfl

theorem respond_error {β : Type} {f : α → β} (h : body.runOn db = (.error e, db'))
    (he : e.truth = true) : respond f (asyncWith .allReturn body) db = (.error e, db) := by
  rw [respond, request_error h he]
  rfl

theorem request_bind_ofExcept {β : Type} (y : Eff (World DB) Exc α) (f : α → Except Exc β) (db : DB) :
    request (do let a ← y; Eff.ofExcept (f a)) db = ((request y db).1.bind f, (request y db).2) := by
  unfold request
  rw [runOn_bind]
  obtain ⟨r, w⟩ := y.runOn (World.fresh db)
  cases r <;> rfl

theorem respond_bind {β γ : Type} (y : Eff (World DB) Exc α) (f : α → Except Exc β) (g : β → γ)
    (db : DB) : respond g (do let a ← y; Eff.ofExcept (f a)) db =
      ((request y db).1.bind fun a => (f a).map g, (request y db).2) := by
  rw [respond, request_bind_ofExcept]
  cases (request y db).1 <;> rfl

end Returning

end LibraryService.Database
