import LibraryService.Database.UserStorage
import LibraryService.Database.Uow

/-!
# User commands

`UserService`, and the commands of the users API and of the auth routes.
-/

open Effect Paging LibraryService.Python LibraryService.Database

namespace LibraryService.Domain

namespace UserService

def fetchUserList (scan : Scan UserRow) (params : UserPaginationParams) :
    Eff UserTable Exc UserPagination := do
  let total ← UserStorage.countUsers
  let items ← UserStorage.fetchUserList scan params
  pure ⟨total, items⟩

def createUser (st : Stmt) (iter : IterOrder) (user : CreateUser) : Eff UserTable Exc User :=
  UserStorage.createUser st iter user

def deleteUserById (st : Stmt) (userId : UUID) : Eff UserTable Exc Unit := do
  if ← UserStorage.existsUserById userId then
    UserStorage.deleteUserById st userId
  else throw (entityNotFound "User" userId)

def updateUserById (st : Stmt) (u : UpdateUser) : Eff UserTable Exc User := do
  if ← UserStorage.existsUserById u.id then
    UserStorage.updateUserById st u
  else throw (entityNotFound "User" u.id)

end UserService

/-! ## The users API -/

def CreateUserCommand.execute (a : Awaits) (st : Stmt) (iter : IterOrder) (inputDto : CreateUser) :
    Eff (World UserTable) Exc User :=
  asyncWith a (UserService.createUser st iter inputDto)

def UpdateUserByIdCommand.execute (a : Awaits) (st : Stmt) (inputDto : UpdateUser) :
    Eff (World UserTable) Exc User :=
  asyncWith a (UserService.updateUserById st inputDto)

def DeleteUserByIdCommand.execute (a : Awaits) (st : Stmt) (inputDto : UUID) :
    Eff (World UserTable) Exc Unit :=
  asyncWith a (UserService.deleteUserById st inputDto)

def FetchUserListQuery.execute (a : Awaits) (scan : Scan UserRow) (inputDto : UserPaginationParams) :
    Eff (World UserTable) Exc UserPagination :=
  asyncWith a (UserService.fetchUserList scan inputDto)

/-! ## The auth routes -/

/-- passlib's `CryptContext`; the salt of a hash is drawn outside. -/
structure CryptContext where
  hash : String → String → Except Exc String
  verify : String → String → Except Exc Bool

def RegisterUserCommand.execute (a : Awaits) (st : Stmt) (iter : IterOrder) (crypt : CryptContext)
    (salt : String) (inputDto : RegisterUser) : Eff (World UserTable) Exc User := do
  let passwordHash ← Eff.ofExcept (crypt.hash salt inputDto.password)
  asyncWith a (tryCatch
    (UserStorage.createUser st iter
      { username := inputDto.username
        email := inputDto.email
        passwordHash := some passwordHash })
    fun e => throw e)

def invalidCredentials : Exc := .invalidCredentialsException "Invalid username or password"

def LoginUserCommand.execute (a : Awaits) (crypt : CryptContext) (inputDto : LoginUser) :
    Eff (World UserTable) Exc AuthUser := do
  let credentials ← asyncWith a (UserStorage.fetchUserCredentialsByUsername inputDto.username)
  match credentials with
  | none => throw invalidCredentials
  | some credentials =>
    let valid ← tryCatch (Eff.ofExcept (crypt.verify inputDto.password credentials.passwordHash))
      fun e =>
        match e with
        | .unknownHashError => throw invalidCredentials
        | e => throw e
    if valid then
      pure { id := credentials.id.str
             isSuperuser := credentials.isSuperuser
             permissions := credentials.permissions }
    else throw invalidCredentials

/-! ## What the services do -/

variable {t : UserTable} {st : Stmt} {userId : UUID} {u : UpdateUser}

theorem deleteUserById_exists (h : (UserStorage.existsUserById userId).runOn t = (.ok true, t)) :
    (UserService.deleteUserById st userId).runOn t =
      (UserStorage.deleteUserById st userId).runOn t := by
  rw [UserService.deleteUserById, runOn_bind_ok h]
  rfl

theorem deleteUserById_missing (h : (UserStorage.existsUserById userId).runOn t = (.ok false, t)) :
    (UserService.deleteUserById st userId).runOn t = (.error (entityNotFound "User" userId), t) := by
  rw [UserService.deleteUserById, runOn_bind_ok h]
  rfl

theorem updateUserById_exists (h : (UserStorage.existsUserById u.id).runOn t = (.ok true, t)) :
    (UserService.updateUserById st u).runOn t = (UserStorage.updateUserById st u).runOn t := by
  rw [UserService.updateUserById, runOn_bind_ok h]
  rfl

theorem updateUserById_missing (h : (UserStorage.existsUserById u.id).runOn t = (.ok false, t)) :
    (UserService.updateUserById st u).runOn t = (.error (entityNotFound "User" u.id), t) := by
  rw [UserService.updateUserById, runOn_bind_ok h]
  rfl

/-! ## What the requests do -/

variable {iter : IterOrder} {r : UserRow}

theorem request_createUser (st : Stmt) (iter : IterOrder) (user : CreateUser) (t : UserTable) :
    let row := newUser st iter user
    let res := request (CreateUserCommand.execute .allReturn st iter user) t
    (∃ e, (e = .dbapiError ∧ row.fits = false ∨
          e = .libraryException "Unknown error" ∧ ∃ x ∈ t.rows, x.id = row.id) ∧
        res = (.error e, t)) ∨
      row.fits = true ∧ (∃ x ∈ t.rows, SameNames x row) ∧
        res = (.error (.entityAlreadyExistsException "User already exists"), t) ∨
      row.fits = true ∧ (¬ ∃ x ∈ t.rows, SameNames x row) ∧ (∀ x ∈ t.rows, x.id ≠ row.id) ∧
        ∃ u t', rowToUser row = .ok u ∧ res = (.ok u, t') ∧ t'.rows = t.rows ++ [row] := by
  intro row res
  rcases createUser_outcome st iter user t with
    ⟨e, he, hrun⟩ | ⟨hfits, hsame, hrun⟩ | ⟨hfits, hsame, hfresh, u, t', hu, hrun, hrows⟩
  · have htruth : e.truth = true := by rcases he with ⟨rfl, -⟩ | ⟨rfl, -⟩ <;> rfl
    exact .inl ⟨e, he, request_error hrun htruth⟩
  · exact .inr (.inl ⟨hfits, hsame, request_error hrun rfl⟩)
  · exact .inr (.inr ⟨hfits, hsame, hfresh, u, t', hu, request_ok hrun, hrows⟩)

theorem request_register {crypt : CryptContext} {salt passwordHash : String} {dto : RegisterUser}
    (h : crypt.hash salt dto.password = .ok passwordHash) (t : UserTable) :
    request (RegisterUserCommand.execute .allReturn st iter crypt salt dto) t =
      request (CreateUserCommand.execute .allReturn st iter
        { username := dto.username, email := dto.email, passwordHash := some passwordHash }) t := by
  have hhash := ofExcept_ok h (World.fresh t)
  rw [request, request, RegisterUserCommand.execute, runOn_bind_ok hhash, tryCatch_throw]
  rfl

theorem request_register_error {crypt : CryptContext} {salt : String} {dto : RegisterUser} {e : Exc}
    (h : crypt.hash salt dto.password = .error e) (t : UserTable) :
    request (RegisterUserCommand.execute .allReturn st iter crypt salt dto) t = (.error e, t) := by
  have hhash : (Eff.ofExcept (crypt.hash salt dto.password)).runOn (World.fresh t) = _ :=
    runOn_ofExcept _ _
  rw [h] at hhash
  rw [request, RegisterUserCommand.execute, h, runOn_bind_error hhash]
  rfl

theorem request_updateUser_missing (h : liveUser t u.id = none) :
    request (UpdateUserByIdCommand.execute .allReturn st u) t =
      (.error (entityNotFound "User" u.id), t) := by
  have hexists := existsUserById_runOn t u.id
  rw [h] at hexists
  exact request_error (updateUserById_missing hexists) rfl

theorem request_updateUser (st : Stmt) (h : liveUser t u.id = some r) (hknown : r.Known) :
    let r' := updatedUser st u r
    let res := request (UpdateUserByIdCommand.execute .allReturn st u) t
    (∃ e, (e = .dbapiError ∧ u.toDict.all UserValue.fits = false ∨
          e = .integrityError none ∧ HasNull u ∨
          (∃ name, e = .integrityError (some name)) ∧ ∃ x ∈ t.rows, x.id ≠ u.id ∧ SameNames x r') ∧
        res = (.error e, t)) ∨
      u.toDict.all UserValue.fits = true ∧ ¬ HasNull u ∧
        (¬ ∃ x ∈ t.rows, x.id ≠ u.id ∧ SameNames x r') ∧
        ∃ user t', rowToUser r' = .ok user ∧ res = (.ok user, t') ∧
          ∀ x, x ∈ t'.rows ↔ x = r' ∨ x ∈ t.rows ∧ x.id ≠ u.id := by
  intro r' res
  have hexists := existsUserById_runOn t u.id
  rw [h] at hexists
  obtain ⟨hr, hid, -⟩ := liveUser_eq_some.mp h
  rcases updateUserById_outcome st hr hid hknown with
    ⟨e, he, hrun⟩ | ⟨hfits, hnull, hsame, user, t', huser, hrun, hmem⟩
  · have htruth : e.truth = true := by
      rcases he with ⟨rfl, -⟩ | ⟨rfl, -⟩ | ⟨⟨name, rfl⟩, -⟩ <;> rfl
    rw [← updateUserById_exists hexists] at hrun
    exact .inl ⟨e, he, request_error hrun htruth⟩
  · rw [← updateUserById_exists hexists] at hrun
    exact .inr ⟨hfits, hnull, hsame, user, t', huser, request_ok hrun, hmem⟩

theorem request_deleteUser (st : Stmt) (userId : UUID) (t : UserTable) :
    let res := request (DeleteUserByIdCommand.execute .allReturn st userId) t
    liveUser t userId = none ∧ res = (.error (entityNotFound "User" userId), t) ∨
      ∃ r t', liveUser t userId = some r ∧ res = (.ok (), t') ∧
        ∀ x, x ∈ t'.rows ↔ x = markUserDeleted st r ∨ x ∈ t.rows ∧ x.id ≠ userId := by
  intro res
  have hexists := existsUserById_runOn t userId
  cases hlive : liveUser t userId with
  | none =>
    rw [hlive] at hexists
    exact .inl ⟨rfl, request_error (deleteUserById_missing hexists) rfl⟩
  | some r =>
    rw [hlive] at hexists
    obtain ⟨hr, hid, -⟩ := liveUser_eq_some.mp hlive
    obtain ⟨t', hrun, hmem⟩ := deleteUserById_runOn st hr hid
    rw [← deleteUserById_exists hexists] at hrun
    exact .inr ⟨r, t', rfl, request_ok hrun, hmem⟩

/-! ## Login -/

def findCredentials (t : UserTable) (username : String) : Except Exc (Option UserCredentials) :=
  if isText username then
    match t.rows.find? fun r => decide (r.username = username) && r.deletedAt.isNone with
    | none => .ok none
    | some user =>
      match user.passwordHash with
      | none => .ok none
      | some passwordHash =>
        (Permission.frozenset user.permissions).map fun permissions =>
          some { id := user.id
                 username := user.username
                 passwordHash
                 isSuperuser := user.isSuperuser
                 permissions }
  else .error .dbapiError

theorem fetchCredentials_runOn (t : UserTable) (username : String) :
    (UserStorage.fetchUserCredentialsByUsername username).runOn t =
      (findCredentials t username, t) := by
  unfold findCredentials
  cases htext : isText username with
  | false =>
    rw [UserStorage.fetchUserCredentialsByUsername, htext, runOn_bind_error (check_false t)]
    rfl
  | true =>
    rw [UserStorage.fetchUserCredentialsByUsername, htext, runOn_bind_ok (check_true t),
      runOn_bind_ok (runOn_get t)]
    simp only [if_true]
    cases t.rows.find? fun r => decide (r.username = username) && r.deletedAt.isNone with
    | none => rfl
    | some user =>
      cases hhash : user.passwordHash with
      | none => simp only [hhash]; rfl
      | some passwordHash =>
        simp only [hhash]
        rw [runOn_bind, runOn_ofExcept]
        cases Permission.frozenset user.permissions <;> rfl

def loginResult (crypt : CryptContext) (password : String) :
    Option UserCredentials → Except Exc AuthUser
  | none => .error invalidCredentials
  | some c =>
    match crypt.verify password c.passwordHash with
    | .ok true => .ok { id := c.id.str, isSuperuser := c.isSuperuser, permissions := c.permissions }
    | .ok false => .error invalidCredentials
    | .error .unknownHashError => .error invalidCredentials
    | .error e => .error e

theorem loginResult_verified {crypt : CryptContext} {password : String} {c : UserCredentials}
    {valid : Bool} (h : crypt.verify password c.passwordHash = .ok valid) :
    loginResult crypt password (some c) = if valid then
      .ok { id := c.id.str, isSuperuser := c.isSuperuser, permissions := c.permissions }
    else .error invalidCredentials := by
  simp only [loginResult, h]
  cases valid <;> rfl

theorem findCredentials_truth {username : String} {e : Exc}
    (h : findCredentials t username = .error e) : e.truth = true := by
  unfold findCredentials at h
  split at h
  · split at h
    · cases h
    · rename_i user _
      split at h
      · cases h
      · cases hperm : Permission.frozenset user.permissions with
        | ok s => rw [hperm] at h; cases h
        | error e' => rw [hperm] at h; cases h; rw [frozenset_error hperm]; rfl
  · cases h; rfl

theorem findCredentials_some {username : String} {c : UserCredentials}
    (h : findCredentials t username = .ok (some c)) :
    ∃ r ∈ t.rows, r.username = username ∧ r.deletedAt = none ∧
      r.passwordHash = some c.passwordHash ∧ r.id = c.id ∧ r.isSuperuser = c.isSuperuser ∧
      Permission.frozenset r.permissions = .ok c.permissions := by
  unfold findCredentials at h
  split at h
  · split at h
    · cases h
    · rename_i user hfind
      have hp := List.find?_some hfind
      simp only [Bool.and_eq_true, decide_eq_true_eq, Option.isNone_iff_eq_none] at hp
      split at h
      · cases h
      · rename_i passwordHash hhash
        cases hperm : Permission.frozenset user.permissions with
        | error e => rw [hperm] at h; cases h
        | ok s =>
          rw [hperm] at h; cases h
          exact ⟨user, List.mem_of_find?_eq_some hfind, hp.1, hp.2, hhash, rfl, rfl, hperm⟩
  · cases h

theorem loginResult_ok {crypt : CryptContext} {password : String} {o : Option UserCredentials}
    {u : AuthUser} (h : loginResult crypt password o = .ok u) :
    ∃ c, o = some c ∧ crypt.verify password c.passwordHash = .ok true ∧
      u = { id := c.id.str, isSuperuser := c.isSuperuser, permissions := c.permissions } := by
  cases o with
  | none => cases h
  | some c =>
    cases hverify : crypt.verify password c.passwordHash with
    | error e => cases e <;> simp only [loginResult, hverify] at h <;> cases h
    | ok valid =>
      cases valid with
      | false => simp only [loginResult, hverify] at h; cases h
      | true =>
        simp only [loginResult, hverify] at h
        exact ⟨c, rfl, hverify, (Except.ok.inj h).symm⟩

theorem request_login (crypt : CryptContext) (dto : LoginUser) (t : UserTable) :
    request (LoginUserCommand.execute .allReturn crypt dto) t =
      ((findCredentials t dto.username).bind (loginResult crypt dto.password), t) := by
  have hfetch := fetchCredentials_runOn t dto.username
  cases hfind : findCredentials t dto.username with
  | error e =>
    rw [hfind] at hfetch
    have hblock := asyncWith_error (w := World.fresh t) rfl hfetch (findCredentials_truth hfind)
    rw [request, LoginUserCommand.execute, runOn_bind_error hblock]
    rfl
  | ok c =>
    rw [hfind] at hfetch
    have hblock := asyncWith_ok (w := World.fresh t) rfl hfetch
    rw [request, LoginUserCommand.execute, runOn_bind_ok hblock]
    cases c with
    | none => rfl
    | some c =>
      simp only [Except.bind, loginResult]
      rw [runOn_bind, runOn_tryCatch, runOn_ofExcept]
      cases crypt.verify dto.password c.passwordHash with
      | ok valid => cases valid <;> rfl
      | error e => cases e <;> rfl

end LibraryService.Domain
