import LibraryService.General.Transition
import LibraryService.Domain.UserCommands

/-!
# Logins over runs

Which credentials a login accepts after any run of the user commands.
-/

open Transition Effect Relational LibraryService.Python LibraryService.Database

namespace LibraryService.Domain

/-! ## The commands -/

inductive UserCommand
  | register (st : Stmt) (salt : String) (inputDto : RegisterUser)
  | create (st : Stmt) (username email : String)
  | update (st : Stmt) (inputDto : UpdateUser)
  | delete (st : Stmt) (userId : UUID)
  | login (inputDto : LoginUser)

inductive CommandResult
  | user (u : User)
  | done
  | authUser (u : AuthUser)
  deriving DecidableEq

def executeUser (iter : IterOrder) (crypt : CryptContext) (t : UserTable) :
    UserCommand → Except Exc CommandResult × UserTable
  | .register st salt inputDto =>
    respond .user (RegisterUserCommand.execute .allReturn st iter crypt salt inputDto) t
  | .create st username email =>
    respond .user (CreateUserCommand.execute .allReturn st iter { username, email }) t
  | .update st inputDto => respond .user (UpdateUserByIdCommand.execute .allReturn st inputDto) t
  | .delete st userId => respond (fun _ => .done) (DeleteUserByIdCommand.execute .allReturn st userId) t
  | .login inputDto => respond .authUser (LoginUserCommand.execute .allReturn crypt inputDto) t

/-! ## The ledger -/

/-- What the answers tell of a user. -/
structure Account where
  /-- `None` for a user that an admin created. -/
  password : Option String
  username : String
  deleted : Bool
  deriving DecidableEq, Repr

abbrev Ledger := UUID → Option Account

namespace Ledger

def edit (l : Ledger) (userId : UUID) (f : Account → Account) : Ledger :=
  Function.update l userId ((l userId).map f)

/-- A command that failed changes nothing. -/
def record (l : Ledger) : UserCommand → Except Exc CommandResult → Ledger
  | .register _ _ dto, .ok (.user u) =>
    Function.update l u.id (some ⟨some dto.password, dto.username, false⟩)
  | .create _ username _, .ok (.user u) => Function.update l u.id (some ⟨none, username, false⟩)
  | .update _ dto, .ok _ =>
    l.edit dto.id fun a => { a with username := dto.username.join.getD a.username }
  | .delete _ userId, .ok _ => l.edit userId fun a => { a with deleted := true }
  | _, _ => l

def ofRun (history : List (UserCommand × Except Exc CommandResult)) : Ledger :=
  history.foldl (fun l p => l.record p.1 p.2) fun _ => none

/-- The user was registered with this password, is not deleted, and has this username now. -/
def Accepts (l : Ledger) (userId : UUID) (dto : LoginUser) : Prop :=
  l userId = some ⟨some dto.password, dto.username, false⟩

end Ledger

/-! ## What the table has to do with the ledger -/

variable {iter : IterOrder} {crypt : CryptContext} {t t' : UserTable} {l : Ledger} {st : Stmt}
  {r r' row : UserRow} {account : Account}

/-- A password that the hash of a password is specified for. -/
def AdmissiblePassword (password : String) : Prop :=
  password.length ≤ 4096 ∧ isText password = true

/-- passlib: a password is verified against the hash of a password exactly if it is that one. -/
def VerifiesOwn (crypt : CryptContext) : Prop :=
  ∀ salt p q hash, AdmissiblePassword p → AdmissiblePassword q → crypt.hash salt q = .ok hash →
    crypt.verify p hash = .ok (decide (p = q))

inductive Hashed (crypt : CryptContext) : Option String → Option String → Prop
  | none : Hashed crypt none none
  | some {salt password passwordHash : String} :
    AdmissiblePassword password → crypt.hash salt password = .ok passwordHash →
      Hashed crypt (some password) (some passwordHash)

structure Backs (crypt : CryptContext) (r : UserRow) (account : Account) : Prop where
  password : Hashed crypt account.password r.passwordHash
  username : account.username = r.username
  deleted : account.deleted = r.deletedAt.isSome

theorem Backs.eq (h : Backs crypt r account) :
    account = ⟨account.password, r.username, r.deletedAt.isSome⟩ := by
  rw [← h.username, ← h.deleted]

/-- Rows and accounts are about the same users. -/
structure Records (crypt : CryptContext) (l : Ledger) (t : UserTable) : Prop where
  rows : ∀ r ∈ t.rows, ∃ account, l r.id = some account ∧ Backs crypt r account
  accounts : ∀ userId account, l userId = some account → ∃ r ∈ t.rows, r.id = userId
  known : AllKnown t

theorem records_empty : Records crypt (fun _ => none) Table.empty :=
  ⟨fun _ hr => absurd hr List.not_mem_nil, fun _ _ h => absurd h.symm (Option.some_ne_none _), .empty⟩

theorem Records.insert (h : Records crypt l t) (hrows : t'.rows = t.rows ++ [row])
    (hfresh : ∀ x ∈ t.rows, x.id ≠ row.id) (hbacks : Backs crypt row account) (hknown : row.Known) :
    Records crypt (Function.update l row.id (some account)) t' := by
  have hmem : ∀ x, x ∈ t'.rows ↔ x ∈ t.rows ∨ x = row := by simp [hrows]
  refine ⟨fun x hx => ?_, fun userId a ha => ?_, h.known.inserted hrows hknown⟩
  · rcases (hmem x).mp hx with hx | rfl
    · rw [Function.update_of_ne (hfresh x hx)]
      exact h.rows x hx
    · exact ⟨account, Function.update_self .., hbacks⟩
  · by_cases hid : userId = row.id
    · exact ⟨row, (hmem row).mpr (.inr rfl), hid.symm⟩
    · rw [Function.update_of_ne hid] at ha
      obtain ⟨x, hx, hxid⟩ := h.accounts userId a ha
      exact ⟨x, (hmem x).mpr (.inl hx), hxid⟩

theorem Records.replace (h : Records crypt l t) (hr : r ∈ t.rows)
    (hmem : ∀ x, x ∈ t'.rows ↔ x = r' ∨ x ∈ t.rows ∧ x.id ≠ r.id) (hid : r'.id = r.id)
    (hperm : r'.permissions = r.permissions) (f : Account → Account)
    (hbacks : ∀ account, Backs crypt r account → Backs crypt r' (f account)) :
    Records crypt (l.edit r.id f) t' := by
  refine ⟨fun x hx => ?_, fun userId a ha => ?_, h.known.replaced hr hmem hperm⟩
  · rcases (hmem x).mp hx with rfl | ⟨hx, hne⟩
    · obtain ⟨account, hacc, hback⟩ := h.rows r hr
      refine ⟨f account, ?_, hbacks account hback⟩
      rw [hid, Ledger.edit, Function.update_self, hacc, Option.map_some]
    · rw [Ledger.edit, Function.update_of_ne hne]
      exact h.rows x hx
  · by_cases huser : userId = r.id
    · exact ⟨r', (hmem r').mpr (.inl rfl), hid.trans huser.symm⟩
    · rw [Ledger.edit, Function.update_of_ne huser] at ha
      obtain ⟨x, hx, hxid⟩ := h.accounts userId a ha
      exact ⟨x, (hmem x).mpr (.inr ⟨hx, hxid ▸ huser⟩), hxid⟩

/-! ## Steps -/

def UserCommand.Admissible : UserCommand → Prop
  | .register _ _ inputDto => AdmissiblePassword inputDto.password
  | _ => True

theorem Records.create (h : Records crypt l t) (st : Stmt) (iter : IterOrder) (user : CreateUser)
    {password : Option String} (hhash : Hashed crypt password user.passwordHash) :
    let res := request (CreateUserCommand.execute .allReturn st iter user) t
    (∃ e, res = (.error e, t)) ∨ ∃ u t', res = (.ok u, t') ∧
      Records crypt (Function.update l u.id (some ⟨password, user.username, false⟩)) t' := by
  intro res
  rcases request_createUser st iter user t with
    ⟨e, -, hreq⟩ | ⟨-, -, hreq⟩ | ⟨-, -, hfresh, u, t', hu, hreq, hrows⟩
  · exact .inl ⟨e, hreq⟩
  · exact .inl ⟨_, hreq⟩
  · have hknown := newUser_known st iter user
    obtain ⟨u', hu', hid, -⟩ := rowToUser_known hknown
    obtain rfl := Except.ok.inj (hu'.symm.trans hu)
    refine .inr ⟨u', t', hreq, ?_⟩
    rw [hid]
    exact h.insert hrows hfresh ⟨hhash, rfl, rfl⟩ hknown

theorem executeUser_records (h : Records crypt l t) (iter : IterOrder) (cmd : UserCommand)
    (hcmd : cmd.Admissible) : Records crypt (l.record cmd (executeUser iter crypt t cmd).1)
      (executeUser iter crypt t cmd).2 := by
  cases cmd with
  | register st salt dto =>
    rw [executeUser, respond]
    cases hhash : crypt.hash salt dto.password with
    | error e => rw [request_register_error hhash]; exact h
    | ok passwordHash =>
      rw [request_register hhash]
      rcases h.create st iter { username := dto.username, email := dto.email, passwordHash }
        (.some hcmd hhash) with ⟨e, hreq⟩ | ⟨u, t', hreq, hrec⟩ <;> rw [hreq]
      · exact h
      · exact hrec
  | create st username email =>
    rw [executeUser, respond]
    rcases h.create st iter { username, email } .none with
      ⟨e, hreq⟩ | ⟨u, t', hreq, hrec⟩ <;> rw [hreq]
    · exact h
    · exact hrec
  | update st dto =>
    rw [executeUser, respond]
    cases hlive : liveUser t dto.id with
    | none => rw [request_updateUser_missing hlive]; exact h
    | some r =>
      obtain ⟨hr, hid, hlive'⟩ := liveUser_eq_some.mp hlive
      rcases request_updateUser st hlive (h.known r hr) with
        ⟨e, -, hreq⟩ | ⟨-, -, -, user, t', -, hreq, hmem⟩ <;> rw [hreq]
      · exact h
      · rw [← hid] at hmem
        have hrec := h.replace hr hmem rfl rfl
          (fun a => { a with username := dto.username.join.getD a.username })
          fun account hback =>
            ⟨hback.password, by simp [updatedUser, hback.username], hback.deleted⟩
        rw [hid] at hrec
        exact hrec
  | delete st userId =>
    rw [executeUser, respond]
    rcases request_deleteUser st userId t with ⟨-, hreq⟩ | ⟨r, t', hlive, hreq, hmem⟩ <;> rw [hreq]
    · exact h
    · obtain ⟨hr, hid, -⟩ := liveUser_eq_some.mp hlive
      rw [← hid] at hmem
      have hrec := h.replace hr hmem rfl rfl (fun a => { a with deleted := true })
        fun account hback => ⟨hback.password, hback.username, rfl⟩
      rw [hid] at hrec
      exact hrec
  | login dto =>
    rw [executeUser, respond, request_login]
    exact h

/-! ## Logins -/

variable {dto : LoginUser}

theorem findCredentials_live (hr : r ∈ t.rows) (hlive : r.deletedAt = none) (hknown : r.Known)
    (htext : isText r.username = true) {passwordHash : String}
    (hhash : r.passwordHash = some passwordHash) :
    ∃ c, findCredentials t r.username = .ok (some c) ∧ c.id = r.id ∧ c.passwordHash = passwordHash := by
  obtain ⟨permissions, hperm⟩ := hknown
  have hfind : (t.rows.find? fun x => decide (x.username = r.username) && x.deletedAt.isNone) =
      some r := by
    cases hx : t.rows.find? fun x => decide (x.username = r.username) && x.deletedAt.isNone with
    | none =>
      have := List.find?_eq_none.mp hx r hr
      simp [hlive] at this
    | some x =>
      have hp := List.find?_some hx
      simp only [Bool.and_eq_true, decide_eq_true_eq] at hp
      rw [username_unique (List.mem_of_find?_eq_some hx) hr hp.1]
  refine ⟨{ id := r.id, username := r.username, passwordHash, isSuperuser := r.isSuperuser
            permissions }, ?_, rfl, rfl⟩
  simp only [findCredentials, htext, if_true, hfind, hhash, hperm]
  rfl

theorem findCredentials_ok (hknown : AllKnown t) {username : String} (htext : isText username = true) :
    ∃ o, findCredentials t username = .ok o := by
  rw [findCredentials, if_pos htext]
  split
  · exact ⟨none, rfl⟩
  · rename_i user hfind
    obtain ⟨permissions, hperm⟩ := hknown user (List.mem_of_find?_eq_some hfind)
    split
    · exact ⟨none, rfl⟩
    · exact ⟨_, by rw [hperm]; rfl⟩

theorem Records.accepted (h : Records crypt l t) {userId : UUID} (hacc : l.Accepts userId dto) :
    ∃ r ∈ t.rows, r.id = userId ∧ Backs crypt r ⟨some dto.password, dto.username, false⟩ := by
  obtain ⟨r, hr, rfl⟩ := h.accounts userId _ hacc
  obtain ⟨account, haccount, hback⟩ := h.rows r hr
  obtain rfl := Option.some.inj (haccount.symm.trans hacc)
  exact ⟨r, hr, rfl, hback⟩

theorem Records.found (h : Records crypt l t) (htext : isText dto.username = true) {userId : UUID}
    (hacc : l.Accepts userId dto) :
    ∃ c, findCredentials t dto.username = .ok (some c) ∧ c.id = userId := by
  obtain ⟨r, hr, rfl, ⟨hpassword, husername, hdeleted⟩⟩ := h.accepted hacc
  dsimp only at hpassword husername hdeleted
  have hlive : r.deletedAt = none := Option.isSome_eq_false_iff.mp hdeleted.symm |> Option.isNone_iff_eq_none.mp
  generalize hhash : r.passwordHash = o at hpassword
  cases hpassword with
  | some _ _ =>
    rw [husername] at htext
    obtain ⟨c, hc, hid, -⟩ := findCredentials_live hr hlive (h.known r hr) htext hhash
    exact ⟨c, husername ▸ hc, hid⟩

theorem Backs.verify (hback : Backs crypt r account) (hcrypt : VerifiesOwn crypt) {passwordHash : String}
    (hhash : r.passwordHash = some passwordHash) {p : String} (hp : AdmissiblePassword p) :
    ∃ q, account.password = some q ∧ crypt.verify p passwordHash = .ok (decide (p = q)) := by
  obtain ⟨hpassword, -, -⟩ := hback
  rw [hhash] at hpassword
  generalize account.password = q at hpassword ⊢
  cases hpassword with
  | some hq hsalt => exact ⟨_, rfl, hcrypt _ _ _ _ hp hq hsalt⟩

theorem login_cases (h : Records crypt l t) (hcrypt : VerifiesOwn crypt)
    (htext : isText dto.username = true) (hp : AdmissiblePassword dto.password) :
    let res := (findCredentials t dto.username).bind (loginResult crypt dto.password)
    (∃ a userId, res = .ok a ∧ a.id = UUID.str userId ∧ l.Accepts userId dto) ∨
      res = .error invalidCredentials ∧ ∀ userId, ¬ l.Accepts userId dto := by
  intro res
  obtain ⟨o, hfind⟩ := findCredentials_ok h.known htext
  cases o with
  | none =>
    refine .inr ⟨by simp only [res, hfind]; rfl, fun userId hacc => ?_⟩
    obtain ⟨c, hc, -⟩ := h.found htext hacc
    cases hfind.symm.trans hc
  | some c =>
    obtain ⟨r, hr, husername, hlive, hhash, hid, -⟩ := findCredentials_some hfind
    obtain ⟨account, haccount, hback⟩ := h.rows r hr
    obtain ⟨q, hq, hverify⟩ := hback.verify hcrypt hhash hp
    have hres : res = loginResult crypt dto.password (some c) := by simp only [res, hfind]; rfl
    rw [loginResult_verified hverify] at hres
    by_cases hpq : dto.password = q
    · rw [decide_eq_true hpq] at hres
      refine .inl ⟨_, r.id, hres, by rw [hid], ?_⟩
      rw [Ledger.Accepts, haccount, hback.eq, hq, hpq, husername, hlive]
      rfl
    · rw [decide_eq_false hpq] at hres
      refine .inr ⟨hres, fun userId hacc => ?_⟩
      obtain ⟨c', hc', hid'⟩ := h.found htext hacc
      obtain rfl := Option.some.inj (Except.ok.inj (hfind.symm.trans hc'))
      rw [Ledger.Accepts, ← hid', ← hid] at hacc
      obtain rfl := Option.some.inj (haccount.symm.trans hacc)
      exact hpq (Option.some.inj hq)

/-- Every login on the table gives what the ledger tells, and leaves the table. -/
def AcceptsExactly (crypt : CryptContext) (l : Ledger) (t : UserTable) : Prop :=
  ∀ dto : LoginUser, isText dto.username = true → AdmissiblePassword dto.password →
    let res := request (LoginUserCommand.execute .allReturn crypt dto) t
    (∀ userId, (∃ a, res.1 = .ok a ∧ a.id = UUID.str userId) ↔ l.Accepts userId dto) ∧
      ((∀ userId, ¬ l.Accepts userId dto) → res.1 = .error invalidCredentials) ∧ res.2 = t

theorem Records.accepts_unique (h : Records crypt l t) {userId userId' : UUID}
    (hacc : l.Accepts userId dto) (hacc' : l.Accepts userId' dto) : userId = userId' := by
  obtain ⟨r, hr, rfl, hback⟩ := h.accepted hacc
  obtain ⟨r', hr', rfl, hback'⟩ := h.accepted hacc'
  rw [username_unique hr hr' (hback.username.symm.trans hback'.username)]

theorem Records.acceptsExactly (h : Records crypt l t) (hcrypt : VerifiesOwn crypt) :
    AcceptsExactly crypt l t := by
  intro dto htext hp
  rw [request_login]
  refine ⟨fun userId => ?_, fun hnone => ?_, rfl⟩
  · rcases login_cases h hcrypt htext hp with ⟨a, userId', hres, hid, hacc⟩ | ⟨hres, hnone⟩
    · refine ⟨fun ⟨a', hres', hid'⟩ => ?_, fun hacc' => ⟨a, hres, ?_⟩⟩
      · obtain rfl := Except.ok.inj (hres.symm.trans hres')
        rwa [← UUID.str_injective (hid.symm.trans hid')]
      · rw [hid, h.accepts_unique hacc hacc']
    · refine ⟨fun ⟨a', hres', _⟩ => ?_, fun hacc => absurd hacc (hnone userId)⟩
      cases hres.symm.trans hres'
  · rcases login_cases h hcrypt htext hp with ⟨a, userId, -, -, hacc⟩ | ⟨hres, -⟩
    · exact absurd hacc (hnone userId)
    · exact hres

/-- **A login accepts exactly the registered credentials**, after any run of the commands. -/
theorem login_accepts_registered (iter : IterOrder) (hcrypt : VerifiesOwn crypt)
    {cmds : List UserCommand} (hcmds : ∀ cmd ∈ cmds, cmd.Admissible) :
    let run := answers (executeUser iter crypt) Table.empty cmds
    AcceptsExactly crypt (Ledger.ofRun (cmds.zip run.1)) run.2 := by
  have hrec := answers_observed (m := executeUser iter crypt) (I := Records crypt) (f := Ledger.record)
    (fun l t cmd h hcmd => executeUser_records h iter cmd hcmd) records_empty hcmds
  exact hrec.acceptsExactly hcrypt

def plainCrypt : CryptContext where
  hash _ password := .ok password
  verify password hash := .ok (decide (password = hash))

/-- Bob is registered and renamed, and a user without a password gets his old name. -/
def renamedBob : List UserCommand :=
  [.register (.counting 0) "salt" ⟨"bob", "bob@x.org", "correct horse"⟩,
    .update (.counting 0) ⟨⟨0⟩, some (some "robert"), none⟩, .create (.counting 1) "bob" "b@x.org",
    .login ⟨"bob", "correct horse"⟩]

theorem login_accepts_registered_renamed :
    let run := answers (executeUser .declared plainCrypt) Table.empty renamedBob
    AcceptsExactly plainCrypt (Ledger.ofRun (renamedBob.zip run.1)) run.2 ∧
      (Ledger.ofRun (renamedBob.zip run.1)).Accepts ⟨0⟩ ⟨"robert", "correct horse"⟩ := by
  have hcrypt : VerifiesOwn plainCrypt := fun _ _ _ _ _ _ h => by obtain rfl := Except.ok.inj h; rfl
  refine ⟨login_accepts_registered .declared hcrypt ?_, rfl⟩
  simp only [renamedBob, List.forall_mem_cons, UserCommand.Admissible, AdmissiblePassword]
  exact ⟨by decide, trivial, trivial, trivial, fun _ h => absurd h List.not_mem_nil⟩

end LibraryService.Domain
