import LibraryService.Presentors.Users

/-!
# How user writes fail

Which requests end with a user or one of three exceptions, and report a taken name as such.
-/

open Transition Effect Relational LibraryService.Python LibraryService.Database LibraryService.Domain

namespace LibraryService.Presentors

variable {isEmail : EmailCheck} {iter : IterOrder} {crypt : CryptContext} {t : UserTable} {st : Stmt}

def DomainError (e : Exc) : Prop :=
  (∃ m, e = .emptyPayloadException m) ∨ (∃ m, e = .entityNotFoundException m) ∨
    ∃ m, e = .entityAlreadyExistsException m

/-- The request asks for a username or an e-mail that another row has; an update has a row of its
own when its user is live. -/
def Conflict (t : UserTable) : UserWrite isEmail → Prop
  | .create _ data => ∃ x ∈ t.rows, x.username = data.username ∨ x.email = data.email
  | .register _ _ data => ∃ x ∈ t.rows, x.username = data.username ∨ x.email = data.email
  | .update _ userId data => (liveUser t userId).isSome ∧ ∃ x ∈ t.rows, x.id ≠ userId ∧
      (data.username = some (some x.username) ∨ data.email = some (some x.email))
  | .delete _ _ => False

/-- It succeeds, or raises one of the three and leaves the table; on a conflict it raises the
third. -/
structure LawfulAnswer {α : Type} (t : UserTable) (conflict : Prop)
    (res : Except Exc α × UserTable) : Prop where
  domain : ∀ e, res.1 = .error e → DomainError e ∧ res.2 = t
  conflict : conflict → ∃ m, res.1 = .error (.entityAlreadyExistsException m)

def Lawful (iter : IterOrder) (crypt : CryptContext) (t : UserTable) (w : UserWrite isEmail) : Prop :=
  LawfulAnswer t (Conflict t w) (handleWrite iter crypt t w)

/-- No NUL character in a username, and in the update of a live user no `None` and no taken name. -/
def Admitted (t : UserTable) : UserWrite isEmail → Prop
  | .create _ data => isText data.username = true
  | .register _ _ data => isText data.username = true
  | .update st userId data => data.isEmpty = false → (liveUser t userId).isSome →
      data.username ≠ some none ∧ data.email ≠ some none ∧
        (∀ s, data.username = some (some s) → isText s = true) ∧
        ¬ Conflict t (.update st userId data)
  | .delete _ _ => True

/-- The id that an inserting request draws is in no row. -/
def UserWrite.DrawsFresh (t : UserTable) : UserWrite isEmail → Prop
  | .create st _ | .register st _ _ => ∀ x ∈ t.rows, x.id ≠ st.uuid4 0
  | .update _ _ _ | .delete _ _ => True

/-- passlib hashes every password the schema lets through, to a string that its column holds. -/
def Hashes (crypt : CryptContext) : Prop :=
  ∀ salt password, HasLength 8 255 password →
    ∃ h, crypt.hash salt password = .ok h ∧ isVarcharText h = true

/-! ## Handlers and their commands -/

def userResponse (user : User) : Except Exc UserResponse := .ok (.user (userSchema user))

def registeredResponse (isEmail : EmailCheck) (user : User) : Except Exc UserResponse :=
  (registeredUserSchema isEmail user).map .registered

theorem handleWrite_create (iter : IterOrder) (crypt : CryptContext) (t : UserTable) (st : Stmt)
    (data : CreateUserSchema isEmail) :
    handleWrite iter crypt t (.create st data) =
      let res := request (CreateUserCommand.execute .allReturn st iter
        { username := data.username, email := data.email }) t
      (res.1.bind userResponse, res.2) :=
  respond_bind _ (fun u => .ok (userSchema u)) _ t

theorem handleWrite_register (iter : IterOrder) (crypt : CryptContext) (t : UserTable) (st : Stmt)
    (salt : String) (data : RegisterRequestSchema isEmail) :
    handleWrite iter crypt t (.register st salt data) =
      let res := request (RegisterUserCommand.execute .allReturn st iter crypt salt
        { username := data.username, email := data.email, password := data.password }) t
      (res.1.bind (registeredResponse isEmail), res.2) :=
  respond_bind _ (registeredUserSchema isEmail) _ t

theorem handleWrite_update (iter : IterOrder) (crypt : CryptContext) (t : UserTable) (st : Stmt)
    (userId : UUID) {data : UpdateUserSchema isEmail} (h : data.isEmpty = false) :
    handleWrite iter crypt t (.update st userId data) =
      let res := request (UpdateUserByIdCommand.execute .allReturn st
        { id := userId, username := data.username, email := data.email }) t
      (res.1.bind userResponse, res.2) := by
  rw [handleWrite, updateUserById, h]
  exact respond_bind _ (fun u => .ok (userSchema u)) _ t

theorem handleWrite_update_empty (iter : IterOrder) (crypt : CryptContext) (t : UserTable)
    (st : Stmt) (userId : UUID) {data : UpdateUserSchema isEmail} (h : data.isEmpty = true) :
    handleWrite iter crypt t (.update st userId data) =
      (.error (.emptyPayloadException "No values to update"), t) := by
  rw [handleWrite, updateUserById, h]
  rfl

/-! ## Inserts -/

theorem lawful_insert {ρ : Type} {res : Except Exc User × UserTable} {f : User → Except Exc ρ}
    {row : UserRow} (hfresh : ∀ x ∈ t.rows, x.id ≠ row.id)
    (hf : ∀ u, rowToUser row = .ok u → ∃ b, f u = .ok b)
    (h : (∃ e, (e = .dbapiError ∧ row.fits = false ∨
          e = .libraryException "Unknown error" ∧ ∃ x ∈ t.rows, x.id = row.id) ∧
        res = (.error e, t)) ∨
      row.fits = true ∧ (∃ x ∈ t.rows, SameNames x row) ∧
        res = (.error (.entityAlreadyExistsException "User already exists"), t) ∨
      row.fits = true ∧ (¬ ∃ x ∈ t.rows, SameNames x row) ∧ (∀ x ∈ t.rows, x.id ≠ row.id) ∧
        ∃ u t', rowToUser row = .ok u ∧ res = (.ok u, t') ∧ t'.rows = t.rows ++ [row]) :
    LawfulAnswer t (∃ x ∈ t.rows, SameNames x row) (res.1.bind f, res.2) ↔ row.fits = true := by
  rcases h with ⟨e, ⟨rfl, hfits⟩ | ⟨-, x, hx, hid⟩, rfl⟩ | ⟨hfits, hsame, rfl⟩ |
    ⟨hfits, hsame, -, u, t', hu, rfl, -⟩
  · rw [hfits]
    refine iff_of_false (fun hlaw => ?_) (by simp)
    obtain ⟨⟨m, hm⟩ | ⟨m, hm⟩ | ⟨m, hm⟩, -⟩ := hlaw.domain _ rfl <;> cases hm
  · exact absurd hid (hfresh x hx)
  · refine iff_of_true ⟨fun e he => ?_, fun _ => ⟨_, rfl⟩⟩ hfits
    cases he
    exact ⟨.inr (.inr ⟨_, rfl⟩), rfl⟩
  · obtain ⟨b, hb⟩ := hf u hu
    refine iff_of_true ⟨fun e he => ?_, fun h => absurd h hsame⟩ hfits
    rw [show (Except.ok u : Except Exc User).bind f = f u from rfl, hb] at he
    cases he

theorem newUser_fits (st : Stmt) (iter : IterOrder) (user : CreateUser)
    (husername : user.username.length ≤ 255)
    (hemail : user.email.length ≤ 255) (htext : isText user.email = true)
    (hhash : nullable isVarcharText user.passwordHash = true) :
    (newUser st iter user).fits = isText user.username := by
  simp [UserRow.fits, newUser, isVarcharText, husername, hemail, htext, hhash, isVarchar255]

theorem lawful_create (hemail : ∀ e, isEmail e = true → isText e = true)
    {data : CreateUserSchema isEmail} (hfresh : ∀ x ∈ t.rows, x.id ≠ st.uuid4 0) :
    Lawful iter crypt t (.create st data) ↔ isText data.username = true := by
  have hfits := newUser_fits st iter { username := data.username, email := data.email } data.username_length.2
    data.email_length.2 (hemail _ data.email_ok) rfl
  rw [← hfits, Lawful, handleWrite_create]
  exact lawful_insert hfresh (fun u _ => ⟨_, rfl⟩)
    (request_createUser st iter { username := data.username, email := data.email } t)

theorem registeredResponse_ok {user : CreateUser} (h : isEmail user.email = true) (u : User)
    (hu : rowToUser (newUser st iter user) = .ok u) : ∃ b, registeredResponse isEmail u = .ok b := by
  obtain ⟨u', hu', -, -, hemail⟩ := rowToUser_known (newUser_known st iter user)
  obtain rfl : u' = u := Except.ok.inj (hu'.symm.trans hu)
  have hok : isEmail u'.email = true := by rw [hemail]; exact h
  exact ⟨_, by rw [registeredResponse, registeredUserSchema, if_pos hok]; rfl⟩

theorem lawful_register (hemail : ∀ e, isEmail e = true → isText e = true) (hhash : Hashes crypt)
    {salt : String} {data : RegisterRequestSchema isEmail} (hfresh : ∀ x ∈ t.rows, x.id ≠ st.uuid4 0) :
    Lawful iter crypt t (.register st salt data) ↔ isText data.username = true := by
  obtain ⟨h, hh, hvarchar⟩ := hhash salt data.password data.password_length
  have hfits := newUser_fits st iter
    { username := data.username, email := data.email, passwordHash := some h }
    data.username_length.2 data.email_length.2 (hemail _ data.email_ok) hvarchar
  rw [← hfits, Lawful, handleWrite_register, request_register hh]
  exact lawful_insert (f := registeredResponse isEmail) hfresh (registeredResponse_ok data.email_ok)
    (request_createUser st iter
      { username := data.username, email := data.email, passwordHash := some h } t)

/-! ## Updates -/

theorem sameNames_updated_iff {u : UpdateUser} {r x : UserRow} (hr : r ∈ t.rows) (hid : r.id = u.id)
    (hx : x ∈ t.rows) (hxid : x.id ≠ u.id) :
    SameNames x (updatedUser st u r) ↔
      u.username = some (some x.username) ∨ u.email = some (some x.email) := by
  have hne : x ≠ r := by rintro rfl; exact hxid hid
  have hapart := t.apart hx hr hne
  have husername : x.username ≠ r.username := fun h => not_apart_of_sameNames (.inl h) hapart
  have hemail : x.email ≠ r.email := fun h => not_apart_of_sameNames (.inr h) hapart
  refine or_congr ?_ ?_
  · rcases h : u.username with _ | _ | s <;> simp [updatedUser, h, husername, eq_comm]
  · rcases h : u.email with _ | _ | s <;> simp [updatedUser, h, hemail, eq_comm]

theorem toDict_fits (hemail : ∀ e, isEmail e = true → isText e = true) {userId : UUID}
    {data : UpdateUserSchema isEmail} :
    (UpdateUser.toDict ⟨userId, data.username, data.email⟩).all UserValue.fits = true ↔
      ∀ s, data.username = some (some s) → isText s = true := by
  have husername := data.username_length
  have hlength := data.email_length
  have hok := data.email_ok
  rcases hu : data.username with _ | _ | s <;> rcases he : data.email with _ | _ | e <;>
    simp_all [UpdateUser.toDict, UserValue.fits, nullable, isVarcharText, isVarchar255, HasLength]

theorem lawful_of_error {α : Type} {e : Exc} {conflict : Prop} (he : DomainError e)
    (hc : ¬ conflict) : LawfulAnswer (α := α) t conflict (.error e, t) :=
  ⟨fun e' h => by cases h; exact ⟨he, rfl⟩, fun h => absurd h hc⟩

theorem not_lawful_of_error {α : Type} {e : Exc} {conflict : Prop} (he : ¬ DomainError e) :
    ¬ LawfulAnswer (α := α) t conflict (.error e, t) :=
  fun h => he (h.domain e rfl).1

theorem lawful_update_live (hemail : ∀ e, isEmail e = true → isText e = true) {userId : UUID}
    {r : UserRow} (hlive : liveUser t userId = some r) (hknown : r.Known)
    {data : UpdateUserSchema isEmail} :
    let res := request (UpdateUserByIdCommand.execute .allReturn st
      { id := userId, username := data.username, email := data.email }) t
    LawfulAnswer t (Conflict t (.update st userId data)) (res.1.bind userResponse, res.2) ↔
      data.username ≠ some none ∧ data.email ≠ some none ∧
        (∀ s, data.username = some (some s) → isText s = true) ∧
        ¬ Conflict t (.update st userId data) := by
  intro res
  obtain ⟨hr, hid, -⟩ := liveUser_eq_some.mp hlive
  -- What the statement says of the request, in terms of the row that the update makes.
  have hconflict : Conflict t (.update st userId data) ↔ ∃ x ∈ t.rows, x.id ≠ userId ∧
      SameNames x (updatedUser st ⟨userId, data.username, data.email⟩ r) := by
    simp only [Conflict, hlive, Option.isSome_some, true_and]
    refine exists_congr fun x => and_congr_right fun hx => and_congr_right fun hxid => ?_
    exact (sameNames_updated_iff (u := ⟨userId, data.username, data.email⟩) hr hid hx hxid).symm
  have hnull : HasNull ⟨userId, data.username, data.email⟩ ↔
      ¬ (data.username ≠ some none ∧ data.email ≠ some none) := by
    simp only [HasNull, not_and_or, not_not, ne_eq]
  rcases request_updateUser st (u := ⟨userId, data.username, data.email⟩) hlive hknown with
    ⟨e, he, hreq⟩ | ⟨hfits, hnn, hsame, user, t', -, hreq, -⟩
  · have hres : res = (.error e, t) := hreq
    rw [hres]
    refine iff_of_false (not_lawful_of_error ?_) ?_
    · rcases he with ⟨rfl, -⟩ | ⟨rfl, -⟩ | ⟨⟨n, rfl⟩, -⟩ <;>
        rintro (⟨m, hm⟩ | ⟨m, hm⟩ | ⟨m, hm⟩) <;> cases hm
    · rintro ⟨hu, he', htext, hc⟩
      rcases he with ⟨-, hfits⟩ | ⟨-, hn⟩ | ⟨-, hx⟩
      · rw [(toDict_fits hemail).mpr htext] at hfits; cases hfits
      · exact hnull.mp hn ⟨hu, he'⟩
      · exact hc (hconflict.mpr hx)
  · have hres : res = (.ok user, t') := hreq
    rw [hres]
    have hc := hconflict.not.mpr hsame
    obtain ⟨hu, he⟩ := not_not.mp (hnull.not.mp hnn)
    refine iff_of_true ⟨fun e he => ?_, fun h => absurd h hc⟩
      ⟨hu, he, (toDict_fits hemail).mp hfits, hc⟩
    cases he

theorem lawful_update (hemail : ∀ e, isEmail e = true → isText e = true) (hknown : AllKnown t)
    {userId : UUID} {data : UpdateUserSchema isEmail} :
    Lawful iter crypt t (.update st userId data) ↔ Admitted t (.update st userId data) := by
  cases hempty : data.isEmpty with
  | true =>
    rw [Lawful, handleWrite_update_empty iter crypt t st userId hempty]
    refine iff_of_true (lawful_of_error (.inl ⟨_, rfl⟩) ?_) fun h => ?_
    · rintro ⟨-, x, -, -, h⟩
      simp only [UpdateUserSchema.isEmpty, Bool.and_eq_true, Option.isNone_iff_eq_none] at hempty
      rw [hempty.1, hempty.2] at h
      rcases h with h | h <;> cases h
    · rw [hempty] at h; cases h
  | false =>
    rw [Lawful, handleWrite_update iter crypt t st userId hempty]
    cases hlive : liveUser t userId with
    | none =>
      rw [request_updateUser_missing hlive]
      refine iff_of_true (lawful_of_error (.inr (.inl ⟨_, rfl⟩)) ?_) fun _ h => ?_
      · rintro ⟨h, -⟩
        rw [hlive] at h; cases h
      · rw [hlive] at h; cases h
    | some r =>
      obtain ⟨hr, -, -⟩ := liveUser_eq_some.mp hlive
      refine (lawful_update_live hemail hlive (hknown r hr)).trans ?_
      simp [Admitted, hempty, hlive]

theorem lawful_delete {userId : UUID} :
    Lawful iter crypt t (.delete st userId : UserWrite isEmail) := by
  have h : handleWrite iter crypt t (.delete st userId : UserWrite isEmail) =
    respond (fun _ => .noContent) (DeleteUserByIdCommand.execute .allReturn st userId) t := rfl
  rw [Lawful, h, respond]
  rcases request_deleteUser st userId t with ⟨-, hreq⟩ | ⟨r, t', -, hreq, -⟩
  · rw [hreq]
    exact lawful_of_error (.inr (.inl ⟨_, rfl⟩)) id
  · rw [hreq]
    exact ⟨fun e he => (by cases he), False.elim⟩

/-! ## Every reachable table -/

/-- What a user write can make of the table: nothing, a new row without privileges under a fresh id
and fresh names, or another version of one row with its privileges and its password. -/
inductive TableChange (t t' : UserTable) : Prop
  | same (h : t' = t)
  | inserted (row : UserRow) (hrows : t'.rows = t.rows ++ [row]) (hsuper : row.isSuperuser = false)
      (hperm : row.permissions = []) (hid : ∀ x ∈ t.rows, x.id ≠ row.id)
  | replaced (r r' : UserRow) (hr : r ∈ t.rows)
      (hmem : ∀ x, x ∈ t'.rows ↔ x = r' ∨ x ∈ t.rows ∧ x.id ≠ r.id) (hid : r'.id = r.id)
      (hsuper : r'.isSuperuser = r.isSuperuser) (hperm : r'.permissions = r.permissions)

theorem iter_empty (iter : IterOrder) : iter.list ∅ = [] := by
  rw [List.eq_nil_iff_forall_not_mem]
  intro p hp
  simpa using (iter.mem ∅ p).mp hp

theorem create_change {user : CreateUser} (hsuper : user.isSuperuser = false)
    (hperm : user.permissions = ∅) (t : UserTable) :
    TableChange t (request (CreateUserCommand.execute .allReturn st iter user) t).2 := by
  rcases request_createUser st iter user t with
    ⟨e, -, hreq⟩ | ⟨-, -, hreq⟩ | ⟨-, -, hid, u, t', -, hreq, hrows⟩ <;> rw [hreq]
  · exact .same rfl
  · exact .same rfl
  · exact .inserted _ hrows hsuper (by simp [newUser, hperm, iter_empty]) hid

theorem update_change {u : UpdateUser} (h : AllKnown t) :
    TableChange t (request (UpdateUserByIdCommand.execute .allReturn st u) t).2 := by
  cases hlive : liveUser t u.id with
  | none => rw [request_updateUser_missing hlive]; exact .same rfl
  | some r =>
    obtain ⟨hr, hid, -⟩ := liveUser_eq_some.mp hlive
    rcases request_updateUser st hlive (h r hr) with
      ⟨e, -, hreq⟩ | ⟨-, -, -, user, t', -, hreq, hmem⟩ <;> rw [hreq]
    · exact .same rfl
    · exact .replaced r (updatedUser st u r) hr (hid ▸ hmem) rfl rfl rfl

theorem delete_change (st : Stmt) (userId : UUID) (t : UserTable) :
    TableChange t (request (DeleteUserByIdCommand.execute .allReturn st userId) t).2 := by
  rcases request_deleteUser st userId t with ⟨-, hreq⟩ | ⟨r, t', hlive, hreq, hmem⟩ <;> rw [hreq]
  · exact .same rfl
  · obtain ⟨hr, hid, -⟩ := liveUser_eq_some.mp hlive
    exact .replaced r (markUserDeleted st r) hr (hid ▸ hmem) rfl rfl rfl

theorem handleWrite_table {Q : UserTable → Prop} (hsame : Q t)
    (hcreate : ∀ st user, user.isSuperuser = false → user.permissions = ∅ →
      Q (request (CreateUserCommand.execute .allReturn st iter user) t).2)
    (hupdate : ∀ st u, Q (request (UpdateUserByIdCommand.execute .allReturn st u) t).2)
    (hdelete : ∀ st userId, Q (request (DeleteUserByIdCommand.execute .allReturn st userId) t).2)
    (w : UserWrite isEmail) : Q (handleWrite iter crypt t w).2 := by
  cases w with
  | create st data =>
    rw [handleWrite_create]
    exact hcreate _ _ rfl rfl
  | register st salt data =>
    rw [handleWrite_register]
    cases hhash : crypt.hash salt data.password with
    | ok passwordHash =>
      rw [request_register hhash]
      exact hcreate _ _ rfl rfl
    | error e =>
      rw [request_register_error hhash]
      exact hsame
  | update st userId data =>
    cases hempty : data.isEmpty with
    | true =>
      rw [handleWrite_update_empty iter crypt t st userId hempty]
      exact hsame
    | false =>
      rw [handleWrite_update iter crypt t st userId hempty]
      exact hupdate _ _
  | delete st userId => exact hdelete _ _

theorem handleWrite_change (iter : IterOrder) (crypt : CryptContext) (h : AllKnown t)
    (w : UserWrite isEmail) : TableChange t (handleWrite iter crypt t w).2 := by
  apply handleWrite_table
  · exact .same rfl
  · exact fun st user hsuper hperm => create_change hsuper hperm t
  · exact fun st u => update_change h
  · exact fun st userId => delete_change st userId t

theorem TableChange.known {t' : UserTable} (h : TableChange t t') (hknown : AllKnown t) :
    AllKnown t' := by
  cases h with
  | same h => rw [h]; exact hknown
  | inserted row hrows _ hperm _ => exact hknown.inserted hrows ⟨∅, by rw [hperm]; rfl⟩
  | replaced r r' hr hmem _ _ hperm => exact hknown.replaced hr hmem hperm

theorem reachable_known (h : Reachable isEmail iter crypt t) : AllKnown t := by
  obtain ⟨reqs, rfl⟩ := h
  exact answers_keep (I := AllKnown) (fun _ w h => (handleWrite_change iter crypt h w).known h) .empty
    reqs

/-- **A user write is lawful** on a reachable table exactly when it is admitted: no NUL character
in the username it asks for, and in the update of a live user no `None` and no taken name. -/
theorem user_write_lawful_iff (hemail : ∀ e, isEmail e = true → isText e = true)
    (hhash : Hashes crypt) (ht : Reachable isEmail iter crypt t) (w : UserWrite isEmail)
    (hw : w.DrawsFresh t) : Lawful iter crypt t w ↔ Admitted t w := by
  cases w with
  | create st data => exact lawful_create hemail hw
  | register st salt data => exact lawful_register hemail hhash hw
  | update st userId data => exact lawful_update hemail (reachable_known ht)
  | delete st userId => exact iff_of_true lawful_delete trivial

/-- An `@` and no NUL character stand for the rules of e-mail addresses. -/
def toyEmail : EmailCheck := fun e => e.toList.contains '@' && isText e

def toyHash : String := "$argon2id$v=19$m=65536,t=3,p=4$c2FsdA$aGFzaA"

/-- The only password hashed below is `correct horse`. -/
def toyCrypt : CryptContext where
  hash _ _ := .ok toyHash
  verify password hash := .ok (decide (password = "correct horse") && decide (hash = toyHash))

def createAda : UserWrite toyEmail := .create (.counting 1)
  { username := "ada", email := "ada@x.org"
    username_length := ⟨by decide, by decide⟩
    email_length := ⟨by decide, by decide⟩
    email_ok := by decide }

def registerBob : UserWrite toyEmail := .register (.counting 2) "salt"
  { username := "bob", email := "bob@x.org", password := "correct horse"
    username_length := ⟨by decide, by decide⟩
    email_length := ⟨by decide, by decide⟩
    email_ok := by decide
    password_length := ⟨by decide, by decide⟩ }

def adaToBob : UserWrite toyEmail := .update (.counting 0) ⟨1⟩
  { username := some (some "bob"), email := none
    username_length := fun s hs => by cases hs; exact ⟨by decide, by decide⟩
    email_length := fun s hs => by cases hs
    email_ok := fun s hs => by cases hs }

def bothUsers : UserTable := (answers (handleWrite .declared toyCrypt) Table.empty [createAda, registerBob]).2

theorem user_write_lawful_register :
    Lawful .declared toyCrypt Table.empty registerBob ↔ Admitted Table.empty registerBob :=
  user_write_lawful_iff (fun e he => by simp only [toyEmail, Bool.and_eq_true] at he; exact he.2)
    (fun _ _ _ => ⟨toyHash, rfl, by decide⟩) ⟨[], rfl⟩ registerBob
    (fun x hx => absurd hx List.not_mem_nil)

/-- The storage reports the taken name of an update as the bare integrity error. -/
theorem update_to_taken_name :
    Reachable toyEmail .declared toyCrypt bothUsers ∧
      (handleWrite .declared toyCrypt bothUsers adaToBob).1 =
        .error (.integrityError (some "uq__users__username")) ∧
      ¬ Lawful .declared toyCrypt bothUsers adaToBob := by
  have hrun : (handleWrite .declared toyCrypt bothUsers adaToBob).1 =
      .error (.integrityError (some "uq__users__username")) := by rfl
  refine ⟨⟨[createAda, registerBob], rfl⟩, hrun, fun h => ?_⟩
  obtain ⟨⟨m, hm⟩ | ⟨m, hm⟩ | ⟨m, hm⟩, -⟩ := h.domain _ hrun <;> cases hm

end LibraryService.Presentors
