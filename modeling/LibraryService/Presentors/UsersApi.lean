import LibraryService.Domain.Pagination
import LibraryService.Domain.UserDirectory
import LibraryService.Presentors.Http
import LibraryService.Presentors.UserWrites

/-!
# The users API

`UsersController` and `AuthController.register` from the raw request to the response, as a service
on the directory of users.
-/

open Transition Effect Relational Paging LibraryService.Python LibraryService.Database
  LibraryService.Domain

namespace LibraryService.Presentors

/-! ## The controllers -/

/-- pydantic's `EmailStr`: an address in its normal form, which is its own. -/
structure EmailStr where
  validate : String → Option String
  idempotent : ∀ s e, validate s = some e → validate e = some e

/-- An address that is its own normal form. -/
def EmailStr.check (emailStr : EmailStr) : EmailCheck := fun e => decide (emailStr.validate e = some e)

theorem EmailStr.check_validate {emailStr : EmailStr} {s e : String}
    (h : emailStr.validate s = some e) : emailStr.check e = true :=
  decide_eq_true (emailStr.idempotent s e h)

instance (lo hi : Nat) (s : String) : Decidable (HasLength lo hi s) := by
  unfold HasLength
  infer_instance

/-- `str` with `Field(min_length=lo, max_length=hi)`. -/
def sized (lo hi : Nat) (s : String) : Option {s : String // HasLength lo hi s} :=
  if h : HasLength lo hi s then some ⟨s, h⟩ else none

/-- `EmailStr` with `Field(min_length=3, max_length=255)`; the lengths are those of the normal
form. -/
def EmailStr.sized (emailStr : EmailStr) (s : String) :
    Option {e : String // HasLength 3 255 e ∧ emailStr.check e = true} :=
  match h : emailStr.validate s with
  | none => none
  | some e => if hlen : HasLength 3 255 e then some ⟨e, hlen, emailStr.check_validate h⟩ else none

/-- A required field, which has no default and takes no `null`. -/
def Given.required {α β : Type} (check : α → Option β) : Given α → Option β
  | .value a => check a
  | .absent | .null | .unreadable => none

/-- A field `α | None` with the default `None`, checked where it has a value. -/
def Given.checked {α β : Type} (check : α → Option β) : Given α → Option (Domain.Field β)
  | .absent => some none
  | .null => some (some none)
  | .value a => (check a).map fun b => some (some b)
  | .unreadable => none

/-- The JSON body of a request that writes a user. -/
structure UserBody where
  username : Given String
  email : Given String
  deriving DecidableEq, Repr

structure RegisterBody extends UserBody where
  password : Given String
  deriving DecidableEq, Repr

variable {emailStr : EmailStr}

def CreateUserSchema.ofBody (emailStr : EmailStr) (body : UserBody) :
    Option (CreateUserSchema emailStr.check) := do
  let username ← body.username.required (sized 3 255)
  let email ← body.email.required emailStr.sized
  pure { username := username.1, email := email.1, username_length := username.2
         email_length := email.2.1, email_ok := email.2.2 }

def RegisterRequestSchema.ofBody (emailStr : EmailStr) (body : RegisterBody) :
    Option (RegisterRequestSchema emailStr.check) := do
  let username ← body.username.required (sized 3 255)
  let email ← body.email.required emailStr.sized
  let password ← body.password.required (sized 8 255)
  pure { username := username.1, email := email.1, password := password.1
         username_length := username.2, email_length := email.2.1, email_ok := email.2.2
         password_length := password.2 }

/-- The value of a checked field. -/
def plain {α : Type} {P : α → Prop} (field : Domain.Field {a : α // P a}) : Domain.Field α :=
  field.map fun v => v.map Subtype.val

theorem plain_checked {α : Type} {P : α → Prop} {field : Domain.Field {a : α // P a}} {a : α}
    (h : plain field = some (some a)) : P a := by
  rcases field with _ | _ | ⟨b, hb⟩
  · cases h
  · cases h
  · cases h
    exact hb

def UpdateUserSchema.ofBody (emailStr : EmailStr) (body : UserBody) :
    Option (UpdateUserSchema emailStr.check) := do
  let username ← body.username.checked (sized 3 255)
  let email ← body.email.checked emailStr.sized
  pure { username := plain username, email := plain email
         username_length := fun _ h => plain_checked h
         email_length := fun _ h => (plain_checked h).1
         email_ok := fun _ h => (plain_checked h).2 }

structure UserPaginationSchema where
  total : Nat
  items : List UserSchema
  deriving DecidableEq, Repr

def userPaginationSchema (users : UserPagination) : UserPaginationSchema :=
  { total := users.total, items := users.items.map userSchema }

def fetchUsers (a : Awaits) (scan : Scan UserRow) (params : UserPaginationParams) :
    Eff (World UserTable) Exc UserPaginationSchema := do
  let users ← FetchUserListQuery.execute a scan params
  pure (userPaginationSchema users)

def fetchUser (a : Awaits) (userId : UUID) : Eff (World UserTable) Exc UserSchema := do
  let user ← FetchUserByIdQuery.execute a userId
  pure (userSchema user)

inductive UsersRequest
  | fetchUsers (scan : Scan UserRow) (limit offset : Given Int)
  | createUser (st : Stmt) (body : UserBody)
  | fetchUser (userId : UUID)
  | updateUserById (st : Stmt) (userId : UUID) (body : UserBody)
  | deleteUserById (st : Stmt) (userId : UUID)
  | register (st : Stmt) (salt : String) (body : RegisterBody)

inductive UsersBody
  | page (users : UserPaginationSchema)
  | user (user : UserSchema)
  | registered (user : RegisteredUserSchema)
  | empty
  deriving DecidableEq, Repr

def UserResponse.body : UserResponse → UsersBody
  | .user b => .user b
  | .registered b => .registered b
  | .noContent => .empty

/-- What the handlers take from outside; `detail` is what litestar says of a request that does not
validate. -/
structure UsersService where
  emailStr : EmailStr
  iter : IterOrder
  crypt : CryptContext
  detail : UsersRequest → String

def usersController (service : UsersService) (t : UserTable) (req : UsersRequest) :
    Response UsersBody × UserTable :=
  let write : UserWrite service.emailStr.check → _ := handleWrite service.iter service.crypt t
  match req with
  | .fetchUsers scan limit offset =>
    validated (service.detail req) (paginationParams limit offset) t fun params =>
      route .ok .page (request (Presentors.fetchUsers .allReturn scan params) t)
  | .createUser st body =>
    validated (service.detail req) (CreateUserSchema.ofBody service.emailStr body) t fun data =>
      route .created UserResponse.body (write (.create st data))
  | .fetchUser userId => route .ok .user (request (Presentors.fetchUser .allReturn userId) t)
  | .updateUserById st userId body =>
    validated (service.detail req) (UpdateUserSchema.ofBody service.emailStr body) t fun data =>
      route .ok UserResponse.body (write (.update st userId data))
  | .deleteUserById st userId => route .noContent UserResponse.body (write (.delete st userId))
  | .register st salt body =>
    validated (service.detail req) (RegisterRequestSchema.ofBody service.emailStr body) t fun data =>
      route .created UserResponse.body (write (.register st salt data))

/-! ## What the API is for -/

/-- What comes with a success: a page of the live entries, an entry, or nothing. -/
inductive UsersAnswer
  | page (d : Directory) (params : UserPaginationParams)
  | user (id : UUID) (names : Names)
  | nothing

open Classical in
/-- A new entry, unless its names are taken: those of deleted users are. -/
noncomputable def enter (d : Directory) (userId : UUID) (names : Names) :
    Reply UsersAnswer × Directory :=
  if names.Storable then
    if d.Taken names then (.failed .conflict, d)
    else (⟨.created, some (.user userId names)⟩, d.put userId names)
  else (.failed .internalServerError, d)

open Classical in
/-- The service that clients see. The update of a live user to a name that is taken is not
reported as a conflict. -/
noncomputable def serveUsers (emailStr : EmailStr) (d : Directory) :
    UsersRequest → Reply UsersAnswer × Directory
  | .fetchUsers _ limit offset =>
    match paginationParams limit offset with
    | none => (.failed .unprocessableEntity, d)
    | some params => (⟨.ok, some (.page d params)⟩, d)
  | .createUser st body =>
    match CreateUserSchema.ofBody emailStr body with
    | none => (.failed .unprocessableEntity, d)
    | some data => enter d (st.uuid4 0) ⟨data.username, data.email⟩
  | .fetchUser userId =>
    match d.live userId with
    | none => (.failed .notFound, d)
    | some names => (⟨.ok, some (.user userId names)⟩, d)
  | .updateUserById _ userId body =>
    match UpdateUserSchema.ofBody emailStr body with
    | none => (.failed .unprocessableEntity, d)
    | some data =>
      let u : UpdateUser := ⟨userId, data.username, data.email⟩
      if data.isEmpty then (.failed .badRequest, d)
      else match d.live userId with
        | none => (.failed .notFound, d)
        | some names =>
          if u.Storable ∧ d.Free userId (u.rename names) then
            (⟨.ok, some (.user userId (u.rename names))⟩, d.put userId (u.rename names))
          else (.failed .internalServerError, d)
  | .deleteUserById _ userId =>
    match d.live userId with
    | none => (.failed .notFound, d)
    | some _ => (⟨.noContent, some .nothing⟩, d.retire userId)
  | .register st _ body =>
    match RegisterRequestSchema.ofBody emailStr body with
    | none => (.failed .unprocessableEntity, d)
    | some data => enter d (st.uuid4 0) ⟨data.username, data.email⟩

/-! ## What a response shows -/

def UserSchema.entry (b : UserSchema) : UUID × Names := (b.id, ⟨b.username, b.email⟩)

/-- The page is cut from some listing of the live entries, each of them in it once. -/
def PageOf (d : Directory) (params : UserPaginationParams) (users : UserPaginationSchema) : Prop :=
  ∃ l : List (UUID × Names), l.Nodup ∧ (∀ i names, (i, names) ∈ l ↔ d.live i = some names) ∧
    users.total = l.length ∧
      users.items.map UserSchema.entry = page params.limit params.offset l

inductive ShowsAnswer : UsersBody → UsersAnswer → Prop
  | page {users : UserPaginationSchema} {d : Directory} {params : UserPaginationParams} :
    PageOf d params users → ShowsAnswer (.page users) (.page d params)
  | user (b : UserSchema) : ShowsAnswer (.user b) (.user b.id ⟨b.username, b.email⟩)
  | registered (b : RegisteredUserSchema) : ShowsAnswer (.registered b) (.user b.id ⟨b.username, b.email⟩)
  | empty : ShowsAnswer .empty .nothing

/-! ## Reads -/

variable {service : UsersService} {t t' : UserTable} {st : Stmt} {userId : UUID} {names : Names}

/-- The response has the status of the reply and shows what it says, and the table is left with
this directory. -/
structure Agrees (res : Response UsersBody × UserTable) (answer : Reply UsersAnswer × Directory) :
    Prop where
  status : res.1.statusCode = answer.1.statusCode
  shown : Option.Rel ShowsAnswer (res.1.reply id).content answer.1.content
  directory : directory res.2 = answer.2

/-- The controllers answer as the service on the directory does, and go on as it. -/
def ServesUsers (service : UsersService) (t : UserTable) (req : UsersRequest) : Prop :=
  Agrees (usersController service t req) (serveUsers service.emailStr (directory t) req)

theorem request_fetchUsers {f : UserRow → User} (hf : ∀ r ∈ liveUsers t, rowToUser r = .ok (f r))
    (scan : Scan UserRow) (params : UserPaginationParams) :
    request (fetchUsers .allReturn scan params) t = (.ok ⟨(liveUsers t).length,
      ((page params.limit params.offset (scan.list (liveUsers t))).map f).map userSchema⟩, t) := by
  have hreq := request_bind_ofExcept (FetchUserListQuery.execute .allReturn scan params)
    (fun users => .ok (userPaginationSchema users)) t
  rw [FetchUserListQuery.execute, request_ok (fetchUserList_runOn hf)] at hreq
  exact hreq

theorem pageOf_scan {f : UserRow → User} (hf : ∀ r ∈ liveUsers t, rowToUser r = .ok (f r))
    (scan : Scan UserRow) (params : UserPaginationParams) :
    PageOf (directory t) params ⟨(liveUsers t).length,
      ((page params.limit params.offset (scan.list (liveUsers t))).map f).map userSchema⟩ := by
  have hmem : ∀ r, r ∈ scan.list (liveUsers t) ↔ r ∈ t.rows ∧ r.deletedAt = none := fun r =>
    (scan.perm _).mem_iff.trans mem_liveUsers
  refine ⟨(scan.list (liveUsers t)).map fun r => (r.id, namesOf r), ?_, fun i names => ?_, ?_, ?_⟩
  · have hnodup : (scan.list (liveUsers t)).Nodup :=
      (scan.perm _).nodup_iff.mpr (t.nodup.filter _)
    refine hnodup.map_on fun r hr r' hr' h => ?_
    exact user_id_unique ((hmem r).mp hr).1 ((hmem r').mp hr').1 (congrArg Prod.fst h)
  · rw [directory_live, List.mem_map, Option.map_eq_some_iff]
    refine exists_congr fun r => ?_
    rw [hmem, liveUser_eq_some, Prod.mk.injEq]
    tauto
  · rw [List.length_map, (scan.perm _).length_eq]
  · rw [List.map_map, List.map_map, ← map_page]
    refine List.map_congr_left fun r hr => ?_
    obtain ⟨hid, husername, hemail⟩ :=
      rowToUser_names (hf r ((scan.perm _).mem_iff.mp (mem_of_mem_page hr)))
    simp only [Function.comp_apply, UserSchema.entry, userSchema, namesOf, hid, husername, hemail]

theorem serves_fetchUsers (hknown : AllKnown t) (scan : Scan UserRow) (limit offset : Given Int) :
    ServesUsers service t (.fetchUsers scan limit offset) := by
  simp only [ServesUsers, usersController, serveUsers]
  cases paginationParams limit offset with
  | none => exact ⟨rfl, .none, rfl⟩
  | some params =>
    obtain ⟨f, hf⟩ := exists_users fun r hr => hknown r (mem_liveUsers.mp hr).1
    simp only [validated, request_fetchUsers hf]
    exact ⟨rfl, .some (.page (pageOf_scan hf scan params)), rfl⟩

theorem shows_user {r : UserRow} {user : User} (h : rowToUser r = .ok user) :
    ShowsAnswer (.user (userSchema user)) (.user r.id (namesOf r)) := by
  obtain ⟨hid, husername, hemail⟩ := rowToUser_names h
  rw [namesOf, ← hid, ← husername, ← hemail]
  exact .user (userSchema user)

theorem serves_fetchUser (hknown : AllKnown t) (userId : UUID) :
    ServesUsers service t (.fetchUser userId) := by
  simp only [ServesUsers, usersController, serveUsers, directory_live]
  have hreq : request (fetchUser .allReturn userId) t = _ := request_bind_ofExcept
    (FetchUserByIdQuery.execute .allReturn userId) (fun user => .ok (userSchema user)) t
  rcases request_fetchUser hknown userId with ⟨hlive, hres⟩ | ⟨r, user, hlive, huser, hres⟩ <;>
    rw [hreq, hres, hlive]
  · exact ⟨rfl, .none, rfl⟩
  · obtain ⟨-, rfl, -⟩ := liveUser_eq_some.mp hlive
    exact ⟨rfl, .some (shows_user huser), rfl⟩

/-! ## Writes -/

theorem agrees_enter {row : UserRow} {res : Except Exc User × UserTable}
    {f : User → Except Exc UserResponse} (hfits : row.fits = true ↔ (namesOf row).Storable)
    (hlive : row.deletedAt = none) (hfresh : ∀ x ∈ t.rows, x.id ≠ row.id)
    (hf : ∀ u, rowToUser row = .ok u →
      ∃ b, f u = .ok b ∧ ShowsAnswer b.body (.user row.id (namesOf row)))
    (h : (∃ e, (e = .dbapiError ∧ row.fits = false ∨
          e = .libraryException "Unknown error" ∧ ∃ x ∈ t.rows, x.id = row.id) ∧
        res = (.error e, t)) ∨
      row.fits = true ∧ (∃ x ∈ t.rows, SameNames x row) ∧
        res = (.error (.entityAlreadyExistsException "User already exists"), t) ∨
      row.fits = true ∧ (¬ ∃ x ∈ t.rows, SameNames x row) ∧ (∀ x ∈ t.rows, x.id ≠ row.id) ∧
        ∃ u t', rowToUser row = .ok u ∧ res = (.ok u, t') ∧ t'.rows = t.rows ++ [row]) :
    Agrees (route .created UserResponse.body (res.1.bind f, res.2))
      (enter (directory t) row.id (namesOf row)) := by
  unfold enter
  rw [← hfits, directory_taken]
  rcases h with ⟨e, ⟨rfl, hunfit⟩ | ⟨-, x, hx, hid⟩, rfl⟩ | ⟨hfit, hsame, rfl⟩ |
    ⟨hfit, hsame, -, u, t', hu, rfl, hrows⟩
  · rw [if_neg (by simpa using hunfit)]
    exact ⟨rfl, .none, rfl⟩
  · exact absurd hid (hfresh x hx)
  · rw [if_pos hfit, if_pos hsame]
    exact ⟨rfl, .none, rfl⟩
  · rw [if_pos hfit, if_neg hsame]
    obtain ⟨b, hb, hshown⟩ := hf u hu
    have hres : (Except.ok u : Except Exc User).bind f = .ok b := hb
    have hfree := Registry.free_of_not_taken (i := row.id) (directory_taken.not.mpr hsame)
    rw [hres]
    exact ⟨rfl, .some hshown, directory_insert hrows hlive hfree hfresh⟩

theorem newUser_fits_iff (st : Stmt) (iter : IterOrder) (user : CreateUser)
    (husername : user.username.length ≤ 255) (hemail : user.email.length ≤ 255)
    (hhash : nullable isVarcharText user.passwordHash = true) :
    (newUser st iter user).fits = true ↔ (namesOf (newUser st iter user)).Storable := by
  simp only [UserRow.fits, newUser, isVarcharText, isVarchar255, husername, hemail, hhash,
    decide_true, Bool.and_true, Bool.and_eq_true]
  exact ⟨fun h => ⟨h.1, h.2⟩, fun h => ⟨h.username, h.email⟩⟩

theorem serves_createUser {body : UserBody} (hfresh : ∀ x ∈ t.rows, x.id ≠ st.uuid4 0) :
    ServesUsers service t (.createUser st body) := by
  simp only [ServesUsers, usersController, serveUsers]
  cases CreateUserSchema.ofBody service.emailStr body with
  | none => exact ⟨rfl, .none, rfl⟩
  | some data =>
    simp only [validated, handleWrite_create]
    have hfits := newUser_fits_iff st service.iter { username := data.username, email := data.email }
      data.username_length.2 data.email_length.2 rfl
    exact agrees_enter (f := userResponse) hfits rfl hfresh (fun u hu => ⟨_, rfl, shows_user hu⟩)
      (request_createUser st service.iter { username := data.username, email := data.email } t)

theorem serves_register (hhash : Hashes service.crypt) {salt : String} {body : RegisterBody}
    (hfresh : ∀ x ∈ t.rows, x.id ≠ st.uuid4 0) :
    ServesUsers service t (.register st salt body) := by
  simp only [ServesUsers, usersController, serveUsers]
  cases RegisterRequestSchema.ofBody service.emailStr body with
  | none => exact ⟨rfl, .none, rfl⟩
  | some data =>
    obtain ⟨hash, hh, hvarchar⟩ := hhash salt data.password data.password_length
    have hfits := newUser_fits_iff st service.iter
      { username := data.username, email := data.email, passwordHash := some hash }
      data.username_length.2 data.email_length.2 hvarchar
    simp only [validated, handleWrite_register]
    rw [request_register hh]
    refine agrees_enter (f := registeredResponse service.emailStr.check) hfits rfl hfresh
      (fun u hu => ?_) (request_createUser st service.iter
        { username := data.username, email := data.email, passwordHash := some hash } t)
    obtain ⟨hid, husername, hemail⟩ := rowToUser_names hu
    have hok : service.emailStr.check u.email = true := by rw [hemail]; exact data.email_ok
    refine ⟨_, by rw [registeredResponse, registeredUserSchema, if_pos hok]; rfl, ?_⟩
    rw [namesOf, ← hid, ← husername, ← hemail]
    exact .registered _

theorem serves_deleteUserById (st : Stmt) (userId : UUID) :
    ServesUsers service t (.deleteUserById st userId) := by
  simp only [ServesUsers, usersController, serveUsers, directory_live, handleWrite, deleteUserById,
    respond]
  rcases request_deleteUser st userId t with ⟨hlive, hres⟩ | ⟨r, t', hlive, hres, hmem⟩ <;>
    rw [hres, hlive]
  · exact ⟨rfl, .none, rfl⟩
  · obtain ⟨hr, rfl, -⟩ := liveUser_eq_some.mp hlive
    exact ⟨rfl, .some .empty, directory_delete hr hmem⟩

theorem agrees_update (st : Stmt) {u : UpdateUser} {r : UserRow} (hlive : liveUser t u.id = some r)
    (hknown : r.Known) :
    let res := request (UpdateUserByIdCommand.execute .allReturn st u) t
    let names := u.rename (namesOf r)
    u.Storable ∧ (directory t).Free u.id names ∧
        Agrees (route .ok UserResponse.body (res.1.bind userResponse, res.2))
          (⟨.ok, some (.user u.id names)⟩, (directory t).put u.id names) ∨
      ¬ (u.Storable ∧ (directory t).Free u.id names) ∧
        Agrees (route .ok UserResponse.body (res.1.bind userResponse, res.2))
          (.failed .internalServerError, directory t) := by
  intro res names
  obtain ⟨hr, hid, -⟩ := liveUser_eq_some.mp hlive
  have hfree : (directory t).Free u.id names ↔ _ := directory_free (r := updatedUser st u r)
  rcases request_updateUser st hlive hknown with
    ⟨e, he, hres⟩ | ⟨hfits, hnull, hsame, user, t', huser, hres, hmem⟩
  · refine .inr ⟨?_, ?_⟩
    · rintro ⟨⟨hfits, hnull⟩, hn⟩
      rcases he with ⟨-, hunfit⟩ | ⟨-, hn'⟩ | ⟨-, htaken⟩
      · rw [hfits] at hunfit
        cases hunfit
      · exact hnull hn'
      · exact hfree.mp hn htaken
    · rw [show res = _ from hres]
      rcases he with ⟨rfl, -⟩ | ⟨rfl, -⟩ | ⟨⟨name, rfl⟩, -⟩ <;> exact ⟨rfl, .none, rfl⟩
  · refine .inl ⟨⟨hfits, hnull⟩, hfree.mpr hsame, ?_⟩
    have hnew : (updatedUser st u r).id = u.id := hid
    rw [← hid] at hmem
    have hput := directory_update hr (show (updatedUser st u r).id = r.id from rfl) rfl hmem
      (by rw [hid]; exact hfree.mpr hsame)
    rw [show res = _ from hres]
    refine ⟨rfl, .some ?_, by rw [← hid]; exact hput⟩
    have hshown := shows_user huser
    rw [hnew] at hshown
    exact hshown

theorem serves_updateUserById (hknown : AllKnown t) (st : Stmt) (userId : UUID) (body : UserBody) :
    ServesUsers service t (.updateUserById st userId body) := by
  simp only [ServesUsers, usersController, serveUsers]
  cases UpdateUserSchema.ofBody service.emailStr body with
  | none => exact ⟨rfl, .none, rfl⟩
  | some data =>
    simp only [validated]
    cases hempty : data.isEmpty with
    | true =>
      rw [handleWrite_update_empty _ _ _ _ _ hempty, if_pos rfl]
      exact ⟨rfl, .none, rfl⟩
    | false =>
      rw [handleWrite_update _ _ _ _ _ hempty, if_neg Bool.false_ne_true, directory_live]
      cases hlive : liveUser t userId with
      | none =>
        rw [request_updateUser_missing hlive]
        exact ⟨rfl, .none, rfl⟩
      | some r =>
        have hr := (liveUser_eq_some.mp hlive).1
        rcases agrees_update st (u := ⟨userId, data.username, data.email⟩) hlive
          (hknown r hr) with ⟨hstorable, hfree, hagrees⟩ | ⟨hrefused, hagrees⟩
        · simp only [Option.map_some]
          rw [if_pos ⟨hstorable, hfree⟩]
          exact hagrees
        · simp only [Option.map_some]
          rw [if_neg hrefused]
          exact hagrees

/-! ## Every run -/

/-- The id that an insert draws is in no row, and the driver takes an offset as an int8. -/
def UsersRequest.Served (t : UserTable) : UsersRequest → Prop
  | .createUser st _ | .register st _ _ => ∀ x ∈ t.rows, x.id ≠ st.uuid4 0
  | .fetchUsers _ _ (.value offset) => offset < 2 ^ 63
  | .fetchUsers _ _ _ | .fetchUser _ | .updateUserById _ _ _ | .deleteUserById _ _ => True

variable {req : UsersRequest}

theorem usersController_serves (hhash : Hashes service.crypt) (hknown : AllKnown t)
    (h : req.Served t) : ServesUsers service t req := by
  cases req with
  | fetchUsers scan limit offset => exact serves_fetchUsers hknown scan limit offset
  | createUser st body => exact serves_createUser h
  | fetchUser userId => exact serves_fetchUser hknown userId
  | updateUserById st userId body => exact serves_updateUserById hknown st userId body
  | deleteUserById st userId => exact serves_deleteUserById st userId
  | register st salt body => exact serves_register hhash h

theorem usersController_change (service : UsersService) (hknown : AllKnown t) (req : UsersRequest) :
    TableChange t (usersController service t req).2 := by
  have hwrite : ∀ w : UserWrite service.emailStr.check,
      TableChange t (handleWrite service.iter service.crypt t w).2 :=
    handleWrite_change service.iter service.crypt hknown
  cases req with
  | fetchUsers scan limit offset =>
    obtain ⟨f, hf⟩ := exists_users fun r hr => hknown r (mem_liveUsers.mp hr).1
    refine validated_state (.same rfl) fun params => ?_
    rw [request_fetchUsers hf]
    exact .same rfl
  | createUser st body => exact validated_state (.same rfl) fun data => hwrite (.create st data)
  | fetchUser userId =>
    have hreq : request (fetchUser .allReturn userId) t = _ := request_bind_ofExcept
      (FetchUserByIdQuery.execute .allReturn userId) (fun user => .ok (userSchema user)) t
    simp only [usersController, route, hreq]
    rcases request_fetchUser hknown userId with ⟨-, hres⟩ | ⟨r, user, -, -, hres⟩ <;> rw [hres]
    · exact .same rfl
    · exact .same rfl
  | updateUserById st userId body =>
    exact validated_state (.same rfl) fun data => hwrite (.update st userId data)
  | deleteUserById st userId => exact hwrite (.delete st userId)
  | register st salt body =>
    exact validated_state (.same rfl) fun data => hwrite (.register st salt data)

theorem usersController_honest (service : UsersService) (t : UserTable) (req : UsersRequest) :
    (usersController service t req).1.Honest := by
  cases req with
  | fetchUsers scan limit offset => exact validated_honest fun _ => route_honest (by decide) _ _
  | createUser st body => exact validated_honest fun _ => route_honest (by decide) _ _
  | fetchUser userId => exact route_honest (by decide) _ _
  | updateUserById st userId body => exact validated_honest fun _ => route_honest (by decide) _ _
  | deleteUserById st userId => exact route_honest (by decide) _ _
  | register st salt body => exact validated_honest fun _ => route_honest (by decide) _ _

/-- The response is the reply: its status, and what comes with it. -/
def Response.Answers (r : Response UsersBody) (a : Reply UsersAnswer) : Prop :=
  r.statusCode = a.statusCode ∧ Option.Rel ShowsAnswer (r.reply id).content a.content

/-- **The users API serves the directory**: every run of requests, valid or not, is replied to as
the directory says, in which deleted users keep their names, and every response is honest. -/
theorem users_api_serves_directory (hhash : Hashes service.crypt) {reqs : List UsersRequest}
    (h : AllOk (usersController service) UsersRequest.Served Table.empty reqs) :
    List.Forall₂ Response.Answers (answers (usersController service) Table.empty reqs).1
        (answers (serveUsers service.emailStr) Registry.empty reqs).1 ∧
      directory (answers (usersController service) Table.empty reqs).2 =
        (answers (serveUsers service.emailStr) Registry.empty reqs).2 ∧
      ∀ r ∈ (answers (usersController service) Table.empty reqs).1, r.Honest := by
  obtain ⟨hans, -, hdir⟩ := answers_simulate (fun t d => AllKnown t ∧ directory t = d)
    Response.Answers (by
      rintro t _ req ⟨hknown, rfl⟩ hok
      have hserves := usersController_serves hhash hknown hok
      exact ⟨⟨hserves.status, hserves.shown⟩,
        (usersController_change service hknown req).known hknown, hserves.directory⟩)
    ⟨.empty, directory_empty⟩ h
  refine ⟨hans, hdir, ?_⟩
  exact answers_forall (I := fun _ => True)
    (fun t req _ _ => ⟨usersController_honest service t req, trivial⟩) trivial h

def toyEmailStr : EmailStr where
  validate s := if toyEmail s then some s else none
  idempotent s e h := by
    split at h
    · cases h
      rw [if_pos (by assumption)]
    · cases h

def toyUsers : UsersService where
  emailStr := toyEmailStr
  iter := .declared
  crypt := toyCrypt
  detail _ := ""

theorem toyUsers_hashes : Hashes toyUsers.crypt := fun _ _ _ => ⟨toyHash, rfl, by decide⟩

def adaAndBob : List UsersRequest :=
  [.createUser (.counting 1) ⟨.value "ada", .value "ada@x.org"⟩,
    .register (.counting 2) "salt" ⟨⟨.value "bob", .value "bob@x.org"⟩, .value "correct horse"⟩]

/-- Ada's name is too short once, asked for by Bob, and free for nobody after she is deleted. -/
def adasRun : List UsersRequest :=
  adaAndBob ++ [.createUser (.counting 3) ⟨.value "al", .value "al@x.org"⟩,
    .updateUserById (.counting 3) ⟨2⟩ ⟨.value "ada", .absent⟩, .deleteUserById (.counting 3) ⟨1⟩,
    .createUser (.counting 3) ⟨.value "ada", .value "a@x.org"⟩, .fetchUsers .asStored .absent .absent]

theorem users_api_serves_directory_ada :
    List.Forall₂ Response.Answers (answers (usersController toyUsers) Table.empty adasRun).1
        (answers (serveUsers toyUsers.emailStr) Registry.empty adasRun).1 ∧
      directory (answers (usersController toyUsers) Table.empty adasRun).2 =
        (answers (serveUsers toyUsers.emailStr) Registry.empty adasRun).2 ∧
      (∀ r ∈ (answers (usersController toyUsers) Table.empty adasRun).1, r.Honest) ∧
      (answers (usersController toyUsers) Table.empty adasRun).1.map (fun r => r.statusCode.value) =
        [201, 201, 422, 500, 204, 409, 200] := by
  have h : AllOk (usersController toyUsers) UsersRequest.Served Table.empty adasRun := by
    refine ⟨?_, ?_, ?_, trivial, trivial, ?_, trivial, trivial⟩
    all_goals
      intro x hx
      revert x
      decide
  obtain ⟨hreplies, hdir, hhonest⟩ := users_api_serves_directory toyUsers_hashes h
  exact ⟨hreplies, hdir, hhonest, rfl⟩

end LibraryService.Presentors
