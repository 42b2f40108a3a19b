import Mathlib.Data.Finset.SDiff
import LibraryService.Presentors.Users

/-!
# Tokens

The auth controller, `_retrieve_user` and the permission guard, over litestar's JWT support.
-/

open Transition Effect Relational LibraryService.Python LibraryService.Database LibraryService.Domain

namespace LibraryService.Presentors

/-! ## Extras -/

/-- A JSON value; of a number nothing but its truth value is ever looked at. -/
inductive Json
  | null
  | bool (b : Bool)
  | num (truth : Bool)
  | str (s : String)
  | arr (items : List Json)
  | obj (fields : List (String × Json))

namespace Json

def truth : Json → Bool
  | null => false
  | bool b => b
  | num b => b
  | str s => !s.isEmpty
  | arr items => !items.isEmpty
  | obj fields => !fields.isEmpty

/-- What `for p in value` goes through. -/
def iterate : Json → Except Exc (List Json)
  | arr items => .ok items
  | str s => .ok (s.toList.map fun c => str (String.singleton c))
  | obj fields => .ok (fields.map fun f => str f.1)
  | null | bool _ | num _ => .error .typeError

def permission : Json → Except Exc Permission
  | str s =>
    match Permission.ofValue? s with
    | some p => .ok p
    | none => .error .valueError
  | _ => .error .valueError

end Json

abbrev Extras := List (String × Json)

def Extras.get? (extras : Extras) (key : String) : Option Json := extras.lookup key

structure Token where
  sub : String
  extras : Extras

/-- litestar's JWT support under the service's secret; `τ` holds the encoded strings. -/
structure Jwt (τ : Type) where
  createToken : Instant → String → Extras → Int → Except Exc τ
  decode : Instant → τ → Except Exc Token
  expired : Instant → τ → Bool
  /-- An encoded token decodes to what it was created with, until it expires. -/
  decode_created : ∀ now sub extras ttl s, createToken now sub extras ttl = .ok s → ∀ now',
    (expired now' s = false → decode now' s = .ok ⟨sub, extras⟩) ∧
      (expired now' s = true → ∃ e, decode now' s = .error e)

structure AuthConfig where
  accessTokenTtl : Int
  refreshTokenTtl : Int
  deriving DecidableEq, Repr

structure TokenPair (τ : Type) where
  accessToken : τ
  refreshToken : τ
  deriving DecidableEq

/-! ## The handlers -/

def permissionSet : List Json → Except Exc (Finset Permission)
  | [] => .ok ∅
  | v :: vs =>
    match v.permission with
    | .error e => .error e
    | .ok p => (permissionSet vs).map (insert p)

def Json.orEmpty (value : Json) : Except Exc (List Json) :=
  if value.truth then value.iterate else .ok []

/-- The user that a token's subject and extras describe. -/
def authUserOf (token : Token) : Except Exc AuthUser := do
  let values ← ((token.extras.get? "permissions").getD .null).orEmpty
  let permissions ← permissionSet values
  pure { id := token.sub
         isSuperuser := (token.extras.get? "is_superuser").any Json.truth
         permissions }

def hasType (token : Token) (kind : String) : Bool :=
  match token.extras.get? "token_type" with
  | some (.str s) => s == kind
  | _ => false

def retrieveUser (token : Token) : Except Exc AuthUser :=
  if hasType token "access" then authUserOf token
  else .error (.notAuthorizedException "Access token required")

variable {τ : Type}

def tokenExtras (iter : IterOrder) (authUser : AuthUser) (kind : String) : Extras :=
  [("permissions", .arr ((iter.list authUser.permissions).map fun p => .str p.value)),
    ("is_superuser", .bool authUser.isSuperuser), ("token_type", .str kind)]

/-- The two tokens are created at successive readings of the clock. -/
def createTokenPair (jwt : Jwt τ) (config : AuthConfig) (clock : Nat → Instant) (iter : IterOrder)
    (authUser : AuthUser) : Except Exc (TokenPair τ) := do
  let access ← jwt.createToken (clock 0) authUser.id (tokenExtras iter authUser "access")
    config.accessTokenTtl
  let refresh ← jwt.createToken (clock 1) authUser.id (tokenExtras iter authUser "refresh")
    config.refreshTokenTtl
  pure { accessToken := access, refreshToken := refresh }

def login (a : Awaits) (jwt : Jwt τ) (config : AuthConfig) (clock : Nat → Instant)
    (iter : IterOrder) (crypt : CryptContext) (data : LoginUser) :
    Eff (World UserTable) Exc (TokenPair τ) := do
  let authUser ← LoginUserCommand.execute a crypt data
  Eff.ofExcept (createTokenPair jwt config clock iter authUser)

/-- `except Exception` lets a cancellation and other base exceptions through. -/
def refresh (jwt : Jwt τ) (config : AuthConfig) (clock : Nat → Instant) (iter : IterOrder)
    (refreshToken : τ) : Except Exc (TokenPair τ) :=
  match jwt.decode (clock 0) refreshToken with
  | .error e =>
    if e.kind = .exception then .error (.notAuthorizedException "Invalid refresh token") else .error e
  | .ok token =>
    if hasType token "refresh" then do
      let authUser ← authUserOf token
      createTokenPair jwt config (fun k => clock (k + 1)) iter authUser
    else .error (.notAuthorizedException "Token is not a refresh token")

/-! ## The guard -/

/-- `sorted(p.value for p in permissions)`. -/
def sortedValues (permissions : Finset Permission) : List String :=
  ([Permission.manageBooks, .manageUsers, .readBooks, .readUsers].filter (· ∈ permissions)).map
    Permission.value

def permissionGuard (required : Finset Permission) (user : AuthUser) : Except Exc Unit :=
  if user.isSuperuser then .ok ()
  else if (required \ user.permissions).Nonempty then
    .error (.permissionDeniedException ("Missing permissions: [" ++ String.intercalate ", "
      ((sortedValues (required \ user.permissions)).map fun v => "'" ++ v ++ "'") ++ "]"))
  else .ok ()

/-- A request with a bearer token to a handler behind the guard. -/
def guardedRequest (jwt : Jwt τ) (now : Instant) (required : Finset Permission) (bearer : τ) :
    Except Exc Unit := do
  let token ← jwt.decode now bearer
  let user ← retrieveUser token
  permissionGuard required user

/-! ## What a success means -/

variable {jwt : Jwt τ} {config : AuthConfig} {clock : Nat → Instant} {iter : IterOrder}
  {user : AuthUser} {token : Token} {p : TokenPair τ} {bearer : τ}

/-- What a created token decodes to is what it was created with, whenever it decodes. -/
theorem decode_of_created {now now' : Instant} {sub : String} {extras : Extras} {ttl : Int} {s : τ}
    (h : jwt.createToken now sub extras ttl = .ok s) (hdec : jwt.decode now' s = .ok token) :
    token = ⟨sub, extras⟩ := by
  obtain ⟨hlive, hexpired⟩ := jwt.decode_created _ _ _ _ _ h now'
  cases hexp : jwt.expired now' s with
  | false => exact Except.ok.inj (hdec.symm.trans (hlive hexp))
  | true =>
    obtain ⟨e, he⟩ := hexpired hexp
    rw [he] at hdec
    cases hdec

theorem createTokenPair_tokens (h : createTokenPair jwt config clock iter user = .ok p) :
    jwt.createToken (clock 0) user.id (tokenExtras iter user "access") config.accessTokenTtl =
        .ok p.accessToken ∧
      jwt.createToken (clock 1) user.id (tokenExtras iter user "refresh") config.refreshTokenTtl =
        .ok p.refreshToken := by
  obtain ⟨access, haccess, h⟩ := except_bind_eq_ok h
  obtain ⟨refresh, hrefresh, h⟩ := except_bind_eq_ok h
  cases h
  exact ⟨haccess, hrefresh⟩

theorem authUserOf_id (h : authUserOf token = .ok user) : user.id = token.sub := by
  obtain ⟨values, -, h⟩ := except_bind_eq_ok h
  obtain ⟨permissions, -, h⟩ := except_bind_eq_ok h
  cases h
  rfl

theorem retrieveUser_eq_ok (h : retrieveUser token = .ok user) :
    hasType token "access" = true ∧ authUserOf token = .ok user := by
  unfold retrieveUser at h
  split at h
  · rename_i htype
    exact ⟨htype, h⟩
  · cases h

theorem refresh_of_decode (h : jwt.decode (clock 0) bearer = .ok token) :
    refresh jwt config clock iter bearer =
      if hasType token "refresh" then
        (authUserOf token).bind (createTokenPair jwt config (fun k => clock (k + 1)) iter)
      else .error (.notAuthorizedException "Token is not a refresh token") := by
  rw [refresh, h]
  rfl

theorem refresh_eq_ok (h : refresh jwt config clock iter bearer = .ok p) :
    ∃ token user, jwt.decode (clock 0) bearer = .ok token ∧ hasType token "refresh" = true ∧
      authUserOf token = .ok user ∧
      createTokenPair jwt config (fun k => clock (k + 1)) iter user = .ok p := by
  cases hdec : jwt.decode (clock 0) bearer with
  | error e =>
    rw [refresh, hdec] at h
    dsimp only at h
    split at h <;> cases h
  | ok token =>
    rw [refresh_of_decode hdec] at h
    split at h
    · rename_i htype
      obtain ⟨user, huser, hpair⟩ := except_bind_eq_ok h
      exact ⟨token, user, rfl, htype, huser, hpair⟩
    · cases h

/-! ## What a token of this service describes -/

theorem permissionSet_value (l : List Permission) :
    permissionSet (l.map fun p => .str p.value) = .ok l.toFinset := by
  induction l with
  | nil => rfl
  | cons p l ih =>
    rw [List.map_cons, permissionSet, Json.permission, Permission.ofValue?_value]
    simp only [ih, List.toFinset_cons]
    rfl

theorem iter_toFinset (iter : IterOrder) (s : Finset Permission) : (iter.list s).toFinset = s := by
  ext p
  rw [List.mem_toFinset, iter.mem]

theorem orEmpty_arr (items : List Json) : (Json.arr items).orEmpty = .ok items := by
  cases items <;> rfl

theorem authUserOf_tokenExtras (iter : IterOrder) (u : AuthUser) (kind : String) :
    authUserOf ⟨u.id, tokenExtras iter u kind⟩ = .ok u := by
  have hitems : ((Extras.get? (tokenExtras iter u kind) "permissions").getD .null).orEmpty =
    .ok ((iter.list u.permissions).map fun p => .str p.value) := orEmpty_arr _
  have hset : permissionSet ((iter.list u.permissions).map fun p => .str p.value) =
      .ok u.permissions := by rw [permissionSet_value, iter_toFinset]
  rw [authUserOf, hitems]
  change (permissionSet _).bind _ = _
  rw [hset]
  rfl

end LibraryService.Presentors
