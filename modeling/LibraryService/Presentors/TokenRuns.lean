import LibraryService.Presentors.Auth
import LibraryService.Presentors.UserWrites

/-!
# Tokens over runs

Which users the tokens that the service has issued describe, and what they let through.
-/

open Transition Effect Relational LibraryService.Python LibraryService.Database LibraryService.Domain

namespace LibraryService.Presentors

variable {τ : Type} {isEmail : EmailCheck}

/-- The service: what its handlers take from outside, and what stays the same over a run. -/
structure Service (τ : Type) where
  iter : IterOrder
  crypt : CryptContext
  jwt : Jwt τ
  config : AuthConfig

/-- The users table, and every token that was ever handed out. -/
structure AuthState (τ : Type) where
  users : UserTable
  issued : List τ

inductive AuthRequest (τ : Type) (isEmail : EmailCheck)
  | write (w : UserWrite isEmail)
  | login (clock : Nat → Instant) (iter : IterOrder) (data : LoginUser)
  | refresh (clock : Nat → Instant) (iter : IterOrder) (refreshToken : τ)

inductive AuthResponse (τ : Type)
  | user (body : UserResponse)
  | tokens (body : TokenPair τ)

def TokenPair.list (p : TokenPair τ) : List τ := [p.accessToken, p.refreshToken]

def issuedBy : Except Exc (TokenPair τ) → List τ
  | .ok p => p.list
  | .error _ => []

def handleAuth (service : Service τ) (s : AuthState τ) :
    AuthRequest τ isEmail → Except Exc (AuthResponse τ) × AuthState τ
  | .write w =>
    let res := handleWrite service.iter service.crypt s.users w
    (res.1.map .user, { s with users := res.2 })
  | .login clock iter data =>
    let res := request
      (login .allReturn service.jwt service.config clock iter service.crypt data) s.users
    (res.1.map .tokens, { users := res.2, issued := s.issued ++ issuedBy res.1 })
  | .refresh clock iter refreshToken =>
    let res := refresh service.jwt service.config clock iter refreshToken
    (res.map .tokens, { s with issued := s.issued ++ issuedBy res })

/-- Only this service holds the secret: a string that it did not issue never decodes. -/
def Presentable (jwt : Jwt τ) (s : AuthState τ) (token : τ) : Prop :=
  token ∈ s.issued ∨ ∀ now, ∃ e, jwt.decode now token = .error e

def RequestOk (service : Service τ) (s : AuthState τ) : AuthRequest τ isEmail → Prop
  | .refresh _ _ refreshToken => Presentable service.jwt s refreshToken
  | .write _ | .login _ _ _ => True

/-! ## Tokens and rows -/

def rowUser (r : UserRow) (permissions : Finset Permission) : AuthUser :=
  { id := r.id.str, isSuperuser := r.isSuperuser, permissions }

/-- The token was created for the user of the row, as the row is now. -/
def Describes (jwt : Jwt τ) (token : τ) (r : UserRow) : Prop :=
  ∃ permissions now iter kind ttl, Permission.frozenset r.permissions = .ok permissions ∧
    jwt.createToken now r.id.str (tokenExtras iter (rowUser r permissions) kind) ttl = .ok token

/-- Whenever the token decodes, it carries the id, the flag and the permissions of the row. -/
def Carries (jwt : Jwt τ) (token : τ) (r : UserRow) : Prop :=
  ∀ now decoded, jwt.decode now token = .ok decoded → decoded.sub = r.id.str ∧
    ∃ permissions, Permission.frozenset r.permissions = .ok permissions ∧
      authUserOf decoded = .ok (rowUser r permissions)

variable {service : Service τ} {jwt : Jwt τ} {token : τ} {r r' : UserRow} {s : AuthState τ}

theorem decode_of_describes (h : Describes jwt token r) {now : Instant} {decoded : Token}
    (hdec : jwt.decode now token = .ok decoded) :
    ∃ permissions iter kind, Permission.frozenset r.permissions = .ok permissions ∧
      decoded = ⟨r.id.str, tokenExtras iter (rowUser r permissions) kind⟩ := by
  obtain ⟨permissions, now', iter, kind, ttl, hperm, hcreate⟩ := h
  exact ⟨permissions, iter, kind, hperm, decode_of_created hcreate hdec⟩

theorem carries_of_describes (h : Describes jwt token r) : Carries jwt token r := by
  intro now decoded hdec
  obtain ⟨permissions, iter, kind, hperm, rfl⟩ := decode_of_describes h hdec
  exact ⟨rfl, permissions, hperm, authUserOf_tokenExtras iter (rowUser r permissions) kind⟩

theorem Describes.of_same (h : Describes jwt token r) (hid : r'.id = r.id)
    (hsuper : r'.isSuperuser = r.isSuperuser) (hperm : r'.permissions = r.permissions) :
    Describes jwt token r' := by
  unfold Describes rowUser
  rw [hid, hsuper, hperm]
  exact h

/-! ## The invariant -/

structure AuthInv (service : Service τ) (t₀ : UserTable) (s : AuthState τ) : Prop where
  known : AllKnown s.users
  tokens : ∀ token ∈ s.issued, ∃ r ∈ s.users.rows, Describes service.jwt token r
  created : ∀ r ∈ s.users.rows, (∃ r₀ ∈ t₀.rows, r₀.id = r.id) ∨
    r.isSuperuser = false ∧ r.permissions = []

theorem AuthInv.change {t₀ t' : UserTable} (h : AuthInv service t₀ s)
    (hc : TableChange s.users t') : AuthInv service t₀ { s with users := t' } := by
  refine ⟨hc.known h.known, ?_, ?_⟩
  · intro token htoken
    obtain ⟨r, hr, hdesc⟩ := h.tokens token htoken
    cases hc with
    | same heq => exact ⟨r, heq ▸ hr, hdesc⟩
    | inserted row hrows => exact ⟨r, by simp [hrows, hr], hdesc⟩
    | replaced r₁ r' hr₁ hmem hid hsuper hperm =>
      by_cases hrr : r.id = r₁.id
      · obtain rfl := user_id_unique hr hr₁ hrr
        exact ⟨r', (hmem r').mpr (.inl rfl), hdesc.of_same hid hsuper hperm⟩
      · exact ⟨r, (hmem r).mpr (.inr ⟨hr, hrr⟩), hdesc⟩
  · intro x hx
    cases hc with
    | same heq => exact h.created x (heq ▸ hx)
    | inserted row hrows hsuper hperm =>
      rw [hrows, List.mem_append, List.mem_singleton] at hx
      rcases hx with hx | rfl
      · exact h.created x hx
      · exact .inr ⟨hsuper, hperm⟩
    | replaced r₁ r' hr₁ hmem hid hsuper hperm =>
      rcases (hmem x).mp hx with rfl | ⟨hx, -⟩
      · rw [hid, hsuper, hperm]
        exact h.created r₁ hr₁
      · exact h.created x hx

theorem AuthInv.issue {t₀ : UserTable} (h : AuthInv service t₀ s)
    (res : Except Exc (TokenPair τ))
    (hres : ∀ p, res = .ok p → ∃ r ∈ s.users.rows, Describes service.jwt p.accessToken r ∧
      Describes service.jwt p.refreshToken r) :
    AuthInv service t₀ { s with issued := s.issued ++ issuedBy res } := by
  refine ⟨h.known, fun token htoken => ?_, h.created⟩
  rcases List.mem_append.mp htoken with htoken | htoken
  · exact h.tokens token htoken
  cases res with
  | error e => cases htoken
  | ok p =>
    obtain ⟨r, hr, haccess, hrefresh⟩ := hres p rfl
    simp only [issuedBy, TokenPair.list, List.mem_cons, List.not_mem_nil, or_false] at htoken
    rcases htoken with rfl | rfl
    · exact ⟨r, hr, haccess⟩
    · exact ⟨r, hr, hrefresh⟩

theorem describes_of_pair {config : AuthConfig} {clock : Nat → Instant} {iter : IterOrder}
    {permissions : Finset Permission} (hperm : Permission.frozenset r.permissions = .ok permissions)
    {p : TokenPair τ} (h : createTokenPair jwt config clock iter (rowUser r permissions) = .ok p) :
    Describes jwt p.accessToken r ∧ Describes jwt p.refreshToken r := by
  obtain ⟨haccess, hrefresh⟩ := createTokenPair_tokens h
  exact ⟨⟨permissions, _, iter, _, _, hperm, haccess⟩, ⟨permissions, _, iter, _, _, hperm, hrefresh⟩⟩

theorem login_describes {config : AuthConfig} {clock : Nat → Instant} {iter : IterOrder}
    {crypt : CryptContext} {data : LoginUser} {t : UserTable} {p : TokenPair τ}
    (h : (request (login .allReturn jwt config clock iter crypt data) t).1 = .ok p) :
    ∃ r ∈ t.rows, Describes jwt p.accessToken r ∧ Describes jwt p.refreshToken r := by
  rw [login, request_bind_ofExcept, request_login] at h
  obtain ⟨u, hu, hpair⟩ := except_bind_eq_ok h
  obtain ⟨o, hfind, hresult⟩ := except_bind_eq_ok hu
  obtain ⟨c, rfl, -, rfl⟩ := loginResult_ok hresult
  obtain ⟨r, hr, -, -, -, hid, hsuper, hperm⟩ := findCredentials_some hfind
  rw [← hid, ← hsuper] at hpair
  exact ⟨r, hr, describes_of_pair hperm hpair⟩

theorem login_users (jwt : Jwt τ) (config : AuthConfig) (clock : Nat → Instant) (iter : IterOrder)
    (crypt : CryptContext) (data : LoginUser) (t : UserTable) :
    (request (login .allReturn jwt config clock iter crypt data) t).2 = t := by
  rw [login, request_bind_ofExcept, request_login]

theorem refresh_describes {config : AuthConfig} {clock : Nat → Instant} {iter : IterOrder}
    {p : TokenPair τ} (hdesc : Describes jwt token r)
    (h : refresh jwt config clock iter token = .ok p) :
    Describes jwt p.accessToken r ∧ Describes jwt p.refreshToken r := by
  obtain ⟨decoded, u, hdec, -, hu, hpair⟩ := refresh_eq_ok h
  obtain ⟨permissions, iter', kind, hperm, rfl⟩ := decode_of_describes hdesc hdec
  have huser := authUserOf_tokenExtras iter' (rowUser r permissions) kind
  obtain rfl := Except.ok.inj (hu.symm.trans huser)
  exact describes_of_pair hperm hpair

theorem handleAuth_inv {t₀ : UserTable} (h : AuthInv service t₀ s) (req : AuthRequest τ isEmail)
    (hok : RequestOk service s req) : AuthInv service t₀ (handleAuth service s req).2 := by
  cases req with
  | write w => exact h.change (handleWrite_change service.iter service.crypt h.known w)
  | login clock iter data =>
    have hissue := h.issue (request (login .allReturn service.jwt service.config clock iter
      service.crypt data) s.users).1 fun p hp => login_describes hp
    simp only [handleAuth, login_users]
    exact hissue
  | refresh clock iter refreshToken =>
    refine h.issue _ fun p hp => ?_
    rcases hok with hissued | hforeign
    · obtain ⟨r, hr, hdesc⟩ := h.tokens refreshToken hissued
      exact ⟨r, hr, refresh_describes hdesc hp⟩
    · -- A token that does not decode is answered with an error.
      obtain ⟨e, he⟩ := hforeign (clock 0)
      obtain ⟨decoded, -, hdec, -⟩ := refresh_eq_ok hp
      rw [he] at hdec
      cases hdec

/-! ## No privilege escalation -/

/-- Nothing that the service hands out describes more than the row it is for. -/
structure NoEscalation (service : Service τ) (t₀ : UserTable) (s : AuthState τ) : Prop where
  tokens : ∀ token ∈ s.issued, ∃ r ∈ s.users.rows, Describes service.jwt token r ∧
    Carries service.jwt token r
  guard : ∀ now bearer, Presentable service.jwt s bearer →
    guardedRequest service.jwt now {.manageBooks} bearer = .ok () →
    ∃ r ∈ s.users.rows, Carries service.jwt bearer r ∧
      (r.isSuperuser = true ∨ Permission.manageBooks.value ∈ r.permissions)
  created : ∀ r ∈ s.users.rows, (∀ r₀ ∈ t₀.rows, r₀.id ≠ r.id) →
    r.isSuperuser = false ∧ r.permissions = []

theorem mem_of_frozenset {values : List String} {permissions : Finset Permission}
    (h : Permission.frozenset values = .ok permissions) {p : Permission} (hp : p ∈ permissions) :
    p.value ∈ values := by
  induction values generalizing permissions with
  | nil => cases h; simp at hp
  | cons v vs ih =>
    rw [Permission.frozenset] at h
    split at h
    · cases h
    · rename_i q hq
      cases hvs : Permission.frozenset vs with
      | error e => rw [hvs] at h; cases h
      | ok rest =>
        rw [hvs] at h; cases h
        rcases Finset.mem_insert.mp hp with rfl | hp
        · rw [Permission.value_of_ofValue? hq]; simp
        · exact List.mem_cons_of_mem _ (ih hvs hp)

theorem guard_passes {now : Instant} (hdesc : Describes jwt token r)
    (h : guardedRequest jwt now {.manageBooks} token = .ok ()) :
    r.isSuperuser = true ∨ Permission.manageBooks.value ∈ r.permissions := by
  obtain ⟨decoded, hdec, hrest⟩ := except_bind_eq_ok h
  obtain ⟨u, hu, hguard⟩ := except_bind_eq_ok hrest
  obtain ⟨permissions, iter, kind, hperm, rfl⟩ := decode_of_describes hdesc hdec
  have huser := authUserOf_tokenExtras iter (rowUser r permissions) kind
  obtain rfl := Except.ok.inj ((retrieveUser_eq_ok hu).2.symm.trans huser)
  unfold permissionGuard at hguard
  split at hguard
  · left
    assumption
  · split at hguard
    · cases hguard
    · rename_i hmissing
      right
      rw [Finset.not_nonempty_iff_eq_empty, Finset.sdiff_eq_empty_iff_subset,
        Finset.singleton_subset_iff] at hmissing
      exact mem_of_frozenset hperm hmissing

/-- **No privilege escalation**, in every state that a run of requests reaches from a table whose
permissions are all known. -/
theorem no_privilege_escalation {t₀ : UserTable} (h₀ : AllKnown t₀)
    {reqs : List (AuthRequest τ isEmail)}
    (hok : AllOk (handleAuth service) (RequestOk service) ⟨t₀, []⟩ reqs) :
    NoEscalation service t₀ (answers (handleAuth service) ⟨t₀, []⟩ reqs).2 := by
  have hinit : AuthInv service t₀ ⟨t₀, []⟩ :=
    ⟨h₀, fun _ h => absurd h List.not_mem_nil, fun r hr => .inl ⟨r, hr, rfl⟩⟩
  have hinv := answers_invariant (I := AuthInv service t₀)
    (fun s req hs hreq => handleAuth_inv hs req hreq) hinit hok
  refine ⟨fun token htoken => ?_, fun now bearer hb hguard => ?_, fun r hr hnew => ?_⟩
  · obtain ⟨r, hr, hdesc⟩ := hinv.tokens token htoken
    exact ⟨r, hr, hdesc, carries_of_describes hdesc⟩
  · rcases hb with hissued | hforeign
    · obtain ⟨r, hr, hdesc⟩ := hinv.tokens bearer hissued
      exact ⟨r, hr, carries_of_describes hdesc, guard_passes hdesc hguard⟩
    · obtain ⟨e, he⟩ := hforeign now
      obtain ⟨decoded, hdec, -⟩ := except_bind_eq_ok hguard
      rw [he] at hdec; cases hdec
  · rcases hinv.created r hr with ⟨r₀, hr₀, hid⟩ | h
    · exact absurd hid (hnew r₀ hr₀)
    · exact h

/-- litestar with its tokens in the clear: no subject may be empty, and no lifetime negative. -/
def plainJwt : Jwt (Instant × Token) where
  createToken now sub extras ttl :=
    if sub = "" ∨ ttl < 0 then .error (.other .exception "ImproperlyConfiguredException" true)
    else .ok (now + ttl, ⟨sub, extras⟩)
  decode now token :=
    if token.1 ≤ now ∨ token.2.sub = "" then .error (.notAuthorizedException "Invalid token")
    else .ok token.2
  expired now token := decide (token.1 ≤ now)
  decode_created now sub extras ttl s h now' := by
    split at h
    · cases h
    · rename_i hsub
      obtain rfl := Except.ok.inj h
      have hne : sub ≠ "" := fun heq => hsub (.inl heq)
      constructor
      · intro hlive
        have hlt : ¬ now + ttl ≤ now' := by simpa using hlive
        simp [hlt, hne]
      · intro hexpired
        have hle : now + ttl ≤ now' := by simpa using hexpired
        exact ⟨_, if_pos (.inl hle)⟩

def dayConfig : AuthConfig := { accessTokenTtl := 3600, refreshTokenTtl := 86400 }

def plainService : Service (Instant × Token) where
  iter := .declared
  crypt := toyCrypt
  jwt := plainJwt
  config := dayConfig

/-- Bob registers, logs in and refreshes with the token that he got. -/
def bobsRun : List (AuthRequest (Instant × Token) toyEmail) :=
  [.write registerBob, .login (fun _ => 0) .declared { username := "bob", password := "correct horse" },
    .refresh (fun _ => 60) .declared
      (86400, ⟨UUID.str ⟨2⟩, tokenExtras .declared { id := UUID.str ⟨2⟩ } "refresh"⟩)]

theorem no_privilege_escalation_bob :
    NoEscalation plainService Table.empty
      (answers (handleAuth plainService) ⟨Table.empty, []⟩ bobsRun).2 ∧
    (answers (handleAuth plainService) ⟨Table.empty, []⟩ bobsRun).2.issued.length = 4 :=
  ⟨no_privilege_escalation .empty
    ⟨trivial, trivial, .inl (.tail _ (.head _)), trivial⟩, rfl⟩

end LibraryService.Presentors
