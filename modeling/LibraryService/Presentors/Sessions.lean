import LibraryService.General.Provenance
import LibraryService.Presentors.DeletedUsers
import LibraryService.Presentors.RefreshChains

/-!
# Sessions

Which login every accepted token goes back to, and how long a session lasts.
-/

open Transition Effect Relational Provenance LibraryService.Python LibraryService.Database
  LibraryService.Domain

namespace LibraryService.Presentors

variable {τ : Type} {isEmail : EmailCheck}

/-- Under the configured lifetimes a token has run out when its lifetime is over. -/
def RunsOut (jwt : Jwt τ) (config : AuthConfig) : Prop :=
  ∀ now sub extras ttl s, ttl ∈ [config.accessTokenTtl, config.refreshTokenTtl] →
    jwt.createToken now sub extras ttl = .ok s → ∀ now', now + ttl ≤ now' →
      jwt.expired now' s = true

/-! ## The sessions of a run -/

/-- When a request reads the clock. -/
def AuthRequest.readings : AuthRequest τ isEmail → List Instant
  | .write _ => []
  | .login clock _ _ => [clock 0, clock 1]
  | .refresh clock _ _ => [clock 0, clock 1, clock 2]

def AuthRequest.Before (req : AuthRequest τ isEmail) (a : Instant) : Prop :=
  ∀ now ∈ req.readings, now < a

def AuthRequest.After (req : AuthRequest τ isEmail) (b : Instant) : Prop :=
  ∀ now ∈ req.readings, b ≤ now

section Run

variable (service : Service τ) (t₀ : UserTable) (reqs : List (AuthRequest τ isEmail))

/-- The service when the run comes to its request at place `i`. -/
def serviceAt (i : Nat) : AuthState τ := stateAt (handleAuth service) ⟨t₀, []⟩ reqs i

/-- The request at place `i` is answered with this pair. -/
def Granted (i : Nat) (p : TokenPair τ) : Prop :=
  ∃ req, reqs[i]? = some req ∧ (handleAuth service (serviceAt service t₀ reqs i) req).1 =
    .ok (.tokens p)

/-- A login opens a session, and a refresh renews it. -/
def sessions : Leases (TokenPair τ) where
  opened k p := (∃ clock iter data, reqs[k]? = some (.login clock iter data)) ∧
    Granted service t₀ reqs k p
  renewed j p p' := (∃ clock iter, reqs[j]? = some (.refresh clock iter p.refreshToken)) ∧
    Granted service t₀ reqs j p'

/-- The pair of place `i` is of the session that the login at place `k` opened. -/
def Session (k i : Nat) (p : TokenPair τ) : Prop := Held (sessions service t₀ reqs) k i p

/-- The login at place `k` gives the name and the password of the user of the row, who is not
deleted then. -/
def LoggedIn (k : Nat) (r : UserRow) : Prop :=
  ∃ clock iter data passwordHash, reqs[k]? = some (.login clock iter data) ∧
    r ∈ (serviceAt service t₀ reqs k).users.rows ∧ r.deletedAt = none ∧ r.username = data.username ∧
    r.passwordHash = some passwordHash ∧ service.crypt.verify data.password passwordHash = .ok true

/-- No request that is answered with a pair for the user is on between `a` and `b`. -/
def Idle (sub : String) (a b : Instant) : Prop :=
  ∀ i req p, reqs[i]? = some req → Granted service t₀ reqs i p →
    (∃ token ∈ p.list, HasSubject service.jwt token sub) → req.Before a ∨ req.After b

end Run

variable {service : Service τ} {t₀ : UserTable} {reqs : List (AuthRequest τ isEmail)}
  {jwt : Jwt τ} {config : AuthConfig} {clock : Nat → Instant} {iter : IterOrder} {user : AuthUser}
  {i j k : Nat} {p p' : TokenPair τ} {token : τ} {decoded : Token} {now : Instant}
  {req : AuthRequest τ isEmail}

/-! ## Pairs -/

theorem live_of_decode {t ttl : Instant} {sub : String} {extras : Extras}
    (hcreate : jwt.createToken t sub extras ttl = .ok token)
    (hdec : jwt.decode now token = .ok decoded) : jwt.expired now token = false := by
  rw [← Bool.not_eq_true]
  intro hexpired
  obtain ⟨e, he⟩ := (jwt.decode_created _ _ _ _ _ hcreate now).2 hexpired
  rw [he] at hdec
  cases hdec

theorem mem_pair_kind (h : createTokenPair jwt config clock iter user = .ok p) (hmem : token ∈ p.list)
    (hdec : jwt.decode now token = .ok decoded) :
    decoded.sub = user.id ∧ (hasType decoded "access" = true → token = p.accessToken) ∧
      (hasType decoded "refresh" = true → token = p.refreshToken) ∧ jwt.expired now token = false := by
  obtain ⟨haccess, hrefresh⟩ := createTokenPair_tokens h
  simp only [TokenPair.list, List.mem_cons, List.not_mem_nil, or_false] at hmem
  rcases hmem with rfl | rfl
  · obtain rfl := decode_of_created haccess hdec
    exact ⟨rfl, fun _ => rfl, fun hkind => absurd hkind (by rw [hasType_tokenExtras]; decide),
      live_of_decode haccess hdec⟩
  · obtain rfl := decode_of_created hrefresh hdec
    exact ⟨rfl, fun hkind => absurd hkind (by rw [hasType_tokenExtras]; decide), fun _ => rfl,
      live_of_decode hrefresh hdec⟩

theorem created_runs_out (hout : RunsOut jwt config) {t a b ttl : Instant} {sub : String}
    {extras : Extras} (httl : ttl ∈ [config.accessTokenTtl, config.refreshTokenTtl])
    (hcreate : jwt.createToken t sub extras ttl = .ok token) (ha : t < a) (hab : a + ttl ≤ b)
    (hb : b ≤ now) : jwt.decode now token ≠ .ok decoded := by
  intro hdec
  have hover : t + ttl ≤ now :=
    calc t + ttl ≤ a + ttl := Int.add_le_add_right (Int.le_of_lt ha) ttl
      _ ≤ b := hab
      _ ≤ now := hb
  have hexpired := hout _ _ _ _ _ httl hcreate now hover
  rw [live_of_decode hcreate hdec] at hexpired
  cases hexpired

theorem pair_runs_out (hout : RunsOut jwt config)
    (h : createTokenPair jwt config clock iter user = .ok p) {a b : Instant} (h₀ : clock 0 < a)
    (h₁ : clock 1 < a) (haccess : a + config.accessTokenTtl ≤ b)
    (hrefresh : a + config.refreshTokenTtl ≤ b) (hmem : token ∈ p.list) (hb : b ≤ now) :
    jwt.decode now token ≠ .ok decoded := by
  obtain ⟨hcreate, hcreate'⟩ := createTokenPair_tokens h
  simp only [TokenPair.list, List.mem_cons, List.not_mem_nil, or_false] at hmem
  rcases hmem with rfl | rfl
  · exact created_runs_out hout (by simp) hcreate h₀ haccess hb
  · exact created_runs_out hout (by simp) hcreate' h₁ hrefresh hb

/-! ## What is granted -/

/-- The tokens of an answer. -/
def handedOut : Except Exc (AuthResponse τ) → List τ
  | .ok (.tokens p) => p.list
  | .ok (.user _) | .error _ => []

theorem handedOut_tokens (res : Except Exc (TokenPair τ)) :
    handedOut (res.map .tokens) = issuedBy res := by
  cases res <;> rfl

theorem handedOut_user (res : Except Exc UserResponse) :
    handedOut (res.map (.user : UserResponse → AuthResponse τ)) = [] := by
  cases res <;> rfl

theorem handleAuth_issued (s : AuthState τ) (req : AuthRequest τ isEmail) :
    (handleAuth service s req).2.issued = s.issued ++ handedOut (handleAuth service s req).1 := by
  cases req with
  | write w => simp only [handleAuth, handedOut_user, List.append_nil]
  | login clock iter data => simp only [handleAuth, handedOut_tokens]
  | refresh clock iter refreshToken => simp only [handleAuth, handedOut_tokens]

theorem mem_handedOut {o : Except Exc (AuthResponse τ)} :
    token ∈ handedOut o ↔ ∃ p, o = .ok (.tokens p) ∧ token ∈ p.list := by
  cases o with
  | error e => simp [handedOut]
  | ok body => cases body <;> simp [handedOut]

theorem mem_issued (hi : i ≤ reqs.length) :
    token ∈ (serviceAt service t₀ reqs i).issued ↔
      ∃ j p, j < i ∧ Granted service t₀ reqs j p ∧ token ∈ p.list := by
  rw [serviceAt, mem_collected handleAuth_issued rfl hi]
  simp only [mem_handedOut]
  constructor
  · rintro ⟨j, req, hj, hreq, p, hp, htoken⟩
    exact ⟨j, p, hj, ⟨req, hreq, hp⟩, htoken⟩
  · rintro ⟨j, p, hj, ⟨req, hreq, hp⟩, htoken⟩
    exact ⟨j, req, hj, hreq, p, hp, htoken⟩

theorem Granted.handled (h : Granted service t₀ reqs i p) (hreq : reqs[i]? = some req) :
    (handleAuth service (serviceAt service t₀ reqs i) req).1 = .ok (.tokens p) := by
  obtain ⟨req', hreq', hp⟩ := h
  obtain rfl := Option.some.inj (hreq.symm.trans hreq')
  exact hp

theorem Granted.login {data : LoginUser} (h : Granted service t₀ reqs i p)
    (hreq : reqs[i]? = some (.login clock iter data)) :
    (request (Presentors.login .allReturn service.jwt service.config clock iter service.crypt data)
      (serviceAt service t₀ reqs i).users).1 = .ok p := by
  have hp := h.handled hreq
  unfold handleAuth at hp
  obtain ⟨p', hp', hpair⟩ := except_map_eq_ok hp
  cases hpair
  exact hp'

theorem Granted.refresh {refreshToken : τ} (h : Granted service t₀ reqs i p)
    (hreq : reqs[i]? = some (.refresh clock iter refreshToken)) :
    Presentors.refresh service.jwt service.config clock iter refreshToken = .ok p := by
  have hp := h.handled hreq
  unfold handleAuth at hp
  obtain ⟨p', hp', hpair⟩ := except_map_eq_ok hp
  cases hpair
  exact hp'

theorem granted_cases (h : Granted service t₀ reqs i p) :
    (∃ clock iter data, reqs[i]? = some (.login clock iter data)) ∨
      ∃ clock iter refreshToken, reqs[i]? = some (.refresh clock iter refreshToken) := by
  obtain ⟨req, hreq, hp⟩ := h
  cases req with
  | write w =>
    unfold handleAuth at hp
    obtain ⟨body, -, hbody⟩ := except_map_eq_ok hp
    cases hbody
  | login clock iter data => exact .inl ⟨clock, iter, data, hreq⟩
  | refresh clock iter refreshToken => exact .inr ⟨clock, iter, refreshToken, hreq⟩

theorem login_pair {crypt : CryptContext} {data : LoginUser} {t : UserTable}
    (h : (request (login .allReturn jwt config clock iter crypt data) t).1 = .ok p) :
    ∃ r ∈ t.rows, r.deletedAt = none ∧ r.username = data.username ∧
      (∃ passwordHash, r.passwordHash = some passwordHash ∧
        crypt.verify data.password passwordHash = .ok true) ∧
      ∃ permissions, Permission.frozenset r.permissions = .ok permissions ∧
        createTokenPair jwt config clock iter (rowUser r permissions) = .ok p := by
  rw [login, request_bind_ofExcept, request_login] at h
  obtain ⟨u, hu, hpair⟩ := except_bind_eq_ok h
  obtain ⟨o, hfind, hresult⟩ := except_bind_eq_ok hu
  obtain ⟨c, rfl, hverify, rfl⟩ := loginResult_ok hresult
  obtain ⟨r, hr, husername, hlive, hhash, hid, hsuper, hperm⟩ := findCredentials_some hfind
  rw [← hid, ← hsuper] at hpair
  exact ⟨r, hr, hlive, husername, ⟨_, hhash, hverify⟩, _, hperm, hpair⟩

theorem granted_pair (h : Granted service t₀ reqs i p) :
    ∃ req clock iter user, reqs[i]? = some req ∧ clock 0 ∈ req.readings ∧ clock 1 ∈ req.readings ∧
      createTokenPair service.jwt service.config clock iter user = .ok p := by
  rcases granted_cases h with ⟨clock, iter, data, hreq⟩ | ⟨clock, iter, _, hreq⟩
  · obtain ⟨r, -, -, -, -, permissions, -, hpair⟩ := login_pair (h.login hreq)
    exact ⟨_, clock, iter, _, hreq, by simp [AuthRequest.readings], by simp [AuthRequest.readings],
      hpair⟩
  · obtain ⟨_, user, -, -, -, hpair⟩ := refresh_eq_ok (h.refresh hreq)
    exact ⟨_, _, iter, user, hreq, by simp [AuthRequest.readings], by simp [AuthRequest.readings],
      hpair⟩

/-! ## Where a token comes from -/

theorem Presentable.granted (hok : Presentable service.jwt (serviceAt service t₀ reqs i) token)
    (hi : i ≤ reqs.length) (hdec : service.jwt.decode now token = .ok decoded) :
    ∃ j p, j < i ∧ Granted service t₀ reqs j p ∧ token ∈ p.list := by
  rcases hok with hissued | hforeign
  · exact (mem_issued hi).mp hissued
  · obtain ⟨e, he⟩ := hforeign now
    rw [he] at hdec
    cases hdec

theorem session_of_granted (hok : AllOk (handleAuth service) (RequestOk service) ⟨t₀, []⟩ reqs)
    (h : Granted service t₀ reqs i p) : ∃ k, Session service t₀ reqs k i p := by
  refine exists_held (Granted service t₀ reqs) (fun j p' h => ?_) i p h
  rcases granted_cases h with hreq | ⟨clock, iter, s, hreq⟩
  · exact .inl ⟨hreq, h⟩
  · obtain ⟨decoded, _, hdec, hkind, -⟩ := refresh_eq_ok (h.refresh hreq)
    have hj : j ≤ reqs.length := (List.getElem?_eq_some_iff.mp hreq).1.le
    have hpresent : Presentable service.jwt (serviceAt service t₀ reqs j) s := ok_at hok hreq
    obtain ⟨i, p, hij, hp, hmem⟩ := hpresent.granted hj hdec
    obtain ⟨_, _, _, _, -, -, -, hpair⟩ := granted_pair hp
    have hs : s = p.refreshToken := (mem_pair_kind hpair hmem hdec).2.2.1 hkind
    exact .inr ⟨i, p, hij, hp, ⟨clock, iter, hs ▸ hreq⟩, h⟩

theorem Session.granted (h : Session service t₀ reqs k i p) : Granted service t₀ reqs i p := by
  cases h with
  | opened h => exact h.2
  | renewed _ _ h => exact h.2

/-- A session is one user's: whoever logged in keeps it over every refresh. -/
theorem session_user {p₀ : TokenPair τ} (h : (sessions service t₀ reqs).opened k p₀) :
    ∃ r permissions, LoggedIn service t₀ reqs k r ∧
      Permission.frozenset r.permissions = .ok permissions ∧ ∀ i p, Session service t₀ reqs k i p →
        ∃ n, RefreshChain service.jwt service.config (rowUser r permissions) n p := by
  obtain ⟨⟨clock, iter, data, hreq⟩, hgranted⟩ := h
  have hlogin := hgranted.login hreq
  obtain ⟨r, hr, hlive, husername, ⟨passwordHash, hhash, hverify⟩, permissions, hperm, hpair⟩ :=
    login_pair hlogin
  refine ⟨r, permissions, ⟨clock, iter, data, passwordHash, hreq, hr, hlive, husername, hhash,
    hverify⟩, hperm, fun i p hsession => hsession.invariant (P := fun p =>
      ∃ n, RefreshChain service.jwt service.config (rowUser r permissions) n p) ?_ ?_⟩
  · rintro p ⟨-, hp⟩
    obtain rfl := Except.ok.inj (hlogin.symm.trans (hp.login hreq))
    exact ⟨0, .created hpair⟩
  · rintro j p p' ⟨n, hn⟩ ⟨⟨clock', iter', hrefresh⟩, hp'⟩
    exact ⟨n + 1, hn.refreshed (hp'.refresh hrefresh)⟩

/-! ## Idle users -/

/-- The place lies after the instant. -/
def Late (reqs : List (AuthRequest τ isEmail)) (b : Instant) (i : Nat) : Prop :=
  ∃ req, reqs[i]? = some req ∧ req.After b

/-- A pair of an idle user of which a token still decodes afterwards was granted afterwards. -/
theorem late_of_live {sub : String} {a b : Instant} (hout : RunsOut service.jwt service.config)
    (haccess : a + service.config.accessTokenTtl ≤ b)
    (hrefresh : a + service.config.refreshTokenTtl ≤ b) (hidle : Idle service t₀ reqs sub a b)
    (hp : Granted service t₀ reqs i p) (hmem : token ∈ p.list) (hb : b ≤ now)
    (hdec : service.jwt.decode now token = .ok decoded) (hsub : decoded.sub = sub) :
    Late reqs b i := by
  obtain ⟨req, clock, iter, user, hreq, h₀, h₁, hpair⟩ := granted_pair hp
  rcases hidle i req p hreq hp ⟨token, hmem, now, decoded, hdec, hsub⟩ with hbefore | hafter
  · exact absurd hdec
      (pair_runs_out hout hpair (hbefore _ h₀) (hbefore _ h₁) haccess hrefresh hmem hb)
  · exact ⟨req, hreq, hafter⟩

theorem late_login {sub : String} {a b : Instant} (hout : RunsOut service.jwt service.config)
    (haccess : a + service.config.accessTokenTtl ≤ b)
    (hrefresh : a + service.config.refreshTokenTtl ≤ b) (hidle : Idle service t₀ reqs sub a b)
    (hsub : ∀ i p, Session service t₀ reqs k i p → ∀ token ∈ p.list, ∀ now decoded,
      service.jwt.decode now token = .ok decoded → decoded.sub = sub)
    (h : Session service t₀ reqs k i p) (hlate : Late reqs b i) : Late reqs b k := by
  refine h.late (fun i j p p' hsession hrenewed hlate => ?_) hlate
  obtain ⟨⟨clock, iter, hreq⟩, hp'⟩ := hrenewed
  obtain ⟨req, hreq', hafter⟩ := hlate
  obtain rfl := Option.some.inj (hreq.symm.trans hreq')
  obtain ⟨decoded, -, hdec, -⟩ := refresh_eq_ok (hp'.refresh hreq)
  have hmem : p.refreshToken ∈ p.list := by simp [TokenPair.list]
  exact late_of_live hout haccess hrefresh hidle (Session.granted hsession) hmem
    (hafter _ (by simp [AuthRequest.readings])) hdec (hsub _ _ hsession _ hmem _ _ hdec)

/-! ## Every run -/

/-- What the tokens of a run are good for. -/
structure BySessions (service : Service τ) (t₀ : UserTable) (reqs : List (AuthRequest τ isEmail)) :
    Prop where
  user : ∀ k i p, Session service t₀ reqs k i p → ∃ r permissions, LoggedIn service t₀ reqs k r ∧
    Permission.frozenset r.permissions = .ok permissions ∧ ∀ i p, Session service t₀ reqs k i p →
      ∃ n, RefreshChain service.jwt service.config (rowUser r permissions) n p
  bearer : ∀ now token, Presentable service.jwt (serviceAt service t₀ reqs reqs.length) token →
    ((∃ user, bearerUser service.jwt now token = .ok user) ↔ service.jwt.expired now token = false ∧
      ∃ k i p, Session service t₀ reqs k i p ∧ token = p.accessToken)
  refresh : ∀ clock iter token,
    Presentable service.jwt (serviceAt service t₀ reqs reqs.length) token →
    ((∃ p, refresh service.jwt service.config clock iter token = .ok p) ↔
      service.jwt.expired (clock 0) token = false ∧
        ∃ k i p, Session service t₀ reqs k i p ∧ token = p.refreshToken)
  runsOut : ∀ sub a b, a + service.config.accessTokenTtl ≤ b →
    a + service.config.refreshTokenTtl ≤ b → Idle service t₀ reqs sub a b →
    ∀ i p, Granted service t₀ reqs i p → ¬ Late reqs b i → ∀ token ∈ p.list, ∀ now decoded, b ≤ now →
    service.jwt.decode now token = .ok decoded → decoded.sub ≠ sub
  idle : ∀ sub a b, a + service.config.accessTokenTtl ≤ b → a + service.config.refreshTokenTtl ≤ b →
    Idle service t₀ reqs sub a b → ∀ now token decoded, b ≤ now →
    Presentable service.jwt (serviceAt service t₀ reqs reqs.length) token →
    service.jwt.decode now token = .ok decoded → decoded.sub = sub →
    ∃ k i p, Session service t₀ reqs k i p ∧ token ∈ p.list ∧ Late reqs b k

theorem UUID.str_ne_empty (u : UUID) : u.str ≠ "" := by
  intro h
  have hlist := congrArg String.toList h
  simp [UUID.str, dashed] at hlist

theorem session_of_decode (hok : AllOk (handleAuth service) (RequestOk service) ⟨t₀, []⟩ reqs)
    (hpresent : Presentable service.jwt (serviceAt service t₀ reqs reqs.length) token)
    (hdec : service.jwt.decode now token = .ok decoded) :
    ∃ k i p, Session service t₀ reqs k i p ∧ token ∈ p.list := by
  obtain ⟨i, p, -, hp, hmem⟩ := hpresent.granted (le_refl _) hdec
  obtain ⟨k, hsession⟩ := session_of_granted hok hp
  exact ⟨k, i, p, hsession, hmem⟩

theorem Session.keepsUser (hcreates : CreatesTokens service.jwt service.config)
    (h : Session service t₀ reqs k i p) :
    ∃ user n, KeepsUser service.jwt service.config user n p := by
  obtain ⟨p₀, hroot⟩ := h.root
  obtain ⟨r, permissions, -, -, hchain⟩ := session_user hroot
  obtain ⟨n, hn⟩ := hchain i p h
  have hid : (rowUser r permissions).id ≠ "" := by
    unfold rowUser
    exact UUID.str_ne_empty r.id
  exact ⟨_, n, hn.keepsUser hcreates hid⟩

theorem Session.sub (h : Session service t₀ reqs k i p) :
    ∃ sub, ∀ i p, Session service t₀ reqs k i p → ∀ token ∈ p.list, ∀ now decoded,
      service.jwt.decode now token = .ok decoded → decoded.sub = sub := by
  obtain ⟨p₀, hroot⟩ := h.root
  obtain ⟨r, permissions, -, -, hchain⟩ := session_user hroot
  refine ⟨r.id.str, fun i p hsession token hmem now decoded hdec => ?_⟩
  obtain ⟨n, hn⟩ := hchain i p hsession
  obtain ⟨clock, iter, hpair⟩ := hn.pair
  exact (mem_pair_kind hpair hmem hdec).1

/-- **Every accepted token goes back to a login**: after every run, the bearer tokens and the refresh
tokens that are accepted are those of sessions that have not run out, each session opened by a login
with the password of its user and renewed in time ever since, so that after an idle time of both
lifetimes only a new login helps. -/
theorem sessions_go_back_to_logins {t₀ : UserTable}
    (hcreates : CreatesTokens service.jwt service.config)
    (hout : RunsOut service.jwt service.config) {reqs : List (AuthRequest τ isEmail)}
    (hok : AllOk (handleAuth service) (RequestOk service) ⟨t₀, []⟩ reqs) :
    BySessions service t₀ reqs := by
  constructor
  case user =>
    intro k i p h
    obtain ⟨p₀, hroot⟩ := h.root
    exact session_user hroot
  case bearer =>
    intro now token hpresent
    constructor
    · rintro ⟨user, huser⟩
      obtain ⟨decoded, hdec, hretrieve⟩ := except_bind_eq_ok huser
      obtain ⟨k, i, p, hsession, hmem⟩ := session_of_decode hok hpresent hdec
      obtain ⟨_, _, _, _, -, -, -, hpair⟩ := granted_pair hsession.granted
      obtain ⟨-, haccess, -, hlive⟩ := mem_pair_kind hpair hmem hdec
      exact ⟨hlive, k, i, p, hsession, haccess (retrieveUser_eq_ok hretrieve).1⟩
    · rintro ⟨hlive, k, i, p, hsession, rfl⟩
      obtain ⟨user, n, hkeeps⟩ := hsession.keepsUser hcreates
      exact ⟨user, hkeeps.access now hlive⟩
  case refresh =>
    intro clock iter token hpresent
    constructor
    · rintro ⟨p', hp'⟩
      obtain ⟨decoded, -, hdec, hkind, -⟩ := refresh_eq_ok hp'
      obtain ⟨k, i, p, hsession, hmem⟩ := session_of_decode hok hpresent hdec
      obtain ⟨_, _, _, _, -, -, -, hpair⟩ := granted_pair hsession.granted
      obtain ⟨-, -, hrefresh, hlive⟩ := mem_pair_kind hpair hmem hdec
      exact ⟨hlive, k, i, p, hsession, hrefresh hkind⟩
    · rintro ⟨hlive, k, i, p, hsession, rfl⟩
      obtain ⟨user, n, hkeeps⟩ := hsession.keepsUser hcreates
      obtain ⟨p', hp', -⟩ := hkeeps.refresh clock iter hlive
      exact ⟨p', hp'⟩
  case runsOut =>
    intro sub a b haccess hrefresh hidle i p hp hearly token hmem now decoded hb hdec hsub
    exact hearly (late_of_live hout haccess hrefresh hidle hp hmem hb hdec hsub)
  case idle =>
    intro sub a b haccess hrefresh hidle now token decoded hb hpresent hdec hsub
    obtain ⟨k, i, p, hsession, hmem⟩ := session_of_decode hok hpresent hdec
    obtain ⟨sub', hsub'⟩ := hsession.sub
    obtain rfl := (hsub' i p hsession token hmem now decoded hdec).symm.trans hsub
    have hlate := late_of_live hout haccess hrefresh hidle hsession.granted hmem hb hdec hsub
    exact ⟨k, i, p, hsession, hmem, late_login hout haccess hrefresh hidle hsub' hsession hlate⟩

theorem plainJwt_runsOut : RunsOut plainJwt dayConfig := by
  intro now sub extras ttl s _ hcreate now' hover
  simp only [plainJwt] at hcreate
  split at hcreate
  · cases hcreate
  · obtain rfl := Except.ok.inj hcreate
    simpa [plainJwt] using hover

theorem sessions_go_back_to_logins_bob :
    BySessions plainService Table.empty bobsRun ∧
    (serviceAt plainService Table.empty bobsRun 3).issued.length = 4 :=
  ⟨sessions_go_back_to_logins plainJwt_creates plainJwt_runsOut
    ⟨trivial, trivial, .inl (.tail _ (.head _)), trivial⟩, rfl⟩

end LibraryService.Presentors
