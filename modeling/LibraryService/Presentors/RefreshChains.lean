import LibraryService.Presentors.TokenRuns

/-!
# Chains of refreshes

Whom the tokens of a chain of refreshes are for and where they are accepted, and which tokens end
otherwise than in acceptance or a 401.
-/

open Effect LibraryService.Database LibraryService.Domain

namespace LibraryService.Presentors

variable {τ α : Type}

/-! ## What litestar promises -/

/-- Under the configured lifetimes a token is created for every subject but the empty one. -/
def CreatesTokens (jwt : Jwt τ) (config : AuthConfig) : Prop :=
  ∀ now sub extras ttl, sub ≠ "" → ttl ∈ [config.accessTokenTtl, config.refreshTokenTtl] →
    ∃ s, jwt.createToken now sub extras ttl = .ok s

/-- No token has an empty subject, and a string that is no token raises an `Exception`. -/
structure DecodesTokens (jwt : Jwt τ) : Prop where
  sub : ∀ now s token, jwt.decode now s = .ok token → token.sub ≠ ""
  raises : ∀ now s e, jwt.decode now s = .error e → e.kind = .exception

/-! ## Chains -/

/-- Bearer authentication: the token is decoded, and `_retrieve_user` gets it. -/
def bearerUser (jwt : Jwt τ) (now : Instant) (bearer : τ) : Except Exc AuthUser := do
  let token ← jwt.decode now bearer
  retrieveUser token

/-- The pair that `n` refreshes make of a pair created for the user, each with the refresh token of
the one before. -/
inductive RefreshChain (jwt : Jwt τ) (config : AuthConfig) (user : AuthUser) :
    Nat → TokenPair τ → Prop
  | created {clock : Nat → Instant} {iter : IterOrder} {p : TokenPair τ} :
      createTokenPair jwt config clock iter user = .ok p → RefreshChain jwt config user 0 p
  | refreshed {n : Nat} {clock : Nat → Instant} {iter : IterOrder} {p p' : TokenPair τ} :
      RefreshChain jwt config user n p → refresh jwt config clock iter p.refreshToken = .ok p' →
      RefreshChain jwt config user (n + 1) p'

/-- What holds of a pair at place `n` of a chain, while its tokens have not expired. -/
structure KeepsUser (jwt : Jwt τ) (config : AuthConfig) (user : AuthUser) (n : Nat)
    (p : TokenPair τ) : Prop where
  access : ∀ now, jwt.expired now p.accessToken = false →
    bearerUser jwt now p.accessToken = .ok user
  refresh : ∀ clock iter, jwt.expired (clock 0) p.refreshToken = false →
    ∃ p', refresh jwt config clock iter p.refreshToken = .ok p' ∧
      RefreshChain jwt config user (n + 1) p'
  access_refused : ∀ clock iter, jwt.expired (clock 0) p.accessToken = false →
    Presentors.refresh jwt config clock iter p.accessToken =
      .error (.notAuthorizedException "Token is not a refresh token")
  refresh_refused : ∀ now, jwt.expired now p.refreshToken = false →
    bearerUser jwt now p.refreshToken = .error (.notAuthorizedException "Access token required")

def AcceptedByBoth (jwt : Jwt τ) (config : AuthConfig) (s : τ) : Prop :=
  (∃ now user, bearerUser jwt now s = .ok user) ∧
    ∃ clock iter p, refresh jwt config clock iter s = .ok p

variable {jwt : Jwt τ} {config : AuthConfig} {clock : Nat → Instant} {iter : IterOrder}
  {user : AuthUser} {p : TokenPair τ} {token : Token} {extras : Extras} {s : τ} {n : Nat}

/-! ## Where a token is accepted -/

theorem hasType_tokenExtras (sub kind kind' : String) :
    hasType ⟨sub, tokenExtras iter user kind⟩ kind' = (kind == kind') := rfl

theorem bearerUser_of_decode {now : Instant} (h : jwt.decode now s = .ok token) :
    bearerUser jwt now s = retrieveUser token := by
  rw [bearerUser, h]
  rfl

theorem not_both_types (h : hasType token "access" = true) : hasType token "refresh" = false := by
  unfold hasType at h ⊢
  split at h
  · rw [beq_iff_eq] at h
    subst h
    rfl
  · cases h

theorem not_acceptedByBoth {now : Instant} {sub : String} {ttl : Int}
    (h : jwt.createToken now sub extras ttl = .ok s) : ¬ AcceptedByBoth jwt config s := by
  rintro ⟨⟨now', user, hbearer⟩, clock, iter, p, hrefresh⟩
  obtain ⟨token, hdec, hretrieve⟩ := except_bind_eq_ok hbearer
  obtain ⟨token', -, hdec', htype, -⟩ := refresh_eq_ok hrefresh
  obtain ⟨haccess, -⟩ := retrieveUser_eq_ok hretrieve
  obtain rfl := decode_of_created h hdec
  obtain rfl := decode_of_created h hdec'
  rw [not_both_types haccess] at htype
  cases htype

/-! ## Pairs -/

theorem createTokenPair_total (hjwt : CreatesTokens jwt config) (hid : user.id ≠ "")
    (clock : Nat → Instant) (iter : IterOrder) :
    ∃ p, createTokenPair jwt config clock iter user = .ok p := by
  obtain ⟨access, haccess⟩ := hjwt (clock 0) user.id (tokenExtras iter user "access")
    config.accessTokenTtl hid (by simp)
  obtain ⟨refresh, hrefresh⟩ := hjwt (clock 1) user.id (tokenExtras iter user "refresh")
    config.refreshTokenTtl hid (by simp)
  exact ⟨⟨access, refresh⟩, by rw [createTokenPair, haccess, hrefresh]; rfl⟩

theorem refresh_of_pair (h : createTokenPair jwt config clock iter user = .ok p)
    {clock' : Nat → Instant} {iter' : IterOrder}
    (hlive : jwt.expired (clock' 0) p.refreshToken = false) :
    refresh jwt config clock' iter' p.refreshToken =
      createTokenPair jwt config (fun k => clock' (k + 1)) iter' user := by
  have hdec := (jwt.decode_created _ _ _ _ _ (createTokenPair_tokens h).2 (clock' 0)).1 hlive
  rw [refresh_of_decode hdec, hasType_tokenExtras, authUserOf_tokenExtras]
  rfl

/-- Every pair of a chain is one that could have been created for the user directly. -/
theorem RefreshChain.pair (h : RefreshChain jwt config user n p) :
    ∃ clock iter, createTokenPair jwt config clock iter user = .ok p := by
  induction h with
  | created h => exact ⟨_, _, h⟩
  | @refreshed n clock iter p p' _ hrefresh ih =>
    obtain ⟨clock', iter', hpair⟩ := ih
    obtain ⟨token, -, hdec, -⟩ := refresh_eq_ok hrefresh
    have hlive : jwt.expired (clock 0) p.refreshToken = false := by
      have hexpired := (jwt.decode_created _ _ _ _ _ (createTokenPair_tokens hpair).2 (clock 0)).2
      cases hexp : jwt.expired (clock 0) p.refreshToken with
      | false => rfl
      | true =>
        obtain ⟨e, he⟩ := hexpired hexp
        rw [he] at hdec; cases hdec
    rw [refresh_of_pair hpair hlive] at hrefresh
    exact ⟨_, _, hrefresh⟩

theorem RefreshChain.keepsUser (hjwt : CreatesTokens jwt config) (hid : user.id ≠ "")
    (h : RefreshChain jwt config user n p) : KeepsUser jwt config user n p := by
  obtain ⟨clock, iter, hpair⟩ := h.pair
  obtain ⟨haccess, hrefresh⟩ := createTokenPair_tokens hpair
  constructor
  · intro now hlive
    rw [bearerUser_of_decode ((jwt.decode_created _ _ _ _ _ haccess now).1 hlive), retrieveUser,
      hasType_tokenExtras, authUserOf_tokenExtras]
    rfl
  · intro clock' iter' hlive
    obtain ⟨p', hp'⟩ := createTokenPair_total hjwt hid (fun k => clock' (k + 1)) iter'
    rw [← refresh_of_pair hpair hlive] at hp'
    exact ⟨p', hp', h.refreshed hp'⟩
  · intro clock' iter' hlive
    rw [refresh_of_decode ((jwt.decode_created _ _ _ _ _ haccess (clock' 0)).1 hlive),
      hasType_tokenExtras]
    rfl
  · intro now hlive
    rw [bearerUser_of_decode ((jwt.decode_created _ _ _ _ _ hrefresh now).1 hlive), retrieveUser,
      hasType_tokenExtras]
    rfl

/-- **Tokens keep their user and their role** along every chain of refreshes, and no created token
is accepted both as a bearer token and as a refresh token. -/
theorem refresh_chain_keeps_user (hjwt : CreatesTokens jwt config) (user : AuthUser)
    (hid : user.id ≠ "") :
    (∀ clock iter, ∃ p, createTokenPair jwt config clock iter user = .ok p) ∧
    (∀ n p, RefreshChain jwt config user n p → KeepsUser jwt config user n p) ∧
    ∀ now sub extras ttl s, jwt.createToken now sub extras ttl = .ok s →
      ¬ AcceptedByBoth jwt config s :=
  ⟨createTokenPair_total hjwt hid, fun _ _ h => h.keepsUser hjwt hid,
    fun _ _ _ _ _ h => not_acceptedByBoth h⟩

theorem plainJwt_creates : CreatesTokens plainJwt dayConfig := by
  intro now sub extras ttl hsub httl
  have hpos : ¬ ttl < 0 := by
    simp only [dayConfig, List.mem_cons, List.not_mem_nil, or_false] at httl
    omega
  exact ⟨_, if_neg (by simp [hsub, hpos])⟩

theorem plainJwt_decodes : DecodesTokens plainJwt where
  sub now s token h := by
    simp only [plainJwt] at h
    split at h
    · cases h
    · cases h
      simp_all
  raises now s e h := by
    simp only [plainJwt] at h
    split at h <;> cases h
    rfl

theorem refresh_chain_keeps_user_plain :
    let ada : AuthUser := { id := "ada", permissions := {.readBooks} }
    (∀ clock iter, ∃ p, createTokenPair plainJwt dayConfig clock iter ada = .ok p) ∧
    (∀ n p, RefreshChain plainJwt dayConfig ada n p → KeepsUser plainJwt dayConfig ada n p) ∧
    ∀ now sub extras ttl s, plainJwt.createToken now sub extras ttl = .ok s →
      ¬ AcceptedByBoth plainJwt dayConfig s :=
  refresh_chain_keeps_user plainJwt_creates { id := "ada", permissions := {.readBooks} } (by decide)

/-! ## Tokens that are refused -/

/-- It succeeds, or raises `NotAuthorizedException`. -/
def Settles (res : Except Exc α) : Prop :=
  ∀ e, res = .error e → ∃ detail, e = .notAuthorizedException detail

/-- What a token says of permissions counts as false, or iterates to names of permissions. -/
def Readable (extras : Extras) : Prop :=
  ((extras.get? "permissions").getD .null).truth = true →
    ∃ items, ((extras.get? "permissions").getD .null).iterate = .ok items ∧
      ∀ v ∈ items, ∃ p : Permission, v = .str p.value

theorem permission_ok_iff (v : Json) :
    (∃ p, v.permission = .ok p) ↔ ∃ p : Permission, v = .str p.value := by
  constructor
  · rintro ⟨p, hp⟩
    unfold Json.permission at hp
    split at hp
    · split at hp
      · rename_i v _ hv
        exact ⟨_, by rw [Permission.value_of_ofValue? hv]⟩
      · cases hp
    · cases hp
  · rintro ⟨p, rfl⟩
    exact ⟨p, by simp [Json.permission]⟩

theorem permission_error {v : Json} {e : Exc} (h : v.permission = .error e) : e = .valueError := by
  unfold Json.permission at h
  split at h
  · split at h <;> cases h
    rfl
  · cases h; rfl

theorem permissionSet_ok_iff (items : List Json) :
    (∃ ps, permissionSet items = .ok ps) ↔ ∀ v ∈ items, ∃ p : Permission, v = .str p.value := by
  induction items with
  | nil => simp [permissionSet]
  | cons v items ih =>
    rw [List.forall_mem_cons, ← ih, ← permission_ok_iff, permissionSet]
    cases hv : v.permission with
    | error e => simp
    | ok p => cases permissionSet items <;> simp [Except.map]

theorem permissionSet_error {items : List Json} {e : Exc} (h : permissionSet items = .error e) :
    e = .valueError := by
  induction items with
  | nil => cases h
  | cons v items ih =>
    rw [permissionSet] at h
    cases hv : v.permission with
    | error e' =>
      rw [hv] at h
      cases h
      exact permission_error hv
    | ok p =>
      rw [hv] at h
      cases hrest : permissionSet items with
      | ok ps => rw [hrest] at h; cases h
      | error e' => rw [hrest] at h; cases h; exact ih hrest

theorem iterate_error {v : Json} {e : Exc} (h : v.iterate = .error e) : e = .typeError := by
  cases v <;> cases h <;> rfl

/-- The two decoders read the same claims in the same way, and fail in the same way. -/
theorem authUserOf_cases (token : Token) :
    Readable token.extras ∧ (∃ u, authUserOf token = .ok u) ∨
      ¬ Readable token.extras ∧ ∃ e ∈ [Exc.valueError, .typeError], authUserOf token = .error e := by
  unfold Readable authUserOf Json.orEmpty
  generalize (token.extras.get? "permissions").getD .null = value
  cases value.truth with
  | false => exact .inl ⟨by simp, _, rfl⟩
  | true =>
    simp only [if_true, forall_const]
    cases hiter : value.iterate with
    | error e =>
      obtain rfl := iterate_error hiter
      exact .inr ⟨by simp, .typeError, by simp, rfl⟩
    | ok items =>
      have hreadable : (∃ items', (.ok items : Except Exc _) = .ok items' ∧
          ∀ v ∈ items', ∃ p : Permission, v = .str p.value) ↔
            ∃ ps, permissionSet items = .ok ps := by
        rw [permissionSet_ok_iff]
        simp
      rw [hreadable]
      cases hset : permissionSet items with
      | ok ps =>
        have hok : ∀ f : Finset Permission → Except Exc AuthUser,
            (permissionSet items).bind f = f ps := by rw [hset]; exact fun _ => rfl
        exact .inl ⟨⟨ps, rfl⟩, _, hok _⟩
      | error e =>
        obtain rfl := permissionSet_error hset
        have herr : ∀ f : Finset Permission → Except Exc AuthUser,
            (permissionSet items).bind f = .error .valueError := by rw [hset]; exact fun _ => rfl
        exact .inr ⟨by simp, .valueError, by simp, herr _⟩

theorem settles_ok (a : α) : Settles (.ok a : Except Exc α) := by
  simp [Settles]

theorem settles_notAuthorized (detail : String) :
    Settles (.error (.notAuthorizedException detail) : Except Exc α) := by
  simp [Settles]

theorem not_settles {e : Exc} (h : e ∈ [Exc.valueError, .typeError]) :
    ¬ Settles (.error e : Except Exc α) := by
  simp only [List.mem_cons, List.not_mem_nil, or_false] at h
  rcases h with rfl | rfl <;> simp [Settles]

theorem retrieveUser_settles_iff (token : Token) :
    Settles (retrieveUser token) ↔ (hasType token "access" = true → Readable token.extras) := by
  unfold retrieveUser
  cases hasType token "access" with
  | false => exact iff_of_true (settles_notAuthorized _) (by simp)
  | true =>
    rcases authUserOf_cases token with ⟨hread, u, hu⟩ | ⟨hread, e, he, herr⟩
    · simpa [hu, hread] using settles_ok u
    · simpa [herr, hread] using not_settles he

theorem refresh_settles_iff (hcreate : CreatesTokens jwt config) (hdecode : DecodesTokens jwt)
    (clock : Nat → Instant) (iter : IterOrder) (s : τ) :
    Settles (refresh jwt config clock iter s) ↔ ∀ token, jwt.decode (clock 0) s = .ok token →
      hasType token "refresh" = true → Readable token.extras := by
  cases hdec : jwt.decode (clock 0) s with
  | error e =>
    have hkind := hdecode.raises _ _ _ hdec
    rw [refresh, hdec]
    simpa [hkind] using settles_notAuthorized _
  | ok token =>
    have hone : (∀ token', (.ok token : Except Exc Token) = .ok token' →
        hasType token' "refresh" = true → Readable token'.extras) ↔
          (hasType token "refresh" = true → Readable token.extras) := by simp
    rw [refresh_of_decode hdec, hone]
    cases hasType token "refresh" with
    | false => exact iff_of_true (settles_notAuthorized _) (by simp)
    | true =>
      rcases authUserOf_cases token with ⟨hread, u, hu⟩ | ⟨hread, e, he, herr⟩
      · have hsub : u.id ≠ "" := authUserOf_id hu ▸ hdecode.sub _ _ _ hdec
        obtain ⟨p, hp⟩ := createTokenPair_total hcreate hsub (fun k => clock (k + 1)) iter
        have hbind : (authUserOf token).bind
            (createTokenPair jwt config (fun k => clock (k + 1)) iter) = .ok p := by
          rw [hu]
          exact hp
        simpa [hbind, hread] using settles_ok p
      · have hbind : (authUserOf token).bind
            (createTokenPair jwt config (fun k => clock (k + 1)) iter) = .error e := by
          rw [herr]
          rfl
        simpa [hbind, hread] using not_settles he

/-- **A presented token ends in acceptance or a 401** exactly when its permissions can be read, or
it is refused before they are looked at. -/
theorem presented_token_settles_iff (hcreate : CreatesTokens jwt config)
    (hdecode : DecodesTokens jwt) :
    (∀ clock iter s, Settles (refresh jwt config clock iter s) ↔
      ∀ token, jwt.decode (clock 0) s = .ok token → hasType token "refresh" = true →
        Readable token.extras) ∧
    ∀ token, Settles (retrieveUser token) ↔
      (hasType token "access" = true → Readable token.extras) :=
  ⟨refresh_settles_iff hcreate hdecode, retrieveUser_settles_iff⟩

theorem presented_token_settles_iff_plain :
    (∀ clock iter s, Settles (refresh plainJwt dayConfig clock iter s) ↔
      ∀ token, plainJwt.decode (clock 0) s = .ok token → hasType token "refresh" = true →
        Readable token.extras) ∧
    ∀ token, Settles (retrieveUser token) ↔
      (hasType token "access" = true → Readable token.extras) :=
  presented_token_settles_iff plainJwt_creates plainJwt_decodes

/-- A token of a time when there was a permission to archive books. -/
def archivist (kind : String) : Token :=
  { sub := "ada"
    extras := [("permissions", .arr [.str "archive_books"]), ("is_superuser", .bool false),
      ("token_type", .str kind)] }

/-- The permission that is gone comes out as a `ValueError`. -/
theorem removed_permission_raises :
    refresh plainJwt dayConfig (fun _ => 0) .declared (60, archivist "refresh") = .error .valueError ∧
      retrieveUser (archivist "access") = .error .valueError ∧
      ¬ Settles (retrieveUser (archivist "access")) := by
  have hrefresh : refresh plainJwt dayConfig (fun _ => 0) .declared (60, archivist "refresh") =
      .error .valueError := by rfl
  have hretrieve : retrieveUser (archivist "access") = .error .valueError := by rfl
  refine ⟨hrefresh, hretrieve, ?_⟩
  rw [hretrieve]
  exact not_settles (by simp)

end LibraryService.Presentors
