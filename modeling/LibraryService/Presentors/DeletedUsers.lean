import LibraryService.Presentors.TokenRuns

/-!
# Tokens of deleted users

Which tokens are handed out after a user was deleted.
-/

open Transition Effect Relational LibraryService.Python LibraryService.Database LibraryService.Domain

namespace LibraryService.Presentors

variable {τ : Type} {isEmail : EmailCheck} {iter : IterOrder} {crypt : CryptContext} {t : UserTable}
  {r : UserRow} {st : Stmt} {userId : UUID}

/-! ## A deleted row stays as it is -/

theorem create_keeps_row {user : CreateUser} (hr : r ∈ t.rows) :
    r ∈ (request (CreateUserCommand.execute .allReturn st iter user) t).2.rows := by
  rcases request_createUser st iter user t with
    ⟨e, -, hreq⟩ | ⟨-, -, hreq⟩ | ⟨-, -, -, u, t', -, hreq, hrows⟩
  · rw [hreq]; exact hr
  · rw [hreq]; exact hr
  · rw [hreq, hrows]; exact List.mem_append_left _ hr

theorem update_keeps_deleted {u : UpdateUser} (h : AllKnown t) (hr : r ∈ t.rows)
    (hd : r.deletedAt ≠ none) :
    r ∈ (request (UpdateUserByIdCommand.execute .allReturn st u) t).2.rows := by
  cases hlive : liveUser t u.id with
  | none => rw [request_updateUser_missing hlive]; exact hr
  | some x =>
    obtain ⟨hx, hid, hxd⟩ := liveUser_eq_some.mp hlive
    rcases request_updateUser st hlive (h x hx) with
      ⟨e, -, hreq⟩ | ⟨-, -, -, user, t', -, hreq, hmem⟩
    · rw [hreq]; exact hr
    · rw [hreq, hmem]
      refine .inr ⟨hr, fun hrid => hd ?_⟩
      rw [user_id_unique hr hx (hrid.trans hid.symm), hxd]

theorem delete_keeps_deleted (hr : r ∈ t.rows) (hd : r.deletedAt ≠ none) :
    r ∈ (request (DeleteUserByIdCommand.execute .allReturn st userId) t).2.rows := by
  rcases request_deleteUser st userId t with ⟨-, hreq⟩ | ⟨x, t', hlive, hreq, hmem⟩
  · rw [hreq]; exact hr
  · obtain ⟨hx, hid, hxd⟩ := liveUser_eq_some.mp hlive
    rw [hreq, hmem]
    refine .inr ⟨hr, fun hrid => hd ?_⟩
    rw [user_id_unique hr hx (hrid.trans hid.symm), hxd]

theorem handleWrite_keeps_deleted (h : AllKnown t) (hr : r ∈ t.rows) (hd : r.deletedAt ≠ none)
    (w : UserWrite isEmail) : r ∈ (handleWrite iter crypt t w).2.rows := by
  apply handleWrite_table (Q := fun t' => r ∈ t'.rows)
  · exact hr
  · exact fun st user _ _ => create_keeps_row hr
  · exact fun st u => update_keeps_deleted h hr hd
  · exact fun st userId => delete_keeps_deleted hr hd

def Deleted (t : UserTable) (userId : UUID) : Prop :=
  ∃ r ∈ t.rows, r.id = userId ∧ r.deletedAt ≠ none

theorem deleted_of_success {body : UserResponse}
    (h : (handleWrite iter crypt t (.delete st userId : UserWrite isEmail)).1 = .ok body) :
    Deleted (handleWrite iter crypt t (.delete st userId : UserWrite isEmail)).2 userId := by
  have hwrite : handleWrite iter crypt t (.delete st userId : UserWrite isEmail) =
    respond (fun _ => .noContent) (DeleteUserByIdCommand.execute .allReturn st userId) t := rfl
  rw [hwrite, respond] at h ⊢
  rcases request_deleteUser st userId t with ⟨-, hreq⟩ | ⟨x, t', hlive, hreq, hmem⟩
  · rw [hreq] at h; cases h
  · rw [hreq]
    exact ⟨_, (hmem _).mpr (.inl rfl), (liveUser_eq_some.mp hlive).2.1,
      by simp [markUserDeleted]⟩

/-! ## Whom a token is for -/

/-- The token decodes, at some time, to one with this subject. -/
def HasSubject (jwt : Jwt τ) (token : τ) (sub : String) : Prop :=
  ∃ now decoded, jwt.decode now token = .ok decoded ∧ decoded.sub = sub

def CreatedFor (jwt : Jwt τ) (token : τ) (sub : String) : Prop :=
  ∃ now extras ttl, jwt.createToken now sub extras ttl = .ok token

variable {jwt : Jwt τ} {token : τ} {sub sub' : String}

theorem CreatedFor.subject (h : CreatedFor jwt token sub) (h' : HasSubject jwt token sub') :
    sub' = sub := by
  obtain ⟨now, extras, ttl, hcreate⟩ := h
  obtain ⟨now', decoded, hdec, rfl⟩ := h'
  rw [decode_of_created hcreate hdec]

theorem createTokenPair_for {config : AuthConfig} {clock : Nat → Instant} {u : AuthUser}
    {p : TokenPair τ} (h : createTokenPair jwt config clock iter u = .ok p) :
    ∀ token ∈ p.list, CreatedFor jwt token u.id := by
  obtain ⟨haccess, hrefresh⟩ := createTokenPair_tokens h
  intro token htoken
  simp only [TokenPair.list, List.mem_cons, List.not_mem_nil, or_false] at htoken
  rcases htoken with rfl | rfl
  · exact ⟨_, _, _, haccess⟩
  · exact ⟨_, _, _, hrefresh⟩

theorem login_for {config : AuthConfig} {clock : Nat → Instant} {data : LoginUser} {p : TokenPair τ}
    (h : (request (login .allReturn jwt config clock iter crypt data) t).1 = .ok p) :
    ∃ r ∈ t.rows, r.deletedAt = none ∧ ∀ token ∈ p.list, CreatedFor jwt token r.id.str := by
  rw [login, request_bind_ofExcept, request_login] at h
  obtain ⟨u, hu, hpair⟩ := except_bind_eq_ok h
  obtain ⟨o, hfind, hresult⟩ := except_bind_eq_ok hu
  obtain ⟨c, ho, -, hc⟩ := loginResult_ok hresult
  rw [ho] at hfind
  obtain ⟨r, hr, -, hlive, -, hid, -, -⟩ := findCredentials_some hfind
  refine ⟨r, hr, hlive, ?_⟩
  have hfor := createTokenPair_for hpair
  rw [hc] at hfor
  rw [hid]
  exact hfor

theorem refresh_for {config : AuthConfig} {clock : Nat → Instant} {p : TokenPair τ}
    (h : refresh jwt config clock iter token = .ok p) :
    ∃ decoded, jwt.decode (clock 0) token = .ok decoded ∧ hasType decoded "refresh" = true ∧
      ∀ token' ∈ p.list, CreatedFor jwt token' decoded.sub := by
  obtain ⟨decoded, u, hdec, hkind, hu, hpair⟩ := refresh_eq_ok h
  refine ⟨decoded, hdec, hkind, ?_⟩
  rw [← authUserOf_id hu]
  exact createTokenPair_for hpair

/-! ## Runs -/

section Runs

variable {service : Service τ} {s s₀ : AuthState τ} {req : AuthRequest τ isEmail}
  {reqs : List (AuthRequest τ isEmail)} {p : TokenPair τ}

/-- No refresh with a valid refresh token of a user who is deleted by now. -/
def RefreshesKept (service : Service τ) (s : AuthState τ) : AuthRequest τ isEmail → Prop
  | .refresh clock _ refreshToken => ∀ decoded,
      service.jwt.decode (clock 0) refreshToken = .ok decoded → hasType decoded "refresh" = true →
      ∀ userId, Deleted s.users userId → decoded.sub ≠ userId.str
  | .write _ | .login _ _ _ => True

/-- Once a user was deleted, no later request of the run is answered with a token of this user. -/
def NoTokensOnceDeleted (service : Service τ) (s₀ : AuthState τ)
    (reqs : List (AuthRequest τ isEmail)) : Prop :=
  ∀ before st userId after body,
    let delete : AuthRequest τ isEmail := .write (.delete st userId)
    let s := (answers (handleAuth service) s₀ before).2
    reqs = before ++ delete :: after → (handleAuth service s delete).1 = .ok body →
      ∀ p, .ok (.tokens p) ∈ (answers (handleAuth service) (handleAuth service s delete).2 after).1 →
        ∀ token ∈ p.list, ¬ HasSubject service.jwt token userId.str

theorem handleAuth_known (h : AllKnown s.users) (req : AuthRequest τ isEmail) :
    AllKnown (handleAuth service s req).2.users := by
  cases req with
  | write w => exact (handleWrite_change service.iter service.crypt h w).known h
  | login clock iter data => simpa only [handleAuth, login_users] using h
  | refresh clock iter refreshToken => exact h

theorem handleAuth_deleted (hknown : AllKnown s.users) (h : Deleted s.users userId)
    (req : AuthRequest τ isEmail) : Deleted (handleAuth service s req).2.users userId := by
  obtain ⟨r, hr, hid, hd⟩ := h
  refine ⟨r, ?_, hid, hd⟩
  cases req with
  | write w => exact handleWrite_keeps_deleted hknown hr hd w
  | login clock iter data => simpa only [handleAuth, login_users] using hr
  | refresh clock iter refreshToken => exact hr

/-- Neither a login nor such a refresh hands out a token of a deleted user. -/
theorem handleAuth_tokens (h : Deleted s.users userId) (hok : RefreshesKept service s req)
    (hans : (handleAuth service s req).1 = .ok (.tokens p)) :
    ∀ token ∈ p.list, ¬ HasSubject service.jwt token userId.str := by
  cases req with
  | write w =>
    unfold handleAuth at hans
    cases hres : (handleWrite service.iter service.crypt s.users w).1 with
    | error e => simp [hres, Except.map] at hans
    | ok body => simp [hres, Except.map] at hans
  | login clock iter data =>
    unfold handleAuth at hans
    obtain ⟨p', hp, hpair⟩ := except_map_eq_ok hans
    cases hpair
    obtain ⟨r, hr, hlive, hfor⟩ := login_for hp
    obtain ⟨x, hx, hid, hd⟩ := h
    intro token htoken hsub
    have hstr := (hfor token htoken).subject hsub
    obtain rfl := user_id_unique hr hx ((UUID.str_injective hstr).symm.trans hid.symm)
    exact hd hlive
  | refresh clock iter refreshToken =>
    unfold handleAuth at hans
    obtain ⟨p', hp, hpair⟩ := except_map_eq_ok hans
    cases hpair
    obtain ⟨decoded, hdec, hkind, hfor⟩ := refresh_for hp
    intro token htoken hsub
    exact hok decoded hdec hkind userId h ((hfor token htoken).subject hsub).symm

/-- **A deleted user gets no new tokens** in a run without a refresh by a valid refresh token of a
deleted user. -/
theorem deleted_user_gets_no_tokens {t₀ : UserTable} (h₀ : AllKnown t₀)
    (hok : AllOk (handleAuth service) (RefreshesKept service) ⟨t₀, []⟩ reqs) :
    NoTokensOnceDeleted service ⟨t₀, []⟩ reqs := by
  rintro before st userId after body delete s rfl hdelete p hp
  have hafter := (allOk_append.mp hok).2.2
  have hknown : AllKnown s.users :=
    answers_keep (I := fun s : AuthState τ => AllKnown s.users) (fun _ req h => handleAuth_known h req) h₀ before
  have hdeleted : Deleted (handleAuth service s delete).2.users userId := by
    obtain ⟨_, hwrite, -⟩ := except_map_eq_ok hdelete
    exact deleted_of_success hwrite
  refine answers_forall (I := fun s : AuthState τ => AllKnown s.users ∧ Deleted s.users userId)
    (Q := fun o => ∀ p, o = .ok (.tokens p) →
      ∀ token ∈ p.list, ¬ HasSubject service.jwt token userId.str)
    ?_ ⟨handleAuth_known hknown delete, hdeleted⟩ hafter _ hp p rfl
  rintro s req ⟨hknown, hdeleted⟩ hreq
  exact ⟨fun p hp => handleAuth_tokens hdeleted hreq hp, handleAuth_known hknown req,
    handleAuth_deleted hknown hdeleted req⟩

def bobsLogin : AuthRequest (Instant × Token) toyEmail :=
  .login (fun _ => 0) .declared { username := "bob", password := "correct horse" }

def bobsRefresh (now : Instant) : AuthRequest (Instant × Token) toyEmail :=
  .refresh (fun _ => now) .declared
    (86400, ⟨UUID.str ⟨2⟩, tokenExtras .declared { id := UUID.str ⟨2⟩ } "refresh"⟩)

/-- Bob's account is deleted, and he logs in again and refreshes with the token that he got before. -/
def bobDeleted (now : Instant) : List (AuthRequest (Instant × Token) toyEmail) :=
  [.write registerBob, bobsLogin, .write (.delete (.counting 0) ⟨2⟩), bobsLogin, bobsRefresh now]

theorem deleted_bob_refreshes :
    ¬ NoTokensOnceDeleted plainService ⟨Table.empty, []⟩ (bobDeleted 60) := by
  intro h
  have hafter := h [.write registerBob, bobsLogin] (.counting 0) ⟨2⟩ [bobsLogin, bobsRefresh 60]
    (.user .noContent) rfl rfl
  exact hafter _ (.tail _ (.head _)) _ (.head _) ⟨0, _, rfl, rfl⟩

theorem deleted_user_gets_no_tokens_expired :
    NoTokensOnceDeleted plainService ⟨Table.empty, []⟩ (bobDeleted 90000) := by
  refine deleted_user_gets_no_tokens .empty ⟨trivial, trivial, trivial, trivial, ?_, trivial⟩
  intro decoded hdec
  cases hdec

end Runs

end LibraryService.Presentors
