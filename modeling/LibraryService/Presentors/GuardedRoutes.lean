import LibraryService.Presentors.Http
import LibraryService.Presentors.RefreshChains

/-!
# Routes behind a token

What `/auth/me` and `/auth/admin-zone` answer, and the guards of `guards.py`, on the tokens that
runs have issued.
-/

open Transition Effect Relational LibraryService.Python LibraryService.Database LibraryService.Domain

namespace LibraryService.Presentors

/-! ## The routes and their guards -/

def anyPermissionGuard (candidates : Finset Permission) (user : AuthUser) : Except Exc Unit :=
  if user.isSuperuser then .ok ()
  else if Disjoint user.permissions candidates then
    .error (.permissionDeniedException ("Need at least one of: [" ++ String.intercalate ", "
      ((sortedValues candidates).map fun v => "'" ++ v ++ "'") ++ "]"))
  else .ok ()

structure WhoAmISchema where
  id : String
  isSuperuser : Bool
  permissions : List String
  deriving DecidableEq, Repr

structure AdminZoneSchema where
  status : String
  deriving DecidableEq, Repr

variable {τ β : Type}

/-- litestar's authentication of a request with this bearer token, or with none. -/
def authenticate (jwt : Jwt τ) (now : Instant) : Option τ → Except Exc AuthUser
  | none => .error (.notAuthorizedException "No JWT token found in request header")
  | some bearer => bearerUser jwt now bearer

/-- A route that needs a token, behind a guard. -/
def guardedRoute (jwt : Jwt τ) (now : Instant) (guard : AuthUser → Except Exc Unit)
    (handler : AuthUser → β) (bearer : Option τ) : Response β :=
  routed .ok (do
    let user ← authenticate jwt now bearer
    guard user
    pure (handler user))

def me (jwt : Jwt τ) (now : Instant) (bearer : Option τ) : Response WhoAmISchema :=
  guardedRoute jwt now (fun _ => .ok ())
    (fun user =>
      { id := user.id, isSuperuser := user.isSuperuser, permissions := sortedValues user.permissions })
    bearer

def adminZone (jwt : Jwt τ) (now : Instant) (bearer : Option τ) : Response AdminZoneSchema :=
  guardedRoute jwt now (permissionGuard {.manageBooks}) (fun _ => { status := "you are in" }) bearer

/-! ## What a row allows -/

variable {jwt : Jwt τ} {service : Service τ} {s : AuthState τ} {now : Instant} {bearer : τ}
  {r : UserRow} {permissions : Finset Permission} {user : AuthUser} {guard : AuthUser → Except Exc Unit}
  {handler : AuthUser → β}

theorem mem_frozenset_iff {values : List String} (h : Permission.frozenset values = .ok permissions)
    (p : Permission) : p ∈ permissions ↔ p.value ∈ values := by
  refine ⟨mem_of_frozenset h, ?_⟩
  induction values generalizing permissions with
  | nil => simp
  | cons v vs ih =>
    rw [Permission.frozenset] at h
    split at h
    · cases h
    · rename_i q hq
      obtain ⟨rest, hrest, rfl⟩ := except_map_eq_ok h
      intro hp
      rcases List.mem_cons.mp hp with rfl | hp
      · rw [Permission.ofValue?_value] at hq
        cases hq
        exact Finset.mem_insert_self _ _
      · exact Finset.mem_insert_of_mem (ih hrest hp)

/-- The row's user has all of these permissions. -/
def HasAll (r : UserRow) (required : Finset Permission) : Prop :=
  r.isSuperuser = true ∨ ∀ p ∈ required, p.value ∈ r.permissions

def HasAny (r : UserRow) (candidates : Finset Permission) : Prop :=
  r.isSuperuser = true ∨ ∃ p ∈ candidates, p.value ∈ r.permissions

theorem permissionGuard_row (h : Permission.frozenset r.permissions = .ok permissions)
    (required : Finset Permission) :
    HasAll r required ∧ permissionGuard required (rowUser r permissions) = .ok () ∨
      ¬ HasAll r required ∧ ∃ detail, permissionGuard required (rowUser r permissions) =
        .error (.permissionDeniedException detail) := by
  have hsubset : (required \ permissions).Nonempty ↔ ¬ ∀ p ∈ required, p.value ∈ r.permissions := by
    rw [Finset.sdiff_nonempty, Finset.not_subset]
    simp only [mem_frozenset_iff h, not_forall, exists_prop]
  unfold permissionGuard HasAll rowUser
  cases hsuper : r.isSuperuser with
  | true => exact .inl ⟨.inl rfl, rfl⟩
  | false =>
    simp only [Bool.false_eq_true, false_or, if_false]
    by_cases hmissing : (required \ permissions).Nonempty
    · rw [if_pos hmissing]
      exact .inr ⟨hsubset.mp hmissing, _, rfl⟩
    · rw [if_neg hmissing]
      exact .inl ⟨not_not.mp (hsubset.not.mp hmissing), rfl⟩

theorem anyPermissionGuard_row (h : Permission.frozenset r.permissions = .ok permissions)
    (candidates : Finset Permission) :
    HasAny r candidates ∧ anyPermissionGuard candidates (rowUser r permissions) = .ok () ∨
      ¬ HasAny r candidates ∧ ∃ detail, anyPermissionGuard candidates (rowUser r permissions) =
        .error (.permissionDeniedException detail) := by
  have hdisjoint : Disjoint permissions candidates ↔ ¬ ∃ p ∈ candidates, p.value ∈ r.permissions := by
    rw [Finset.disjoint_right]
    simp only [mem_frozenset_iff h, not_exists, not_and]
  unfold anyPermissionGuard HasAny rowUser
  cases hsuper : r.isSuperuser with
  | true => exact .inl ⟨.inl rfl, rfl⟩
  | false =>
    simp only [Bool.false_eq_true, false_or, if_false]
    by_cases hnone : Disjoint permissions candidates
    · rw [if_pos hnone]
      exact .inr ⟨hdisjoint.mp hnone, _, rfl⟩
    · rw [if_neg hnone]
      exact .inl ⟨not_not.mp (hdisjoint.not.mp hnone), rfl⟩

/-- The row's permissions as `/auth/me` shows them, in the order of their values. -/
def rowPermissions (r : UserRow) : List String :=
  ["manage_books", "manage_users", "read_books", "read_users"].filter (· ∈ r.permissions)

theorem sortedValues_row (h : Permission.frozenset r.permissions = .ok permissions) :
    sortedValues permissions = rowPermissions r := by
  have hvalues : ["manage_books", "manage_users", "read_books", "read_users"] =
    [Permission.manageBooks, .manageUsers, .readBooks, .readUsers].map Permission.value := rfl
  rw [sortedValues, rowPermissions, hvalues, List.filter_map]
  congr 1
  refine List.filter_congr fun p _ => ?_
  simp only [Function.comp_apply, mem_frozenset_iff h p]

/-! ## What a token opens -/

/-- litestar answers a string that does not decode with a 401. -/
def RefusesOthers (jwt : Jwt τ) : Prop :=
  ∀ now s e, jwt.decode now s = .error e → ∃ detail, e = .notAuthorizedException detail

/-- The route answers where the condition holds, and else is forbidden. -/
def OpenIff (P : Prop) (response : Response β) : Prop :=
  (P → response.statusCode = .ok) ∧ (¬ P → response.statusCode = .forbidden)

/-- No live access token: every route is a 401. -/
structure Refused (jwt : Jwt τ) (now : Instant) (bearer : τ) : Prop where
  other : ∀ token, jwt.decode now bearer = .ok token → hasType token "access" = false
  routes : ∀ (β : Type) (guard : AuthUser → Except Exc Unit) (handler : AuthUser → β),
    (guardedRoute jwt now guard handler (some bearer)).statusCode = .unauthorized

/-- A live access token for the user of the row: every route answers as the row says. -/
structure OpensAs (jwt : Jwt τ) (now : Instant) (bearer : τ) (r : UserRow) : Prop where
  token : ∃ token, jwt.decode now bearer = .ok token ∧ hasType token "access" = true ∧
    token.sub = r.id.str
  me : Presentors.me jwt now (some bearer) =
    ⟨.ok, .body { id := r.id.str, isSuperuser := r.isSuperuser, permissions := rowPermissions r }⟩
  adminZone : OpenIff (HasAll r {.manageBooks}) (Presentors.adminZone jwt now (some bearer))
  all : ∀ (β : Type) (required : Finset Permission) (handler : AuthUser → β),
    OpenIff (HasAll r required) (guardedRoute jwt now (permissionGuard required) handler (some bearer))
  any : ∀ (β : Type) (candidates : Finset Permission) (handler : AuthUser → β),
    OpenIff (HasAny r candidates)
      (guardedRoute jwt now (anyPermissionGuard candidates) handler (some bearer))

theorem guardedRoute_unauthorized {detail : String}
    (h : bearerUser jwt now bearer = .error (.notAuthorizedException detail)) :
    (guardedRoute jwt now guard handler (some bearer)).statusCode = .unauthorized := by
  rw [guardedRoute, authenticate, h]
  rfl

theorem guardedRoute_user (h : bearerUser jwt now bearer = .ok user) :
    guardedRoute jwt now guard handler (some bearer) =
      routed .ok ((guard user).map fun _ => handler user) := by
  rw [guardedRoute, authenticate, h]
  change routed .ok ((guard user).bind fun _ => .ok (handler user)) = _
  cases guard user <;> rfl

theorem openIff_guard {P : Prop} (huser : bearerUser jwt now bearer = .ok user)
    (h : P ∧ guard user = .ok () ∨
      ¬ P ∧ ∃ detail, guard user = .error (.permissionDeniedException detail)) :
    OpenIff P (guardedRoute jwt now guard handler (some bearer)) := by
  rw [guardedRoute_user huser]
  rcases h with ⟨hP, hguard⟩ | ⟨hP, detail, hguard⟩ <;> rw [hguard]
  · exact ⟨fun _ => rfl, fun h => absurd hP h⟩
  · exact ⟨fun h => absurd h hP, fun _ => rfl⟩

theorem opensAs_of_user (hdec : ∃ token, jwt.decode now bearer = .ok token ∧
      hasType token "access" = true ∧ token.sub = r.id.str)
    (hperm : Permission.frozenset r.permissions = .ok permissions)
    (huser : bearerUser jwt now bearer = .ok (rowUser r permissions)) :
    OpensAs jwt now bearer r := by
  constructor
  case token => exact hdec
  case me =>
    rw [me, guardedRoute_user huser, ← sortedValues_row hperm]
    rfl
  case adminZone => exact openIff_guard huser (permissionGuard_row hperm _)
  case all => exact fun β required handler => openIff_guard huser (permissionGuard_row hperm required)
  case any =>
    exact fun β candidates handler => openIff_guard huser (anyPermissionGuard_row hperm candidates)

theorem refused_of_error {e : Exc} (hrefuses : RefusesOthers jwt)
    (h : jwt.decode now bearer = .error e) : Refused jwt now bearer := by
  obtain ⟨detail, rfl⟩ := hrefuses _ _ _ h
  constructor
  case other =>
    intro token htoken
    rw [h] at htoken
    cases htoken
  case routes =>
    intro β guard handler
    apply guardedRoute_unauthorized
    rw [bearerUser, h]
    rfl

theorem refused_of_kind {token : Token} (h : jwt.decode now bearer = .ok token)
    (hkind : hasType token "access" = false) : Refused jwt now bearer := by
  constructor
  case other =>
    intro token' htoken
    rwa [← Except.ok.inj (h.symm.trans htoken)]
  case routes =>
    intro β guard handler
    apply guardedRoute_unauthorized
    rw [bearerUser_of_decode h, retrieveUser, hkind]
    rfl

theorem opens_of_describes (hrefuses : RefusesOthers jwt) (h : Describes jwt bearer r)
    (now : Instant) : Refused jwt now bearer ∨ OpensAs jwt now bearer r := by
  cases hdec : jwt.decode now bearer with
  | error e => exact .inl (refused_of_error hrefuses hdec)
  | ok token =>
    cases hkind : hasType token "access" with
    | false => exact .inl (refused_of_kind hdec hkind)
    | true =>
      obtain ⟨hsub, permissions, hperm, huser⟩ := carries_of_describes h now token hdec
      refine .inr (opensAs_of_user ⟨token, hdec, hkind, hsub⟩ hperm ?_)
      rw [bearerUser_of_decode hdec, retrieveUser, if_pos hkind]
      exact huser

/-! ## Every run -/

/-- **The routes behind a token decide by the rows**: after every run, whatever string is presented
and whenever, it is refused, or it is a live access token and `/auth/me`, `/auth/admin-zone` and all
guards answer as the row of its subject says now. -/
theorem routes_decide_by_rows {isEmail : EmailCheck} {t₀ : UserTable}
    (hrefuses : RefusesOthers service.jwt) (h₀ : AllKnown t₀) {reqs : List (AuthRequest τ isEmail)}
    (hok : AllOk (handleAuth service) (RequestOk service) ⟨t₀, []⟩ reqs) :
    let s := (answers (handleAuth service) ⟨t₀, []⟩ reqs).2
    ∀ now bearer, Presentable service.jwt s bearer → Refused service.jwt now bearer ∨
      ∃ r ∈ s.users.rows, OpensAs service.jwt now bearer r := by
  intro s now bearer hbearer
  have hinit : AuthInv service t₀ ⟨t₀, []⟩ :=
    ⟨h₀, fun _ h => absurd h List.not_mem_nil, fun r hr => .inl ⟨r, hr, rfl⟩⟩
  have hinv := answers_invariant (I := AuthInv service t₀)
    (fun s req hs hreq => handleAuth_inv hs req hreq) hinit hok
  rcases hbearer with hissued | hforeign
  · obtain ⟨r, hr, hdesc⟩ := hinv.tokens bearer hissued
    rcases opens_of_describes hrefuses hdesc now with h | h
    · exact .inl h
    · exact .inr ⟨r, hr, h⟩
  · obtain ⟨e, he⟩ := hforeign now
    exact .inl (refused_of_error hrefuses he)

theorem plainJwt_refuses : RefusesOthers plainJwt := by
  intro now s e h
  simp only [plainJwt] at h
  split at h <;> cases h
  exact ⟨_, rfl⟩

/-- Bob's access token, while it lives: `/auth/me` knows him, and the admin zone is not for him. -/
theorem routes_decide_by_rows_bob :
    let s := (answers (handleAuth plainService) ⟨Table.empty, []⟩ bobsRun).2
    (∀ now bearer, Presentable plainService.jwt s bearer → Refused plainService.jwt now bearer ∨
      ∃ r ∈ s.users.rows, OpensAs plainService.jwt now bearer r) ∧
      s.issued.map (fun token => ((me plainJwt 100 (some token)).statusCode.value,
        (adminZone plainJwt 100 (some token)).statusCode.value)) =
          [(200, 403), (401, 401), (200, 403), (401, 401)] :=
  ⟨routes_decide_by_rows plainJwt_refuses .empty ⟨trivial, trivial, .inl (.tail _ (.head _)), trivial⟩,
    rfl⟩

end LibraryService.Presentors
