import LibraryService.General.Registry
import LibraryService.Domain.UserCommands

/-!
# The directory of users

The queries of one user and of the list, and the registry of usernames and e-mails that the rows of
the users table are.
-/

open Effect Relational Paging LibraryService.Python LibraryService.Database

namespace LibraryService.Domain

/-! ## Queries -/

def UserService.fetchUserById (userId : UUID) : Eff UserTable Exc User := do
  match ← UserStorage.fetchUserById userId with
  | none => throw (entityNotFound "User" userId)
  | some user => pure user

def FetchUserByIdQuery.execute (a : Awaits) (inputDto : UUID) : Eff (World UserTable) Exc User :=
  asyncWith a (UserService.fetchUserById inputDto)

variable {t t' : UserTable} {st : Stmt} {r r' : UserRow} {userId : UUID}

theorem fetchUserById_runOn (t : UserTable) (userId : UUID) :
    (UserStorage.fetchUserById userId).runOn t =
      (match liveUser t userId with
        | none => .ok none
        | some row => (rowToUser row).map some, t) := by
  unfold liveUser
  rw [UserStorage.fetchUserById, runOn_bind_ok (runOn_get t)]
  cases t.rows.find? fun r => decide (r.id = userId) && r.deletedAt.isNone with
  | none => rfl
  | some row =>
    dsimp only
    rw [runOn_bind, runOn_ofExcept]
    cases rowToUser row <;> rfl

theorem request_fetchUser (hknown : AllKnown t) (userId : UUID) :
    let res := request (FetchUserByIdQuery.execute .allReturn userId) t
    liveUser t userId = none ∧ res = (.error (entityNotFound "User" userId), t) ∨
      ∃ r user, liveUser t userId = some r ∧ rowToUser r = .ok user ∧ res = (.ok user, t) := by
  intro res
  have hfetch := fetchUserById_runOn t userId
  cases hlive : liveUser t userId with
  | none =>
    rw [hlive] at hfetch
    exact .inl ⟨rfl, request_error (runOn_bind_ok hfetch) rfl⟩
  | some r =>
    obtain ⟨user, huser, -⟩ := rowToUser_known (hknown r (liveUser_eq_some.mp hlive).1)
    simp only [hlive, huser] at hfetch
    exact .inr ⟨r, user, rfl, huser, request_ok (runOn_bind_ok hfetch)⟩

/-! ## The directory -/

structure Names where
  username : String
  email : String
  deriving DecidableEq, Repr

/-- Neither the usernames nor the e-mails are the same. -/
def Names.Apart (v w : Names) : Prop := v.username ≠ w.username ∧ v.email ≠ w.email

instance : Std.Symm Names.Apart := ⟨fun _ _ h => ⟨h.1.symm, h.2.symm⟩⟩

abbrev Directory := Registry UUID Names Names.Apart

def namesOf (r : UserRow) : Names := ⟨r.username, r.email⟩

/-- The columns take the names. -/
structure Names.Storable (names : Names) : Prop where
  username : isText names.username = true
  email : isText names.email = true

/-- Every value fits its column, and none is `null`. -/
structure UpdateUser.Storable (u : UpdateUser) : Prop where
  fits : u.toDict.all UserValue.fits = true
  nonNull : ¬ HasNull u

def UpdateUser.rename (u : UpdateUser) (names : Names) : Names :=
  ⟨u.username.join.getD names.username, u.email.join.getD names.email⟩

theorem sameNames_iff {x r : UserRow} : SameNames x r ↔ ¬ (namesOf x).Apart (namesOf r) := by
  simp only [SameNames, Names.Apart, namesOf, ne_eq, not_and_or, not_not]

def anyUser (t : UserTable) (userId : UUID) : Option UserRow :=
  t.rows.find? fun r => decide (r.id = userId)

theorem anyUser_eq_some : anyUser t userId = some r ↔ r ∈ t.rows ∧ r.id = userId := by
  unfold anyUser
  rw [find?_eq_some_of_unique]
  · simp
  · intro x hx y hy hpx hpy
    exact user_id_unique hx hy ((of_decide_eq_true hpx).trans (of_decide_eq_true hpy).symm)

/-- Who is on file: the names of each row, and which rows are deleted. -/
def directory (t : UserTable) : Directory where
  value i := (anyUser t i).map namesOf
  retired := {i | ∃ r ∈ t.rows, r.id = i ∧ r.deletedAt ≠ none}
  apart i j v w hij hi hj := by
    obtain ⟨r, hr, rfl⟩ := Option.map_eq_some_iff.mp hi
    obtain ⟨r', hr', rfl⟩ := Option.map_eq_some_iff.mp hj
    obtain ⟨hmem, rfl⟩ := anyUser_eq_some.mp hr
    obtain ⟨hmem', rfl⟩ := anyUser_eq_some.mp hr'
    by_contra hsame
    have hne : r ≠ r' := by rintro rfl; exact hij rfl
    exact not_apart_of_sameNames (sameNames_iff.mpr hsame) (t.apart hmem hmem' hne)
  finite := by
    refine (t.rows.map UserRow.id).finite_toSet.subset fun i hi => ?_
    obtain ⟨v, hv⟩ := Option.ne_none_iff_exists'.mp hi
    obtain ⟨r, hr, -⟩ := Option.map_eq_some_iff.mp hv
    obtain ⟨hmem, rfl⟩ := anyUser_eq_some.mp hr
    exact List.mem_map_of_mem hmem

variable {v : Names}

theorem directory_value : (directory t).value userId = some v ↔
    ∃ r ∈ t.rows, r.id = userId ∧ namesOf r = v := by
  change (anyUser t userId).map namesOf = some v ↔ _
  rw [Option.map_eq_some_iff]
  exact exists_congr fun r => by rw [anyUser_eq_some, and_assoc]

theorem directory_retired : userId ∈ (directory t).retired ↔
    ∃ r ∈ t.rows, r.id = userId ∧ r.deletedAt ≠ none := Iff.rfl

theorem directory_live (t : UserTable) (userId : UUID) :
    (directory t).live userId = (liveUser t userId).map namesOf := by
  ext v
  rw [Registry.live_eq_some, directory_value, directory_retired, Option.map_eq_some_iff]
  constructor
  · rintro ⟨hlive, r, hr, hid, hnames⟩
    refine ⟨r, liveUser_eq_some.mpr ⟨hr, hid, ?_⟩, hnames⟩
    by_contra hd
    exact hlive ⟨r, hr, hid, hd⟩
  · rintro ⟨r, hlive, hnames⟩
    obtain ⟨hr, hid, hd⟩ := liveUser_eq_some.mp hlive
    refine ⟨?_, r, hr, hid, hnames⟩
    rintro ⟨x, hx, hxid, hxd⟩
    rw [user_id_unique hx hr (hxid.trans hid.symm)] at hxd
    exact hxd hd

theorem directory_taken : (directory t).Taken (namesOf r) ↔ ∃ x ∈ t.rows, SameNames x r := by
  constructor
  · rintro ⟨j, w, hw, hapart⟩
    obtain ⟨x, hx, -, rfl⟩ := directory_value.mp hw
    exact ⟨x, hx, sameNames_iff.mpr hapart⟩
  · rintro ⟨x, hx, hsame⟩
    exact ⟨x.id, namesOf x, directory_value.mpr ⟨x, hx, rfl, rfl⟩, sameNames_iff.mp hsame⟩

theorem directory_free : (directory t).Free userId (namesOf r) ↔
    ¬ ∃ x ∈ t.rows, x.id ≠ userId ∧ SameNames x r := by
  constructor
  · rintro h ⟨x, hx, hid, hsame⟩
    exact sameNames_iff.mp hsame (h x.id (namesOf x) hid (directory_value.mpr ⟨x, hx, rfl, rfl⟩))
  · intro h j w hj hw
    obtain ⟨x, hx, rfl, rfl⟩ := directory_value.mp hw
    by_contra hapart
    exact h ⟨x, hx, hj, sameNames_iff.mpr hapart⟩

/-! ## What one statement does to it -/

theorem directory_insert (hrows : t'.rows = t.rows ++ [r]) (hd : r.deletedAt = none)
    (hfree : (directory t).Free r.id (namesOf r)) (hfresh : ∀ x ∈ t.rows, x.id ≠ r.id) :
    directory t' = (directory t).put r.id (namesOf r) := by
  have hmem : ∀ x, x ∈ t'.rows ↔ x ∈ t.rows ∨ x = r := by simp [hrows]
  ext i v
  · rw [directory_value, Registry.put_value hfree]
    split
    · rename_i hi
      subst hi
      constructor
      · rintro ⟨x, hx, hid, rfl⟩
        rcases (hmem x).mp hx with hx | rfl
        · exact absurd hid (hfresh x hx)
        · rfl
      · rintro ⟨⟩
        exact ⟨r, (hmem r).mpr (.inr rfl), rfl, rfl⟩
    · rename_i hi
      rw [directory_value]
      constructor
      · rintro ⟨x, hx, hid, hv⟩
        rcases (hmem x).mp hx with hx | rfl
        · exact ⟨x, hx, hid, hv⟩
        · exact absurd hid.symm hi
      · rintro ⟨x, hx, h⟩
        exact ⟨x, (hmem x).mpr (.inl hx), h⟩
  · rw [Registry.put_retired, directory_retired, directory_retired]
    constructor
    · rintro ⟨x, hx, hid, hxd⟩
      rcases (hmem x).mp hx with hx | rfl
      · exact ⟨x, hx, hid, hxd⟩
      · exact absurd hd hxd
    · rintro ⟨x, hx, h⟩
      exact ⟨x, (hmem x).mpr (.inl hx), h⟩

theorem directory_update (hr : r ∈ t.rows) (hid : r'.id = r.id) (hd : r'.deletedAt = r.deletedAt)
    (hmem : ∀ x, x ∈ t'.rows ↔ x = r' ∨ x ∈ t.rows ∧ x.id ≠ r.id)
    (hfree : (directory t).Free r.id (namesOf r')) :
    directory t' = (directory t).put r.id (namesOf r') := by
  have hr' : r' ∈ t'.rows := (hmem r').mpr (.inl rfl)
  ext i v
  · rw [directory_value, Registry.put_value hfree]
    split
    · rename_i hi
      subst hi
      constructor
      · rintro ⟨x, hx, hxid, rfl⟩
        rw [user_id_unique hx hr' (hxid.trans hid.symm)]
      · rintro ⟨⟩
        exact ⟨r', hr', hid, rfl⟩
    · rename_i hi
      rw [directory_value]
      constructor
      · rintro ⟨x, hx, rfl, hv⟩
        rcases (hmem x).mp hx with rfl | ⟨hx, -⟩
        · exact absurd hid hi
        · exact ⟨x, hx, rfl, hv⟩
      · rintro ⟨x, hx, rfl, hv⟩
        exact ⟨x, (hmem x).mpr (.inr ⟨hx, hi⟩), rfl, hv⟩
  · rw [Registry.put_retired, directory_retired, directory_retired]
    constructor
    · rintro ⟨x, hx, rfl, hxd⟩
      rcases (hmem x).mp hx with rfl | ⟨hx, -⟩
      · exact ⟨r, hr, hid.symm, hd ▸ hxd⟩
      · exact ⟨x, hx, rfl, hxd⟩
    · rintro ⟨x, hx, rfl, hxd⟩
      by_cases hxr : x.id = r.id
      · rw [user_id_unique hx hr hxr] at hxd ⊢
        exact ⟨r', hr', hid, hd ▸ hxd⟩
      · exact ⟨x, (hmem x).mpr (.inr ⟨hx, hxr⟩), rfl, hxd⟩

theorem directory_delete (hr : r ∈ t.rows)
    (hmem : ∀ x, x ∈ t'.rows ↔ x = markUserDeleted st r ∨ x ∈ t.rows ∧ x.id ≠ r.id) :
    directory t' = (directory t).retire r.id := by
  have hr' : markUserDeleted st r ∈ t'.rows := (hmem _).mpr (.inl rfl)
  ext i v
  · rw [directory_value, Registry.retire_value, directory_value]
    constructor
    · rintro ⟨x, hx, hid, hv⟩
      rcases (hmem x).mp hx with rfl | ⟨hx, -⟩
      · exact ⟨r, hr, hid, hv⟩
      · exact ⟨x, hx, hid, hv⟩
    · rintro ⟨x, hx, hid, hv⟩
      by_cases hxr : x.id = r.id
      · rw [user_id_unique hx hr hxr] at hid hv
        exact ⟨_, hr', hid, hv⟩
      · exact ⟨x, (hmem x).mpr (.inr ⟨hx, hxr⟩), hid, hv⟩
  · rw [Registry.mem_retire, directory_retired, directory_retired]
    constructor
    · rintro ⟨x, hx, hid, hxd⟩
      rcases (hmem x).mp hx with rfl | ⟨hx, -⟩
      · exact .inl hid.symm
      · exact .inr ⟨x, hx, hid, hxd⟩
    · rintro (rfl | ⟨x, hx, hid, hxd⟩)
      · exact ⟨_, hr', rfl, Option.some_ne_none _⟩
      · by_cases hxr : x.id = r.id
        · exact ⟨_, hr', hxr.symm.trans hid, Option.some_ne_none _⟩
        · exact ⟨x, (hmem x).mpr (.inr ⟨hx, hxr⟩), hid, hxd⟩

theorem directory_empty : directory Table.empty = Registry.empty := by
  ext i v
  · exact Iff.rfl
  · exact ⟨fun ⟨x, hx, _⟩ => absurd hx List.not_mem_nil, fun h => absurd h (Set.notMem_empty i)⟩

end LibraryService.Domain
