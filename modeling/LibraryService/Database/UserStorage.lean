import LibraryService.Database.Users

/-!
# What the user storage does to the table
-/

open Effect Relational LibraryService.Python LibraryService.Domain

namespace LibraryService.Database

variable {t t' : UserTable} {st : Stmt} {iter : IterOrder} {r r' x : UserRow} {userId : UUID}

theorem usersPk_mem : usersPk ∈ [usersPk, usersEmail, usersUsername] := by simp

theorem usersEmail_mem : usersEmail ∈ [usersPk, usersEmail, usersUsername] := by simp

theorem usersUsername_mem : usersUsername ∈ [usersPk, usersEmail, usersUsername] := by simp

theorem usersPk_clash : usersPk.clash r r' = decide (r.id = r'.id) := by
  simp [usersPk, UniqueIndex.on]

theorem usersEmail_clash : usersEmail.clash r r' = decide (r.email = r'.email) := by
  simp [usersEmail, UniqueIndex.on]

theorem usersUsername_clash : usersUsername.clash r r' = decide (r.username = r'.username) := by
  simp [usersUsername, UniqueIndex.on]

instance : Keyed [usersPk, usersEmail, usersUsername] :=
  ⟨fun _ => ⟨usersPk, usersPk_mem, by simp [usersPk_clash]⟩⟩

theorem user_id_unique (hr : r ∈ t.rows) (hr' : r' ∈ t.rows) (h : r.id = r'.id) : r = r' :=
  t.eq_of_clash usersPk_mem hr hr' (by simp [usersPk_clash, h])

theorem username_unique (hr : r ∈ t.rows) (hr' : r' ∈ t.rows) (h : r.username = r'.username) :
    r = r' :=
  t.eq_of_clash usersUsername_mem hr hr' (by simp [usersUsername_clash, h])

theorem picks_userId (hr : r ∈ t.rows) (hid : r.id = userId) :
    ∃ a b, Picks (fun x => decide (x.id = userId)) t.rows a r b :=
  t.picks usersPk_mem hr (fun x => by rw [usersPk_clash, hid]) (by simp [hid])

/-- Another row would not stand beside this one. -/
def SameNames (x r : UserRow) : Prop := x.username = r.username ∨ x.email = r.email

theorem clash_cases {ix : UniqueIndex UserRow}
    (hix : ix ∈ [usersPk, usersEmail, usersUsername]) (h : ix.clash x r = true) :
    ix.name = "pk__users" ∧ x.id = r.id ∨
      some ix.name ∈ [some "uq__users__username", some "uq__users__email"] ∧ SameNames x r := by
  simp only [List.mem_cons, List.not_mem_nil, or_false] at hix
  rcases hix with rfl | rfl | rfl
  · rw [usersPk_clash, decide_eq_true_eq] at h
    exact .inl ⟨rfl, h⟩
  · rw [usersEmail_clash, decide_eq_true_eq] at h
    exact .inr ⟨by simp [usersEmail], .inr h⟩
  · rw [usersUsername_clash, decide_eq_true_eq] at h
    exact .inr ⟨by simp [usersUsername], .inl h⟩

theorem clash_keys {ix : UniqueIndex UserRow} (r r' : UserRow)
    (hix : ix ∈ [usersPk, usersEmail, usersUsername]) (hid : r.id = r'.id)
    (husername : r.username = r'.username) (hemail : r.email = r'.email) :
    ix.clash x r = ix.clash x r' := by
  simp only [List.mem_cons, List.not_mem_nil, or_false] at hix
  rcases hix with rfl | rfl | rfl
  · rw [usersPk_clash, usersPk_clash, hid]
  · rw [usersEmail_clash, usersEmail_clash, hemail]
  · rw [usersUsername_clash, usersUsername_clash, husername]

theorem not_apart_of_sameNames (h : SameNames x r) :
    ¬ Apart [usersPk, usersEmail, usersUsername] x r := by
  intro hapart
  rcases h with h | h
  · have := hapart usersUsername usersUsername_mem
    rw [usersUsername_clash, h] at this; simp at this
  · have := hapart usersEmail usersEmail_mem
    rw [usersEmail_clash, h] at this; simp at this

/-! ## Permissions -/

theorem frozenset_value (l : List Permission) :
    Permission.frozenset (l.map Permission.value) = .ok l.toFinset := by
  induction l with
  | nil => rfl
  | cons p l ih =>
    rw [List.map_cons, Permission.frozenset, Permission.ofValue?_value]
    simp only [ih, List.toFinset_cons]
    rfl

theorem frozenset_error {values : List String} {e : Exc}
    (h : Permission.frozenset values = .error e) : e = .valueError := by
  induction values with
  | nil => cases h
  | cons v vs ih =>
    rw [Permission.frozenset] at h
    split at h
    · cases h; rfl
    · cases hvs : Permission.frozenset vs with
      | ok s => rw [hvs] at h; cases h
      | error e' => rw [hvs] at h; cases h; exact ih hvs

/-- The row's permissions all name a `Permission`. -/
def UserRow.Known (r : UserRow) : Prop := ∃ s, Permission.frozenset r.permissions = .ok s

def AllKnown (t : UserTable) : Prop := ∀ r ∈ t.rows, r.Known

theorem AllKnown.empty : AllKnown Table.empty := fun _ hr => absurd hr List.not_mem_nil

theorem AllKnown.inserted (h : AllKnown t) (hrows : t'.rows = t.rows ++ [r]) (hknown : r.Known) :
    AllKnown t' := by
  intro x hx
  rw [hrows, List.mem_append, List.mem_singleton] at hx
  rcases hx with hx | rfl
  · exact h x hx
  · exact hknown

theorem AllKnown.replaced (h : AllKnown t) (hr : r ∈ t.rows)
    (hmem : ∀ x, x ∈ t'.rows ↔ x = r' ∨ x ∈ t.rows ∧ x.id ≠ r.id)
    (hperm : r'.permissions = r.permissions) : AllKnown t' := by
  intro x hx
  rcases (hmem x).mp hx with rfl | ⟨hx, -⟩
  · rw [UserRow.Known, hperm]
    exact h r hr
  · exact h x hx

theorem newUser_known (st : Stmt) (iter : IterOrder) (user : CreateUser) :
    (newUser st iter user).Known :=
  ⟨_, frozenset_value _⟩

theorem rowToUser_known (h : r.Known) : ∃ user, rowToUser r = .ok user ∧ user.id = r.id ∧
    user.username = r.username ∧ user.email = r.email := by
  obtain ⟨s, hs⟩ := h
  exact ⟨_, by rw [rowToUser, hs]; rfl, rfl, rfl, rfl⟩

theorem rowToUser_names {user : User} (h : rowToUser r = .ok user) :
    user.id = r.id ∧ user.username = r.username ∧ user.email = r.email := by
  obtain ⟨s, -, hs⟩ := except_bind_eq_ok h
  cases hs
  exact ⟨rfl, rfl, rfl⟩

/-! ## Reading -/

def liveUser (t : UserTable) (userId : UUID) : Option UserRow :=
  t.rows.find? fun r => decide (r.id = userId) && r.deletedAt.isNone

theorem liveUser_eq_some :
    liveUser t userId = some r ↔ r ∈ t.rows ∧ r.id = userId ∧ r.deletedAt = none := by
  unfold liveUser
  rw [find?_eq_some_of_unique]
  · simp
  · intro x hx y hy hpx hpy
    simp only [Bool.and_eq_true, decide_eq_true_eq] at hpx hpy
    exact user_id_unique hx hy (hpx.1.trans hpy.1.symm)

theorem existsUserById_runOn (t : UserTable) (userId : UUID) :
    (UserStorage.existsUserById userId).runOn t = (.ok (liveUser t userId).isSome, t) := by
  rw [UserStorage.existsUserById, runOn_bind_ok (runOn_get t), runOn_pure, liveUser,
    List.isSome_find?]

theorem ofExcept_ok {σ α : Type} {x : Except Exc α} {a : α} (h : x = .ok a) (s : σ) :
    (Eff.ofExcept x).runOn s = (.ok a, s) := by
  rw [runOn_ofExcept, h]

/-! ## Writing -/

theorem createUser_outcome (st : Stmt) (iter : IterOrder) (user : CreateUser) (t : UserTable) :
    let row := newUser st iter user
    (∃ e, (e = .dbapiError ∧ row.fits = false ∨
          e = .libraryException "Unknown error" ∧ ∃ x ∈ t.rows, x.id = row.id) ∧
        (UserStorage.createUser st iter user).runOn t = (.error e, t)) ∨
      row.fits = true ∧ (∃ x ∈ t.rows, SameNames x row) ∧
        (UserStorage.createUser st iter user).runOn t =
          (.error (.entityAlreadyExistsException "User already exists"), t) ∨
      row.fits = true ∧ (¬ ∃ x ∈ t.rows, SameNames x row) ∧ (∀ x ∈ t.rows, x.id ≠ row.id) ∧
        ∃ u t', rowToUser row = .ok u ∧
          (UserStorage.createUser st iter user).runOn t = (.ok u, t') ∧
          t'.rows = t.rows ++ [row] := by
  intro row
  rcases insertReturning_cases row.fits row t with
    ⟨hfits, hstmt⟩ | ⟨hfits, ix, hix, x, hx, hclash, hstmt⟩ | ⟨hfits, hapart, t', hrows, hstmt⟩
  · exact .inl ⟨_, .inl ⟨rfl, hfits⟩, runOn_bind_error (runOn_tryCatch_error hstmt)⟩
  · rcases clash_cases hix hclash with ⟨hname, hid⟩ | ⟨hname, hsame⟩
    · refine .inl ⟨_, .inr ⟨rfl, x, hx, hid⟩, runOn_bind_error ?_⟩
      rw [runOn_tryCatch_error hstmt, hname]
      rfl
    · refine .inr (.inl ⟨hfits, ⟨x, hx, hsame⟩, runOn_bind_error ?_⟩)
      rw [runOn_tryCatch_error hstmt]
      simp only [duplicate, UserStorage.raiseError]
      rw [if_pos hname]
      rfl
  · refine .inr (.inr ⟨hfits, ?_, ?_, ?_⟩)
    · rintro ⟨x, hx, hsame⟩
      exact not_apart_of_sameNames hsame (hapart x hx)
    · intro x hx hid
      have := hapart x hx usersPk usersPk_mem
      rw [usersPk_clash, hid] at this
      simp at this
    · obtain ⟨u, hu, -⟩ := rowToUser_known (newUser_known st iter user)
      exact ⟨u, t', hu, (runOn_bind_ok (runOn_tryCatch_ok hstmt)).trans (ofExcept_ok hu t'), hrows⟩

theorem deleteUserById_runOn (st : Stmt) (hr : r ∈ t.rows) (hid : r.id = userId) :
    ∃ t', (UserStorage.deleteUserById st userId).runOn t = (.ok (), t') ∧
      ∀ x, x ∈ t'.rows ↔ x = markUserDeleted st r ∨ x ∈ t.rows ∧ x.id ≠ userId := by
  obtain ⟨a, b, hpicks⟩ := picks_userId hr hid
  have hset : setUserDeleted st r = .ok (markUserDeleted st r) := rfl
  rcases Table.updateWhere_cases duplicate hpicks hset with
    ⟨ix, hix, -, x, hx, hne, hclash⟩ | ⟨t', hupd, -, hmem⟩
  · have hxr : x ≠ r := by rintro rfl; simp [hid] at hne
    rw [clash_keys (markUserDeleted st r) r hix rfl rfl rfl, t.apart hx hr hxr ix hix] at hclash
    cases hclash
  · exact ⟨t', runOn_bind_ok (updateReturning_ok hupd), by simpa using hmem⟩

def HasNull (u : UpdateUser) : Prop := u.username = some none ∨ u.email = some none

/-- What a partial update makes of a row, when none of its values is `None`. -/
def updatedUser (st : Stmt) (u : UpdateUser) (r : UserRow) : UserRow :=
  { r with
    username := u.username.join.getD r.username
    email := u.email.join.getD r.email
    updatedAt := st.clock 0 }

theorem setUser_cases (st : Stmt) (u : UpdateUser) (r : UserRow) :
    HasNull u ∧ setUser st u.toDict r = .error (.integrityError none) ∨
      ¬ HasNull u ∧ setUser st u.toDict r = .ok (updatedUser st u r) := by
  obtain ⟨id, username, email⟩ := u
  rcases username with _ | _ | username <;> rcases email with _ | _ | email <;>
    simp [HasNull] <;> rfl

theorem updateUserById_outcome (st : Stmt) {u : UpdateUser} (hr : r ∈ t.rows) (hid : r.id = u.id)
    (hknown : r.Known) :
    let r' := updatedUser st u r
    (∃ e, (e = .dbapiError ∧ u.toDict.all UserValue.fits = false ∨
          e = .integrityError none ∧ HasNull u ∨
          (∃ name, e = .integrityError (some name)) ∧ ∃ x ∈ t.rows, x.id ≠ u.id ∧ SameNames x r') ∧
        (UserStorage.updateUserById st u).runOn t = (.error e, t)) ∨
      u.toDict.all UserValue.fits = true ∧ ¬ HasNull u ∧
        (¬ ∃ x ∈ t.rows, x.id ≠ u.id ∧ SameNames x r') ∧
        ∃ user t', rowToUser r' = .ok user ∧
          (UserStorage.updateUserById st u).runOn t = (.ok user, t') ∧
          ∀ x, x ∈ t'.rows ↔ x = r' ∨ x ∈ t.rows ∧ x.id ≠ u.id := by
  intro r'
  obtain ⟨a, b, hpicks⟩ := picks_userId hr hid
  cases hfits : u.toDict.all UserValue.fits with
  | false =>
    have hstmt := updateReturning_unfit (fun x => decide (x.id = u.id)) (setUser st u.toDict) t
    rw [← hfits] at hstmt
    exact .inl ⟨_, .inl ⟨rfl, rfl⟩,
      runOn_bind_error (runOn_tryCatch_error (runOn_bind_error hstmt))⟩
  | true =>
    rcases setUser_cases st u r with ⟨hnull, hset⟩ | ⟨hnull, hset⟩
    · have hstmt := updateReturning_error (Table.updateWhere_rejected hpicks hset)
      rw [← hfits] at hstmt
      exact .inl ⟨_, .inr (.inl ⟨rfl, hnull⟩),
        runOn_bind_error (runOn_tryCatch_error (runOn_bind_error hstmt))⟩
    · rcases Table.updateWhere_cases duplicate hpicks hset with
        ⟨ix, hix, hupd, x, hx, hne, hclash⟩ | ⟨t', hupd, hapart, hmem⟩
      · have hxid : x.id ≠ u.id := by simpa using hne
        have hstmt := updateReturning_error hupd
        rw [← hfits] at hstmt
        rcases clash_cases hix hclash with ⟨-, hxr⟩ | ⟨-, hsame⟩
        · exact absurd (hxr.trans hid) hxid
        · exact .inl ⟨_, .inr (.inr ⟨⟨_, rfl⟩, x, hx, hxid, hsame⟩),
            runOn_bind_error (runOn_tryCatch_error (runOn_bind_error hstmt))⟩
      · have hstmt := updateReturning_ok hupd
        rw [← hfits] at hstmt
        obtain ⟨user, huser, -⟩ := rowToUser_known (r := r') hknown
        refine .inr ⟨rfl, hnull, ?_, user, t', huser, ?_, by simpa using hmem⟩
        · rintro ⟨x, hx, hxid, hsame⟩
          exact not_apart_of_sameNames hsame (hapart x hx (by simp [hxid]))
        · have hone := (runOn_bind_ok (f := one) hstmt).trans (runOn_pure r' t')
          rw [UserStorage.updateUserById, runOn_bind_ok (runOn_tryCatch_ok hone)]
          exact ofExcept_ok huser t'

end LibraryService.Database
