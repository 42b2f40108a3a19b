import LibraryService.Presentors.UserWrites

/-!
# Which users a new user conflicts with

A create and a registration, on a table with live and deleted users.
-/

open Transition Effect Relational LibraryService.Python LibraryService.Database LibraryService.Domain

namespace LibraryService.Presentors

variable {isEmail : EmailCheck} {iter : IterOrder} {crypt : CryptContext} {t : UserTable}
  {w : UserWrite isEmail} {username email : String}

/-- The username and the e-mail that a request asks for a new user. -/
def UserWrite.newNames : UserWrite isEmail → Option (String × String)
  | .create _ data => some (data.username, data.email)
  | .register _ _ data => some (data.username, data.email)
  | .update _ _ _ | .delete _ _ => none

def Taken (t : UserTable) (username email : String) : Prop :=
  ∃ x ∈ t.rows, x.username = username ∨ x.email = email

/-- A user whom the queries can return has one of the names. -/
def TakenVisibly (t : UserTable) (username email : String) : Prop :=
  ∃ x ∈ t.rows, x.deletedAt = none ∧ (x.username = username ∨ x.email = email)

theorem TakenVisibly.taken (h : TakenVisibly t username email) : Taken t username email := by
  obtain ⟨x, hx, -, hnames⟩ := h
  exact ⟨x, hx, hnames⟩

/-- The request raises `EntityAlreadyExistsException` exactly where a visible user has one of the
names, and otherwise it succeeds. -/
structure ConflictsVisibly {α : Type} (t : UserTable) (username email : String) (res : Except Exc α) :
    Prop where
  conflict : (∃ m, res = .error (.entityAlreadyExistsException m)) ↔ TakenVisibly t username email
  success : ¬ TakenVisibly t username email → ∃ a, res = .ok a

/-! ## What a creation answers -/

/-- Every way a creation can end. -/
inductive Creates {α : Type} (t : UserTable) (username email : String) (res : Except Exc α) : Prop
  | notText (h : isText username = false) (hres : res = .error .dbapiError)
  | conflict (h : isText username = true) (htaken : Taken t username email)
      (hres : ∃ m, res = .error (.entityAlreadyExistsException m))
  | created (h : isText username = true) (hfree : ¬ Taken t username email) (hres : ∃ a, res = .ok a)

theorem creates_of_request {ρ : Type} {st : Stmt} {user : CreateUser} {f : User → Except Exc ρ}
    (hfits : (newUser st iter user).fits = isText user.username)
    (hfresh : ∀ x ∈ t.rows, x.id ≠ st.uuid4 0)
    (hf : ∀ u, rowToUser (newUser st iter user) = .ok u → ∃ b, f u = .ok b) :
    Creates t user.username user.email
      ((request (CreateUserCommand.execute .allReturn st iter user) t).1.bind f) := by
  rcases request_createUser st iter user t with
    ⟨e, ⟨rfl, hunfit⟩ | ⟨-, x, hx, hid⟩, hreq⟩ | ⟨hfit, hsame, hreq⟩ | ⟨hfit, hsame, -, u, t', hu, hreq, -⟩
  · rw [hreq]
    exact .notText (hfits ▸ hunfit) rfl
  · exact absurd hid (hfresh x hx)
  · rw [hreq]
    exact .conflict (hfits ▸ hfit) hsame ⟨_, rfl⟩
  · rw [hreq]
    exact .created (hfits ▸ hfit) hsame (hf u hu)

theorem handleWrite_creates (hemail : ∀ e, isEmail e = true → isText e = true) (hhash : Hashes crypt)
    (hfresh : w.DrawsFresh t) (hw : w.newNames = some (username, email)) :
    Creates t username email (handleWrite iter crypt t w).1 := by
  cases w with
  | create st data =>
    cases hw
    rw [handleWrite_create]
    exact creates_of_request (newUser_fits st iter { username := data.username, email := data.email }
      data.username_length.2 data.email_length.2 (hemail _ data.email_ok) rfl) hfresh
      fun u _ => ⟨_, rfl⟩
  | register st salt data =>
    cases hw
    obtain ⟨h, hh, hvarchar⟩ := hhash salt data.password data.password_length
    rw [handleWrite_register, request_register hh]
    refine creates_of_request (newUser_fits st iter
      { username := data.username, email := data.email, passwordHash := some h }
      data.username_length.2 data.email_length.2 (hemail _ data.email_ok) hvarchar) hfresh ?_
    exact registeredResponse_ok data.email_ok
  | update st userId data => cases hw
  | delete st userId => cases hw

/-- **A new user conflicts exactly with the visible users** where its username has no NUL character
and no deleted user alone has one of its names. -/
theorem user_creation_conflicts_iff (hemail : ∀ e, isEmail e = true → isText e = true)
    (hhash : Hashes crypt) (hfresh : w.DrawsFresh t) (hw : w.newNames = some (username, email)) :
    ConflictsVisibly t username email (handleWrite iter crypt t w).1 ↔
      isText username = true ∧ (Taken t username email → TakenVisibly t username email) := by
  have hcreates : Creates t username email (handleWrite iter crypt t w).1 :=
    handleWrite_creates hemail hhash hfresh hw
  cases hcreates with
  | notText h hres =>
    rw [hres]
    refine iff_of_false (fun hvisible => ?_) (by simp [h])
    by_cases htaken : TakenVisibly t username email
    · obtain ⟨m, hm⟩ := hvisible.conflict.mpr htaken
      cases hm
    · obtain ⟨a, ha⟩ := hvisible.success htaken
      cases ha
  | conflict h htaken hres =>
    constructor
    · intro hvisible
      exact ⟨h, fun _ => hvisible.conflict.mp hres⟩
    · rintro ⟨-, hvisible⟩
      exact ⟨iff_of_true hres (hvisible htaken), fun hnot => absurd (hvisible htaken) hnot⟩
  | created h hfree hres =>
    have hnot : ¬ TakenVisibly t username email := fun hvisible => hfree hvisible.taken
    refine iff_of_true ⟨iff_of_false ?_ hnot, fun _ => hres⟩ ⟨h, fun htaken => absurd htaken hfree⟩
    rintro ⟨m, hm⟩
    obtain ⟨a, ha⟩ := hres
    rw [ha] at hm
    cases hm

/-- The same request, on which later ids are drawn. -/
def createAdaAgain : UserWrite toyEmail :=
  match createAda with
  | .create _ data => .create (.counting 3) data
  | w => w

/-- Ada was created, and deleted. -/
def adaDeleted : UserTable :=
  (answers (handleWrite .declared toyCrypt) Table.empty [createAda, .delete (.counting 0) ⟨1⟩]).2

/-- The names of a deleted user stay taken. -/
theorem deleted_ada_conflicts :
    Reachable toyEmail .declared toyCrypt adaDeleted ∧ ¬ TakenVisibly adaDeleted "ada" "ada@x.org" ∧
      ¬ ConflictsVisibly adaDeleted "ada" "ada@x.org"
        (handleWrite .declared toyCrypt adaDeleted createAdaAgain).1 := by
  have hfree : ¬ TakenVisibly adaDeleted "ada" "ada@x.org" := by
    rintro ⟨x, hx, hlive, -⟩
    have hrows : adaDeleted.rows.all (fun x => x.deletedAt.isSome) = true := rfl
    have hdeleted := List.all_eq_true.mp hrows x hx
    simp [hlive] at hdeleted
  have hrun : (handleWrite .declared toyCrypt adaDeleted createAdaAgain).1 =
    .error (.entityAlreadyExistsException "User already exists") := rfl
  refine ⟨⟨_, rfl⟩, hfree, fun h => ?_⟩
  exact hfree (h.conflict.mp ⟨_, hrun⟩)

theorem user_creation_conflicts_iff_bob :
    ConflictsVisibly adaDeleted "bob" "bob@x.org" (handleWrite .declared toyCrypt adaDeleted registerBob).1 := by
  have hemail : ∀ e, toyEmail e = true → isText e = true := by
    intro e he
    simp only [toyEmail, Bool.and_eq_true] at he
    exact he.2
  have hfree : ¬ Taken adaDeleted "bob" "bob@x.org" := by
    rintro ⟨x, hx, hnames⟩
    have hrows : adaDeleted.rows.all (fun x => x.username != "bob" && x.email != "bob@x.org") = true := rfl
    have hother := List.all_eq_true.mp hrows x hx
    simp at hother
    rcases hnames with h | h
    · exact hother.1 h
    · exact hother.2 h
  have hfresh : registerBob.DrawsFresh adaDeleted := by
    intro x hx
    have hrows : adaDeleted.rows.all (fun x => x.id != ⟨2⟩) = true := rfl
    change x.id ≠ ⟨2⟩
    simpa using List.all_eq_true.mp hrows x hx
  exact (user_creation_conflicts_iff hemail (fun _ _ _ => ⟨toyHash, rfl, by decide⟩) hfresh rfl).mpr
    ⟨by decide, fun h => absurd h hfree⟩

end LibraryService.Presentors
