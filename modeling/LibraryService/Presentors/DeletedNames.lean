import LibraryService.Presentors.UsersApi

/-!
# The names of deleted users

What the users API shows once it has deleted a user.
-/

open Transition Relational LibraryService.Python LibraryService.Database LibraryService.Domain

namespace LibraryService.Presentors

variable {service : UsersService} {t : UserTable} {st : Stmt} {d : Directory} {userId : UUID}
  {names : Names} {req : UsersRequest} {a : UsersAnswer}

/-! ## What a response shows is live -/

def UsersBody.entries : UsersBody → List (UUID × Names)
  | .page users => users.items.map UserSchema.entry
  | .user b => [b.entry]
  | .registered b => [(b.id, ⟨b.username, b.email⟩)]
  | .empty => []

/-- The users that a response shows. -/
def Response.entries (r : Response UsersBody) : List (UUID × Names) :=
  match r.content with
  | .body b => b.entries
  | .status _ | .unhandled => []

def UsersAnswer.Live (d : Directory) : UsersAnswer → Prop
  | .page d' _ => d' = d
  | .user userId names => d.live userId = some names
  | .nothing => True

theorem live_of_showsAnswer {b : UsersBody} (h : ShowsAnswer b a) (ha : a.Live d) :
    ∀ e ∈ b.entries, d.live e.1 = some e.2 := by
  cases h with
  | page hpage =>
    obtain ⟨l, -, hl, -, hitems⟩ := hpage
    obtain rfl : _ = d := ha
    intro e he
    rw [UsersBody.entries, hitems] at he
    exact (hl e.1 e.2).mp (Paging.mem_of_mem_page he)
  | user b => exact List.forall_mem_singleton.mpr ha
  | registered b => exact List.forall_mem_singleton.mpr ha
  | empty => exact fun e he => absurd he List.not_mem_nil

theorem not_retired_of_fresh {i : UUID} (h : ∀ x ∈ t.rows, x.id ≠ i) : i ∉ (directory t).retired := by
  rintro ⟨x, hx, hid, -⟩
  exact h x hx hid

/-! ## What a request does to the directory -/

/-- It leaves the directory, puts an entry under a key that is not retired, or retires one. -/
inductive DirectoryStep (d : Directory) : Reply UsersAnswer × Directory → Prop
  | refused (s : HTTPStatus) : DirectoryStep d (.failed s, d)
  | read (s : HTTPStatus) (a : UsersAnswer) : a.Live d → DirectoryStep d (⟨s, some a⟩, d)
  | put (s : HTTPStatus) (i : UUID) (names : Names) : i ∉ d.retired → d.Free i names →
    DirectoryStep d (⟨s, some (.user i names)⟩, d.put i names)
  | retire (s : HTTPStatus) (i : UUID) : DirectoryStep d (⟨s, some .nothing⟩, d.retire i)

theorem step_enter (hi : userId ∉ d.retired) (names : Names) : DirectoryStep d (enter d userId names) := by
  unfold enter
  split
  · split
    · exact .refused _
    · exact .put _ _ _ hi (Registry.free_of_not_taken (by assumption))
  · exact .refused _

theorem step_serveUsers (emailStr : EmailStr) (h : req.Served t) :
    DirectoryStep (directory t) (serveUsers emailStr (directory t) req) := by
  cases req with
  | fetchUsers scan limit offset =>
    simp only [serveUsers]
    split
    · exact .refused _
    · exact .read _ _ rfl
  | createUser st body =>
    simp only [serveUsers]
    split
    · exact .refused _
    · exact step_enter (not_retired_of_fresh h) _
  | fetchUser userId =>
    simp only [serveUsers]
    split
    · exact .refused _
    · exact .read _ _ (by assumption)
  | updateUserById st userId body =>
    simp only [serveUsers]
    split
    · exact .refused _
    · split
      · exact .refused _
      · split
        · exact .refused _
        · rename_i hlive
          split
          · rename_i hput
            exact .put _ _ _ (Registry.live_eq_some.mp hlive).1 hput.2
          · exact .refused _
  | deleteUserById st userId =>
    simp only [serveUsers]
    split
    · exact .refused _
    · exact .retire _ _
  | register st salt body =>
    simp only [serveUsers]
    split
    · exact .refused _
    · exact step_enter (not_retired_of_fresh h) _

variable {res : Reply UsersAnswer × Directory}

theorem DirectoryStep.live (h : DirectoryStep d res) (ha : res.1.content = some a) : a.Live res.2 := by
  cases h with
  | refused s => cases ha
  | read s a hlive => cases ha; exact hlive
  | put s i names hi hfree => cases ha; exact Registry.put_live hfree hi
  | retire s i => cases ha; trivial

theorem DirectoryStep.gone (h : DirectoryStep d res) (hgone : d.Gone userId names) :
    res.2.Gone userId names := by
  cases h with
  | refused s => exact hgone
  | read s a hlive => exact hgone
  | put s i names' hi hfree => exact hgone.put hi names'
  | retire s i => exact hgone.retire i

/-! ## After the deletion -/

/-- The users table has the user on file as deleted, under these names. -/
structure Buried (userId : UUID) (names : Names) (t : UserTable) : Prop where
  known : AllKnown t
  gone : (directory t).Gone userId names

theorem entries_live (h : ServesUsers service t req) (hreq : req.Served t) :
    ∀ e ∈ (usersController service t req).1.entries,
      (directory (usersController service t req).2).live e.1 = some e.2 := by
  have hshown := h.shown
  have hstep := step_serveUsers service.emailStr hreq
  unfold Response.entries
  unfold Response.reply at hshown
  rw [h.directory]
  split
  · rename_i b hb
    rw [hb] at hshown
    generalize hc : (serveUsers service.emailStr (directory t) req).1.content = c at hshown
    cases hshown with
    | some hs => exact live_of_showsAnswer hs (hstep.live hc)
  · exact fun e he => absurd he List.not_mem_nil
  · exact fun e he => absurd he List.not_mem_nil

theorem buried_step (hhash : Hashes service.crypt) (h : Buried userId names t) (hreq : req.Served t) :
    (∀ e ∈ (usersController service t req).1.entries, e.1 ≠ userId ∧ names.Apart e.2) ∧
      Buried userId names (usersController service t req).2 := by
  have hserves := usersController_serves hhash h.known hreq
  have hgone : (directory (usersController service t req).2).Gone userId names := by
    rw [hserves.directory]
    exact (step_serveUsers service.emailStr hreq).gone h.gone
  refine ⟨fun e he => hgone.apart_live (entries_live hserves hreq e he), ?_, hgone⟩
  exact (usersController_change service h.known req).known h.known

/-- **A deleted user is never shown again**, nor are the username and the e-mail that it had: once a
deletion has succeeded, no response of the rest of the run has them. -/
theorem deleted_user_never_shown (hhash : Hashes service.crypt) {before after : List UsersRequest}
    (h : AllOk (usersController service) UsersRequest.Served Table.empty
      (before ++ .deleteUserById st userId :: after))
    (hdel : (usersController service (answers (usersController service) Table.empty before).2
      (.deleteUserById st userId)).1.statusCode = .noContent) :
    ∃ names, (directory (answers (usersController service) Table.empty before).2).live userId =
        some names ∧
      ∀ r ∈ (answers (usersController service) (usersController service
          (answers (usersController service) Table.empty before).2 (.deleteUserById st userId)).2
          after).1,
        ∀ e ∈ r.entries, e.1 ≠ userId ∧ names.Apart e.2 := by
  obtain ⟨hbefore, hdelok, hafter⟩ := allOk_append.mp h
  have hknown : AllKnown (answers (usersController service) Table.empty before).2 :=
    answers_keep (I := AllKnown) (fun t req hk => (usersController_change service hk req).known hk)
      .empty before
  generalize (answers (usersController service) Table.empty before).2 = t at *
  have hserves : ServesUsers service t (.deleteUserById st userId) := serves_deleteUserById st userId
  have hstatus := hserves.status
  have hdir := hserves.directory
  rw [hdel] at hstatus
  simp only [serveUsers] at hstatus hdir
  cases hlive : (directory t).live userId with
  | none => rw [hlive] at hstatus; cases hstatus
  | some names =>
    rw [hlive] at hdir
    refine ⟨names, rfl, answers_forall (I := Buried userId names)
      (fun t req hb hok => buried_step hhash hb hok) ⟨?_, ?_⟩ hafter⟩
    · exact (usersController_change service hknown _).known hknown
    · rw [hdir]
      exact Registry.gone_of_retire hlive

/-- Ada is deleted; her name and her e-mail are tried again, and the users are listed. -/
def afterAda : List UsersRequest :=
  [.createUser (.counting 3) ⟨.value "ada", .value "new@x.org"⟩,
    .register (.counting 3) "salt" ⟨⟨.value "countess", .value "ada@x.org"⟩, .value "correct horse"⟩,
    .fetchUser ⟨1⟩, .fetchUsers .asStored .absent .absent]

theorem deleted_user_never_shown_ada :
    let t := (answers (usersController toyUsers) Table.empty adaAndBob).2
    let gone := usersController toyUsers t (.deleteUserById (.counting 3) ⟨1⟩)
    (∃ names, (directory t).live ⟨1⟩ = some names ∧
      ∀ r ∈ (answers (usersController toyUsers) gone.2 afterAda).1,
        ∀ e ∈ r.entries, e.1 ≠ ⟨1⟩ ∧ names.Apart e.2) ∧
      (answers (usersController toyUsers) gone.2 afterAda).1.map (fun r => r.statusCode.value) =
        [409, 409, 404, 200] := by
  intro t gone
  have h : AllOk (usersController toyUsers) UsersRequest.Served Table.empty
      (adaAndBob ++ .deleteUserById (.counting 3) ⟨1⟩ :: afterAda) := by
    refine ⟨?_, ?_, trivial, ?_, ?_, trivial, trivial, trivial⟩
    all_goals
      intro x hx
      revert x
      decide
  exact ⟨deleted_user_never_shown toyUsers_hashes h rfl, rfl⟩

end LibraryService.Presentors
