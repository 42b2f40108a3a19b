import LibraryService.Database.RowUpdates
import LibraryService.Domain.UserCommands

/-!
# User writes side by side

`DeleteUserByIdCommand` and `UpdateUserByIdCommand` as the statements that each sends in a
transaction of its own: SELECT EXISTS, and then an UPDATE that filters on the id only.
-/

open Transition Effect Relational LibraryService.Python LibraryService.Database

namespace LibraryService.Domain

inductive UserWrite
  | delete (st : Stmt) (userId : UUID)
  | update (st : Stmt) (u : UpdateUser)

inductive UserWritten
  | done
  | user (u : User)

theorem usersPk_picks {userId : UUID} {r : UserRow} (h : decide (r.id = userId) = true) (x : UserRow) :
    decide (x.id = userId) = usersPk.clash x r := by
  rw [usersPk_clash, of_decide_eq_true h]

namespace UserWrite

def userId : UserWrite → UUID
  | .delete _ userId => userId
  | .update _ u => u.id

/-- `exists_user_by_id`, and what the service raises on it. -/
def check (c : UserWrite) (t : UserTable) : Option Exc :=
  match ((UserStorage.existsUserById c.userId).runOn t).1 with
  | .ok true => none
  | .ok false => some (entityNotFound "User" c.userId)
  | .error e => some e

/-- `delete_user_by_id` takes no row back; `update_user_by_id` misses its row. -/
def rowUpdate : UserWrite → RowUpdate [usersPk, usersEmail, usersUsername] UserWritten
  | .delete st userId =>
    { fits := true
      picks := fun r => decide (r.id = userId)
      assign := setUserDeleted st
      answer := fun _ => .ok .done
      missing := .ok .done
      raises := id
      key := usersPk
      key_mem := usersPk_mem
      key_picks := usersPk_picks }
  | .update st u =>
    { fits := u.toDict.all UserValue.fits
      picks := fun r => decide (r.id = u.id)
      assign := setUser st u.toDict
      answer := fun r => (rowToUser r).map .user
      missing := .error (entityNotFound "User" u.id)
      raises := fun e =>
        match e with
        | .noResultFound => entityNotFound "User" u.id
        | e => e
      key := usersPk
      key_mem := usersPk_mem
      key_picks := usersPk_picks }

def command (c : UserWrite) : CheckedWrites.Command [usersPk, usersEmail, usersUsername] Exc UserWritten :=
  c.rowUpdate.command c.check

/-- The command on its own, in a unit of work. -/
def handle (t : UserTable) : UserWrite → Except Exc UserWritten × UserTable
  | .delete st userId =>
    respond (fun _ => .done) (DeleteUserByIdCommand.execute .allReturn st userId) t
  | .update st u => respond .user (UpdateUserByIdCommand.execute .allReturn st u) t

/-- The command without its check. -/
def writeOnly (t : UserTable) : UserWrite → Except Exc UserWritten × UserTable
  | .delete st userId =>
    respond (fun _ => .done) (asyncWith .allReturn (UserStorage.deleteUserById st userId)) t
  | .update st u => respond .user (asyncWith .allReturn (UserStorage.updateUserById st u)) t

end UserWrite

/-! ## The commands on their own -/

variable {t : UserTable} {st : Stmt} {userId : UUID} {u : UpdateUser} {c : UserWrite} {r o n : UserRow}

theorem assignUser_raises {e : Exc} (h : setUser st u.toDict r = .error e) : Truthy e := by
  rcases setUser_cases st u r with ⟨-, hset⟩ | ⟨-, hset⟩
  · rw [hset] at h
    cases h
    rfl
  · rw [hset] at h
    cases h

theorem deleteUserById_raises (st : Stmt) (userId : UUID) :
    (UserStorage.deleteUserById st userId).Raises Truthy := by
  have hupd : (updateReturning true (fun r => decide (r.id = userId)) (setUserDeleted st) :
      Eff UserTable Exc _).Raises Truthy := updateReturning_raises nofun
  exact hupd.bind fun _ => raises_pure _

theorem rowToUser_raises {e : Exc} (h : rowToUser r = .error e) : Truthy e := by
  unfold rowToUser at h
  cases hperm : Permission.frozenset r.permissions with
  | ok s =>
    rw [hperm] at h
    cases h
  | error e' =>
    rw [hperm] at h
    cases h
    rw [frozenset_error hperm]
    rfl

theorem ofExcept_raises {α : Type} {x : Except Exc α} (h : ∀ e, x = .error e → Truthy e) :
    (Eff.ofExcept x : Eff UserTable Exc α).Raises Truthy := by
  intro t e t' hrun
  rw [runOn_ofExcept] at hrun
  exact h e (congrArg Prod.fst hrun)

theorem updateUserById_raises (st : Stmt) (u : UpdateUser) :
    (UserStorage.updateUserById st u).Raises Truthy := by
  have hupd : (updateReturning (u.toDict.all UserValue.fits) (fun r => decide (r.id = u.id))
      (setUser st u.toDict) : Eff UserTable Exc _).Raises Truthy :=
    updateReturning_raises fun _ _ => assignUser_raises
  refine (Eff.Raises.tryCatch (hupd.bind one_raises) fun e he => ?_).bind
    fun r => ofExcept_raises fun _ => rowToUser_raises
  split
  · exact raises_throw rfl
  · exact raises_throw he

theorem run_writeOnly (c : UserWrite) (t : UserTable) : c.rowUpdate.run t = c.writeOnly t := by
  cases c with
  | delete st userId =>
    refine RowUpdate.run_eq_respond (deleteUserById_raises st userId) ?_ ?_ ?_ t
    · exact fun t e h => runOn_bind_error h
    · exact fun t h => ⟨.ok (), runOn_bind_ok h, rfl⟩
    · exact fun t n t' h => ⟨.ok (), runOn_bind_ok h, rfl⟩
  | update st u =>
    refine RowUpdate.run_eq_respond (updateUserById_raises st u) ?_ ?_ ?_ t
    · intro t e h
      refine runOn_bind_error ((runOn_tryCatch_error (runOn_bind_error h)).trans ?_)
      cases e <;> rfl
    · intro t h
      have hone : (do
          let rows ← updateReturning (u.toDict.all UserValue.fits) (fun r => decide (r.id = u.id))
            (setUser st u.toDict)
          one rows : Eff UserTable Exc UserRow).runOn t = (.error .noResultFound, t) :=
        (runOn_bind_ok h).trans rfl
      exact ⟨_, runOn_bind_error (runOn_tryCatch_error hone), rfl⟩
    · intro t n t' h
      have hone : (do
          let rows ← updateReturning (u.toDict.all UserValue.fits) (fun r => decide (r.id = u.id))
            (setUser st u.toDict)
          one rows : Eff UserTable Exc UserRow).runOn t = (.ok n, t') :=
        (runOn_bind_ok h).trans rfl
      exact ⟨rowToUser n, (runOn_bind_ok (runOn_tryCatch_ok hone)).trans (runOn_ofExcept _ _), rfl⟩

theorem check_eq (c : UserWrite) (t : UserTable) : c.check t =
    if (liveUser t c.userId).isSome then none else some (entityNotFound "User" c.userId) := by
  unfold UserWrite.check
  rw [existsUserById_runOn]
  cases (liveUser t c.userId).isSome <;> rfl

theorem check_passes : c.command.check t = none ↔ liveUser t c.userId ≠ none := by
  have hcheck : c.command.check t = _ := check_eq c t
  rw [hcheck]
  cases liveUser t c.userId <;> simp

theorem alone_handle (c : UserWrite) (t : UserTable) : c.command.alone t = c.handle t := by
  have hexists := existsUserById_runOn t c.userId
  have hcheck : c.command.check t = _ := check_eq c t
  unfold CheckedWrites.Command.alone
  rw [hcheck]
  cases hlive : (liveUser t c.userId).isSome with
  | false =>
    rw [hlive] at hexists
    cases c with
    | delete st userId => exact (respond_error (deleteUserById_missing hexists) rfl).symm
    | update st u => exact (respond_error (updateUserById_missing hexists) rfl).symm
  | true =>
    rw [hlive] at hexists
    refine (run_writeOnly c t).trans ?_
    cases c with
    | delete st userId =>
      exact (RowUpdate.respond_congr (deleteUserById_raises st userId) (deleteUserById_exists hexists)).symm
    | update st u =>
      exact (RowUpdate.respond_congr (updateUserById_raises st u) (updateUserById_exists hexists)).symm

/-! ## What a write does to the live users -/

theorem assign_keeps (h : c.rowUpdate.assign o = .ok n) : n.id = o.id ∧
    (n.deletedAt = o.deletedAt ∨ n.deletedAt ≠ none ∧ ∃ st, c = .delete st c.userId) := by
  cases c with
  | delete st userId =>
    cases h
    exact ⟨rfl, .inr ⟨nofun, st, rfl⟩⟩
  | update st u =>
    have hset : setUser st u.toDict o = .ok n := h
    rcases setUser_cases st u o with ⟨-, hupd⟩ | ⟨-, hupd⟩
    · rw [hupd] at hset
      cases hset
    · rw [hupd] at hset
      cases hset
      exact ⟨rfl, .inl rfl⟩

theorem picks_userWrite (h : c.rowUpdate.picks r = true) : r.id = c.userId := by
  cases c <;> exact of_decide_eq_true h

theorem gone_stays (h : liveUser t userId = none) (c : UserWrite) :
    liveUser (c.rowUpdate.run t).2 userId = none := by
  rcases c.rowUpdate.run_cases t with ⟨e, hrun⟩ | ⟨-, hrun⟩ | ⟨o, n, b, hn, hv, -, hrun⟩
  · rw [hrun]; exact h
  · rw [hrun]; exact h
  · rw [hrun]
    obtain ⟨-, ho, -, ha⟩ := RowUpdate.version_eq_some.mp hv
    obtain ⟨hid, hdeleted⟩ := assign_keeps ha
    refine Option.eq_none_iff_forall_ne_some.mpr fun x hx => ?_
    have hnone : ∀ r ∈ t.rows, r.id = userId → r.deletedAt ≠ none := fun r hr hrid hd => by
      rw [liveUser_eq_some.mpr ⟨hr, hrid, hd⟩] at h
      cases h
    obtain ⟨hx, hxid, hxd⟩ := liveUser_eq_some.mp hx
    rcases (Table.mem_replace hn ho).mp hx with rfl | ⟨hx, -⟩
    · rcases hdeleted with heq | ⟨hd, -⟩
      · exact hnone o ho (hid.symm.trans hxid) (heq.symm.trans hxd)
      · exact hd hxd
    · exact hnone x hx hxid hxd

theorem gone_by_delete (h : liveUser t userId ≠ none)
    (hgone : liveUser (c.rowUpdate.run t).2 userId = none) :
    (∃ st, c = .delete st userId) ∧ (c.rowUpdate.run t).1 = .ok .done := by
  obtain ⟨r, hr⟩ := Option.ne_none_iff_exists'.mp h
  rcases c.rowUpdate.run_cases t with ⟨e, hrun⟩ | ⟨-, hrun⟩ | ⟨o, n, b, hn, hv, hb, hrun⟩
  · rw [hrun] at hgone
    exact absurd hgone h
  · rw [hrun] at hgone
    exact absurd hgone h
  · rw [hrun] at hgone ⊢
    obtain ⟨-, ho, hp, ha⟩ := RowUpdate.version_eq_some.mp hv
    obtain ⟨hid, hdeleted⟩ := assign_keeps ha
    obtain ⟨hr, hrid, hd⟩ := liveUser_eq_some.mp hr
    have hmissing : ∀ x ∈ (t.replace o n hn).rows, x.id = userId → x.deletedAt ≠ none :=
      fun x hx hxid hxd => by
        rw [liveUser_eq_some.mpr ⟨hx, hxid, hxd⟩] at hgone
        cases hgone
    obtain rfl : r = o := by
      by_contra hne
      exact hmissing r ((Table.mem_replace hn ho).mpr (.inr ⟨hr, hne⟩)) hrid hd
    have hnd := hmissing n ((Table.mem_replace hn ho).mpr (.inl rfl)) (hid.trans hrid)
    rcases hdeleted with heq | ⟨-, st, hc⟩
    · exact absurd (heq.trans hd) hnd
    · refine ⟨⟨st, ?_⟩, ?_⟩
      · rw [hc, ← picks_userWrite hp, hrid]
      · rw [hc] at hb
        exact hb.symm

/-! ## Side by side -/

variable {τ : Type}

/-- Each command in a unit of work of its own; one that is `stale` without its check. -/
def lateUserWrite (cmd : τ → UserWrite) (stale : τ → Bool) (t : UserTable) (i : τ) :
    Except Exc UserWritten × UserTable :=
  if stale i then (cmd i).writeOnly t else (cmd i).handle t

variable {cmd : τ → UserWrite} {stale : τ → Bool} {i j : τ}

theorem late_eq : CheckedWrites.late (fun i => (cmd i).command) stale = lateUserWrite cmd stale := by
  funext t i
  unfold CheckedWrites.late lateUserWrite
  rw [alone_handle]
  split
  · exact run_writeOnly (cmd i) t
  · rfl

theorem late_cases (t : UserTable) (i : τ) :
    (∃ e, lateUserWrite cmd stale t i = (.error e, t)) ∨
      lateUserWrite cmd stale t i = (cmd i).rowUpdate.run t := by
  rw [← late_eq]
  unfold CheckedWrites.late CheckedWrites.Command.alone
  split
  · exact .inr rfl
  · split
    · exact .inl ⟨_, rfl⟩
    · exact .inr rfl

theorem late_gone (h : liveUser t userId = none) (i : τ) :
    liveUser (lateUserWrite cmd stale t i).2 userId = none := by
  rcases late_cases t i with ⟨e, hrun⟩ | hrun
  · rw [hrun]; exact h
  · rw [hrun]; exact gone_stays h (cmd i)

theorem late_gone_by_delete (h : liveUser t userId ≠ none)
    (hgone : liveUser (lateUserWrite cmd stale t i).2 userId = none) :
    (∃ st, cmd i = .delete st userId) ∧ (lateUserWrite cmd stale t i).1 = .ok .done := by
  rcases late_cases t i with ⟨e, hrun⟩ | hrun <;> rw [hrun] at hgone ⊢
  · exact absurd hgone h
  · exact gone_by_delete h hgone

theorem late_deletes {a : UserWritten} (hc : cmd i = .delete st userId)
    (h : (lateUserWrite cmd stale t i).1 = .ok a) :
    liveUser (lateUserWrite cmd stale t i).2 userId = none := by
  rcases late_cases t i with ⟨e, hrun⟩ | hrun
  · rw [hrun] at h
    cases h
  rw [hrun, hc] at h ⊢
  refine Option.eq_none_iff_forall_ne_some.mpr fun x hx => ?_
  obtain ⟨hx, hxid, hxd⟩ := liveUser_eq_some.mp hx
  have hpicks : (UserWrite.delete st userId).rowUpdate.picks x = true := decide_eq_true hxid
  rcases (UserWrite.delete st userId).rowUpdate.run_cases t with
    ⟨e, hrun⟩ | ⟨hnone, hrun⟩ | ⟨o, n, b, hn, hv, -, hrun⟩
  · rw [hrun] at h
    cases h
  · rw [hrun] at hx
    rw [hnone x hx] at hpicks
    cases hpicks
  · rw [hrun] at hx
    obtain ⟨-, ho, hp, ha⟩ := RowUpdate.version_eq_some.mp hv
    cases ha
    rcases (Table.mem_replace hn ho).mp hx with rfl | ⟨hx, hne⟩
    · cases hxd
    · exact hne (RowUpdate.picked_unique hx ho hpicks hp)

/-- Another command's delete took the user of `i` from the live ones before `i` in the order, and was
committed after the check of `i` and before the UPDATE or the commit that ended `i`. -/
structure OvertakenByDelete (cmd : τ → UserWrite) (stale : τ → Bool) (t₀ : UserTable)
    (outcome : τ → Option (Except Exc UserWritten)) (l : List (CheckedWrites.Label τ))
    (order : List τ) (i j : τ) : Prop where
  delete : ∃ st, cmd j = .delete st (cmd i).userId
  succeeded : outcome j = some (.ok .done)
  between : CheckedWrites.Overtakes l j i
  placed : ∃ before after, order = before ++ j :: after ∧ i ∈ after ∧
    liveUser (answers (lateUserWrite cmd stale) t₀ before).2 (cmd i).userId ≠ none

/-- **User writes are serializable but for overlapping deletes**: in every interleaving, the ended
commands could have run one after another with their outcomes to the same table, where only a
command that another's delete of its user overtook writes without its check. No user who was
deleted is live again. -/
theorem user_writes_serializable [DecidableEq τ] {t₀ : UserTable}
    {s : CheckedWrites.State τ [usersPk, usersEmail, usersUsername] Exc UserWritten}
    {l : List (CheckedWrites.Label τ)}
    (h : Run (ofStep (CheckedWrites.step fun i => (cmd i).command))
      (CheckedWrites.start τ Exc UserWritten t₀) l s) :
    ∃ order stale, SerialOrder (lateUserWrite cmd stale) t₀ s.outcome s.versions.table order ∧
      (∀ i, stale i = true → ∃ j, OvertakenByDelete cmd stale t₀ s.outcome l order i j) ∧
      ∀ i st userId a, cmd i = .delete st userId → s.outcome i = some (.ok a) →
        liveUser s.versions.table userId = none := by
  obtain ⟨order, stale, hserial, hstale⟩ := CheckedWrites.serial_but_stale h
  rw [late_eq] at hserial
  refine ⟨order, stale, hserial, fun i hi => ?_, fun i st userId a hc hok => ?_⟩
  · obtain ⟨before, j, after, rfl, hmem, hbetween, hpassed, hfails⟩ := hstale i hi
    rw [late_eq] at hpassed hfails
    have hlive : liveUser (answers (lateUserWrite cmd stale) t₀ before).2 (cmd i).userId ≠ none :=
      check_passes.mp hpassed
    have hgone : liveUser (lateUserWrite cmd stale (answers (lateUserWrite cmd stale) t₀ before).2 j).2
        (cmd i).userId = none := by
      by_contra hne
      exact hfails (check_passes.mpr hne)
    obtain ⟨hdelete, hdone⟩ := late_gone_by_delete hlive hgone
    refine ⟨j, hdelete, ?_, hbetween, before, after, rfl, hmem, hlive⟩
    rw [answers_at hserial.outcomes, hdone]
  · exact hserial.lasting hok (I := fun t => liveUser t userId = none)
      (fun t ht => late_deletes hc ht) fun t k ht => late_gone ht k

def bobRow : UserRow := ⟨⟨1⟩, "bob", "bob@example.com", none, false, [], 0, 0, none⟩

def onlyBob : UserTable := ⟨[bobRow], List.pairwise_singleton _ _⟩

/-- One command deletes bob while the other one renames him. -/
def deleteAndRename : Bool → UserWrite
  | false => .delete (.counting 0) ⟨1⟩
  | true => .update (.counting 1) { id := ⟨1⟩, username := some (some "rob"), email := none }

def overtaken : List (CheckedWrites.Label Bool) :=
  [.check false, .check true, .write false, .commit false, .write true, .commit true]

/-- Both succeed, and only the rename that the delete overtook can have been late. -/
theorem user_writes_serializable_overtaken :
    ∃ s, exec (CheckedWrites.step fun i => (deleteAndRename i).command)
        (CheckedWrites.start Bool Exc UserWritten onlyBob) overtaken = some s ∧
      (s.outcome false = some (.ok .done) ∧ ∃ a, s.outcome true = some (.ok a)) ∧
      ∃ order stale,
        SerialOrder (lateUserWrite deleteAndRename stale) onlyBob s.outcome s.versions.table order ∧
          ∀ i, stale i = true →
            ∃ j, OvertakenByDelete deleteAndRename stale onlyBob s.outcome overtaken order i j := by
  have hexec : ∃ s, exec (CheckedWrites.step fun i => (deleteAndRename i).command)
        (CheckedWrites.start Bool Exc UserWritten onlyBob) overtaken = some s ∧
      s.outcome false = some (.ok .done) ∧ ∃ a, s.outcome true = some (.ok a) :=
    ⟨_, rfl, rfl, _, rfl⟩
  obtain ⟨s, hs, hout⟩ := hexec
  obtain ⟨order, stale, hserial, hstale, -⟩ := user_writes_serializable (run_of_exec hs)
  exact ⟨s, hs, hout, order, stale, hserial, hstale⟩

end LibraryService.Domain
