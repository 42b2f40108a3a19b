import LibraryService.Domain.BookCommands
import LibraryService.Domain.BookMap
import LibraryService.Domain.Credentials

/-!
# Rows and their columns

Whatever a command is given, a row it stores is one that the types of the columns take.
-/

open Transition Effect Relational LibraryService.Python LibraryService.Database

namespace LibraryService.Domain

def BooksFit (t : BookTable) : Prop := ∀ r ∈ t.rows, r.fits = true

/-- The rows fit, and what is in their JSON lists are permissions. -/
def UsersFit (t : UserTable) : Prop := ∀ r ∈ t.rows, r.fits = true ∧ r.Known

theorem booksFit_empty : BooksFit Table.empty := fun _ hr => absurd hr List.not_mem_nil

theorem usersFit_empty : UsersFit Table.empty := fun _ hr => absurd hr List.not_mem_nil

/-! ## Books -/

variable {st : Stmt}

theorem updatedRow_fits {u : UpdateBook} {r : BookRow} (hfits : u.toDict.all BookValue.fits = true)
    (hr : r.fits = true) : (updatedRow st u r).fits = true := by
  obtain ⟨id, title, year, author⟩ := u
  simp only [BookRow.fits, updatedRow, Bool.and_eq_true] at hr ⊢
  obtain ⟨⟨⟨⟨htext, htitle⟩, hyear⟩, hauthor⟩, hlength⟩ := hr
  rcases title with _ | _ | title <;> rcases year with _ | _ | year <;>
    rcases author with _ | _ | author <;>
    simp_all [UpdateBook.toDict, BookValue.fits, nullable]

theorem handleBook_fits {t : BookTable} (ht : BooksFit t) (req : BookRequest) :
    BooksFit (handleBook t req).2 := by
  intro x hx
  cases req with
  | create st book =>
    rw [handleBook, respond_snd] at hx
    rcases request_createBook st book t with
      ⟨e, -, hres⟩ | ⟨-, -, hres⟩ | ⟨hfits, -, t', hres, hrows, -⟩ <;> rw [hres] at hx
    · exact ht x hx
    · exact ht x hx
    · rw [hrows, List.mem_append, List.mem_singleton] at hx
      rcases hx with hx | rfl
      · exact ht x hx
      · exact hfits
  | update st u =>
    rw [handleBook, respond_snd] at hx
    cases hlive : liveRow t u.id with
    | none =>
      rw [request_updateBook_missing st hlive] at hx
      exact ht x hx
    | some r =>
      rcases request_updateBook st hlive with
        ⟨e, -, hres⟩ | ⟨hfits, -, ⟨-, hres⟩ | ⟨-, t', hres, hmem⟩⟩ <;> rw [hres] at hx
      · exact ht x hx
      · exact ht x hx
      · rcases (hmem x).mp hx with rfl | ⟨hx, -⟩
        · exact updatedRow_fits hfits (ht r (liveRow_eq_some.mp hlive).1)
        · exact ht x hx
  | delete st bookId =>
    rw [handleBook, respond_snd] at hx
    rcases request_deleteBook st bookId t with ⟨-, hres⟩ | ⟨r, t', hlive, hres, hmem⟩ <;>
      rw [hres] at hx
    · exact ht x hx
    · rcases (hmem x).mp hx with rfl | ⟨hx, -⟩
      · exact ht r (liveRow_eq_some.mp hlive).1
      · exact ht x hx
  | saveBulk st books =>
    rw [handleBook, respond_snd] at hx
    rcases request_cases t (BookService.saveBulkBooks st books)
      (fun e t' h => insertOnConflictDoNothing_raises h) with ⟨e, hres⟩ | ⟨_, t', hrun, hres⟩ <;>
      rw [saveBulkBooks, hres] at hx
    · exact ht x hx
    · obtain ⟨-, hfits, -⟩ := insertOnConflictDoNothing_eq_ok hrun
      rcases saveBulkBooks_new hrun hx with hx | ⟨hx, -⟩
      · exact ht x hx
      · exact List.all_eq_true.mp hfits x hx
  | fetch bookId =>
    rw [handleBook, respond_snd] at hx
    rcases request_fetchBook bookId t with ⟨-, hres⟩ | ⟨r, -, hres⟩ <;> rw [hres] at hx <;>
      exact ht x hx

/-! ## Users -/

theorem updatedUser_fits {u : UpdateUser} {r : UserRow} (hfits : u.toDict.all UserValue.fits = true)
    (hr : r.fits = true) : (updatedUser st u r).fits = true := by
  obtain ⟨id, username, email⟩ := u
  simp only [UserRow.fits, updatedUser, Bool.and_eq_true] at hr ⊢
  obtain ⟨⟨husername, hemail⟩, hhash⟩ := hr
  rcases username with _ | _ | username <;> rcases email with _ | _ | email <;>
    simp_all [UpdateUser.toDict, UserValue.fits, nullable]

theorem create_fits {t : UserTable} (ht : UsersFit t) (st : Stmt) (iter : IterOrder)
    (user : CreateUser) :
    UsersFit (request (CreateUserCommand.execute .allReturn st iter user) t).2 := by
  intro x hx
  rcases request_createUser st iter user t with
    ⟨e, -, hres⟩ | ⟨-, -, hres⟩ | ⟨hfits, -, -, u, t', -, hres, hrows⟩ <;> rw [hres] at hx
  · exact ht x hx
  · exact ht x hx
  · rw [hrows, List.mem_append, List.mem_singleton] at hx
    rcases hx with hx | rfl
    · exact ht x hx
    · exact ⟨hfits, newUser_known st iter user⟩

theorem executeUser_fits {t : UserTable} (ht : UsersFit t) (iter : IterOrder)
    (crypt : CryptContext) (cmd : UserCommand) : UsersFit (executeUser iter crypt t cmd).2 := by
  cases cmd with
  | register st salt dto =>
    rw [executeUser, respond_snd]
    cases hhash : crypt.hash salt dto.password with
    | ok passwordHash =>
      rw [request_register hhash]
      exact create_fits ht st iter _
    | error e =>
      rw [request_register_error hhash]
      exact ht
  | create st username email =>
    rw [executeUser, respond_snd]
    exact create_fits ht st iter _
  | update st u =>
    rw [executeUser, respond_snd]
    intro x hx
    cases hlive : liveUser t u.id with
    | none =>
      rw [request_updateUser_missing hlive] at hx
      exact ht x hx
    | some r =>
      have hr := (liveUser_eq_some.mp hlive).1
      rcases request_updateUser st hlive (ht r hr).2 with
        ⟨e, -, hres⟩ | ⟨hfits, -, -, user, t', -, hres, hmem⟩ <;> rw [hres] at hx
      · exact ht x hx
      · rcases (hmem x).mp hx with rfl | ⟨hx, -⟩
        · exact ⟨updatedUser_fits hfits (ht r hr).1, (ht r hr).2⟩
        · exact ht x hx
  | delete st userId =>
    rw [executeUser, respond_snd]
    intro x hx
    rcases request_deleteUser st userId t with ⟨-, hres⟩ | ⟨r, t', hlive, hres, hmem⟩ <;>
      rw [hres] at hx
    · exact ht x hx
    · rcases (hmem x).mp hx with rfl | ⟨hx, -⟩
      · exact ht r (liveUser_eq_some.mp hlive).1
      · exact ht x hx
  | login dto =>
    rw [executeUser, respond_snd, request_login]
    exact ht

end LibraryService.Domain
