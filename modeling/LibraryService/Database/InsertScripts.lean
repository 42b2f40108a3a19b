import LibraryService.General.InsertLocks
import LibraryService.Database.Sql
import LibraryService.Database.Uow

/-!
# What an inserting body sends

The rows that the statements of a body send, one after another, and the request around them.
-/

open Effect Relational

namespace LibraryService.Database

variable {ρ α β : Type} {ixs : List (UniqueIndex ρ)} {ops ops' : List (InsertOp ixs Exc)}
  {t t' : Table ixs}

def insertOps (fits : Bool) (row : ρ) : List (InsertOp ixs Exc) :=
  if fits then [.insert row] else [.raise .dbapiError]

def ignoreOps (target : UniqueIndex ρ) (indexed : target ∈ ixs) (fits : Bool) (rows : List ρ) :
    List (InsertOp ixs Exc) :=
  if rows.isEmpty then [.raise (.integrityError none)]
  else if fits then rows.map (.ignore target indexed) else [.raise .dbapiError]

/-- On every table the body ends as its rows do, and what it leaves is what they leave. It returns
`a`. -/
def Sends (ops : List (InsertOp ixs Exc)) (a : α) (body : Eff (Table ixs) Exc α) : Prop :=
  ∀ t, (∃ t', body.runOn t = (.ok a, t') ∧ runAll duplicate t ops = .ok t') ∨
    ∃ e t', body.runOn t = (.error e, t') ∧ Truthy e ∧ runAll duplicate t ops = .error e

theorem sends_pure (a : α) : Sends [] a (pure a : Eff (Table ixs) Exc α) :=
  fun t => .inl ⟨t, rfl, rfl⟩

theorem Sends.bind {a : α} {b : β} {x : Eff (Table ixs) Exc α} {f : α → Eff (Table ixs) Exc β}
    (hx : Sends ops a x) (hf : Sends ops' b (f a)) : Sends (ops ++ ops') b (x >>= f) := by
  intro t
  rw [runAll_append]
  rcases hx t with ⟨t₁, hrun, hops⟩ | ⟨e, t₁, hrun, htruth, hops⟩
  · rw [runOn_bind_ok hrun, hops]
    exact hf t₁
  · rw [runOn_bind_error hrun, hops]
    exact .inr ⟨e, t₁, rfl, htruth, rfl⟩

theorem sends_insert (fits : Bool) (row : ρ) :
    Sends (insertOps fits row) row (insertReturning fits row : Eff (Table ixs) Exc ρ) := by
  intro t
  unfold insertReturning insertOps
  cases fits with
  | false => exact .inr ⟨_, t, runOn_bind_error (check_false t), rfl, rfl⟩
  | true =>
    rw [runOn_bind_ok (check_true t), runOn_bind_ok (runOn_get t)]
    simp only [if_true, runAll, InsertOp.run]
    cases t.insert row with
    | error name => exact .inr ⟨_, t, rfl, rfl, rfl⟩
    | ok t' => exact .inl ⟨t', rfl, rfl⟩

theorem runAll_ignore (target : UniqueIndex ρ) (indexed : target ∈ ixs) (rows : List ρ)
    (t : Table ixs) : runAll duplicate t (rows.map (.ignore target indexed)) =
      (insertAll target rows t).mapError duplicate := by
  induction rows generalizing t with
  | nil => rfl
  | cons r rows ih =>
    rw [List.map_cons, runAll, InsertOp.run, insertAll]
    cases t.insertOnConflictDoNothing target r with
    | error name => rfl
    | ok t' => exact ih t'

theorem sends_ignore (target : UniqueIndex ρ) (indexed : target ∈ ixs) (fits : Bool)
    (rows : List ρ) : Sends (ignoreOps target indexed fits rows) ()
      (insertOnConflictDoNothing target fits rows) := by
  intro t
  unfold insertOnConflictDoNothing ignoreOps
  cases rows with
  | nil => exact .inr ⟨_, t, rfl, rfl, rfl⟩
  | cons r rows =>
    simp only [List.isEmpty_cons, Bool.false_eq_true, if_false]
    cases fits with
    | false => exact .inr ⟨_, t, runOn_bind_error (check_false t), rfl, rfl⟩
    | true =>
      rw [runOn_bind_ok (check_true t), runOn_bind_ok (runOn_get t), if_pos rfl, runAll_ignore]
      cases insertAll target (r :: rows) t with
      | error name => exact .inr ⟨_, t, rfl, rfl, rfl⟩
      | ok t' => exact .inl ⟨t', rfl, rfl⟩

/-! ## The request around it -/

/-- The command that sends these rows, answers `b` and translates what is raised. -/
def insertScript (ops : List (InsertOp ixs Exc)) (b : β) (translate : Exc → Exc) :
    Script ixs Exc (Except Exc β) :=
  ⟨ops, fun r => (r.mapError translate).map fun _ => b⟩

/-- On its own the script does what the command does in a unit of work of its own, where the body
does no more than to go on from what the rows returned, and to translate what they raised. -/
theorem insertScript_run {a : α} {b : β} {γ : Type} {f : β → γ} {x : Eff (Table ixs) Exc α}
    (body : Eff (Table ixs) Exc β) (translate : Exc → Exc) (hx : Sends ops a x)
    (hok : ∀ t t', x.runOn t = (.ok a, t') → body.runOn t = (.ok b, t'))
    (herror : ∀ e t t', x.runOn t = (.error e, t') → body.runOn t = (.error (translate e), t'))
    (htruth : ∀ e, Truthy e → Truthy (translate e)) (t : Table ixs) :
    (insertScript ops (f b) translate).run duplicate t = respond f (asyncWith .allReturn body) t := by
  rcases hx t with ⟨t', hrun, hops⟩ | ⟨e, t', hrun, he, hops⟩
  · rw [respond_ok (hok t t' hrun)]
    simp only [Script.run, insertScript, hops]
    rfl
  · rw [respond_error (herror e t t' hrun) (htruth e he)]
    simp only [Script.run, insertScript, hops]
    rfl

end LibraryService.Database
