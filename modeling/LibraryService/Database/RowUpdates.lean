import LibraryService.General.CheckedWrites
import LibraryService.Database.Sql
import LibraryService.Database.Uow

/-!
# Updates of one row

A storage's UPDATE by key as a command that looks before it writes.
-/

open Effect Relational LibraryService.Python

namespace LibraryService.Database

variable {ρ α β : Type} {ixs : List (UniqueIndex ρ)}

/-- An UPDATE of the row that a key picks; what a storage makes of the row that it gets back, of no
row, and of what the statement raises. -/
structure RowUpdate (ixs : List (UniqueIndex ρ)) (β : Type) where
  fits : Bool
  picks : ρ → Bool
  assign : ρ → Except Exc ρ
  answer : ρ → Except Exc β
  missing : Except Exc β
  raises : Exc → Exc
  key : UniqueIndex ρ
  key_mem : key ∈ ixs
  key_picks : ∀ {r}, picks r = true → ∀ x, picks x = key.clash x r

namespace RowUpdate

variable (u : RowUpdate ixs β)

/-- The statement in a transaction of its own. -/
def run (t : Table ixs) : Except Exc β × Table ixs :=
  match (updateReturning u.fits u.picks u.assign).runOn t with
  | (.error e, _) => (.error (u.raises e), t)
  | (.ok [], _) => (u.missing, t)
  | (.ok (n :: _), t') =>
    match u.answer n with
    | .error e => (.error e, t)
    | .ok b => (.ok b, t')

/-- The row that the WHERE clause finds, and its new version; none where a parameter or a NULL is
refused first. -/
def version (t : Table ixs) : Option (ρ × ρ) :=
  if u.fits then
    (t.rows.find? u.picks).bind fun o =>
      match u.assign o with
      | .error _ => none
      | .ok n => some (o, n)
  else none

variable {u} {t t' : Table ixs} {o n r : ρ} {b : β} {e : Exc}

theorem picked_unique (hr : r ∈ t.rows) (ho : o ∈ t.rows) (hpr : u.picks r = true)
    (hpo : u.picks o = true) : r = o :=
  t.eq_of_clash u.key_mem hr ho (by rw [← u.key_picks hpo, hpr])

theorem picks_of (ho : o ∈ t.rows) (hp : u.picks o = true) : ∃ a b, Picks u.picks t.rows a o b :=
  t.picks u.key_mem ho (u.key_picks hp) hp

theorem version_eq_some : u.version t = some (o, n) ↔
    u.fits = true ∧ o ∈ t.rows ∧ u.picks o = true ∧ u.assign o = .ok n := by
  unfold version
  constructor
  · intro h
    split at h
    · obtain ⟨r, hr, h⟩ := Option.bind_eq_some_iff.mp h
      split at h
      · cases h
      · rename_i ha
        cases h
        exact ⟨by assumption, List.mem_of_find?_eq_some hr, List.find?_some hr, ha⟩
    · cases h
  · rintro ⟨hfits, ho, hp, ha⟩
    have hfind : t.rows.find? u.picks = some o :=
      (find?_eq_some_of_unique fun x hx y hy => picked_unique hx hy).mpr ⟨ho, hp⟩
    rw [if_pos hfits, hfind, Option.bind_some, ha]

theorem version_moved (h : u.version t = some (o, n)) (ho : o ∈ t'.rows) :
    u.version t' = some (o, n) := by
  obtain ⟨hfits, -, hp, ha⟩ := version_eq_some.mp h
  exact version_eq_some.mpr ⟨hfits, ho, hp, ha⟩

theorem version_found (h : u.version t = some (o, n)) : o ∈ t.rows := (version_eq_some.mp h).2.1

theorem run_raised (h : (updateReturning u.fits u.picks u.assign).runOn t = (.error e, t')) :
    u.run t = (.error (u.raises e), t) := by
  simp only [run, h]

theorem run_missing (h : (updateReturning u.fits u.picks u.assign).runOn t = (.ok [], t')) :
    u.run t = (u.missing, t) := by
  simp only [run, h]

theorem statement_ok [DecidableEq ρ] [Keyed ixs] (hv : u.version t = some (o, n))
    (hn : ∀ r ∈ t.rows, r ≠ o → Apart ixs r n) :
    (updateReturning u.fits u.picks u.assign).runOn t = (.ok [n], t.replace o n hn) := by
  obtain ⟨hfits, ho, hp, ha⟩ := version_eq_some.mp hv
  obtain ⟨a, b, hpicks⟩ := picks_of ho hp
  rw [hfits]
  exact updateReturning_ok (Table.updateWhere_replace hn hpicks ha)

theorem statement_cases [DecidableEq ρ] [Keyed ixs] (u : RowUpdate ixs β) (t : Table ixs) :
    (∃ e, (updateReturning u.fits u.picks u.assign).runOn t = (.error e, t)) ∨
      u.version t = none ∧ (∀ r ∈ t.rows, u.picks r = false) ∧
        (updateReturning u.fits u.picks u.assign).runOn t = (.ok [], t) ∨
      ∃ o n hn, u.version t = some (o, n) ∧
        (updateReturning u.fits u.picks u.assign).runOn t = (.ok [n], t.replace o n hn) := by
  cases hfits : u.fits with
  | false => exact .inl ⟨_, updateReturning_unfit ..⟩
  | true =>
    cases hfind : t.rows.find? u.picks with
    | none =>
      have hnone : ∀ r ∈ t.rows, u.picks r = false := fun r hr => by
        simpa using List.find?_eq_none.mp hfind r hr
      have hskip : updateRows ixs duplicate u.picks u.assign [] t.rows = .ok (t.rows, []) :=
        updateRows_skip [] hnone
      obtain ⟨t', hupd, hrows⟩ := t.updateWhere_ok hskip
      obtain rfl : t' = t := Table.ext hrows
      refine .inr (.inl ⟨?_, hnone, updateReturning_ok hupd⟩)
      rw [version, hfind]
      simp
    | some o =>
      have ho := List.mem_of_find?_eq_some hfind
      have hp := List.find?_some hfind
      obtain ⟨a, b, hpicks⟩ := picks_of ho hp
      cases ha : u.assign o with
      | error e => exact .inl ⟨e, updateReturning_error (Table.updateWhere_rejected hpicks ha)⟩
      | ok n =>
        rcases Table.updateWhere_cases duplicate hpicks ha with
          ⟨ix, -, herr, -⟩ | ⟨t', -, hapart, -⟩
        · exact .inl ⟨_, updateReturning_error herr⟩
        · have hn : ∀ r ∈ t.rows, r ≠ o → Apart ixs r n := by
            intro r hr hne
            refine hapart r hr (Bool.eq_false_iff.mpr fun hpr => hne ?_)
            exact picked_unique hr ho hpr hp
          have hv := version_eq_some.mpr ⟨hfits, ho, hp, ha⟩
          have hstmt := statement_ok hv hn
          rw [hfits] at hstmt
          exact .inr (.inr ⟨o, n, hn, hv, hstmt⟩)

section Command

variable [DecidableEq ρ] [Keyed ixs]

theorem run_ok (hv : u.version t = some (o, n)) (hb : u.answer n = .ok b)
    (hn : ∀ r ∈ t.rows, r ≠ o → Apart ixs r n) : u.run t = (.ok b, t.replace o n hn) := by
  simp only [run, statement_ok hv hn, hb]

theorem run_cases (u : RowUpdate ixs β) (t : Table ixs) :
    (∃ e, u.run t = (.error e, t)) ∨
      (∀ r ∈ t.rows, u.picks r = false) ∧ u.run t = (u.missing, t) ∨
      ∃ o n b hn, u.version t = some (o, n) ∧ u.answer n = .ok b ∧
        u.run t = (.ok b, t.replace o n hn) := by
  rcases u.statement_cases t with ⟨e, h⟩ | ⟨-, hnone, h⟩ | ⟨o, n, hn, hv, h⟩
  · exact .inl ⟨_, run_raised h⟩
  · exact .inr (.inl ⟨hnone, run_missing h⟩)
  · cases hb : u.answer n with
    | error e => exact .inl ⟨e, by simp only [run, h, hb]⟩
    | ok b => exact .inr (.inr ⟨o, n, b, hn, hv, hb, run_ok hv hb hn⟩)

theorem run_unwritten (h : u.version t = none) : (u.run t).2 = t := by
  rcases u.run_cases t with ⟨e, hrun⟩ | ⟨-, hrun⟩ | ⟨o, n, b, hn, hv, -⟩
  · rw [hrun]
  · rw [hrun]
  · rw [h] at hv
    cases hv

theorem run_error (h : (u.run t).1 = .error e) : (u.run t).2 = t := by
  rcases u.run_cases t with ⟨e, hrun⟩ | ⟨-, hrun⟩ | ⟨o, n, b, hn, -, -, hrun⟩
  · rw [hrun]
  · rw [hrun]
  · rw [hrun] at h
    cases h

theorem run_accepted (hv : u.version t = some (o, n)) (h : (u.run t).1 = .ok b) :
    u.answer n = .ok b ∧ ∀ r ∈ t.rows, r ≠ o → Apart ixs r n := by
  rcases u.run_cases t with ⟨e, hrun⟩ | ⟨hnone, -⟩ | ⟨o', n', b', hn, hv', hb, hrun⟩
  · rw [hrun] at h
    cases h
  · obtain ⟨-, ho, hp, -⟩ := version_eq_some.mp hv
    rw [hnone o ho] at hp
    cases hp
  · rw [hv] at hv'
    cases hv'
    rw [hrun] at h
    cases h
    exact ⟨hb, hn⟩

/-- The command that runs the check and then, without a lock between, the update. -/
def command (u : RowUpdate ixs β) (check : Table ixs → Option Exc) :
    CheckedWrites.Command ixs Exc β where
  check := check
  write := u.run
  version := u.version
  result := u.answer
  found := version_found
  moved := version_moved
  unwritten := run_unwritten
  raised := run_error
  accepted := run_accepted
  written := run_ok

end Command

/-! ## The storage's own statement -/

theorem respond_eq {f : α → β} {body : Eff (Table ixs) Exc α} (htruth : body.Raises Truthy)
    (t : Table ixs) : respond f (asyncWith .allReturn body) t =
      match body.runOn t with
      | (.ok x, t') => (.ok (f x), t')
      | (.error e, _) => (.error e, t) := by
  cases h : body.runOn t with
  | mk r t' =>
    cases r with
    | ok x => exact respond_ok h
    | error e => exact respond_error h (htruth h)

theorem respond_congr {f : α → β} {body body' : Eff (Table ixs) Exc α} (htruth : body'.Raises Truthy)
    (h : body.runOn t = body'.runOn t) :
    respond f (asyncWith .allReturn body) t = respond f (asyncWith .allReturn body') t := by
  cases hrun : body'.runOn t with
  | mk r t' =>
    cases r with
    | ok x => rw [respond_ok (h.trans hrun), respond_ok hrun]
    | error e => rw [respond_error (h.trans hrun) (htruth hrun), respond_error hrun (htruth hrun)]

/-- The update is what the storage's method does in a unit of work. -/
theorem run_eq_respond [DecidableEq ρ] [Keyed ixs] {f : α → β} {body : Eff (Table ixs) Exc α}
    (htruth : body.Raises Truthy)
    (hraised : ∀ t e, (updateReturning u.fits u.picks u.assign).runOn t = (.error e, t) →
      body.runOn t = (.error (u.raises e), t))
    (hmissing : ∀ t, (updateReturning u.fits u.picks u.assign).runOn t = (.ok [], t) →
      ∃ r, body.runOn t = (r, t) ∧ r.map f = u.missing)
    (hanswer : ∀ t n t', (updateReturning u.fits u.picks u.assign).runOn t = (.ok [n], t') →
      ∃ r, body.runOn t = (r, t') ∧ r.map f = u.answer n)
    (t : Table ixs) : u.run t = respond f (asyncWith .allReturn body) t := by
  rw [respond_eq htruth]
  rcases u.statement_cases t with ⟨e, h⟩ | ⟨-, -, h⟩ | ⟨o, n, hn, -, h⟩
  · rw [run_raised h, hraised t e h]
  · obtain ⟨r, hbody, hr⟩ := hmissing t h
    rw [run_missing h, hbody, ← hr]
    cases r <;> rfl
  · obtain ⟨r, hbody, hr⟩ := hanswer t n _ h
    simp only [run, h, hbody, ← hr]
    cases r <;> rfl

end RowUpdate

end LibraryService.Database
