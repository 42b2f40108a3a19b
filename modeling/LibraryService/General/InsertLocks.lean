import Mathlib.Logic.Function.Basic
import LibraryService.General.Relational
import LibraryService.General.Serial

/-!
# Inserts of open transactions

A table of committed rows beside the rows that open transactions have inserted. An insert that
would be a duplicate of a row in doubt waits until that row's transaction ends, so that
transactions that only insert could have run one after another, in the order in which they end.
-/

open Transition
open Function (update update_of_ne update_self)

namespace Relational

variable {ρ τ ε ο : Type} {ixs : List (UniqueIndex ρ)}

/-! ## Scripts -/

/-- A row of an INSERT, a row of an INSERT that skips duplicates in one index, or a statement that
is refused before it touches a row. -/
inductive InsertOp (ixs : List (UniqueIndex ρ)) (ε : Type)
  | insert (r : ρ)
  | ignore (target : UniqueIndex ρ) (indexed : target ∈ ixs) (r : ρ)
  | raise (e : ε)

def InsertOp.run (dup : String → ε) (t : Table ixs) : InsertOp ixs ε → Except ε (Table ixs)
  | .insert r => (t.insert r).mapError dup
  | .ignore target _ r => (t.insertOnConflictDoNothing target r).mapError dup
  | .raise e => .error e

def runAll (dup : String → ε) : Table ixs → List (InsertOp ixs ε) → Except ε (Table ixs)
  | t, [] => .ok t
  | t, op :: ops => (op.run dup t).bind fun t' => runAll dup t' ops

/-- What a transaction sends, and what its client makes of the result. -/
structure Script (ixs : List (UniqueIndex ρ)) (ε ο : Type) where
  ops : List (InsertOp ixs ε)
  answer : Except ε Unit → ο

/-- The transaction on its own: it has an effect only where all of it succeeds. -/
def Script.run (dup : String → ε) (t : Table ixs) (c : Script ixs ε ο) : ο × Table ixs :=
  match runAll dup t c.ops with
  | .ok t' => (c.answer (.ok ()), t')
  | .error e => (c.answer (.error e), t)

variable {dup : String → ε} {t t' e : Table ixs} {ops rest : List (InsertOp ixs ε)}
  {op : InsertOp ixs ε} {r x : ρ} {l k : List ρ}

theorem runAll_append (ops rest : List (InsertOp ixs ε)) :
    runAll dup t (ops ++ rest) = (runAll dup t ops).bind fun t' => runAll dup t' rest := by
  induction ops generalizing t with
  | nil => rfl
  | cons op ops ih =>
    rw [List.cons_append, runAll, runAll]
    cases op.run dup t with
    | error err => rfl
    | ok t₁ => exact ih

theorem InsertOp.run_ok (h : op.run dup t = .ok t') :
    t' = t ∨ ∃ r, t'.rows = t.rows ++ [r] ∧ ∀ x ∈ t.rows, Apart ixs x r := by
  have hinsert : ∀ r, (t.insert r).mapError dup = .ok t' →
      ∃ r, t'.rows = t.rows ++ [r] ∧ ∀ x ∈ t.rows, Apart ixs x r := by
    intro r h
    rcases t.insert_cases r with ⟨ix, -, hins, -⟩ | ⟨t₁, hins, hapart, hrows⟩
    · rw [hins] at h; cases h
    · rw [hins] at h; cases h
      exact ⟨r, hrows, hapart⟩
  cases op with
  | insert r => exact .inr (hinsert r h)
  | ignore target indexed r =>
    simp only [InsertOp.run, Table.insertOnConflictDoNothing] at h
    split at h
    · cases h; exact .inl rfl
    · exact .inr (hinsert r h)
  | raise err => cases h

theorem runAll_prefix (h : runAll dup t ops = .ok t') : t.rows <+: t'.rows := by
  induction ops generalizing t with
  | nil => cases h; exact List.prefix_refl _
  | cons op ops ih =>
    rw [runAll] at h
    cases hop : op.run dup t with
    | error err => rw [hop] at h; cases h
    | ok t₁ =>
      rw [hop] at h
      refine List.IsPrefix.trans ?_ (ih h)
      rcases InsertOp.run_ok hop with rfl | ⟨r, hrows, -⟩
      · exact List.prefix_refl _
      · rw [hrows]
        exact List.prefix_append _ _

/-! ## More rows under a script -/

theorem Table.insert_of_apart (h : ∀ x ∈ t.rows, Apart ixs x r) :
    ∃ t', t.insert r = .ok t' ∧ t'.rows = t.rows ++ [r] :=
  t.insert_ok (violated_eq_none.mpr h)

/-- A row does what it did, over more rows that are apart from the row it appended. -/
theorem InsertOp.run_extend (h : op.run dup t = .ok t') (hsub : ∀ x ∈ t.rows, x ∈ e.rows)
    (hmore : ∀ r, t'.rows = t.rows ++ [r] → ∀ x ∈ e.rows, x ∈ t.rows ∨ Apart ixs x r) :
    t' = t ∧ op.run dup e = .ok e ∨
      ∃ r e', t'.rows = t.rows ++ [r] ∧ op.run dup e = .ok e' ∧ e'.rows = e.rows ++ [r] := by
  have hinsert : ∀ r, (t.insert r).mapError dup = .ok t' → ∃ e', t'.rows = t.rows ++ [r] ∧
      (e.insert r).mapError dup = .ok e' ∧ e'.rows = e.rows ++ [r] := by
    intro r h
    rcases t.insert_cases r with ⟨ix, -, hins, -⟩ | ⟨t₁, hins, hapart, hrows⟩
    · rw [hins] at h; cases h
    · rw [hins] at h; cases h
      have hall : ∀ x ∈ e.rows, Apart ixs x r := fun x hx => (hmore r hrows x hx).elim (hapart x) id
      obtain ⟨e', hins', hrows'⟩ := Table.insert_of_apart hall
      exact ⟨e', hrows, by rw [hins']; rfl, hrows'⟩
  cases op with
  | insert r =>
    obtain ⟨e', hrows, hrun, hrows'⟩ := hinsert r h
    exact .inr ⟨r, e', hrows, hrun, hrows'⟩
  | ignore target indexed r =>
    simp only [InsertOp.run, Table.insertOnConflictDoNothing] at h ⊢
    split at h
    · rename_i hany
      obtain ⟨x, hx, hclash⟩ := List.any_eq_true.mp hany
      cases h
      left
      rw [if_pos (List.any_eq_true.mpr ⟨x, hsub x hx, hclash⟩)]
      exact ⟨rfl, rfl⟩
    · rename_i hany
      obtain ⟨e', hrows, hrun, hrows'⟩ := hinsert r h
      have hnone : ¬ (e.rows.any fun r' => target.clash r' r) = true := by
        rw [List.any_eq_true]
        rintro ⟨x, hx, hclash⟩
        rcases hmore r hrows x hx with hx | hapart
        · exact hany (List.any_eq_true.mpr ⟨x, hx, hclash⟩)
        · rw [hapart target indexed] at hclash; cases hclash
      rw [if_neg hnone]
      exact .inr ⟨r, e', hrows, hrun, hrows'⟩
  | raise err => cases h

theorem runAll_extend (h : runAll dup t ops = .ok t') (hrows : t'.rows = t.rows ++ l)
    (hsub : ∀ x ∈ t.rows, x ∈ e.rows)
    (hmore : ∀ x ∈ e.rows, x ∈ t.rows ∨ ∀ r ∈ l, Apart ixs x r) :
    ∃ e', runAll dup e ops = .ok e' ∧ e'.rows = e.rows ++ l := by
  induction ops generalizing t e l with
  | nil =>
    cases h
    obtain rfl : l = [] := by simpa using hrows
    exact ⟨e, rfl, by simp⟩
  | cons op ops ih =>
    rw [runAll] at h
    cases hop : op.run dup t with
    | error err => rw [hop] at h; cases h
    | ok t₁ =>
      rw [hop] at h
      -- The row that this step appends is one of those that the whole script appends.
      have hfirst : ∀ r, t₁.rows = t.rows ++ [r] → r ∈ l := by
        intro r hr
        obtain ⟨l', hl'⟩ := runAll_prefix h
        rw [hrows, hr, List.append_assoc, List.append_cancel_left_eq] at hl'
        rw [← hl']
        simp
      have hnew : ∀ r, t₁.rows = t.rows ++ [r] → ∀ x ∈ e.rows, x ∈ t.rows ∨ Apart ixs x r :=
        fun r hr x hx => (hmore x hx).imp_right fun hl => hl r (hfirst r hr)
      rcases InsertOp.run_extend hop hsub hnew with ⟨rfl, hrun⟩ | ⟨r, e₁, hr, hrun, hr'⟩
      · rw [runAll, hrun]
        exact ih h hrows hsub hmore
      · obtain ⟨l', hl'⟩ := runAll_prefix h
        have hl : l = r :: l' := by
          rw [hrows, hr, List.append_assoc, List.append_cancel_left_eq] at hl'
          exact hl'.symm
        subst hl
        obtain ⟨e', hrest, hfinal⟩ := ih (e := e₁) h hl'.symm
          (by
            intro x hx
            rw [hr, List.mem_append] at hx
            rw [hr', List.mem_append]
            exact hx.imp_left (hsub x))
          (by
            intro x hx
            rw [hr', List.mem_append] at hx
            rw [hr, List.mem_append]
            rcases hx with hx | hx
            · exact (hmore x hx).imp .inl fun hl r' hr' => hl r' (by simp [hr'])
            · exact .inl (.inr hx))
        refine ⟨e', ?_, ?_⟩
        · rw [runAll, hrun]
          exact hrest
        · rw [hfinal, hr', List.append_assoc]
          rfl

/-! ## Rows in doubt -/

/-- Committed rows, and the rows that open transactions have inserted beside them. -/
structure Inserts (τ : Type) (ixs : List (UniqueIndex ρ)) where
  table : Table ixs
  pending : List (τ × ρ)
  unique : (table.rows ++ pending.map Prod.snd).Pairwise (Apart ixs)

namespace Inserts

variable {s : Inserts τ ixs} {i j : τ}

def start (τ : Type) (t : Table ixs) : Inserts τ ixs := ⟨t, [], by simpa using t.unique⟩

def all (s : Inserts τ ixs) : List ρ := s.table.rows ++ s.pending.map Prod.snd

variable [DecidableEq τ]

def own (s : Inserts τ ixs) (i : τ) : List ρ :=
  (s.pending.filter fun v => decide (v.1 = i)).map Prod.snd

theorem own_sublist (s : Inserts τ ixs) (i : τ) : List.Sublist (s.own i) (s.pending.map Prod.snd) :=
  List.filter_sublist.map _

/-- What the unique checks of a transaction take for certain. -/
def view (s : Inserts τ ixs) (i : τ) : Table ixs :=
  ⟨s.table.rows ++ s.own i, s.unique.sublist (List.Sublist.append_left (s.own_sublist i) _)⟩

/-- Another transaction has a row in doubt that would be a duplicate in the index. -/
def doubts (s : Inserts τ ixs) (i : τ) (ix : UniqueIndex ρ) (r : ρ) : Bool :=
  s.pending.any fun v => !decide (v.1 = i) && ix.clash v.2 r

/-- The first index in which the row duplicates a committed row or one in doubt. -/
def obstacle (s : Inserts τ ixs) (r : ρ) : Option (UniqueIndex ρ) :=
  ixs.find? fun ix => s.all.any fun x => ix.clash x r

def write (s : Inserts τ ixs) (i : τ) (r : ρ) (h : s.obstacle r = none) : Inserts τ ixs where
  table := s.table
  pending := s.pending ++ [(i, r)]
  unique := by
    have hfree : violated ixs s.all r = none := congrArg (Option.map UniqueIndex.name) h
    have hnew := pairwise_insert (a := s.all) (b := []) (by simpa [all] using s.unique)
      (by simpa using hfree)
    simpa [all] using hnew

/-- The indexes are checked in order. In the first in which the row would be a duplicate it waits
for a row in doubt, or fails on a certain one. -/
def insert (dup : String → ε) (s : Inserts τ ixs) (i : τ) (r : ρ) :
    Option (Except ε (Inserts τ ixs)) :=
  match h : s.obstacle r with
  | none => some (.ok (s.write i r h))
  | some ix => if s.doubts i ix r then none else some (.error (dup ix.name))

def perform (dup : String → ε) (s : Inserts τ ixs) (i : τ) :
    InsertOp ixs ε → Option (Except ε (Inserts τ ixs))
  | .insert r => s.insert dup i r
  | .ignore target _ r =>
    if s.doubts i target r then none
    else if (s.view i).rows.any fun x => target.clash x r then some (.ok s)
    else s.insert dup i r
  | .raise e => some (.error e)

def abort (s : Inserts τ ixs) (i : τ) : Inserts τ ixs where
  table := s.table
  pending := s.pending.filter fun v => !decide (v.1 = i)
  unique := s.unique.sublist (List.Sublist.append_left (List.filter_sublist.map _) _)

theorem perm_commit (s : Inserts τ ixs) (i : τ) :
    List.Perm (s.table.rows ++ s.pending.map Prod.snd) ((s.table.rows ++ s.own i) ++
      (s.pending.filter fun v => !decide (v.1 = i)).map Prod.snd) := by
  rw [List.append_assoc, own, ← List.map_append]
  exact (((List.filter_append_perm _ s.pending).symm).map _).append_left _

/-- The rows of a transaction are the last committed ones from now on. -/
def commit (s : Inserts τ ixs) (i : τ) : Inserts τ ixs where
  table := s.view i
  pending := s.pending.filter fun v => !decide (v.1 = i)
  unique := (s.perm_commit i).pairwise s.unique Apart.symm

/-! ### What a transaction is certain of -/

theorem mem_own : r ∈ s.own i ↔ (i, r) ∈ s.pending := by
  simp [own]

theorem apart_own (hij : i ≠ j) (hr : r ∈ s.own i) (hx : x ∈ s.own j) : Apart ixs x r := by
  have hpairs := List.pairwise_map.mp (List.pairwise_append.mp s.unique).2.1
  have hsymm : Std.Symm fun v w : τ × ρ => Apart ixs v.2 w.2 := ⟨fun _ _ => Apart.symm⟩
  refine hpairs.forall (mem_own.mp hx) (mem_own.mp hr) ?_
  rintro heq
  cases heq
  exact hij rfl

theorem mem_view_all (hx : x ∈ (s.view i).rows) : x ∈ s.all := by
  rcases List.mem_append.mp hx with hx | hx
  · exact List.mem_append_left _ hx
  · exact List.mem_append_right _ ((s.own_sublist i).subset hx)

theorem mem_all_cases {ix : UniqueIndex ρ} (hx : x ∈ s.all) (hclash : ix.clash x r = true)
    (hdoubt : s.doubts i ix r = false) : x ∈ (s.view i).rows := by
  rcases List.mem_append.mp hx with hx | hx
  · exact List.mem_append_left _ hx
  · obtain ⟨v, hv, rfl⟩ := List.mem_map.mp hx
    have hown : v.1 = i := by
      by_contra hne
      have hany := List.any_eq_false.mp hdoubt v hv
      simp [hne, hclash] at hany
    exact List.mem_append_right _ (mem_own.mpr (by rw [← hown]; exact hv))

theorem write_view (h : s.obstacle r = none) :
    ((s.write i r h).view i).rows = (s.view i).rows ++ [r] := by
  simp [view, own, write, List.filter_append]

theorem write_own (h : s.obstacle r = none) (hj : j ≠ i) : (s.write i r h).own j = s.own j := by
  simp [own, write, List.filter_append, hj.symm]

theorem insert_ok {s' : Inserts τ ixs} (h : s.insert dup i r = some (.ok s')) :
    ((s.view i).insert r).mapError dup = .ok (s'.view i) ∧ s'.table = s.table ∧
      ∀ j ≠ i, s'.own j = s.own j := by
  unfold insert at h
  split at h
  · rename_i hfree
    cases h
    refine ⟨?_, rfl, fun j hj => write_own hfree hj⟩
    have hviolated : violated ixs (s.view i).rows r = none := by
      have hall : violated ixs s.all r = none := congrArg (Option.map UniqueIndex.name) hfree
      rw [violated_eq_none] at hall ⊢
      exact fun x hx => hall x (mem_view_all hx)
    obtain ⟨t', hins, hrows⟩ := Table.insert_ok hviolated
    rw [hins]
    refine congrArg Except.ok ?_
    obtain ⟨_, _⟩ := t'
    simp only [Table.mk.injEq, view] at hrows ⊢
    rw [hrows]
    exact (write_view hfree).symm
  · split at h <;> cases h

theorem insert_error {err : ε} (h : s.insert dup i r = some (.error err)) :
    ((s.view i).insert r).mapError dup = .error err := by
  unfold insert at h
  split at h
  · cases h
  · rename_i ix hfirst
    split at h
    · cases h
    · rename_i hdoubt
      cases h
      rw [Bool.not_eq_true] at hdoubt
      obtain ⟨hclash, before, after, hsplit, hbefore⟩ := List.find?_eq_some_iff_append.mp hfirst
      obtain ⟨x, hx, hclash⟩ := List.any_eq_true.mp hclash
      -- No index before this one has a duplicate, and this one has it among the certain rows.
      have hview : (ixs.find? fun ix => (s.view i).rows.any fun x => ix.clash x r) = some ix := by
        rw [List.find?_eq_some_iff_append]
        refine ⟨List.any_eq_true.mpr ⟨x, mem_all_cases hx hclash hdoubt, hclash⟩, before, after,
          hsplit, fun ix' hix' => ?_⟩
        have hnone := hbefore ix' hix'
        simp only [Bool.not_eq_true', List.any_eq_false] at hnone ⊢
        exact fun y hy => hnone y (mem_view_all hy)
      have hviolated : violated ixs (s.view i).rows r = some ix.name :=
        congrArg (Option.map UniqueIndex.name) hview
      rw [Table.insert_error hviolated]
      rfl

/-- A step that is not blocked does what it would do alone on the certain rows. -/
theorem perform_ok {s' : Inserts τ ixs} (h : s.perform dup i op = some (.ok s')) :
    op.run dup (s.view i) = .ok (s'.view i) ∧ s'.table = s.table ∧ ∀ j ≠ i, s'.own j = s.own j := by
  cases op with
  | insert r => exact insert_ok h
  | ignore target indexed r =>
    simp only [perform] at h
    split at h
    · cases h
    · simp only [InsertOp.run, Table.insertOnConflictDoNothing]
      split at h
      · rename_i hany
        cases h
        rw [if_pos hany]
        exact ⟨rfl, rfl, fun _ _ => rfl⟩
      · rename_i hany
        rw [if_neg hany]
        exact insert_ok h
  | raise err => cases h

theorem perform_error {err : ε} (h : s.perform dup i op = some (.error err)) :
    op.run dup (s.view i) = .error err := by
  cases op with
  | insert r => exact insert_error h
  | ignore target indexed r =>
    simp only [perform] at h
    split at h
    · cases h
    · simp only [InsertOp.run, Table.insertOnConflictDoNothing]
      split at h
      · cases h
      · rename_i hany
        rw [if_neg hany]
        exact insert_error h
  | raise err' => cases h; rfl

theorem filter_own (hj : j ≠ i) :
    ((s.pending.filter fun v => !decide (v.1 = i)).filter fun v => decide (v.1 = j)).map Prod.snd =
      s.own j := by
  rw [own, List.filter_filter]
  congr 1
  refine List.filter_congr fun v _ => ?_
  by_cases hv : v.1 = j
  · simp [hv, hj]
  · simp [hv]

theorem own_abort (hj : j ≠ i) : (s.abort i).own j = s.own j := filter_own hj

theorem own_commit (hj : j ≠ i) : (s.commit i).own j = s.own j := filter_own hj

theorem table_ext {t t' : Table ixs} (h : t.rows = t'.rows) : t = t' := by
  cases t; cases t'
  simpa using h

theorem view_eq {s' : Inserts τ ixs} (ht : s'.table = s.table) (hi : s'.own i = s.own i) :
    s'.view i = s.view i := table_ext (by simp [view, ht, hi])

end Inserts

/-! ## Transactions side by side -/

inductive InsertPhase (ixs : List (UniqueIndex ρ)) (ε ο : Type)
  | running (rest : List (InsertOp ixs ε))
  | ended (outcome : ο)
  | failed

def InsertPhase.outcome : InsertPhase ixs ε ο → Option ο
  | .ended outcome => some outcome
  | _ => none

/-- `fail` is a connection that is lost, or the victim of a deadlock. -/
inductive InsertLabel (τ : Type)
  | next (i : τ)
  | commit (i : τ)
  | fail (i : τ)

structure Inserting (τ : Type) (ixs : List (UniqueIndex ρ)) (ε ο : Type) where
  inserts : Inserts τ ixs
  phase : τ → InsertPhase ixs ε ο

namespace Inserting

def outcome (s : Inserting τ ixs ε ο) (i : τ) : Option ο := (s.phase i).outcome

variable (dup : String → ε) (cmd : τ → Script ixs ε ο)

/-- The commands one after another. -/
def serially (t : Table ixs) (i : τ) : ο × Table ixs := (cmd i).run dup t

def start (t : Table ixs) : Inserting τ ixs ε ο := ⟨.start τ t, fun i => .running (cmd i).ops⟩

variable [DecidableEq τ]

def step (s : Inserting τ ixs ε ο) : InsertLabel τ → Option (Inserting τ ixs ε ο)
  | .next i =>
    match s.phase i with
    | .running (op :: rest) =>
      match s.inserts.perform dup i op with
      | none => none
      | some (.ok x) => some ⟨x, update s.phase i (.running rest)⟩
      | some (.error e) =>
        some ⟨s.inserts.abort i, update s.phase i (.ended ((cmd i).answer (.error e)))⟩
    | _ => none
  | .commit i =>
    match s.phase i with
    | .running [] => some ⟨s.inserts.commit i, update s.phase i (.ended ((cmd i).answer (.ok ())))⟩
    | _ => none
  | .fail i =>
    match s.phase i with
    | .running _ => some ⟨s.inserts.abort i, update s.phase i .failed⟩
    | _ => none

/-- All that a step can do. -/
inductive Stepped (s : Inserting τ ixs ε ο) : InsertLabel τ → Inserting τ ixs ε ο → Prop
  | next {i : τ} {op : InsertOp ixs ε} {rest : List (InsertOp ixs ε)} {x : Inserts τ ixs}
      (hp : s.phase i = .running (op :: rest)) (h : s.inserts.perform dup i op = some (.ok x)) :
      Stepped s (.next i) ⟨x, update s.phase i (.running rest)⟩
  | raised {i : τ} {op : InsertOp ixs ε} {rest : List (InsertOp ixs ε)} {e : ε}
      (hp : s.phase i = .running (op :: rest)) (h : s.inserts.perform dup i op = some (.error e)) :
      Stepped s (.next i)
        ⟨s.inserts.abort i, update s.phase i (.ended ((cmd i).answer (.error e)))⟩
  | committed {i : τ} (hp : s.phase i = .running []) :
      Stepped s (.commit i)
        ⟨s.inserts.commit i, update s.phase i (.ended ((cmd i).answer (.ok ())))⟩
  | failed {i : τ} {rest : List (InsertOp ixs ε)} (hp : s.phase i = .running rest) :
      Stepped s (.fail i) ⟨s.inserts.abort i, update s.phase i .failed⟩

/-- The ended commands are in a serial order, and each running one has done on the committed rows
what it would have done alone. -/
structure SerialInv (t₀ : Table ixs) (s : Inserting τ ixs ε ο) (order : List τ) : Prop where
  serial : SerialOrder (serially dup cmd) t₀ s.outcome s.inserts.table order
  running : ∀ i rest, s.phase i = .running rest → ∃ done, (cmd i).ops = done ++ rest ∧
    runAll dup s.inserts.table done = .ok (s.inserts.view i)

variable {dup cmd} {s s' : Inserting τ ixs ε ο} {t₀ : Table ixs} {i : τ} {order : List τ}
  {l : List (InsertLabel τ)}

theorem step_stepped {a : InsertLabel τ} (h : s.step dup cmd a = some s') :
    Stepped dup cmd s a s' := by
  cases a with
  | next i =>
    simp only [step] at h
    split at h
    · rename_i hp
      split at h
      · cases h
      · rename_i hrun
        cases h
        exact .next hp hrun
      · rename_i hrun
        cases h
        exact .raised hp hrun
    · cases h
  | commit i =>
    simp only [step] at h
    split at h
    · rename_i hp
      cases h
      exact .committed hp
    · cases h
  | fail i =>
    simp only [step] at h
    split at h
    · rename_i hp
      cases h
      exact .failed hp
    · cases h

theorem outcome_update (x : Inserts τ ixs) (p : InsertPhase ixs ε ο) :
    (outcome ⟨x, update s.phase i p⟩) = update s.outcome i p.outcome := by
  funext j
  unfold outcome
  by_cases hj : j = i
  · subst hj
    simp
  · simp [hj]

omit [DecidableEq τ] in
theorem outcome_running {rest : List (InsertOp ixs ε)} (hp : s.phase i = .running rest) :
    s.outcome i = none := by
  rw [outcome, hp]
  rfl

theorem start_inv : SerialInv dup cmd t₀ (start cmd t₀) [] := by
  refine ⟨.nil fun _ => rfl, fun i rest hp => ?_⟩
  cases hp
  exact ⟨[], rfl, congrArg Except.ok (Inserts.table_ext (by simp [start, Inserts.start, Inserts.view,
    Inserts.own]))⟩

theorem SerialInv.keep {x : Inserts τ ixs} {p : InsertPhase ixs ε ο}
    (h : SerialInv dup cmd t₀ s order) (htable : x.table = s.inserts.table)
    (hown : ∀ j ≠ i, x.own j = s.inserts.own j)
    (hi : ∀ rest, p = .running rest → ∃ done, (cmd i).ops = done ++ rest ∧
      runAll dup x.table done = .ok (x.view i)) {order' : List τ}
    (hserial : SerialOrder (serially dup cmd) t₀ (update s.outcome i p.outcome) x.table order') :
    SerialInv dup cmd t₀ ⟨x, update s.phase i p⟩ order' := by
  constructor
  case serial =>
    rw [outcome_update]
    exact hserial
  case running =>
    intro j rest hp
    by_cases hj : j = i
    · subst hj
      exact hi rest (by simpa using hp)
    · obtain ⟨done, hops, hdone⟩ := h.running j rest (by simpa [hj] using hp)
      refine ⟨done, hops, ?_⟩
      simp only
      rw [Inserts.view_eq htable (hown j hj), htable]
      exact hdone

theorem SerialInv.abort {p : InsertPhase ixs ε ο} (h : SerialInv dup cmd t₀ s order)
    (hp : ∀ rest, p ≠ .running rest) {order' : List τ}
    (hserial : SerialOrder (serially dup cmd) t₀ (update s.outcome i p.outcome) s.inserts.table
      order') :
    SerialInv dup cmd t₀ ⟨s.inserts.abort i, update s.phase i p⟩ order' :=
  h.keep (x := s.inserts.abort i) rfl (fun _ hj => Inserts.own_abort hj)
    (fun rest hrest => absurd hrest (hp rest)) hserial

theorem SerialInv.still (h : SerialInv dup cmd t₀ s order) (hi : s.outcome i = none) :
    SerialOrder (serially dup cmd) t₀ (update s.outcome i none) s.inserts.table order := by
  rw [← hi, Function.update_eq_self]
  exact h.serial

theorem SerialInv.run_error {op : InsertOp ixs ε} {rest : List (InsertOp ixs ε)} {e : ε}
    (h : SerialInv dup cmd t₀ s order) (hp : s.phase i = .running (op :: rest))
    (hrun : op.run dup (s.inserts.view i) = .error e) :
    serially dup cmd s.inserts.table i = ((cmd i).answer (.error e), s.inserts.table) := by
  obtain ⟨done, hops, hdone⟩ := h.running i _ hp
  have hall : runAll dup s.inserts.table (cmd i).ops = .error e := by
    rw [hops, runAll_append, hdone, Except.bind, runAll, hrun]
    rfl
  simp only [serially, Script.run, hall]

theorem SerialInv.run_ok (h : SerialInv dup cmd t₀ s order) (hp : s.phase i = .running []) :
    serially dup cmd s.inserts.table i = ((cmd i).answer (.ok ()), s.inserts.view i) := by
  obtain ⟨done, hops, hdone⟩ := h.running i _ hp
  rw [List.append_nil] at hops
  simp only [serially, Script.run, hops, hdone]

/-- The rows of another transaction become certain. Those of a running one are apart from them. -/
theorem SerialInv.commit (h : SerialInv dup cmd t₀ s order) (hp : s.phase i = .running []) :
    SerialInv dup cmd t₀
      ⟨s.inserts.commit i, update s.phase i (.ended ((cmd i).answer (.ok ())))⟩ (order ++ [i]) := by
  constructor
  case serial =>
    rw [outcome_update]
    exact h.serial.snoc (outcome_running hp) (h.run_ok hp)
  case running =>
    intro j rest hj
    by_cases hji : j = i
    · subst hji
      simp at hj
    · obtain ⟨done, hops, hdone⟩ := h.running j rest (by simpa [hji] using hj)
      obtain ⟨t', hrun, hrows⟩ := runAll_extend (e := s.inserts.view i) hdone rfl
        (fun x hx => List.mem_append_left _ hx) fun x hx => (List.mem_append.mp hx).imp_right
          fun hx r hr => Inserts.apart_own hji hr hx
      refine ⟨done, hops, ?_⟩
      have hview : (s.inserts.commit i).view j = t' := by
        refine Inserts.table_ext ?_
        rw [hrows]
        exact congrArg ((s.inserts.view i).rows ++ ·) (Inserts.own_commit hji)
      rw [hview]
      exact hrun

theorem stepped_inv {a : InsertLabel τ} (h : SerialInv dup cmd t₀ s order)
    (hstep : Stepped dup cmd s a s') : ∃ order', SerialInv dup cmd t₀ s' order' := by
  cases hstep with
  | @next i op rest x hp hrun =>
    obtain ⟨hop, htable, hown⟩ := Inserts.perform_ok hrun
    refine ⟨order, h.keep htable hown ?_ (htable ▸ h.still (outcome_running hp))⟩
    rintro _ ⟨⟩
    obtain ⟨done, hops, hdone⟩ := h.running i _ hp
    refine ⟨done ++ [op], by rw [hops, List.append_assoc]; rfl, ?_⟩
    rw [htable, runAll_append, hdone, Except.bind, runAll, hop]
    rfl
  | @raised i op rest e hp hrun =>
    have hserial := h.serial.snoc (outcome_running hp) (h.run_error hp (Inserts.perform_error hrun))
    exact ⟨order ++ [i], h.abort (by simp) hserial⟩
  | committed hp => exact ⟨_, h.commit hp⟩
  | failed hp => exact ⟨order, h.abort (by simp) (h.still (outcome_running hp))⟩

/-- **Transactions that only insert are serializable**: those that have ended could have run one
after another, with the outcomes that they had, and would have left the same rows. -/
theorem serializable (h : Run (ofStep (step dup cmd)) (start cmd t₀) l s) :
    ∃ order, SerialOrder (serially dup cmd) t₀ s.outcome s.inserts.table order := by
  obtain ⟨order, hinv⟩ : ∃ order, SerialInv dup cmd t₀ s order := by
    refine h.invariant (I := fun s => ∃ order, SerialInv dup cmd t₀ s order) ⟨[], start_inv⟩ ?_
    rintro x a y ⟨order, hx⟩ hstep
    exact stepped_inv hx (step_stepped hstep)
  exact ⟨order, hinv.serial⟩

end Inserting

end Relational
