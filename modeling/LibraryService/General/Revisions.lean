import LibraryService.General.Ddl
import LibraryService.General.Transition

/-!
# Revisions of a database

Scripts up and down a chain of revisions, and the commands that walk it.
-/

open Transition

namespace Ddl

structure Revision (τ δ : Type) where
  revision : String
  downRevision : Option String
  upgrade : List (Op τ δ)
  downgrade : List (Op τ δ)

/-- A database and the revision it is at, as the table `alembic_version` has it. -/
structure Versioned (τ δ α : Type) where
  version : Option String
  db : Database τ δ α
  deriving DecidableEq

/-- A number of revisions up or down; `head`, `base` and a revision stand for the number that leads
there. -/
inductive Alembic
  | upgrade (n : Nat)
  | downgrade (n : Nat)
  deriving DecidableEq, Repr

variable {τ δ α : Type} [Domain τ α] [DecidableEq α]

def upgradeOne (revs : List (Revision τ δ)) (eval : δ → α) (s : Versioned τ δ α) :
    Option (Versioned τ δ α) := do
  let r ← revs.find? fun r => decide (r.downRevision = s.version)
  let db ← script eval s.db r.upgrade
  pure ⟨some r.revision, db⟩

def downgradeOne (revs : List (Revision τ δ)) (eval : δ → α) (s : Versioned τ δ α) :
    Option (Versioned τ δ α) := do
  let r ← revs.find? fun r => decide (some r.revision = s.version)
  let db ← script eval s.db r.downgrade
  pure ⟨r.downRevision, db⟩

def times {σ : Type} (f : σ → Option σ) : Nat → σ → Option σ
  | 0, s => some s
  | n + 1, s => (f s).bind (times f n)

def Alembic.walk (revs : List (Revision τ δ)) (eval : δ → α) (s : Versioned τ δ α) :
    Alembic → Option (Versioned τ δ α)
  | .upgrade n => times (upgradeOne revs eval) n s
  | .downgrade n => times (downgradeOne revs eval) n s

/-- A command is one transaction: it is rolled back where a statement or a revision fails. -/
def Alembic.run (revs : List (Revision τ δ)) (eval : δ → α) (s : Versioned τ δ α) (c : Alembic) :
    Versioned τ δ α :=
  (c.walk revs eval s).getD s

/-! ## Chains -/

/-- The revision that a list of revisions ends at. -/
def headOf (revs : List (Revision τ δ)) : Option String := revs.getLast?.map Revision.revision

/-- Each revision comes down to the one before it. -/
structure Chain (revs : List (Revision τ δ)) : Prop where
  linked : ∀ a r b, revs = a ++ r :: b → r.downRevision = headOf a
  nodup : (revs.map Revision.revision).Nodup

/-- Each downgrade takes the statements of its upgrade back, last first. -/
def Reversible (revs : List (Revision τ δ)) : Prop :=
  ∀ r ∈ revs, undoAll r.upgrade = some r.downgrade

def level (revs : List (Revision τ δ)) : Option String → Nat
  | none => 0
  | some id => (revs.map Revision.revision).idxOf id + 1

variable {revs a b : List (Revision τ δ)} {r : Revision τ δ} {eval eval' : δ → α}
  {s t u : Versioned τ δ α} {c : Alembic}

omit [Domain τ α] [DecidableEq α] in
@[simp] theorem headOf_snoc (a : List (Revision τ δ)) (r : Revision τ δ) :
    headOf (a ++ [r]) = some r.revision := by simp [headOf]

theorem Chain.revision_ne (h : Chain (a ++ r :: b)) {x : Revision τ δ} (hx : x ∈ a) :
    x.revision ≠ r.revision := by
  have hn := h.nodup
  rw [List.map_append, List.nodup_append] at hn
  exact hn.2.2 _ (List.mem_map_of_mem hx) _ List.mem_cons_self

theorem Chain.downRevision_ne (h : Chain (a ++ b)) {x : Revision τ δ} (hx : x ∈ a) :
    x.downRevision ≠ headOf a := by
  obtain ⟨a₁, a₂, rfl⟩ := List.append_of_mem hx
  rw [h.linked a₁ x (a₂ ++ b) (by simp)]
  obtain ⟨a₃, y, hy⟩ := (List.eq_nil_or_concat' (x :: a₂)).resolve_left (List.cons_ne_nil x a₂)
  rw [hy, ← List.append_assoc, headOf_snoc]
  -- What ends at a later revision does not end where the ones before it do.
  intro heq
  rcases List.eq_nil_or_concat' a₁ with rfl | ⟨a₄, z, rfl⟩
  · cases heq
  · rw [headOf_snoc] at heq
    have hchain : Chain ((a₄ ++ z :: a₃) ++ y :: b) := by
      rw [hy] at h
      simpa using h
    exact hchain.revision_ne (by simp) (Option.some.inj heq)

theorem Chain.next (h : Chain (a ++ r :: b)) :
    (a ++ r :: b).find? (fun x => decide (x.downRevision = headOf a)) = some r := by
  have ha : a.find? (fun x => decide (x.downRevision = headOf a)) = none :=
    List.find?_eq_none.mpr fun x hx => by simpa using h.downRevision_ne hx
  rw [List.find?_append, ha, Option.none_or, List.find?_cons_of_pos]
  simpa using h.linked a r b rfl

theorem Chain.no_next (h : Chain a) :
    a.find? (fun x => decide (x.downRevision = headOf a)) = none :=
  List.find?_eq_none.mpr fun x hx => by
    have h' : Chain (a ++ []) := by simpa using h
    simpa using h'.downRevision_ne hx

theorem Chain.current (h : Chain (a ++ r :: b)) :
    (a ++ r :: b).find? (fun x => decide (some x.revision = some r.revision)) = some r := by
  have ha : a.find? (fun x => decide (some x.revision = some r.revision)) = none :=
    List.find?_eq_none.mpr fun x hx => by simpa using h.revision_ne hx
  rw [List.find?_append, ha, Option.none_or, List.find?_cons_of_pos]
  simp

theorem Chain.level_headOf (h : Chain (a ++ b)) : level (a ++ b) (headOf a) = a.length := by
  rcases List.eq_nil_or_concat' a with rfl | ⟨a', r, rfl⟩
  · rfl
  · have hn : r.revision ∉ a'.map Revision.revision := by
      intro hmem
      obtain ⟨x, hx, hxr⟩ := List.mem_map.mp hmem
      have h' : Chain (a' ++ r :: b) := by simpa using h
      exact h'.revision_ne hx hxr
    rw [headOf_snoc, level]
    simp [List.idxOf_append, hn]

/-! ## Steps -/

theorem upgradeOne_eq_some (h : upgradeOne revs eval s = some t) : ∃ r,
    revs.find? (fun r => decide (r.downRevision = s.version)) = some r ∧
      script eval s.db r.upgrade = some t.db ∧ t.version = some r.revision := by
  obtain ⟨r, hr, h⟩ := Option.bind_eq_some_iff.mp h
  obtain ⟨db, hdb, h⟩ := Option.bind_eq_some_iff.mp h
  obtain rfl := Option.some.inj h
  exact ⟨r, hr, hdb, rfl⟩

theorem downgradeOne_eq_some (h : downgradeOne revs eval s = some t) : ∃ r,
    revs.find? (fun r => decide (some r.revision = s.version)) = some r ∧
      script eval s.db r.downgrade = some t.db ∧ t.version = r.downRevision := by
  obtain ⟨r, hr, h⟩ := Option.bind_eq_some_iff.mp h
  obtain ⟨db, hdb, h⟩ := Option.bind_eq_some_iff.mp h
  obtain rfl := Option.some.inj h
  exact ⟨r, hr, hdb, rfl⟩

theorem upgradeOne_ok {db : Database τ δ α}
    (hfind : revs.find? (fun r => decide (r.downRevision = s.version)) = some r)
    (h : script eval s.db r.upgrade = some db) :
    upgradeOne revs eval s = some ⟨some r.revision, db⟩ := by
  simp [upgradeOne, hfind, h]

theorem downgradeOne_ok {db : Database τ δ α}
    (hfind : revs.find? (fun r => decide (some r.revision = s.version)) = some r)
    (h : script eval s.db r.downgrade = some db) :
    downgradeOne revs eval s = some ⟨r.downRevision, db⟩ := by
  simp [downgradeOne, hfind, h]

theorem times_keeps {σ : Type} {f : σ → Option σ} {I : σ → Prop}
    (hf : ∀ x y, I x → f x = some y → I y) {n : Nat} {x y : σ} (hx : I x)
    (h : times f n x = some y) : I y := by
  induction n generalizing x with
  | zero => cases h; exact hx
  | succ n ih =>
    obtain ⟨z, hz, h⟩ := Option.bind_eq_some_iff.mp h
    exact ih (hf x z hx hz) h

theorem times_map {σ σ' : Type} {f : σ → Option σ} {f' : σ' → Option σ'} {g : σ' → σ}
    (hf : ∀ x, f (g x) = (f' x).map g) (n : Nat) (x : σ') :
    times f n (g x) = (times f' n x).map g := by
  induction n generalizing x with
  | zero => rfl
  | succ n ih =>
    rw [times, times, hf]
    cases f' x with
    | none => rfl
    | some y => exact ih y

theorem run_cases (revs : List (Revision τ δ)) (eval : δ → α) (s : Versioned τ δ α) (c : Alembic) :
    c.run revs eval s = s ∨ c.walk revs eval s = some (c.run revs eval s) := by
  unfold Alembic.run
  cases c.walk revs eval s with
  | none => exact .inl rfl
  | some t => exact .inr rfl

/-! ## Walks -/

/-- `s` is at the end of `a`. -/
structure At (revs a : List (Revision τ δ)) (s : Versioned τ δ α) : Prop where
  part : a <+: revs
  version : s.version = headOf a

omit [Domain τ α] [DecidableEq α] in
theorem At.level_eq (hchain : Chain revs) (h : At revs a s) : level revs s.version = a.length := by
  obtain ⟨b, rfl⟩ := h.part
  rw [h.version, hchain.level_headOf]

theorem At.up (hchain : Chain revs) (h : At revs a s) (hst : upgradeOne revs eval s = some t) :
    ∃ r, At revs (a ++ [r]) t ∧ script eval s.db r.upgrade = some t.db := by
  obtain ⟨⟨b, rfl⟩, hv⟩ := h
  obtain ⟨r, hr, hdb, ht⟩ := upgradeOne_eq_some hst
  rw [hv] at hr
  cases b with
  | nil =>
    rw [List.append_nil] at hr hchain
    rw [hchain.no_next] at hr
    cases hr
  | cons x b =>
    rw [hchain.next] at hr
    obtain rfl := Option.some.inj hr
    exact ⟨x, ⟨⟨b, by simp⟩, by rw [ht, headOf_snoc]⟩, hdb⟩

theorem At.down (hchain : Chain revs) (h : At revs a s) (hst : downgradeOne revs eval s = some t) :
    ∃ a' r, a = a' ++ [r] ∧ At revs a' t ∧ script eval s.db r.downgrade = some t.db := by
  obtain ⟨⟨b, rfl⟩, hv⟩ := h
  obtain ⟨r, hr, hdb, ht⟩ := downgradeOne_eq_some hst
  rw [hv] at hr
  rcases List.eq_nil_or_concat' a with rfl | ⟨a', x, rfl⟩
  · exact absurd (List.find?_some hr) (by simp [headOf])
  · rw [headOf_snoc] at hr
    have hb : a' ++ [x] ++ b = a' ++ x :: b := by simp
    rw [hb] at hr hchain ⊢
    rw [hchain.current] at hr
    obtain rfl := Option.some.inj hr
    exact ⟨a', x, rfl, ⟨⟨x :: b, rfl⟩, ht.trans (hchain.linked a' x b rfl)⟩, hdb⟩

/-- The upgrades after those of `a` lead from `s`, which is at the end of `a`, to a database at the
end of the list, each with the defaults of its time. -/
inductive Climb (revs a : List (Revision τ δ)) (s : Versioned τ δ α) :
    List (Revision τ δ) → Versioned τ δ α → Prop
  | start : At revs a s → Climb revs a s a s
  | up {a' : List (Revision τ δ)} {t u : Versioned τ δ α} {r : Revision τ δ} {eval : δ → α} :
    Climb revs a s a' t → script eval t.db r.upgrade = some u.db → At revs (a' ++ [r]) u →
      Climb revs a s (a' ++ [r]) u

theorem Climb.at_end {a' : List (Revision τ δ)} (h : Climb revs a s a' t) : At revs a' t := by
  cases h with
  | start hat => exact hat
  | up _ _ hat => exact hat

theorem Climb.valid {a' : List (Revision τ δ)} (h : Climb revs a s a' t) (hs : Valid s.db) :
    Valid t.db := by
  induction h with
  | start => exact hs
  | up _ hscript _ ih => exact script_valid ih hscript

theorem Climb.length_le {a' : List (Revision τ δ)} (h : Climb revs a s a' t) :
    a.length ≤ a'.length ∧ (a'.length = a.length → t = s) := by
  induction h with
  | start => exact ⟨Nat.le_refl _, fun _ => rfl⟩
  | up _ _ _ ih =>
    rw [List.length_append, List.length_singleton]
    exact ⟨by omega, fun h => by omega⟩

theorem Climb.down {a' : List (Revision τ δ)} (hchain : Chain revs) (hrev : Reversible revs)
    (hs : Valid s.db) (h : Climb revs a s a' t) (htu : downgradeOne revs eval t = some u) :
    (∃ a'', Climb revs a s a'' u) ∨ ∃ a'', At revs a'' u ∧ a''.length < a.length := by
  obtain ⟨low, r, ha', hu, hdb⟩ := h.at_end.down hchain htu
  cases h with
  | start => exact .inr ⟨low, hu, by simp [ha']⟩
  | @up mid x _ y _ hclimb hup hat =>
    obtain ⟨rfl, hy⟩ := List.append_inj' ha' rfl
    obtain rfl := List.singleton_inj.mp hy
    have hmem : y ∈ revs := by
      obtain ⟨b, rfl⟩ := hat.part
      simp
    have hback : script eval t.db y.downgrade = some x.db :=
      script_undo (hclimb.valid hs) (hrev y hmem) hup
    have hux : u = x := by
      obtain ⟨version, db⟩ := u
      obtain ⟨version', db'⟩ := x
      rw [Versioned.mk.injEq]
      exact ⟨hu.version.trans hclimb.at_end.version.symm, Option.some.inj (hdb.symm.trans hback)⟩
    exact .inl ⟨mid, hux ▸ hclimb⟩

theorem Climb.run (hchain : Chain revs) (hrev : Reversible revs) (hs : Valid s.db)
    (h : ∃ a', Climb revs a s a' t) (hlevel : a.length ≤ level revs (c.run revs eval t).version) :
    ∃ a', Climb revs a s a' (c.run revs eval t) := by
  rcases run_cases revs eval t c with hrun | hrun
  · rw [hrun]
    exact h
  generalize c.run revs eval t = u at hrun hlevel ⊢
  cases c with
  | upgrade n =>
    refine times_keeps (I := fun x => ∃ a', Climb revs a s a' x) ?_ h hrun
    rintro x y ⟨a', hx⟩ hxy
    obtain ⟨r, hy, hdb⟩ := hx.at_end.up hchain hxy
    exact ⟨a' ++ [r], hx.up hdb hy⟩
  | downgrade n =>
    -- Once below the start, the steps down stay there.
    have hlow : (∃ a', Climb revs a s a' u) ∨ ∃ a', At revs a' u ∧ a'.length < a.length := by
      refine times_keeps (I := fun x => (∃ a', Climb revs a s a' x) ∨
        ∃ a', At revs a' x ∧ a'.length < a.length) ?_ (.inl h) hrun
      rintro x y (⟨a', hx⟩ | ⟨a', hx, hlt⟩) hxy
      · exact hx.down hchain hrev hs hxy
      · obtain ⟨a'', r, rfl, hy, -⟩ := hx.down hchain hxy
        rw [List.length_append, List.length_singleton] at hlt
        exact .inr ⟨a'', hy, by omega⟩
    refine hlow.resolve_right ?_
    rintro ⟨a', hu, hlt⟩
    rw [hu.level_eq hchain] at hlevel
    omega

/-- A command that does not lead below this version. -/
def StaysAbove (revs : List (Revision τ δ)) (version : Option String) (s : Versioned τ δ α)
    (c : (δ → α) × Alembic) (t : Versioned τ δ α) : Prop :=
  t = c.2.run revs c.1 s ∧ level revs version ≤ level revs t.version

theorem Climb.returns {a' : List (Revision τ δ)} (hchain : Chain revs) (h : Climb revs a s a' t)
    (hversion : t.version = s.version) (hs : At revs a s) : t = s := by
  refine h.length_le.2 ?_
  rw [← h.at_end.level_eq hchain, hversion, hs.level_eq hchain]

theorem at_or_stuck (hchain : Chain revs) (s : Versioned τ δ α) : (∃ a, At revs a s) ∨
    ∀ eval, upgradeOne revs eval s = none ∧ downgradeOne revs eval s = none := by
  by_cases hknown : ∃ r ∈ revs, some r.revision = s.version
  · obtain ⟨r, hr, hversion⟩ := hknown
    obtain ⟨a, b, rfl⟩ := List.append_of_mem hr
    exact .inl ⟨a ++ [r], ⟨b, by simp⟩, by rw [headOf_snoc, hversion]⟩
  by_cases hnone : s.version = none
  · exact .inl ⟨[], List.nil_prefix, hnone⟩
  refine .inr fun eval => ⟨?_, ?_⟩
  · have hnext : revs.find? (fun r => decide (r.downRevision = s.version)) = none := by
      refine List.find?_eq_none.mpr fun x hx => ?_
      obtain ⟨a, b, rfl⟩ := List.append_of_mem hx
      rw [decide_eq_true_eq, hchain.linked a x b rfl]
      rcases List.eq_nil_or_concat' a with rfl | ⟨a, y, rfl⟩
      · exact Ne.symm hnone
      · rw [headOf_snoc]
        exact fun heq => hknown ⟨y, by simp, heq⟩
    rw [upgradeOne, hnext]
    rfl
  · have hcurrent : revs.find? (fun r => decide (some r.revision = s.version)) = none :=
      List.find?_eq_none.mpr fun x hx => by simpa using fun heq => hknown ⟨x, hx, heq⟩
    rw [downgradeOne, hcurrent]
    rfl

theorem run_stuck (h : ∀ eval, upgradeOne revs eval s = none ∧ downgradeOne revs eval s = none) :
    c.run revs eval s = s := by
  have htimes : ∀ {f : Versioned τ δ α → Option (Versioned τ δ α)}, f s = none →
      ∀ n, (times f n s).getD s = s := by
    intro f hf n
    cases n with
    | zero => rfl
    | succ n => simp [times, hf]
  cases c with
  | upgrade n => exact htimes (h eval).1 n
  | downgrade n => exact htimes (h eval).2 n

/-- Commands that never lead below the start and come back to it leave the database as it was. -/
theorem walk_back (hchain : Chain revs) (hrev : Reversible revs) (hs : Valid s.db)
    {commands : List ((δ → α) × Alembic)} (h : Run (StaysAbove revs s.version) s commands t) :
    Valid t.db ∧ (t.version = s.version → t = s) := by
  rcases at_or_stuck hchain s with ⟨a, hat⟩ | hstuck
  · have hclimb : ∃ a', Climb revs a s a' t := by
      refine h.invariant (I := fun t => ∃ a', Climb revs a s a' t) ⟨a, .start hat⟩ ?_
      rintro x c y hx ⟨rfl, hlevel⟩
      rw [hat.level_eq hchain] at hlevel
      exact Climb.run hchain hrev hs hx hlevel
    obtain ⟨a', hclimb⟩ := hclimb
    exact ⟨hclimb.valid hs, fun hversion => hclimb.returns hchain hversion hat⟩
  · have hsame : t = s := by
      refine h.invariant (I := fun t => t = s) rfl ?_
      rintro x c y rfl ⟨rfl, -⟩
      exact run_stuck hstuck
    rw [hsame]
    exact ⟨hs, fun _ => rfl⟩

end Ddl
