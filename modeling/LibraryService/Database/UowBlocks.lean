import LibraryService.Database.Uow

/-!
# Blocks on one unit of work

What each way out of an `async with uow` block leaves for the next block.
-/

open Transition Effect

namespace LibraryService.Database

variable {DB : Type} {a : Awaits} {w : World DB} {s : Session DB}

structure Block (DB : Type) where
  awaits : Awaits
  writes : DB → DB
  outcome : Option Exc

def Block.body (b : Block DB) : Eff DB Exc Unit := do
  modify b.writes
  match b.outcome with
  | none => pure ()
  | some e => throw e

def Awaits.settle (a : Awaits) (excVal : Option Exc) : Await :=
  if excVal.any Exc.truth then a.rollback else a.commit

def useUow (w : World DB) (b : Block DB) : Except Exc Unit × World DB :=
  (asyncWith b.awaits b.body).runOn w

def Await.result : Await → Except Exc Unit
  | .returns => .ok ()
  | .raises e => .error e

/-- The session of a block is asked to close, both fields are `None`, and entering another block
opens a fresh session and raises nothing of its own. -/
structure Reset (s : Session DB) (w : World DB) : Prop where
  asked : s.id ∈ w.closing
  session : w.session = none
  transaction : w.transaction = none
  next : ∀ a : Awaits, ((aenter a).runOn w).1 = a.begin.result ∧
    ∃ s', ((aenter a).runOn w).2.session = some s' ∧ s'.id = w.opened

def LeftClean (w : World DB) (b : Block DB) : Prop :=
  ∀ w₁, (aenter b.awaits).runOn w = (.ok (), w₁) →
    ∃ s, w₁.session = some s ∧ Reset s (useUow w b).2

/-! ## The exit -/

theorem settle_returns {exc : Option Exc} (h : w.session = some s)
    (ha : a.settle exc = .returns) :
    ∃ w', (settle a exc).runOn w = (.ok (), w') ∧
      ∃ v, w'.session = some { s with view := v } := by
  unfold Awaits.settle at ha
  unfold settle
  split at ha <;> rename_i hexc
  · rw [if_pos hexc]
    exact ⟨_, rollback_returns h ha, _, rfl⟩
  · rw [if_neg hexc]
    exact ⟨_, commit_returns h ha, s.view, h⟩

theorem settle_raises {exc : Option Exc} {e : Exc} (h : w.session = some s)
    (ha : a.settle exc = .raises e) :
    (settle a exc).runOn w = (.error e, w) := by
  unfold Awaits.settle at ha
  unfold settle
  split at ha <;> rename_i hexc
  · rw [if_pos hexc]
    exact rollback_raises h ha
  · rw [if_neg hexc]
    exact commit_raises h ha

theorem aexit_resets {exc : Option Exc} (h : w.session = some s)
    (hset : a.settle exc = .returns) (hclose : a.close = .returns) :
    ∃ w', (aexit a exc).runOn w = (.ok (), w') ∧ w'.session = none ∧ w'.transaction = none ∧
      s.id ∈ w'.closing := by
  obtain ⟨w', hw', v, hs'⟩ := settle_returns h hset
  rw [aexit, runOn_bind_ok hw']
  exact ⟨_, closeTransaction_returns hs' hclose, rfl, rfl, by simp⟩

theorem aexit_stuck {exc : Option Exc} (h : w.session = some s)
    (hbad : ¬ (a.settle exc = .returns ∧ a.close = .returns)) :
    ∃ e, ((aexit a exc).runOn w).1 = .error e ∧ ((aexit a exc).runOn w).2.session ≠ none := by
  cases hset : a.settle exc with
  | raises e =>
    rw [aexit, runOn_bind_error (settle_raises h hset)]
    exact ⟨e, rfl, by simp [h]⟩
  | returns =>
    obtain ⟨w', hw', v, hs'⟩ := settle_returns h hset
    rw [aexit, runOn_bind_ok hw']
    cases hclose : a.close with
    | returns => exact absurd ⟨hset, hclose⟩ hbad
    | raises e =>
      rw [closeTransaction_raises hs' hclose]
      exact ⟨e, rfl, by simp [hs']⟩

/-! ## A whole block -/

theorem body_runOn (b : Block DB) (v : DB) :
    b.body.runOn v = (match b.outcome with | none => .ok () | some e => .error e, b.writes v) := by
  rw [Block.body, runOn_bind_ok (runOn_modify _ v)]
  cases b.outcome <;> rfl

def afterBody (b : Block DB) (w₁ : World DB) (s : Session DB) : World DB :=
  { w₁ with session := some { s with view := b.writes s.view } }

theorem useUow_entered {b : Block DB} {w₁ : World DB}
    (henter : (aenter b.awaits).runOn w = (.ok (), w₁)) (hs : w₁.session = some s) :
    (useUow w b).2 = ((aexit b.awaits b.outcome).runOn (afterBody b w₁ s)).2 := by
  rw [useUow, asyncWith, runOn_bind_ok henter, runOn_bind_ok (runBody_runOn hs b.body),
    body_runOn]
  cases b.outcome with
  | none => exact runOn_bind_snd _ fun _ _ => rfl
  | some e => exact runOn_bind_snd _ fun _ _ => rfl

theorem aenter_ready (hw : w.transaction = none) :
    ∃ s o, (∀ e, a.begin = .raises e → (aenter a).runOn w =
        (.error e, { w with session := some s, opened := o })) ∧
      (a.begin = .returns → (aenter a).runOn w = (.ok (),
        { w with
          session := some { s with view := w.committed }
          opened := o
          transaction := some s.id })) ∧ (w.session = none → s.id = w.opened) := by
  unfold aenter createTransaction
  rw [runOn_bind_ok (runOn_get w)]
  cases hs : w.session with
  | some s =>
    simp only [hw]
    refine ⟨s, w.opened, fun e he => ?_, fun he => ?_, by simp⟩
    · rw [beginTransaction_raises hs he, ← hs, ← hw]
    · rw [beginTransaction_returns hs he]
  | none =>
    refine ⟨⟨w.opened, w.committed⟩, w.opened + 1, fun e he => ?_, fun he => ?_, fun _ => rfl⟩
    · simp only []
      rw [runOn_bind_ok (runOn_set _ w), beginTransaction_raises rfl he]
    · simp only []
      rw [runOn_bind_ok (runOn_set _ w), beginTransaction_returns rfl he]

theorem useUow_not_entered {b : Block DB} {e : Exc} {w₁ : World DB}
    (h : (aenter b.awaits).runOn w = (.error e, w₁)) : (useUow w b).2 = w₁ := by
  rw [useUow, asyncWith, runOn_bind_error h]

theorem reset_of_none (hs : w.session = none) (ht : w.transaction = none)
    (hc : s.id ∈ w.closing) : Reset s w where
  asked := hc
  session := hs
  transaction := ht
  next a := by
    obtain ⟨s', o, hraise, hret, hid⟩ := aenter_ready (a := a) ht
    cases hb : a.begin with
    | raises e => rw [hraise e hb]; exact ⟨rfl, s', rfl, hid hs⟩
    | returns => rw [hret hb]; exact ⟨rfl, _, rfl, hid hs⟩

def Block.Good (b : Block DB) : Prop :=
  b.awaits.begin = .returns → b.awaits.settle b.outcome = .returns ∧ b.awaits.close = .returns

theorem leftClean_iff {b : Block DB} (hw : w.transaction = none) : LeftClean w b ↔ b.Good := by
  obtain ⟨s, o, hraise, hret, -⟩ := aenter_ready (a := b.awaits) hw
  cases hb : b.awaits.begin with
  | raises e =>
    refine iff_of_true (fun w₁ h => ?_) fun h => ?_
    · rw [hraise e hb] at h; cases h
    · rw [hb] at h; cases h
  | returns =>
    have henter := hret hb
    have hend := useUow_entered henter rfl
    constructor
    · intro h _
      obtain ⟨s', -, hreset⟩ := h _ henter
      by_contra hbad
      obtain ⟨e, -, hstuck⟩ := aexit_stuck (w := afterBody b _ _) rfl hbad
      exact hstuck (hend ▸ hreset.session)
    · intro h w₁ hw₁
      rw [henter] at hw₁; cases hw₁
      obtain ⟨hset, hclose⟩ := h hb
      obtain ⟨w', hw', hs', ht', hmem⟩ := aexit_resets (w := afterBody b _ _) rfl hset hclose
      rw [hw'] at hend
      exact ⟨_, rfl, hend ▸ reset_of_none hs' ht' hmem⟩

theorem useUow_ready {b : Block DB} (hw : w.transaction = none) (hb : b.Good) :
    (useUow w b).2.transaction = none := by
  obtain ⟨s, o, hraise, hret, -⟩ := aenter_ready (a := b.awaits) hw
  cases hbegin : b.awaits.begin with
  | raises e => rw [useUow_not_entered (hraise e hbegin)]; exact hw
  | returns =>
    obtain ⟨s', -, hreset⟩ := (leftClean_iff hw).mpr hb _ (hret hbegin)
    exact hreset.transaction

/-- **Every block is left clean** in a sequence of blocks on one unit of work exactly when, in
each block whose `begin` returns, the `commit` or `rollback` it awaits and the `close` return. -/
theorem uow_resets_iff (db : DB) (blocks : List (Block DB)) :
    AllOk useUow LeftClean (World.fresh db) blocks ↔
      ∀ b ∈ blocks, b.awaits.begin = .returns →
        b.awaits.settle b.outcome = .returns ∧ b.awaits.close = .returns := by
  have hready : ∀ (w : World DB) (b : Block DB), w.transaction = none → b.Good →
      (useUow w b).2.transaction = none := fun _ _ => useUow_ready
  have hclean : ∀ (w : World DB) (b : Block DB), w.transaction = none →
      (LeftClean w b ↔ b.Good) := fun _ _ => leftClean_iff
  exact allOk_iff_forall hclean hready rfl

def commitRaises : Block Nat :=
  ⟨{ Awaits.allReturn with commit := .raises .dbapiError }, (· + 1), none⟩

def plainBlock : Block Nat := ⟨Awaits.allReturn, (· + 1), none⟩

/-- The second block cannot be entered: the first one left its transaction behind. -/
theorem uow_stuck_after_commit_raises :
    ¬ AllOk useUow LeftClean (World.fresh 0) [commitRaises, plainBlock] ∧
      (useUow (useUow (World.fresh 0) commitRaises).2 plainBlock).1 =
        .error (.exception "Session is already in transaction") := by
  constructor
  · rintro ⟨h, -⟩
    have hgood := (leftClean_iff rfl).mp h rfl
    cases hgood.1
  · rfl

end LibraryService.Database
