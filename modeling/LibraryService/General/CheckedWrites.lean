import LibraryService.General.RowLocks
import LibraryService.General.Serial

/-!
# Commands that look before they write

Transactions under READ COMMITTED that each check the table and then write one row, with no lock
between the two. They are serializable but for checks that were true earlier in the order.
-/

open Function (update update_of_ne update_self)
open Transition Relational

namespace Transition

variable {σ τ ο : Type*} {m m' : σ → τ → ο × σ} {s₀ s : σ} {order : List τ} {ended : τ → Option ο}

theorem answers_congr {l : List τ} (h : ∀ i ∈ l, ∀ t, m t i = m' t i) (t : σ) :
    answers m t l = answers m' t l := by
  induction l generalizing t with
  | nil => rfl
  | cons i l ih =>
    obtain ⟨hi, hl⟩ := List.forall_mem_cons.mp h
    rw [answers, answers, hi t, ih hl]

theorem SerialOrder.congr (h : SerialOrder m s₀ ended s order)
    (hm : ∀ i ∈ order, ∀ t, m t i = m' t i) : SerialOrder m' s₀ ended s order := by
  have heq := answers_congr hm s₀
  exact ⟨h.nodup, h.mem_iff, heq ▸ h.outcomes, heq ▸ h.final⟩

/-- What holds at first and not at the end was ended by one of the inputs. -/
theorem answers_turn {P : σ → Prop} {l : List τ} (h : P s) (hend : ¬ P (answers m s l).2) :
    ∃ a j b, l = a ++ j :: b ∧ P (answers m s a).2 ∧ ¬ P (m (answers m s a).2 j).2 := by
  induction l generalizing s with
  | nil => exact absurd h hend
  | cons i l ih =>
    by_cases hi : P (m s i).2
    · obtain ⟨a, j, b, rfl, ha, hj⟩ := ih hi hend
      exact ⟨i :: a, j, b, rfl, ha, hj⟩
    · exact ⟨[], i, l, rfl, h, hi⟩

end Transition

namespace CheckedWrites

variable {ρ ε β τ : Type} {ixs : List (UniqueIndex ρ)} [DecidableEq ρ] [Keyed ixs]

/-- `check` is the error of the check, `write` what the statement that writes does on its own,
`version` the row that it finds and its new version, and `result` what is made of that. -/
structure Command (ixs : List (UniqueIndex ρ)) [Keyed ixs] (ε β : Type) where
  check : Table ixs → Option ε
  write : Table ixs → Except ε β × Table ixs
  version : Table ixs → Option (ρ × ρ)
  result : ρ → Except ε β
  found : ∀ {t o n}, version t = some (o, n) → o ∈ t.rows
  moved : ∀ {t t' o n}, version t = some (o, n) → o ∈ t'.rows → version t' = some (o, n)
  unwritten : ∀ {t}, version t = none → (write t).2 = t
  raised : ∀ {t e}, (write t).1 = .error e → (write t).2 = t
  accepted : ∀ {t o n b}, version t = some (o, n) → (write t).1 = .ok b →
    result n = .ok b ∧ ∀ r ∈ t.rows, r ≠ o → Apart ixs r n
  written : ∀ {t o n b}, version t = some (o, n) → result n = .ok b →
    ∀ h : (∀ r ∈ t.rows, r ≠ o → Apart ixs r n), write t = (.ok b, t.replace o n h)

def Command.alone (c : Command ixs ε β) (t : Table ixs) : Except ε β × Table ixs :=
  match c.check t with
  | some e => (.error e, t)
  | none => c.write t

inductive Phase (ε β : Type)
  | begun
  | checked
  | wrote (b : β)
  | ended (r : Except ε β)
  | failed

structure State (τ : Type) (ixs : List (UniqueIndex ρ)) (ε β : Type) where
  versions : Versions τ ixs
  phase : τ → Phase ε β

inductive Label (τ : Type)
  | check (i : τ)
  | write (i : τ)
  | commit (i : τ)
  | fail (i : τ)

def start (τ : Type) (ε β : Type) (t : Table ixs) : State τ ixs ε β := ⟨.start τ t, fun _ => .begun⟩

section Step

variable [DecidableEq τ] (cmd : τ → Command ixs ε β)

def State.move (s : State τ ixs ε β) (i : τ) (p : Phase ε β) : State τ ixs ε β :=
  { s with phase := update s.phase i p }

def State.check (s : State τ ixs ε β) (i : τ) : State τ ixs ε β :=
  match (cmd i).check s.versions.table with
  | none => s.move i .checked
  | some e => s.move i (.ended (.error e))

/-- A statement that raises rolls its command back; one that has to wait is not enabled. -/
def State.write (s : State τ ixs ε β) (i : τ) : Option (State τ ixs ε β) :=
  let result := ((cmd i).write s.versions.table).1
  match (cmd i).version s.versions.table with
  | none => some (s.move i (.ended result))
  | some (o, n) =>
    if s.versions.Waits o n then none
    else
      match result with
      | .error e => some (s.move i (.ended (.error e)))
      | .ok b =>
        if h : s.versions.Admits i o n then
          some ({ s with versions := s.versions.write i o n h }.move i (.wrote b))
        else none

def step (s : State τ ixs ε β) : Label τ → Option (State τ ixs ε β)
  | .check i =>
    match s.phase i with
    | .begun => some (s.check cmd i)
    | _ => none
  | .write i =>
    match s.phase i with
    | .checked => s.write cmd i
    | _ => none
  | .commit i =>
    match s.phase i with
    | .wrote b => some ({ s with versions := s.versions.commit i }.move i (.ended (.ok b)))
    | _ => none
  | .fail i =>
    match s.phase i with
    | .ended _ | .failed => none
    | _ => some ({ s with versions := s.versions.abort i }.move i .failed)

end Step

/-! ## One after another -/

/-- Each command on its own; one that is `stale` does not check again. -/
def late (cmd : τ → Command ixs ε β) (stale : τ → Bool) (t : Table ixs) (i : τ) :
    Except ε β × Table ixs :=
  if stale i then (cmd i).write t else (cmd i).alone t

/-- `j` was committed after the check of `i`. -/
def CommittedSince (l : List (Label τ)) (i j : τ) : Prop :=
  ∃ a b, l = a ++ .commit j :: b ∧ .check i ∈ a

/-- `j` was committed after the check of `i` and before the statement or the commit that ended `i`. -/
def Overtakes (l : List (Label τ)) (j i : τ) : Prop :=
  ∃ a b, l = a ++ .commit j :: b ∧ .check i ∈ a ∧ (.write i ∈ b ∨ .commit i ∈ b)

/-- The check that `i` passed was made to fail by a command that was committed in between. -/
def Overtaken (cmd : τ → Command ixs ε β) (stale : τ → Bool) (t₀ : Table ixs) (l : List (Label τ))
    (order : List τ) (i : τ) : Prop :=
  ∃ before j after, order = before ++ j :: after ∧ i ∈ after ∧ Overtakes l j i ∧
    let t := (answers (late cmd stale) t₀ before).2
    (cmd i).check t = none ∧ (cmd i).check (late cmd stale t j).2 ≠ none

def Phase.outcome : Phase ε β → Option (Except ε β)
  | .ended r => some r
  | _ => none

def State.outcome (s : State τ ixs ε β) (i : τ) : Option (Except ε β) := (s.phase i).outcome

/-- What a command that is not at its end has done so far. -/
def Underway (cmd : τ → Command ixs ε β) (s : State τ ixs ε β) (i : τ) : Phase ε β → Prop
  | .wrote b => ∃ v ∈ s.versions.pending, v.owner = i ∧
      (cmd i).version s.versions.table = some (v.old, v.new) ∧ (cmd i).result v.new = .ok b
  | _ => True

def Phase.Passed : Phase ε β → Prop
  | .checked | .wrote _ => True
  | _ => False

/-- The check of `i` passed at a place in the order; since then only commits have changed anything. -/
def PassedAt (cmd : τ → Command ixs ε β) (stale : τ → Bool) (t₀ : Table ixs) (l : List (Label τ))
    (order : List τ) (i : τ) : Prop :=
  .check i ∈ l ∧ ∃ before after, order = before ++ after ∧
    (cmd i).check (answers (late cmd stale) t₀ before).2 = none ∧
    ∀ x j y, after = x ++ j :: y → CommittedSince l i j ∨
      let t := (answers (late cmd stale) t₀ (before ++ x)).2
      (late cmd stale t j).2 = t

structure Inv (cmd : τ → Command ixs ε β) (t₀ : Table ixs) (l : List (Label τ)) (s : State τ ixs ε β)
    (order : List τ) (stale : τ → Bool) : Prop where
  serial : SerialOrder (late cmd stale) t₀ s.outcome s.versions.table order
  underway : ∀ i, Underway cmd s i (s.phase i)
  passed : ∀ i, (s.phase i).Passed → PassedAt cmd stale t₀ l order i
  stale : ∀ i, stale i = true → Overtaken cmd stale t₀ l order i

section Invariant

variable {cmd : τ → Command ixs ε β} {t₀ : Table ixs} {s s' : State τ ixs ε β} {order : List τ}
  {stale stale' : τ → Bool} {i j : τ} {p : Phase ε β} {b : β} {vs : Versions τ ixs}
  {l : List (Label τ)} {x : Label τ}

theorem inv_start : Inv cmd t₀ [] (start τ ε β t₀) [] fun _ => false :=
  ⟨.nil fun _ => rfl, fun _ => trivial, fun _ h => h.elim, nofun⟩

theorem CommittedSince.snoc (h : CommittedSince l i j) (x : Label τ) :
    CommittedSince (l ++ [x]) i j := by
  obtain ⟨a, b, rfl, hi⟩ := h
  exact ⟨a, b ++ [x], by simp, hi⟩

theorem CommittedSince.overtakes (h : CommittedSince l i j) (hx : x = .write i ∨ x = .commit i) :
    Overtakes (l ++ [x]) j i := by
  obtain ⟨a, b, rfl, hi⟩ := h
  refine ⟨a, b ++ [x], by simp, hi, ?_⟩
  rcases hx with rfl | rfl
  · exact .inl (by simp)
  · exact .inr (by simp)

theorem Overtakes.snoc (h : Overtakes l j i) (x : Label τ) : Overtakes (l ++ [x]) j i := by
  obtain ⟨a, b, rfl, hi, hb⟩ := h
  exact ⟨a, b ++ [x], by simp, hi, hb.imp (List.mem_append_left _) (List.mem_append_left _)⟩

theorem Overtaken.extend {k : List τ} (h : Overtaken cmd stale t₀ l order i)
    (hagree : ∀ j ∈ order, ∀ t, late cmd stale t j = late cmd stale' t j) :
    Overtaken cmd stale' t₀ (l ++ [x]) (order ++ k) i := by
  obtain ⟨before, j, after, rfl, hi, hover, hpassed, hfails⟩ := h
  refine ⟨before, j, after ++ k, by simp, by simp [hi], hover.snoc x, ?_⟩
  have hbefore : answers (late cmd stale') t₀ before = answers (late cmd stale) t₀ before :=
    (answers_congr (fun k hk => hagree k (by simp [hk])) t₀).symm
  dsimp only
  rw [hbefore, ← hagree j (by simp)]
  exact ⟨hpassed, hfails⟩

theorem PassedAt.goesOn (h : PassedAt cmd stale t₀ l order i) (x : Label τ) :
    PassedAt cmd stale t₀ (l ++ [x]) order i := by
  obtain ⟨hi, before, after, horder, hpassed, hsince⟩ := h
  exact ⟨by simp [hi], before, after, horder, hpassed,
    fun a j b hafter => (hsince a j b hafter).imp_left fun hc => hc.snoc x⟩

theorem PassedAt.congr (h : PassedAt cmd stale t₀ l order i)
    (hagree : ∀ j ∈ order, ∀ t, late cmd stale t j = late cmd stale' t j) :
    PassedAt cmd stale' t₀ l order i := by
  obtain ⟨hi, before, after, rfl, hpassed, hsince⟩ := h
  have hbefore : ∀ a b, before ++ after = a ++ b →
      answers (late cmd stale') t₀ a = answers (late cmd stale) t₀ a := fun a b hab =>
    (answers_congr (fun k hk => hagree k (by simp [hab, hk])) t₀).symm
  refine ⟨hi, before, after, rfl, by rw [hbefore _ _ rfl]; exact hpassed, ?_⟩
  rintro a j b rfl
  refine (hsince a j b rfl).imp_right fun hsame => ?_
  dsimp only at hsame ⊢
  rwa [hbefore (before ++ a) (j :: b) (by simp), ← hagree j (by simp)]

theorem PassedAt.snoc (h : PassedAt cmd stale t₀ l order i)
    (hx : x = .commit j ∨
      let t := (answers (late cmd stale) t₀ order).2
      (late cmd stale t j).2 = t) :
    PassedAt cmd stale t₀ (l ++ [x]) (order ++ [j]) i := by
  obtain ⟨hi, before, after, rfl, hpassed, hsince⟩ := h
  refine ⟨by simp [hi], before, after ++ [j], by simp, hpassed, ?_⟩
  intro a k b hafter
  rcases List.eq_nil_or_concat b with rfl | ⟨b, c, rfl⟩
  · obtain ⟨rfl, hjk⟩ := List.append_inj' hafter rfl
    cases hjk
    exact hx.imp_left fun hx => ⟨l, [], by rw [hx], hi⟩
  · rw [List.concat_eq_append, ← List.cons_append, ← List.append_assoc] at hafter
    obtain ⟨rfl, -⟩ := List.append_inj' hafter rfl
    exact (hsince a k b rfl).imp_left fun hc => hc.snoc x

/-- Where a check fails that was passed earlier in the order, a command between made it fail, and
that one was committed since the check. -/
theorem PassedAt.overtaken (h : PassedAt cmd stale t₀ l order i)
    (hfails : (cmd i).check (answers (late cmd stale) t₀ order).2 ≠ none)
    (hx : x = .write i ∨ x = .commit i) : Overtaken cmd stale t₀ (l ++ [x]) (order ++ [i]) i := by
  obtain ⟨-, before, after, rfl, hpassed, hsince⟩ := h
  rw [answers_append] at hfails
  obtain ⟨a, j, b, rfl, ha, hj⟩ :=
    answers_turn (P := fun t => (cmd i).check t = none) hpassed hfails
  have hat := congrArg Prod.snd (answers_append (late cmd stale) t₀ before a)
  rw [← hat] at ha hj
  refine ⟨before ++ a, j, b ++ [i], by simp, by simp, ?_, ha, hj⟩
  rcases hsince a j b rfl with hcommitted | hsame
  · exact hcommitted.overtakes hx
  · exact absurd (by rw [hsame]; exact ha) hj

variable [DecidableEq τ]

omit [DecidableEq ρ] [Keyed ixs] in
@[simp] theorem phase_move_self (s : State τ ixs ε β) (i : τ) (p : Phase ε β) :
    (s.move i p).phase i = p :=
  update_self ..

omit [DecidableEq ρ] [Keyed ixs] in
@[simp] theorem phase_move_of_ne (s : State τ ixs ε β) (hji : j ≠ i) (p : Phase ε β) :
    (s.move i p).phase j = s.phase j :=
  update_of_ne hji ..

omit [DecidableEq ρ] [Keyed ixs] in
theorem outcome_move (s : State τ ixs ε β) (i : τ) (p : Phase ε β) :
    (s.move i p).outcome = update s.outcome i p.outcome := by
  funext j
  unfold State.outcome
  by_cases hj : j = i
  · subst hj
    simp
  · simp [hj]

theorem Inv.others (h : Inv cmd t₀ l s order stale) (hji : j ≠ i)
    (hkeep : ∀ v ∈ s.versions.pending, v.owner ≠ i → v ∈ vs.pending) :
    Underway cmd ({ s with versions := vs }.move i p) j (s.phase j) := by
  have hj := h.underway j
  cases hp : s.phase j with
  | wrote b =>
    rw [hp] at hj
    obtain ⟨v, hv, howner, hversion, hresult⟩ := hj
    have hmem := hkeep v hv (by rw [howner]; exact hji)
    exact ⟨v, hmem, howner, (cmd j).moved hversion (vs.held v hmem), hresult⟩
  | begun | checked | ended | failed => trivial

theorem Inv.goesOn (h : Inv cmd t₀ l s order stale) (hi : s.outcome i = none) (hp : p.outcome = none)
    (htable : vs.table = s.versions.table)
    (hkeep : ∀ v ∈ s.versions.pending, v.owner ≠ i → v ∈ vs.pending)
    (hunder : Underway cmd ({ s with versions := vs }.move i p) i p)
    (hpassed : p.Passed → PassedAt cmd stale t₀ (l ++ [x]) order i) :
    Inv cmd t₀ (l ++ [x]) ({ s with versions := vs }.move i p) order stale where
  serial := by
    rw [outcome_move, hp]
    change SerialOrder _ _ (update s.outcome i none) vs.table order
    rw [← hi, Function.update_eq_self, htable]
    exact h.serial
  underway j := by
    by_cases hji : j = i
    · rw [hji, phase_move_self]
      exact hunder
    · rw [phase_move_of_ne _ hji]
      exact h.others hji hkeep
  passed j hj := by
    by_cases hji : j = i
    · subst hji
      rw [phase_move_self] at hj
      exact hpassed hj
    · rw [phase_move_of_ne _ hji] at hj
      exact (h.passed j hj).goesOn x
  stale j hj := by
    have hover := (h.stale j hj).extend (x := x) (k := []) fun _ _ _ => rfl
    rwa [List.append_nil] at hover

theorem Inv.ends {r : Except ε β} (h : Inv cmd t₀ l s order stale) (hi : s.outcome i = none)
    (isStale : Bool)
    (hrun : late cmd (fun _ => isStale) s.versions.table i = (r, vs.table))
    (hlate : isStale = true → (s.phase i).Passed ∧ (cmd i).check s.versions.table ≠ none ∧
      (x = .write i ∨ x = .commit i))
    (hx : x = .commit i ∨ vs.table = s.versions.table)
    (hkeep : ∀ v ∈ s.versions.pending, v.owner ≠ i → v ∈ vs.pending) :
    Inv cmd t₀ (l ++ [x]) ({ s with versions := vs }.move i (.ended r)) (order ++ [i])
      (update stale i isStale) := by
  have hmem : i ∉ order := fun hmem => by simpa [hi] using (h.serial.mem_iff i).mp hmem
  have hagree : ∀ j ∈ order, ∀ t, late cmd stale t j = late cmd (update stale i isStale) t j := by
    intro j hj t
    unfold late
    rw [update_of_ne (by rintro rfl; exact hmem hj)]
  have hfinal : (answers (late cmd (update stale i isStale)) t₀ order).2 = s.versions.table := by
    rw [← answers_congr hagree t₀]
    exact h.serial.final
  have hrun' : late cmd (update stale i isStale) s.versions.table i = (r, vs.table) := by
    unfold late at hrun ⊢
    rwa [update_self]
  constructor
  case serial =>
    rw [outcome_move]
    exact (h.serial.congr hagree).snoc hi hrun'
  case underway =>
    intro j
    by_cases hji : j = i
    · rw [hji, phase_move_self]
      trivial
    · rw [phase_move_of_ne _ hji]
      exact h.others hji hkeep
  case passed =>
    intro j hj
    by_cases hji : j = i
    · rw [hji, phase_move_self] at hj
      exact hj.elim
    · rw [phase_move_of_ne _ hji] at hj
      refine ((h.passed j hj).congr hagree).snoc (hx.imp_right fun hsame => ?_)
      dsimp only
      rw [hfinal, hrun', hsame]
  case stale =>
    intro j hj
    by_cases hji : j = i
    · subst hji
      rw [update_self] at hj
      obtain ⟨hphase, hfails, hlabel⟩ := hlate hj
      exact ((h.passed j hphase).congr hagree).overtaken (by rw [hfinal]; exact hfails) hlabel
    · rw [update_of_ne hji] at hj
      exact (h.stale j hj).extend hagree

theorem Inv.check (h : Inv cmd t₀ l s order stale) (hp : s.phase i = .begun) :
    ∃ order' stale', Inv cmd t₀ (l ++ [.check i]) (s.check cmd i) order' stale' := by
  have hi : s.outcome i = none := by rw [State.outcome, hp]; rfl
  unfold State.check
  cases hc : (cmd i).check s.versions.table with
  | none =>
    refine ⟨order, stale, h.goesOn hi rfl rfl (fun v hv _ => hv) trivial fun _ => ?_⟩
    refine ⟨by simp, order, [], by simp, ?_, fun a j b hafter => by simp at hafter⟩
    rw [h.serial.final]
    exact hc
  | some e =>
    refine ⟨_, _, h.ends hi false ?_ nofun (.inr rfl) fun v hv _ => hv⟩
    simp [late, Command.alone, hc]

theorem Inv.endsHere {r : Except ε β} (h : Inv cmd t₀ l s order stale) (hp : (s.phase i).Passed)
    (hi : s.outcome i = none) (hrun : (cmd i).write s.versions.table = (r, vs.table))
    (hx : x = .write i ∧ vs.table = s.versions.table ∨ x = .commit i)
    (hkeep : ∀ v ∈ s.versions.pending, v.owner ≠ i → v ∈ vs.pending) :
    ∃ order' stale',
      Inv cmd t₀ (l ++ [x]) ({ s with versions := vs }.move i (.ended r)) order' stale' := by
  refine ⟨_, _, h.ends hi ((cmd i).check s.versions.table).isSome ?_ ?_
    (hx.symm.imp_right And.right) hkeep⟩
  · unfold late Command.alone
    cases hc : (cmd i).check s.versions.table <;> simpa using hrun
  · intro hsome
    refine ⟨hp, ?_, hx.imp_left And.left⟩
    rw [← Option.isSome_iff_ne_none]
    exact hsome

theorem Inv.write (h : Inv cmd t₀ l s order stale) (hp : s.phase i = .checked)
    (hw : s.write cmd i = some s') :
    ∃ order' stale', Inv cmd t₀ (l ++ [.write i]) s' order' stale' := by
  have hi : s.outcome i = none := by rw [State.outcome, hp]; rfl
  have hpassed : (s.phase i).Passed := by rw [hp]; trivial
  unfold State.write at hw
  dsimp only at hw
  split at hw
  case h_1 hversion =>
    cases hw
    exact h.endsHere hpassed hi (Prod.ext rfl ((cmd i).unwritten hversion)) (.inl ⟨rfl, rfl⟩)
      fun v hv _ => hv
  case h_2 o n hversion =>
    split at hw
    case isTrue => cases hw
    case isFalse =>
      split at hw
      case h_1 e he =>
        cases hw
        exact h.endsHere hpassed hi (Prod.ext he ((cmd i).raised he)) (.inl ⟨rfl, rfl⟩)
          fun v hv _ => hv
      case h_2 b hb =>
        split at hw
        case isFalse => cases hw
        case isTrue hadmits =>
          cases hw
          refine ⟨order, stale, h.goesOn hi rfl rfl
            (fun v hv _ => List.mem_append_left _ hv) ?_ fun _ => (h.passed i hpassed).goesOn _⟩
          exact ⟨⟨i, o, n⟩, List.mem_append_right _ (by simp), rfl, hversion,
            ((cmd i).accepted hversion hb).1⟩

theorem Inv.commit (h : Inv cmd t₀ l s order stale) (hp : s.phase i = .wrote b) :
    ∃ order' stale', Inv cmd t₀ (l ++ [.commit i])
      ({ s with versions := s.versions.commit i }.move i (.ended (.ok b))) order' stale' := by
  have hi : s.outcome i = none := by rw [State.outcome, hp]; rfl
  have hunder := h.underway i
  rw [hp] at hunder
  obtain ⟨v, hv, howner, hversion, hresult⟩ := hunder
  refine h.endsHere (by rw [hp]; trivial) hi ?_ (.inr rfl)
    fun w hw hne => Versions.mem_commit.mpr ⟨hw, hne⟩
  rw [Versions.commit_of_mem hv howner]
  exact (cmd i).written hversion hresult (s.versions.apart v hv)

theorem Inv.step (h : Inv cmd t₀ l s order stale) (hs : CheckedWrites.step cmd s x = some s') :
    ∃ order' stale', Inv cmd t₀ (l ++ [x]) s' order' stale' := by
  cases x with
  | check i =>
    simp only [CheckedWrites.step] at hs
    split at hs
    · cases hs
      exact h.check (by assumption)
    · cases hs
  | write i =>
    simp only [CheckedWrites.step] at hs
    split at hs
    · exact h.write (by assumption) hs
    · cases hs
  | commit i =>
    simp only [CheckedWrites.step] at hs
    split at hs
    · cases hs
      exact h.commit (by assumption)
    · cases hs
  | fail i =>
    simp only [CheckedWrites.step] at hs
    split at hs
    · cases hs
    · cases hs
    · rename_i hended _
      cases hs
      have hi : s.outcome i = none := by
        unfold State.outcome
        cases hp : s.phase i with
        | ended r => exact absurd hp (hended r)
        | begun | checked | wrote | failed => rfl
      exact ⟨order, stale, h.goesOn hi rfl rfl
        (fun v hv hne => Versions.mem_abort.mpr ⟨hv, hne⟩) trivial (fun hno => hno.elim)⟩

/-- **Serializable but for stale checks.** -/
theorem serial_but_stale (h : Run (ofStep (CheckedWrites.step cmd)) (start τ ε β t₀) l s) :
    ∃ order stale, SerialOrder (late cmd stale) t₀ s.outcome s.versions.table order ∧
      ∀ i, stale i = true → Overtaken cmd stale t₀ l order i := by
  obtain ⟨order, stale, hinv⟩ : ∃ order stale, Inv cmd t₀ l s order stale := by
    induction h with
    | nil => exact ⟨[], _, inv_start⟩
    | snoc _ hstep ih =>
      obtain ⟨order, stale, hinv⟩ := ih
      exact hinv.step hstep
  exact ⟨order, stale, hinv.serial, hinv.stale⟩

end Invariant

end CheckedWrites
