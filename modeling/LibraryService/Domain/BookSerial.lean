import LibraryService.General.Serial
import LibraryService.Domain.BookTransactions

/-!
# Serial orders of book commands

Deletes and updates that run side by side, compared with the same commands one after another.
-/

open Function (update)
open Transition Effect Relational LibraryService.Python LibraryService.Database

namespace LibraryService.Domain

variable {τ : Type} {c : BookWrite} {t t' : BookTable} {o n r : BookRow} {bookId : UUID}

/-! ## One command on its own -/

theorem handle_missing (h : liveRow t c.bookId = none) :
    handleBook t c.request = (.error (entityNotFound "Book" c.bookId), t) := by
  have hexists := existsBookById_runOn t c.bookId
  rw [h] at hexists
  cases c with
  | delete st bookId => exact respond_error (deleteBookById_missing hexists) rfl
  | update st u => exact respond_error (updateBookById_missing hexists) rfl

theorem handle_ok {a : BookAnswer} (h : liveRow t c.bookId = some o)
    (hrun : c.statement.runOn t = (.ok a, t')) : handleBook t c.request = (.ok a, t') := by
  have hexists := existsBookById_runOn t c.bookId
  rw [h] at hexists
  cases c with
  | delete st bookId =>
    obtain ⟨_, t₁, hx, hpure⟩ := bind_eq_ok hrun
    cases hpure
    exact respond_ok ((deleteBookById_exists hexists).trans hx)
  | update st u =>
    obtain ⟨_, t₁, hx, hpure⟩ := bind_eq_ok hrun
    cases hpure
    exact respond_ok ((updateBookById_exists hexists).trans hx)

theorem handle_error {e : Exc} (h : liveRow t c.bookId = some o)
    (hrun : (c.statement.runOn t).1 = .error e) : handleBook t c.request = (.error e, t) := by
  have hexists := existsBookById_runOn t c.bookId
  have htruth : Truthy e := c.statement_raises (Prod.ext hrun rfl)
  rw [h] at hexists
  cases c with
  | delete st bookId =>
    have hx := fst_error_of_bind_pure hrun
    exact respond_error ((deleteBookById_exists hexists).trans (Prod.ext hx rfl)) htruth
  | update st u =>
    have hx := fst_error_of_bind_pure hrun
    exact respond_error ((updateBookById_exists hexists).trans (Prod.ext hx rfl)) htruth

theorem handle_cases (c : BookWrite) (t : BookTable) :
    (liveRow t c.bookId = none ∧
        handleBook t c.request = (.error (entityNotFound "Book" c.bookId), t)) ∨
      ∃ o, liveRow t c.bookId = some o ∧
        ((∃ e, handleBook t c.request = (.error e, t)) ∨
          ∃ n hn, c.version t = some (o, n) ∧
            handleBook t c.request = (.ok (c.answer n), t.replace o n hn)) := by
  cases hlive : liveRow t c.bookId with
  | none => exact .inl ⟨rfl, handle_missing hlive⟩
  | some o =>
    obtain ⟨ho, hid, -⟩ := liveRow_eq_some.mp hlive
    refine .inr ⟨o, rfl, ?_⟩
    rcases BookWrite.statement_cases ho hid with ⟨n, hn, hv, hrun⟩ | ⟨e, hrun⟩
    · exact .inr ⟨n, hn, hv, handle_ok hlive hrun⟩
    · exact .inl ⟨e, handle_error hlive hrun⟩

/-! ## Commands one after another -/

variable (cmd : τ → BookWrite)

def serially (t : BookTable) (i : τ) : Except Exc BookAnswer × BookTable :=
  handleBook t (cmd i).request

variable {cmd} {i j : τ}

theorem assign_id (h : c.assign o = .ok n) : n.id = o.id := by
  cases c with
  | delete st bookId => cases h; rfl
  | update st u => exact (setBook_keeps h).1

theorem serially_keeps_missing (h : liveRow t bookId = none) (i : τ) :
    liveRow (serially cmd t i).2 bookId = none := by
  unfold serially
  rcases handle_cases (cmd i) t with ⟨-, hrun⟩ | ⟨o, ho, ⟨e, hrun⟩ | ⟨n, hn, hv, hrun⟩⟩
  · rw [hrun]; exact h
  · rw [hrun]; exact h
  · rw [hrun]
    obtain ⟨-, hmem, hid, ha⟩ := BookWrite.version_eq_some.mp hv
    rw [liveRow_replace hmem (assign_id ha), if_neg, h]
    rintro rfl
    rw [← hid, h] at ho
    cases ho

theorem serially_deletes {st : Stmt} {a : BookAnswer} (hc : cmd i = .delete st bookId)
    (h : (serially cmd t i).1 = .ok a) : liveRow (serially cmd t i).2 bookId = none := by
  unfold serially at h ⊢
  rcases handle_cases (cmd i) t with ⟨-, hrun⟩ | ⟨o, ho, ⟨e, hrun⟩ | ⟨n, hn, hv, hrun⟩⟩
  · rw [hrun] at h; cases h
  · rw [hrun] at h; cases h
  · rw [hrun]
    obtain ⟨-, hmem, hid, ha⟩ := BookWrite.version_eq_some.mp hv
    rw [liveRow_replace hmem (assign_id ha), if_pos (by rw [hid, hc]; rfl)]
    rw [hc] at ha
    cases ha
    rfl

/-- In a serial order a deleted book is not found any more. -/
theorem deleted_once {t₀ : BookTable} {ended : τ → Option (Except Exc BookAnswer)}
    {before after : List τ} {st : Stmt} {a : BookAnswer}
    (h : SerialOrder (serially cmd) t₀ ended t (before ++ i :: after))
    (hc : cmd i = .delete st bookId) (hok : ended i = some (.ok a)) (hj : j ∈ after)
    (hid : (cmd j).bookId = bookId) : ended j = some (.error (entityNotFound "Book" bookId)) := by
  obtain ⟨t₁, hmissing, hj⟩ := h.later (I := fun t => liveRow t bookId = none)
    (fun t ht => serially_deletes hc (Option.some.inj (ht.symm.trans hok)))
    (fun t k ht => serially_keeps_missing ht k) hj
  rw [hj, serially, handle_missing (hid ▸ hmissing), hid]

/-! ## Commands side by side -/

variable {t₀ : BookTable} {s s' : Side τ} {order : List τ} {a : BookAnswer}

def Phase.outcome : Phase → Option (Except Exc BookAnswer)
  | .ended outcome => some outcome
  | _ => none

def Side.outcome (s : Side τ) (i : τ) : Option (Except Exc BookAnswer) := (s.phase i).outcome

variable (cmd)

/-- The book of an UPDATE is still live when the UPDATE runs. -/
def StillLive (s : Side τ) : Label τ → Prop
  | .update i => (liveRow s.versions.table (cmd i).bookId).isSome = true
  | _ => True

instance (s : Side τ) : ∀ l : Label τ, Decidable (StillLive cmd s l)
  | .update _ => inferInstanceAs (Decidable (_ = true))
  | .select _ | .commit _ | .fail _ _ => isTrue trivial

/-- What command `i` has written, and how far it is. -/
structure Wrote (s : Side τ) (i : τ) (a : BookAnswer) (v : Pending τ BookRow) : Prop where
  mem : v ∈ s.versions.pending
  owner : v.owner = i
  live : v.old.deletedAt = none
  version : (cmd i).version s.versions.table = some (v.old, v.new)
  answer : a = (cmd i).answer v.new

structure SerialInv (t₀ : BookTable) (s : Side τ) (order : List τ) : Prop where
  serial : SerialOrder (serially cmd) t₀ s.outcome s.versions.table order
  wrote : ∀ i a, s.phase i = .wrote a → ∃ v, Wrote cmd s i a v

variable {cmd}

theorem outcome_move [DecidableEq τ] (s : Side τ) (i : τ) (p : Phase) :
    (s.move i p).outcome = update s.outcome i p.outcome := by
  funext j
  unfold Side.outcome
  by_cases hj : j = i
  · subst hj
    simp
  · simp [hj]

theorem start_inv : SerialInv cmd t₀ (Side.start τ t₀) [] :=
  ⟨.nil fun _ => rfl, nofun⟩

theorem Wrote.keep {v : Pending τ BookRow} (h : Wrote cmd s i a v)
    (hmem : v ∈ s'.versions.pending) : Wrote cmd s' i a v := by
  obtain ⟨hfits, -, hid, ha⟩ := BookWrite.version_eq_some.mp h.version
  exact ⟨hmem, h.owner, h.live,
    BookWrite.version_eq_some.mpr ⟨hfits, s'.versions.held v hmem, hid, ha⟩, h.answer⟩

variable [DecidableEq τ]

theorem SerialInv.still (h : SerialInv cmd t₀ s order) (hi : s.outcome i = none) :
    SerialOrder (serially cmd) t₀ (update s.outcome i none) s.versions.table order := by
  rw [← hi, Function.update_eq_self]
  exact h.serial

theorem SerialInv.move {p : Phase} (h : SerialInv cmd t₀ s order) (hp : ∀ a, p ≠ .wrote a)
    (vs : Versions τ [booksPk, booksTriple]) {order' : List τ}
    (hserial : SerialOrder (serially cmd) t₀ (update s.outcome i p.outcome) vs.table order')
    (hpending : ∀ v ∈ s.versions.pending, v.owner ≠ i → v ∈ vs.pending) :
    SerialInv cmd t₀ ({ s with versions := vs }.move i p) order' := by
  constructor
  case serial =>
    rw [outcome_move]
    exact hserial
  case wrote =>
    intro j a hj
    by_cases hji : j = i
    · rw [hji, Side.phase_move_self] at hj
      exact absurd hj (hp a)
    · rw [Side.phase_move_of_ne hji] at hj
      obtain ⟨v, hv⟩ := h.wrote j a hj
      exact ⟨v, hv.keep (hpending v hv.mem (by rw [hv.owner]; exact hji))⟩

theorem SerialInv.write (h : SerialInv cmd t₀ s order) (hi : s.outcome i = none)
    (hadm : s.versions.Admits i o n) (hd : o.deletedAt = none)
    (hv : (cmd i).version s.versions.table = some (o, n)) :
    SerialInv cmd t₀ ({ s with versions := s.versions.write i o n hadm }.move i
      (.wrote ((cmd i).answer n))) order := by
  constructor
  case serial =>
    rw [outcome_move]
    exact h.still hi
  case wrote =>
    intro j a hj
    by_cases hji : j = i
    · subst hji
      rw [Side.phase_move_self] at hj
      cases hj
      exact ⟨⟨j, o, n⟩, List.mem_append_right _ (by simp), rfl, hd, hv, rfl⟩
    · rw [Side.phase_move_of_ne hji] at hj
      obtain ⟨v, hv⟩ := h.wrote j a hj
      exact ⟨v, hv.keep (List.mem_append_left _ hv.mem)⟩

theorem commit_inv (h : SerialInv cmd t₀ s order) (hp : s.phase i = .wrote a) :
    SerialInv cmd t₀ ({ s with versions := s.versions.commit i }.move i (.ended (.ok a)))
      (order ++ [i]) := by
  have hi : s.outcome i = none := by rw [Side.outcome, hp]; rfl
  obtain ⟨v, hv⟩ := h.wrote i a hp
  obtain ⟨-, hmem, hid, -⟩ := BookWrite.version_eq_some.mp hv.version
  have hlive := liveRow_eq_some.mpr ⟨hmem, hid, hv.live⟩
  have hrun := handle_ok hlive (BookWrite.statement_ok hv.version (s.versions.apart v hv.mem))
  rw [← hv.answer] at hrun
  refine h.move ?_ _ ?_ fun w hw hne => Versions.mem_commit.mpr ⟨hw, hne⟩
  · exact fun _ hwrote => Phase.noConfusion hwrote
  · rw [Versions.commit_of_mem hv.mem hv.owner]
    exact h.serial.snoc hi hrun

theorem stepped_inv {l : Label τ} (h : SerialInv cmd t₀ s order) (hlive : StillLive cmd s l)
    (hstep : Stepped cmd s l s') : ∃ order', SerialInv cmd t₀ s' order' := by
  have hnone : ∀ i, (∀ r, s.phase i ≠ .ended r) → s.outcome i = none := by
    intro i hi
    unfold Side.outcome
    cases hp : s.phase i with
    | ended r => exact absurd hp (hi r)
    | begun | found | wrote | failed => rfl
  cases hstep with
  | found hp =>
    have hi := hnone _ fun r hr => by rw [hp] at hr; cases hr
    exact ⟨order, h.move (fun _ h => Phase.noConfusion h) s.versions (h.still hi) fun _ hv _ => hv⟩
  | @missing i hp hmissing =>
    have hi := hnone i fun r hr => by rw [hp] at hr; cases hr
    exact ⟨order ++ [i], h.move (fun _ h => Phase.noConfusion h) s.versions
      (h.serial.snoc hi (handle_missing hmissing)) fun _ hv _ => hv⟩
  | @wrote i o n a hadm hp hv ha =>
    have hi := hnone i fun r hr => by rw [hp] at hr; cases hr
    obtain ⟨r, hr⟩ := Option.isSome_iff_exists.mp hlive
    obtain ⟨hr, hrid, hd⟩ := liveRow_eq_some.mp hr
    obtain ⟨-, ho, hid, -⟩ := BookWrite.version_eq_some.mp hv
    obtain rfl := book_id_unique ho hr (hid.trans hrid.symm)
    rw [BookWrite.statement_ok hv hadm.unique] at ha
    cases ha
    exact ⟨order, h.write hi hadm hd hv⟩
  | @ended i r hp hrun hr =>
    have hi := hnone i fun r hr => by rw [hp] at hr; cases hr
    obtain ⟨o, ho⟩ := Option.isSome_iff_exists.mp hlive
    obtain ⟨hmem, hid, -⟩ := liveRow_eq_some.mp ho
    -- A statement that wrote nothing on a live book has raised.
    obtain ⟨e, rfl⟩ : ∃ e, r = .error e := by
      rcases hr with hv | hr
      · rcases BookWrite.statement_cases hmem hid with ⟨n, hn, hv', -⟩ | ⟨e, he⟩
        · rw [hv] at hv'; cases hv'
        · exact ⟨e, hrun.symm.trans he⟩
      · exact hr
    exact ⟨order ++ [i], h.move (fun _ h => Phase.noConfusion h) s.versions
      (h.serial.snoc hi (handle_error ho hrun)) fun _ hv _ => hv⟩
  | committed hp => exact ⟨_, commit_inv h hp⟩
  | failed hended =>
    refine ⟨order, h.move ?_ _ ?_ fun w hw hne => Versions.mem_abort.mpr ⟨hw, hne⟩⟩
    · exact fun _ hwrote => Phase.noConfusion hwrote
    · exact h.still (hnone _ hended)

/-! ## Serializability -/

def LiveBook (t : BookTable) (b : Book) : Prop := ∃ r ∈ t.rows, r.deletedAt = none ∧ r.toBook = b

/-- The commands that have ended could have run in this order, one after another from `t₀`, with the
outcomes that they had, and would have left the same live books. -/
def Serializes (cmd : τ → BookWrite) (t₀ : BookTable) (s : Side τ) (order : List τ) : Prop :=
  ∃ t, SerialOrder (serially cmd) t₀ s.outcome t order ∧
    ∀ b, LiveBook t b ↔ LiveBook s.versions.table b

/-- Once a book has been deleted, no other command that names it finds it. -/
def DeletedOnce (cmd : τ → BookWrite) (s : Side τ) (order : List τ) : Prop :=
  ∀ before i after st bookId a, order = before ++ i :: after → cmd i = .delete st bookId →
    s.outcome i = some (.ok a) → ∀ j ∈ after, (cmd j).bookId = bookId →
      s.outcome j = some (.error (entityNotFound "Book" bookId))

/-- **Deletes and updates are serializable** in every run in which the book of each UPDATE is
still live when the UPDATE runs. -/
theorem book_writes_serializable {l : List (Label τ)}
    (h : Run (fun x a y => ofStep (Side.step cmd) x a y ∧ StillLive cmd x a)
      (Side.start τ t₀) l s) :
    ∃ order, Serializes cmd t₀ s order ∧ DeletedOnce cmd s order := by
  obtain ⟨order, hinv⟩ : ∃ order, SerialInv cmd t₀ s order := by
    refine h.invariant (I := fun s => ∃ order, SerialInv cmd t₀ s order) ⟨[], start_inv⟩ ?_
    rintro x a y ⟨order, hx⟩ ⟨hstep, hlive⟩
    exact stepped_inv hx hlive (step_stepped hstep)
  refine ⟨order, ⟨_, hinv.serial, fun _ => Iff.rfl⟩, ?_⟩
  rintro before i after st bookId a rfl hc hok j hj hid
  exact deleted_once hinv.serial hc hok hj hid

omit [DecidableEq τ] in
theorem not_serializes_deletes {st st' : Stmt} {a' : BookAnswer} (hij : i ≠ j)
    (hi : cmd i = .delete st bookId) (hj : cmd j = .delete st' bookId)
    (hoi : s.outcome i = some (.ok a)) (hoj : s.outcome j = some (.ok a')) (order : List τ) :
    ¬ Serializes cmd t₀ s order := by
  rintro ⟨t, h, -⟩
  obtain ⟨before, after, rfl⟩ := List.append_of_mem ((h.mem_iff i).mpr (by rw [hoi]; rfl))
  have hmem := (h.mem_iff j).mpr (by rw [hoj]; rfl)
  rcases List.mem_append.mp hmem with hmem | hmem
  · obtain ⟨before, between, rfl⟩ := List.append_of_mem hmem
    rw [List.append_assoc, List.cons_append] at h
    have hout := deleted_once h hj hoj (List.mem_append_right _ List.mem_cons_self) (by rw [hi]; rfl)
    rw [hoi] at hout
    cases hout
  · have hout := deleted_once h hi hoi ((List.mem_cons.mp hmem).resolve_left hij.symm) (by rw [hj]; rfl)
    rw [hoj] at hout
    cases hout

def iliadRow : BookRow := ⟨⟨1⟩, "Iliad", 1488, "Homer", 0, 0, none⟩

def oneBook : BookTable := ⟨[iliadRow], List.pairwise_singleton _ _⟩

def bothDelete (_ : Bool) : BookWrite := .delete (.counting 0) ⟨1⟩

def bothCheckFirst : List (Label Bool) :=
  [.select false, .select true, .update false, .commit false, .update true, .commit true]

/-- Both commands see the book before either deletes it, and both succeed. -/
theorem double_delete_succeeds :
    ∃ s, Run (ofStep (Side.step bothDelete)) (Side.start Bool oneBook) bothCheckFirst s ∧
      (∀ i, s.outcome i = some (.ok .done)) ∧ ∀ order, ¬ Serializes bothDelete oneBook s order := by
  have hexec : (exec (Side.step bothDelete) (Side.start Bool oneBook) bothCheckFirst).map
      (fun s => (s.outcome false, s.outcome true)) = some (some (.ok .done), some (.ok .done)) := rfl
  obtain ⟨s, hs, hout⟩ := Option.map_eq_some_iff.mp hexec
  rw [Prod.mk.injEq] at hout
  refine ⟨s, run_of_exec hs, fun i => ?_, fun order => ?_⟩
  · cases i
    · exact hout.1
    · exact hout.2
  · exact not_serializes_deletes Bool.false_ne_true rfl rfl hout.1 hout.2 order

def renameAndDelete : Bool → BookWrite
  | false => .update (.counting 0) ⟨⟨1⟩, some (some "Ilias"), none, none⟩
  | true => .delete (.counting 1) ⟨1⟩

/-- The delete has seen the book before the rename is committed, and deletes it after. -/
def renameWithin : List (Label Bool) :=
  [.select true, .select false, .update false, .commit false, .update true, .commit true]

theorem book_writes_serializable_within :
    ∃ s, Run (fun x a y => ofStep (Side.step renameAndDelete) x a y ∧ StillLive renameAndDelete x a)
        (Side.start Bool oneBook) renameWithin s ∧
      ∃ order, Serializes renameAndDelete oneBook s order ∧ DeletedOnce renameAndDelete s order := by
  have hexec : (exec (guarded (Side.step renameAndDelete) (StillLive renameAndDelete))
      (Side.start Bool oneBook) renameWithin).isSome = true := rfl
  obtain ⟨s, hs⟩ := Option.isSome_iff_exists.mp hexec
  exact ⟨s, run_of_guarded hs, book_writes_serializable (run_of_guarded hs)⟩

end LibraryService.Domain
