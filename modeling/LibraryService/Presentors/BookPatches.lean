import Mathlib.Data.List.Nodup
import LibraryService.Domain.BookSerial
import LibraryService.Presentors.Books

/-!
# Partial updates of one book

Any number of PATCH requests on one live book, side by side.
-/

open Transition Effect Relational LibraryService.Python LibraryService.Database LibraryService.Domain

namespace LibraryService.Presentors

variable {τ α : Type}

/-! ## What the requests are for -/

structure Patch where
  st : Stmt
  body : PatchBody

/-- Some field is named, none is `null`, and no string is one that its column cuts. -/
structure Patch.Valid (p : Patch) : Prop where
  nonempty : p.body ≠ ⟨none, none, none⟩
  title : p.body.title ≠ some none
  year : p.body.year ≠ some none
  author : p.body.author ≠ some none
  unpadded : ∀ s, p.body.title = some (some s) ∨ p.body.author = some (some s) → ¬ Padded s

def Patch.command (bookId : UUID) (p : Patch) : BookWrite :=
  .update p.st (updateBookOf bookId (UpdateBookSchema.validate p.body).modelDump)

/-- The value of a field given by the last of these requests that named it. -/
def lastNamed (field : τ → Domain.Field α) (order : List τ) (initial : α) : α :=
  ((order.filterMap fun i => (field i).join).getLast?).getD initial

/-- The row after these requests, one after another. -/
def patched (patches : τ → Patch) (r : BookRow) (order : List τ) : BookRow :=
  { r with
    title := lastNamed (fun i => (patches i).body.title) order r.title
    year := lastNamed (fun i => (patches i).body.year) order r.year
    author := lastNamed (fun i => (patches i).body.author) order r.author
    updatedAt := ((order.map fun i => (patches i).st.clock 0).getLast?).getD r.updatedAt }

variable {patches : τ → Patch} {bookId : UUID} {r₀ : BookRow} {t₀ : BookTable} {order : List τ} {i j : τ}

theorem lastNamed_snoc (field : τ → Domain.Field α) (order : List τ) (i : τ) (a : α) :
    lastNamed field (order ++ [i]) a = (field i).join.getD (lastNamed field order a) := by
  unfold lastNamed
  rw [List.filterMap_append]
  cases h : (field i).join with
  | none => simp [h]
  | some b => simp [h]

theorem patched_snoc : patched patches r₀ (order ++ [i]) =
    updatedRow (patches i).st (updateBookOf bookId (UpdateBookSchema.validate (patches i).body).modelDump)
      (patched patches r₀ order) := by
  rw [updateBookOf_validate]
  simp only [patched, updatedRow, lastNamed_snoc, List.map_append, List.map_cons, List.map_nil,
    List.getLast?_append, List.getLast?_singleton, Option.some_or, Option.getD_some]

theorem Patch.Valid.assign {p : Patch} (h : p.Valid) (r : BookRow) :
    (p.command bookId).assign r = .ok
      (updatedRow p.st (updateBookOf bookId (UpdateBookSchema.validate p.body).modelDump) r) := by
  refine setBook_nonNull ?_ r
  rw [updateBookOf_validate]
  exact ⟨h.title, h.year, h.author⟩

/-! ## What a run has done -/

def Committed (s : Side τ) (i : τ) : Prop := ∃ a, s.phase i = .ended (.ok a)

instance (s : Side τ) (i : τ) : Decidable (Committed s i) :=
  match h : s.phase i with
  | .ended (.ok a) => isTrue ⟨a, h⟩
  | .ended (.error _) | .begun | .found | .wrote _ | .failed _ =>
    isFalse fun ⟨_, ha⟩ => by rw [h] at ha; cases ha

/-- The requests in the order of their UPDATE statements. -/
def updatesOf (l : List (Label τ)) : List τ :=
  l.filterMap fun
    | .update i => some i
    | _ => none

/-- The committed requests in the order of their UPDATE statements. -/
def committedUpdates (l : List (Label τ)) (s : Side τ) : List τ :=
  (updatesOf l).filter fun i => decide (Committed s i)

/-- A request between its UPDATE and its end: the version it wrote, and no request that came to its
UPDATE later has been committed. -/
structure Holds (patches : τ → Patch) (r₀ : BookRow) (l : List (Label τ)) (s : Side τ) (i : τ)
    (a : BookAnswer) : Prop where
  version : ∃ v ∈ s.versions.pending, v.owner = i ∧
    v.old = patched patches r₀ (committedUpdates l s) ∧
    v.new = patched patches r₀ (committedUpdates l s ++ [i]) ∧ a = .book v.new.toBook
  latest : ∃ before after, updatesOf l = before ++ i :: after ∧ ∀ j ∈ after, ¬ Committed s j

structure PatchInv (patches : τ → Patch) (bookId : UUID) (r₀ : BookRow) (t₀ : BookTable)
    (l : List (Label τ)) (s : Side τ) : Prop where
  rows : ∀ r, r ∈ s.versions.table.rows ↔
    r = patched patches r₀ (committedUpdates l s) ∨ r ∈ t₀.rows ∧ r.id ≠ bookId
  nodup : (updatesOf l).Nodup
  gone : ∀ i ∈ updatesOf l, s.phase i ≠ .begun ∧ s.phase i ≠ .found
  updated : ∀ i, Committed s i → i ∈ updatesOf l
  answered : ∀ before i after, committedUpdates l s = before ++ i :: after →
    s.phase i = .ended (.ok (.book (patched patches r₀ (before ++ [i])).toBook))
  wrote : ∀ i a, s.phase i = .wrote a → Holds patches r₀ l s i a

theorem start_patchInv (h₀ : r₀ ∈ t₀.rows) (hid : r₀.id = bookId) :
    PatchInv patches bookId r₀ t₀ [] (Side.start τ t₀) := by
  have hpatched : patched patches r₀ [] = r₀ := rfl
  constructor
  case rows =>
    intro r
    change r ∈ t₀.rows ↔ r = patched patches r₀ [] ∨ _
    rw [hpatched]
    constructor
    · intro hr
      by_cases hrid : r.id = bookId
      · exact .inl (book_id_unique hr h₀ (hrid.trans hid.symm))
      · exact .inr ⟨hr, hrid⟩
    · rintro (rfl | ⟨hr, -⟩)
      · exact h₀
      · exact hr
  case nodup => exact .nil
  case gone => simp [updatesOf]
  case updated =>
    rintro i ⟨a, ha⟩
    cases ha
  case answered =>
    intro before i after h
    exact absurd (congrArg List.length h) (by simp [committedUpdates, updatesOf])
  case wrote => exact fun i a ha => Phase.noConfusion ha

variable [DecidableEq τ] {l l' : List (Label τ)} {s s' : Side τ} {a : BookAnswer}

variable {vs : Versions τ [booksPk, booksTriple]} {p : Phase}

theorem committed_move_of_ne (h : j ≠ i) :
    Committed ({ s with versions := vs }.move i p) j ↔ Committed s j := by
  unfold Committed
  rw [Side.phase_move_of_ne h]

theorem committed_move_self :
    Committed ({ s with versions := vs }.move i p) i ↔ ∃ a, p = .ended (.ok a) := by
  unfold Committed
  rw [Side.phase_move_self]

theorem committedUpdates_move (vs : Versions τ [booksPk, booksTriple]) (hi : ¬ Committed s i)
    (hp : ∀ a, p ≠ .ended (.ok a)) {u : List τ} (hl : updatesOf l' = updatesOf l ++ u) (hu : ∀ j ∈ u, j = i) :
    committedUpdates l' ({ s with versions := vs }.move i p) = committedUpdates l s := by
  have hself : ¬ Committed ({ s with versions := vs }.move i p) i := by
    rw [committed_move_self]
    rintro ⟨a, ha⟩
    exact hp a ha
  unfold committedUpdates
  rw [hl, List.filter_append]
  have hnew : u.filter (fun j => decide (Committed ({ s with versions := vs }.move i p) j)) = [] := by
    rw [List.filter_eq_nil_iff]
    intro j hj
    rw [hu j hj]
    simpa using hself
  rw [hnew, List.append_nil]
  refine List.filter_congr fun j _ => decide_eq_decide.mpr ?_
  by_cases hji : j = i
  · subst hji
    exact iff_of_false hself hi
  · exact committed_move_of_ne hji

theorem Holds.move (h : Holds patches r₀ l s j a) (hji : j ≠ i) (hi : ¬ Committed s i)
    (hp : ∀ a, p ≠ .ended (.ok a)) {u : List τ} (hl : updatesOf l' = updatesOf l ++ u)
    (hu : ∀ j ∈ u, j = i) (hpending : ∀ v ∈ s.versions.pending, v.owner ≠ i → v ∈ vs.pending) :
    Holds patches r₀ l' ({ s with versions := vs }.move i p) j a := by
  obtain ⟨⟨v, hv, rfl, hold, hnew, ha⟩, before, after, hsplit, hlatest⟩ := h
  have horder := committedUpdates_move vs hi hp hl hu
  constructor
  case version =>
    rw [horder]
    exact ⟨v, hpending v hv hji, rfl, hold, hnew, ha⟩
  case latest =>
    refine ⟨before, after ++ u, by rw [hl, hsplit]; simp, fun k hk => ?_⟩
    by_cases hki : k = i
    · rw [hki, committed_move_self]
      rintro ⟨a, ha⟩
      exact hp a ha
    · rw [committed_move_of_ne hki]
      rcases List.mem_append.mp hk with hk | hk
      · exact hlatest k hk
      · exact absurd (hu k hk) hki

theorem PatchInv.move (vs : Versions τ [booksPk, booksTriple])
    (h : PatchInv patches bookId r₀ t₀ l s) (hi : ¬ Committed s i)
    (hp : ∀ a, p ≠ .ended (.ok a)) {u : List τ} (hl : updatesOf l' = updatesOf l ++ u)
    (hu : ∀ j ∈ u, j = i) (hnodup : (updatesOf l').Nodup)
    (hgone : i ∈ updatesOf l' → p ≠ .begun ∧ p ≠ .found)
    (htable : vs.table = s.versions.table)
    (hpending : ∀ v ∈ s.versions.pending, v.owner ≠ i → v ∈ vs.pending)
    (hwrote : ∀ a, p = .wrote a →
      Holds patches r₀ l' ({ s with versions := vs }.move i p) i a) :
    PatchInv patches bookId r₀ t₀ l' ({ s with versions := vs }.move i p) := by
  have horder := committedUpdates_move vs hi hp hl hu
  constructor
  case rows =>
    rw [horder]
    exact fun r => htable ▸ h.rows r
  case nodup => exact hnodup
  case gone =>
    intro j hj
    by_cases hji : j = i
    · subst hji
      rw [Side.phase_move_self]
      exact hgone hj
    · rw [Side.phase_move_of_ne hji]
      rw [hl, List.mem_append] at hj
      exact h.gone j (hj.resolve_right fun hj => hji (hu j hj))
  case updated =>
    intro j hj
    rw [hl]
    by_cases hji : j = i
    · rw [hji, committed_move_self] at hj
      obtain ⟨a, ha⟩ := hj
      exact absurd ha (hp a)
    · rw [committed_move_of_ne hji] at hj
      exact List.mem_append_left _ (h.updated j hj)
  case answered =>
    rw [horder]
    intro before j after hsplit
    have hans := h.answered before j after hsplit
    rw [Side.phase_move_of_ne (by rintro rfl; exact hi ⟨_, hans⟩)]
    exact hans
  case wrote =>
    intro j a hj
    by_cases hji : j = i
    · subst hji
      rw [Side.phase_move_self] at hj
      exact hwrote a hj
    · rw [Side.phase_move_of_ne hji] at hj
      exact (h.wrote j a hj).move hji hi hp hl hu hpending

/-! ## One step -/

/-- The lock of the row is held by one request at a time. -/
theorem PatchInv.one_writer {a' : BookAnswer} (h : PatchInv patches bookId r₀ t₀ l s)
    (hi : s.phase i = .wrote a) (hj : s.phase j = .wrote a') : i = j := by
  obtain ⟨v, hv, rfl, hold, -⟩ := (h.wrote i a hi).version
  obtain ⟨w, hw, rfl, hold', -⟩ := (h.wrote j a' hj).version
  by_contra hne
  have hvw : v ≠ w := by rintro rfl; exact hne rfl
  exact (Versions.pair hv hw hvw).2.1 (hold.trans hold'.symm)

theorem committedUpdates_commit (vs : Versions τ [booksPk, booksTriple])
    (h : PatchInv patches bookId r₀ t₀ l s) (hi : s.phase i = .wrote a) :
    committedUpdates l ({ s with versions := vs }.move i (.ended (.ok a))) =
      committedUpdates l s ++ [i] := by
  obtain ⟨before, after, hsplit, hlatest⟩ := (h.wrote i a hi).latest
  have hnodup := h.nodup
  have hnot : ¬ Committed s i := by
    rintro ⟨a', ha'⟩
    rw [hi] at ha'
    cases ha'
  rw [hsplit, List.nodup_middle, List.nodup_cons, List.mem_append, not_or] at hnodup
  obtain ⟨⟨hbefore, hafter⟩, -⟩ := hnodup
  have hsame : before.filter (fun j => decide
        (Committed ({ s with versions := vs }.move i (.ended (.ok a))) j)) =
      before.filter fun j => decide (Committed s j) :=
    List.filter_congr fun j hj => decide_eq_decide.mpr
      (committed_move_of_ne (by rintro rfl; exact hbefore hj))
  have hlast : after.filter (fun j => decide
      (Committed ({ s with versions := vs }.move i (.ended (.ok a))) j)) = [] := by
    rw [List.filter_eq_nil_iff]
    intro j hj
    rw [decide_eq_true_eq, committed_move_of_ne (by rintro rfl; exact hafter hj)]
    exact hlatest j hj
  have hnone : after.filter (fun j => decide (Committed s j)) = [] := by
    rw [List.filter_eq_nil_iff]
    intro j hj
    simpa using hlatest j hj
  unfold committedUpdates
  rw [hsplit, List.filter_append, List.filter_append, List.filter_cons, List.filter_cons, hsame,
    hlast, hnone, if_pos (decide_eq_true (committed_move_self.mpr ⟨a, rfl⟩)),
    if_neg (by simpa using hnot), List.append_nil]

theorem commit_patchInv (h : PatchInv patches bookId r₀ t₀ l s) (hid : r₀.id = bookId)
    (hi : s.phase i = .wrote a) :
    PatchInv patches bookId r₀ t₀ l
      ({ s with versions := s.versions.commit i }.move i (.ended (.ok a))) := by
  obtain ⟨v, hv, hvi, hold, hnew, ha⟩ := (h.wrote i a hi).version
  have horder := committedUpdates_commit (s.versions.commit i) h hi
  constructor
  case rows =>
    intro r
    rw [horder]
    change r ∈ (s.versions.commit i).table.rows ↔ _
    rw [Versions.commit_of_mem hv hvi]
    have hmem := Table.mem_replace (x := r) (s.versions.apart v hv) (s.versions.held v hv)
    refine hmem.trans ?_
    rw [← hnew, h.rows r, hold]
    constructor
    · rintro (hr | ⟨hr | hr, hne⟩)
      · exact .inl hr
      · exact absurd hr hne
      · exact .inr hr
    · rintro (hr | ⟨hr, hrid⟩)
      · exact .inl hr
      · refine .inr ⟨.inr ⟨hr, hrid⟩, ?_⟩
        rintro rfl
        exact hrid hid
  case nodup => exact h.nodup
  case gone =>
    intro j hj
    by_cases hji : j = i
    · rw [hji, Side.phase_move_self]
      exact ⟨nofun, nofun⟩
    · rw [Side.phase_move_of_ne hji]
      exact h.gone j hj
  case updated =>
    intro j hj
    by_cases hji : j = i
    · obtain ⟨before, after, hsplit, -⟩ := (h.wrote i a hi).latest
      rw [hji, hsplit]
      exact List.mem_append_right _ List.mem_cons_self
    · rw [committed_move_of_ne hji] at hj
      exact h.updated j hj
  case answered =>
    intro before j after hsplit
    rw [horder] at hsplit
    rcases List.eq_nil_or_concat after with rfl | ⟨after', k, rfl⟩
    · obtain ⟨rfl, hij⟩ := List.append_inj' hsplit rfl
      cases hij
      rw [Side.phase_move_self, ha, hnew]
    · rw [List.concat_eq_append, ← List.cons_append, ← List.append_assoc] at hsplit
      obtain ⟨hsplit, -⟩ := List.append_inj' hsplit rfl
      have hans := h.answered before j after' hsplit
      rw [Side.phase_move_of_ne (by rintro rfl; rw [hi] at hans; cases hans)]
      exact hans
  case wrote =>
    intro j a' hj
    by_cases hji : j = i
    · rw [hji, Side.phase_move_self] at hj
      cases hj
    · rw [Side.phase_move_of_ne hji] at hj
      exact absurd (h.one_writer hj hi) hji

omit [DecidableEq τ] in
theorem updatesOf_append (l k : List (Label τ)) : updatesOf (l ++ k) = updatesOf l ++ updatesOf k :=
  List.filterMap_append

omit [DecidableEq τ] in
theorem PatchInv.relabel (h : PatchInv patches bookId r₀ t₀ l s)
    (hl : updatesOf l' = updatesOf l) : PatchInv patches bookId r₀ t₀ l' s := by
  have horder : committedUpdates l' s = committedUpdates l s := by
    unfold committedUpdates
    rw [hl]
  constructor
  case rows => rw [horder]; exact h.rows
  case nodup => rw [hl]; exact h.nodup
  case gone => rw [hl]; exact h.gone
  case updated => rw [hl]; exact h.updated
  case answered => rw [horder]; exact h.answered
  case wrote =>
    intro i a ha
    obtain ⟨hversion, hlatest⟩ := h.wrote i a ha
    exact ⟨by rw [horder]; exact hversion, by rw [hl]; exact hlatest⟩

omit [DecidableEq τ] in
theorem PatchInv.mem_row (h : PatchInv patches bookId r₀ t₀ l s) :
    patched patches r₀ (committedUpdates l s) ∈ s.versions.table.rows :=
  (h.rows _).mpr (.inl rfl)

omit [DecidableEq τ] in
theorem PatchInv.ended_error {r : Except Exc BookAnswer} (h : PatchInv patches bookId r₀ t₀ l s)
    (hid : r₀.id = bookId)
    (hrun : (((patches i).command bookId).statement.runOn s.versions.table).1 = r)
    (hr : ((patches i).command bookId).version s.versions.table = none ∨ ∃ e, r = .error e) :
    ∃ e, r = .error e := by
  rcases hr with hv | hr
  · rcases BookWrite.statement_cases (c := (patches i).command bookId) h.mem_row hid with
      ⟨n, hn, hv', -⟩ | ⟨e, he⟩
    · rw [hv] at hv'
      cases hv'
    · exact ⟨e, hrun.symm.trans he⟩
  · exact hr

theorem stepped_patchInv {x : Label τ} (hvalid : ∀ i, (patches i).Valid) (hid : r₀.id = bookId)
    (h : PatchInv patches bookId r₀ t₀ l s)
    (hstep : Stepped (fun i => (patches i).command bookId) s x s') :
    PatchInv patches bookId r₀ t₀ (l ++ [x]) s' := by
  have hnot : ∀ {i} {p : Phase}, s.phase i = p → (∀ a, p ≠ .ended (.ok a)) → ¬ Committed s i := by
    rintro i p hp hne ⟨a, ha⟩
    exact hne a (hp.symm.trans ha)
  -- A label other than an UPDATE leaves the order of the UPDATE statements.
  have hsame : ∀ y : Label τ, updatesOf [y] = [] → updatesOf (l ++ [y]) = updatesOf l := by
    intro y hy
    rw [updatesOf_append, hy, List.append_nil]
  have hnext : ∀ i, s.phase i = .found → i ∉ updatesOf l ∧ (updatesOf (l ++ [.update i])).Nodup := by
    intro i hp
    have hnew : i ∉ updatesOf l := fun hi => (h.gone i hi).2 hp
    refine ⟨hnew, ?_⟩
    rw [updatesOf_append]
    change (updatesOf l ++ [i]).Nodup
    rw [← List.concat_eq_append]
    exact h.nodup.concat hnew
  cases hstep with
  | @found i o hp hlive =>
    have hl := hsame (.select i) rfl
    have hgone : i ∉ updatesOf l := fun hi => (h.gone i hi).1 hp
    refine h.move s.versions (u := []) (hnot hp (by simp)) (by simp) (updatesOf_append ..) (by simp)
      ?_ ?_ rfl (fun _ hv _ => hv) (by simp)
    · rw [hl]; exact h.nodup
    · rw [hl]; exact fun hi => absurd hi hgone
  | @missing i hp hlive =>
    have hl := hsame (.select i) rfl
    refine h.move s.versions (u := []) (hnot hp (by simp)) (by simp) (updatesOf_append ..) (by simp)
      ?_ (by simp) rfl (fun _ hv _ => hv) (by simp)
    rw [hl]; exact h.nodup
  | @wrote i o n a hadm hp hv hrun =>
    obtain ⟨-, ho, hoid, ha⟩ := BookWrite.version_eq_some.mp hv
    obtain rfl : o = patched patches r₀ (committedUpdates l s) :=
      book_id_unique ho h.mem_row (hoid.trans hid.symm)
    rw [(hvalid i).assign, ← patched_snoc] at ha
    cases ha
    rw [BookWrite.statement_ok hv hadm.unique] at hrun
    cases hrun
    have hl : updatesOf (l ++ [.update i]) = updatesOf l ++ [i] := updatesOf_append ..
    have horder := committedUpdates_move (p := .wrote (((patches i).command bookId).answer
      (patched patches r₀ (committedUpdates l s ++ [i])))) (s.versions.write i _ _ hadm)
      (hnot hp (by simp)) (by simp) hl (by simp)
    refine h.move _ (hnot hp (by simp)) (by simp) hl (by simp) (hnext i hp).2 (by simp) rfl
      (fun v hv _ => List.mem_append_left _ hv) ?_
    intro a ha
    cases ha
    constructor
    case version =>
      rw [horder]
      exact ⟨⟨i, _, _⟩, List.mem_append_right _ List.mem_cons_self, rfl, rfl, rfl, rfl⟩
    case latest => exact ⟨updatesOf l, [], hl, by simp⟩
  | @ended i r hp hrun hr =>
    obtain ⟨e, rfl⟩ := h.ended_error hid hrun hr
    refine h.move s.versions (u := [i]) (hnot hp (by simp)) (by simp) (updatesOf_append ..) (by simp)
      (hnext i hp).2 (by simp) rfl (fun _ hv _ => hv) (by simp)
  | @committed i a hp => exact (commit_patchInv h hid hp).relabel (hsame (.commit i) rfl)
  | @failed i e hended hfailed =>
    have hl := hsame (.fail i e) rfl
    refine h.move _ (u := []) (by rintro ⟨a, ha⟩; exact hended _ ha) (by simp) (updatesOf_append ..) (by simp)
      ?_ (by simp) rfl (fun _ hv hne => Versions.mem_abort.mpr ⟨hv, hne⟩) (by simp)
    rw [hl]; exact h.nodup

/-! ## No update is lost -/

/-- What a successful request answers. -/
def patchResponse (s : Side τ) (i : τ) : Option BookSchema :=
  match s.phase i with
  | .ended (.ok (.book book)) => some (bookSchema book)
  | _ => none

omit [DecidableEq τ] in
theorem patchResponse_isSome :
    (patchResponse s i).isSome ↔ ∃ book, s.phase i = .ended (.ok (.book book)) := by
  unfold patchResponse
  split
  case h_1 book hbook => exact iff_of_true rfl ⟨book, hbook⟩
  case h_2 hne => exact iff_of_false nofun fun ⟨book, hbook⟩ => hne book hbook

def rowSchema (r : BookRow) : BookSchema := bookSchema r.toBook

/-- The named fields are those of the last committed requests in the order of their UPDATE
statements, every response is the row right after its own UPDATE, and nothing else changes. -/
structure NothingLost (patches : τ → Patch) (bookId : UUID) (t₀ : BookTable) (r₀ : BookRow)
    (l : List (Label τ)) (s : Side τ) : Prop where
  row : ∃ r ∈ s.versions.table.rows, r.id = r₀.id ∧ r.createdAt = r₀.createdAt ∧
    r.deletedAt = r₀.deletedAt ∧
    r.title = lastNamed (fun i => (patches i).body.title) (committedUpdates l s) r₀.title ∧
    r.year = lastNamed (fun i => (patches i).body.year) (committedUpdates l s) r₀.year ∧
    r.author = lastNamed (fun i => (patches i).body.author) (committedUpdates l s) r₀.author
  others : ∀ r, r.id ≠ bookId → (r ∈ s.versions.table.rows ↔ r ∈ t₀.rows)
  succeeded : ∀ i, i ∈ committedUpdates l s ↔ (patchResponse s i).isSome
  response : ∀ before i after, committedUpdates l s = before ++ i :: after →
    patchResponse s i = some (rowSchema (patched patches r₀ (before ++ [i])))
  /-- The same row, read off the state right after the UPDATE. -/
  shown : ∀ l₁ i l₂, l = l₁ ++ .update i :: l₂ → (patchResponse s i).isSome →
    ∃ s₁, Run (ofStep (Side.step fun i => (patches i).command bookId)) (Side.start τ t₀)
        (l₁ ++ [.update i]) s₁ ∧
      ∃ v ∈ s₁.versions.pending, v.owner = i ∧ patchResponse s i = some (rowSchema v.new)

section Shown

variable {P : BookAnswer → Prop}

/-- From its UPDATE on, a request has no answer other than such a one. -/
structure Shows (i : τ) (P : BookAnswer → Prop) (s : Side τ) : Prop where
  gone : s.phase i ≠ .begun ∧ s.phase i ≠ .found
  wrote : ∀ a, s.phase i = .wrote a → P a
  ended : ∀ a, s.phase i = .ended (.ok a) → P a

theorem Shows.of_ne (vs : Versions τ [booksPk, booksTriple]) (h : Shows i P s) (hij : i ≠ j) :
    Shows i P ({ s with versions := vs }.move j p) := by
  have hp : ({ s with versions := vs }.move j p).phase i = s.phase i := Side.phase_move_of_ne hij p
  constructor
  case gone => rw [hp]; exact h.gone
  case wrote => rw [hp]; exact h.wrote
  case ended => rw [hp]; exact h.ended

theorem stepped_shows {x : Label τ} {cmd : τ → BookWrite} (h : Shows i P s)
    (hstep : Stepped cmd s x s') : Shows i P s' := by
  cases hstep with
  | @found j o hp | @missing j hp =>
    apply h.of_ne s.versions
    rintro rfl
    exact h.gone.1 hp
  | @wrote j o n a hadm hp =>
    apply h.of_ne
    rintro rfl
    exact h.gone.2 hp
  | @ended j r hp =>
    apply h.of_ne s.versions
    rintro rfl
    exact h.gone.2 hp
  | @committed j a hp =>
    by_cases hij : i = j
    · subst hij
      constructor
      case gone => simp
      case wrote => simp
      case ended =>
        intro a' ha
        rw [Side.phase_move_self] at ha
        cases ha
        exact h.wrote a hp
    · exact h.of_ne _ hij
  | @failed j e =>
    by_cases hij : i = j
    · subst hij
      constructor <;> simp
    · exact h.of_ne _ hij

end Shown

/-! ## Whole runs -/

theorem run_patchInv (hvalid : ∀ i, (patches i).Valid) (h₀ : r₀ ∈ t₀.rows) (hid : r₀.id = bookId)
    (h : Run (ofStep (Side.step fun i => (patches i).command bookId)) (Side.start τ t₀) l s) :
    PatchInv patches bookId r₀ t₀ l s := by
  induction h with
  | nil => exact start_patchInv h₀ hid
  | snoc _ hstep ih => exact stepped_patchInv hvalid hid ih (step_stepped hstep)

/-- Right after the UPDATE of a request, its answer can only be the version that it wrote. -/
theorem update_shows (hvalid : ∀ i, (patches i).Valid) (h₀ : r₀ ∈ t₀.rows) (hid : r₀.id = bookId)
    (h : Run (ofStep (Side.step fun i => (patches i).command bookId)) (Side.start τ t₀)
      (l ++ [.update i]) s) :
    Shows i (fun a => ∃ v ∈ s.versions.pending, v.owner = i ∧ a = .book v.new.toBook) s := by
  have hinv := run_patchInv hvalid h₀ hid h
  have hmem : i ∈ updatesOf (l ++ [.update i]) := by
    rw [updatesOf_append]
    exact List.mem_append_right _ List.mem_cons_self
  constructor
  case gone => exact hinv.gone i hmem
  case wrote =>
    intro a ha
    obtain ⟨v, hv, hvi, -, -, hanswer⟩ := (hinv.wrote i a ha).version
    exact ⟨v, hv, hvi, hanswer⟩
  case ended =>
    -- No request has answered when its UPDATE has only just run.
    intro a ha
    obtain ⟨s', hbefore, hstep⟩ := h.of_snoc
    cases step_stepped hstep with
    | wrote =>
      rw [Side.phase_move_self] at ha
      cases ha
    | ended hp hrun hr =>
      obtain ⟨e, rfl⟩ := (run_patchInv hvalid h₀ hid hbefore).ended_error hid hrun hr
      rw [Side.phase_move_self] at ha
      cases ha

/-- **No partial update is lost**, in whatever order the statements of the requests run. -/
theorem patches_not_lost (hvalid : ∀ i, (patches i).Valid) (h₀ : r₀ ∈ t₀.rows)
    (hid : r₀.id = bookId)
    (h : Run (ofStep (Side.step fun i => (patches i).command bookId)) (Side.start τ t₀) l s) :
    NothingLost patches bookId t₀ r₀ l s := by
  have hinv := run_patchInv hvalid h₀ hid h
  have hresponse : ∀ before i after, committedUpdates l s = before ++ i :: after →
      patchResponse s i = some (rowSchema (patched patches r₀ (before ++ [i]))) := by
    intro before i after hsplit
    rw [patchResponse, hinv.answered before i after hsplit]
    rfl
  constructor
  case row => exact ⟨_, hinv.mem_row, rfl, rfl, rfl, rfl, rfl, rfl⟩
  case others =>
    intro r hr
    rw [hinv.rows r]
    constructor
    · rintro (rfl | ⟨hmem, -⟩)
      · exact absurd hid hr
      · exact hmem
    · exact fun hmem => .inr ⟨hmem, hr⟩
  case succeeded =>
    intro i
    constructor
    · intro hi
      obtain ⟨before, after, hsplit⟩ := List.append_of_mem hi
      rw [hresponse before i after hsplit]
      rfl
    · intro hi
      obtain ⟨book, hbook⟩ := patchResponse_isSome.mp hi
      have hcommitted : Committed s i := ⟨_, hbook⟩
      exact List.mem_filter.mpr ⟨hinv.updated i hcommitted, decide_eq_true hcommitted⟩
  case response => exact hresponse
  case shown =>
    rintro l₁ i l₂ rfl hi
    obtain ⟨book, hbook⟩ := patchResponse_isSome.mp hi
    rw [← List.singleton_append, ← List.append_assoc] at h
    obtain ⟨s₁, hfirst, hrest⟩ := h.split
    have hshows := hrest.invariant (update_shows hvalid h₀ hid hfirst) fun x k y hx hstep =>
      stepped_shows hx (step_stepped hstep)
    obtain ⟨v, hv, hvi, hanswer⟩ := hshows.ended _ hbook
    refine ⟨s₁, hfirst, v, hv, hvi, ?_⟩
    rw [patchResponse, hbook, hanswer]
    rfl

def titleOrYear : Fin 3 → Patch
  | 0 => ⟨.counting 1, ⟨some (some "Odyssey"), none, none⟩⟩
  | 1 => ⟨.counting 2, ⟨none, some (some 0), none⟩⟩
  | 2 => ⟨.counting 3, ⟨some (some ""), none, none⟩⟩

def oneFails : List (Label (Fin 3)) :=
  [.select 0, .select 1, .select 2, .update 1, .commit 1, .update 2, .fail 2 .dbapiError,
    .update 0, .commit 0]

theorem patches_not_lost_oneFails :
    ∃ s, Run (ofStep (Side.step fun i => (titleOrYear i).command ⟨1⟩))
        (Side.start (Fin 3) oneBook) oneFails s ∧
      NothingLost titleOrYear ⟨1⟩ oneBook iliadRow oneFails s := by
  have hexec : (exec (Side.step fun i => (titleOrYear i).command ⟨1⟩)
    (Side.start (Fin 3) oneBook) oneFails).isSome = true := rfl
  obtain ⟨s, hs⟩ := Option.isSome_iff_exists.mp hexec
  have hvalid : ∀ i, (titleOrYear i).Valid := by
    intro i
    match i with
    | 0 | 2 =>
      refine ⟨by decide, by decide, by decide, by decide, ?_⟩
      rintro _ (⟨⟨⟩⟩ | h)
      · decide
      · cases h
    | 1 =>
      refine ⟨by decide, by decide, by decide, by decide, ?_⟩
      rintro _ (h | h) <;> cases h
  exact ⟨s, run_of_exec hs, patches_not_lost hvalid List.mem_cons_self rfl (run_of_exec hs)⟩

end LibraryService.Presentors
