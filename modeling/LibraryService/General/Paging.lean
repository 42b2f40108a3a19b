import Mathlib.Data.List.Nodup
import Mathlib.Data.List.Sort

/-!
# Reading page by page

A list that is read a page at a time, where each reading may come by the elements in another order.
-/

namespace Paging

variable {α κ : Type*}

def page (limit offset : Nat) (l : List α) : List α := (l.drop offset).take limit

/-- The order in which one reading comes by the elements. -/
structure Scan (α : Type*) where
  list : List α → List α
  perm : ∀ l, (list l).Perm l

def Scan.asStored : Scan α := ⟨id, .refl⟩

/-- The elements sorted by a key; equal ones are in the order of the reading. -/
def Scan.orderBy [LinearOrder κ] (scan : Scan α) (key : α → κ) (l : List α) : List α :=
  (scan.list l).insertionSort fun a b => key a ≤ key b

/-- What the readings at offsets 0, `limit`, 2 `limit`, .. up to `total` give, in this order. -/
def walk (limit total : Nat) (read : Nat → List α) : List α :=
  (List.range (total / limit + 1)).flatMap read

variable {limit total offset k : Nat} {l : List α} {read : Nat → List α} {a : α}

theorem length_page : (page limit offset l).length = min limit (l.length - offset) := by
  simp [page]

theorem map_page {β : Type*} (f : α → β) : (page limit offset l).map f = page limit offset (l.map f) := by
  simp [page]

theorem mem_of_mem_page (h : a ∈ page limit offset l) : a ∈ l :=
  List.mem_of_mem_drop (List.mem_of_mem_take h)

theorem mem_walk : a ∈ walk limit total read ↔ ∃ k ≤ total / limit, a ∈ read k := by
  simp [walk, Nat.lt_succ_iff]

/-! ## Readings in one order -/

theorem flatMap_page (l : List α) (n : Nat) :
    (List.range n).flatMap (fun k => page limit (k * limit) l) = l.take (n * limit) := by
  induction n with
  | zero => simp
  | succ n ih => rw [List.range_succ, List.flatMap_append, ih, Nat.succ_mul, List.take_add]; simp [page]

/-- Readings that all come by the elements in one order give each of them once, in this order. -/
theorem walk_page (hlimit : 0 < limit) (l : List α) :
    walk limit l.length (fun k => page limit (k * limit) l) = l := by
  unfold walk
  rw [flatMap_page]
  refine List.take_of_length_le (Nat.le_of_lt ?_)
  rw [Nat.mul_comm]
  exact Nat.lt_mul_div_succ l.length hlimit

section OrderBy

variable [LinearOrder κ] {key : α → κ} {scan : Scan α}

theorem perm_orderBy (scan : Scan α) (key : α → κ) (l : List α) : (scan.orderBy key l).Perm l :=
  (List.perm_insertionSort _ _).trans (scan.perm l)

theorem pairwise_orderBy (scan : Scan α) (key : α → κ) (l : List α) :
    (scan.orderBy key l).Pairwise fun a b => key a ≤ key b := by
  have : Std.Total fun a b : α => key a ≤ key b := ⟨fun a b => le_total (key a) (key b)⟩
  have : IsTrans α fun a b => key a ≤ key b := ⟨fun _ _ _ => le_trans⟩
  exact List.pairwise_insertionSort _ _

theorem orderBy_eq (hkey : ∀ a ∈ l, ∀ b ∈ l, key a = key b → a = b) (scan scan' : Scan α) :
    scan.orderBy key l = scan'.orderBy key l := by
  have hmem : ∀ {s : Scan α} {a}, a ∈ s.orderBy key l → a ∈ l := fun {s} _ ha =>
    (perm_orderBy s key l).mem_iff.mp ha
  refine List.Perm.eq_of_pairwise (fun a b ha hb hab hba => ?_) (pairwise_orderBy scan key l)
    (pairwise_orderBy scan' key l) ((perm_orderBy scan key l).trans (perm_orderBy scan' key l).symm)
  exact hkey a (hmem ha) b (hmem hb) (le_antisymm hab hba)

end OrderBy

/-! ## Readings in any order -/

theorem walk_onePage (h : l.length ≤ limit) (scans : Nat → Scan α) :
    walk limit l.length (fun k => page limit (k * limit) ((scans k).list l)) = (scans 0).list l := by
  have hlen : ∀ k, ((scans k).list l).length = l.length := fun k => ((scans k).perm l).length_eq
  have hrest : ((List.range (l.length / limit)).map Nat.succ).flatMap
      (fun k => page limit (k * limit) ((scans k).list l)) = [] := by
    rw [List.flatMap_eq_nil_iff]
    intro k hk
    obtain ⟨j, -, rfl⟩ := List.mem_map.mp hk
    have hlast : l.length ≤ (j + 1) * limit := h.trans (Nat.le_mul_of_pos_left limit (Nat.succ_pos j))
    rw [page, List.drop_of_length_le (by rw [hlen]; exact hlast), List.take_nil]
  unfold walk
  rw [List.range_succ_eq_map, List.flatMap_cons, hrest, List.append_nil, page, Nat.zero_mul,
    List.drop_zero, List.take_of_length_le (by rw [hlen]; exact h)]

/-- The first element comes after `n` others. -/
def headLate (n : Nat) : List α → List α
  | [] => []
  | a :: l => l.take n ++ a :: l.drop n

theorem headLate_perm (n : Nat) : ∀ l : List α, (headLate n l).Perm l
  | [] => .refl _
  | a :: l => by
    have hsplit : (l.take n ++ a :: l.drop n).Perm (a :: (l.take n ++ l.drop n)) :=
      List.perm_middle
    rwa [List.take_append_drop] at hsplit

/-- The first reading is in the order of the list; all others come by its first element late. -/
def shifting (limit k : Nat) : Scan α :=
  if k = 0 then .asStored else ⟨headLate limit, headLate_perm limit⟩

/-- Where there is more than one page, an element may be on two of them. -/
theorem walk_shifting (hlimit : 0 < limit) (h : limit < l.length) :
    ¬ (walk limit l.length fun k => page limit (k * limit) ((shifting limit k).list l)).Nodup := by
  intro hnodup
  have hdisjoint := (List.nodup_flatMap.mp hnodup).2
  have hpages : 1 < l.length / limit + 1 := Nat.succ_lt_succ (Nat.div_pos h.le hlimit)
  have hdis := List.pairwise_iff_getElem.mp hdisjoint 0 1 (by simp) (by simpa using hpages) Nat.one_pos
  simp only [List.getElem_range, Function.onFun] at hdis
  cases l with
  | nil => exact absurd h (Nat.not_lt_zero limit)
  | cons a l =>
    have hlen : (l.take limit).length = limit := List.length_take_of_le (Nat.le_of_lt_succ h)
    refine hdis (a := a) ?_ ?_
    · obtain ⟨m, rfl⟩ := Nat.exists_eq_succ_of_ne_zero hlimit.ne'
      simp [page, shifting, Scan.asStored]
    · obtain ⟨m, rfl⟩ := Nat.exists_eq_succ_of_ne_zero hlimit.ne'
      change a ∈ ((l.take (m + 1) ++ a :: l.drop (m + 1)).drop (1 * (m + 1))).take (m + 1)
      rw [Nat.one_mul, List.drop_append_of_le_length hlen.ge, List.drop_of_length_le hlen.le]
      simp

end Paging
