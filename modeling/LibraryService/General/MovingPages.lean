import Mathlib.Algebra.Order.BigOperators.Group.Finset
import Mathlib.Data.Finset.Sort
import LibraryService.General.Paging

/-!
# Pages of a set that changes

A sorted set is read a page at a time, by place, while elements come and go between the readings.
-/

namespace Paging

variable {κ : Type*} [LinearOrder κ] {s s' : Finset κ} {a b : κ} {limit k n K : Nat}

/-! ## Places -/

/-- How many elements come before. -/
def rank (s : Finset κ) (a : κ) : Nat := (s.filter (· < a)).card

def onPage (limit k : Nat) (s : Finset κ) : Finset κ :=
  s.filter fun a => k * limit ≤ rank s a ∧ rank s a < (k + 1) * limit

theorem rank_lt_card (h : a ∈ s) : rank s a < s.card :=
  Finset.card_lt_card (Finset.filter_ssubset.mpr ⟨a, h, lt_irrefl a⟩)

theorem rank_mono (h : s ⊆ s') (a : κ) : rank s a ≤ rank s' a :=
  Finset.card_le_card (Finset.filter_subset_filter _ h)

theorem rank_lt_rank (ha : a ∈ s) (h : a < b) : rank s a < rank s b := by
  refine Finset.card_lt_card (Finset.ssubset_iff_of_subset ?_ |>.mpr ⟨a, ?_, ?_⟩)
  · exact Finset.monotone_filter_right s fun x _ hx => hx.trans h
  · exact Finset.mem_filter.mpr ⟨ha, h⟩
  · simp

theorem rank_injOn (s : Finset κ) : Set.InjOn (rank s) s := by
  intro a ha b hb heq
  rcases lt_trichotomy a b with h | h | h
  · exact absurd heq (rank_lt_rank ha h).ne
  · exact h
  · exact absurd heq (rank_lt_rank hb h).ne'

theorem image_rank (s : Finset κ) : s.image (rank s) = Finset.range s.card := by
  apply Finset.eq_of_subset_of_card_le
  · intro n hn
    obtain ⟨a, ha, rfl⟩ := Finset.mem_image.mp hn
    exact Finset.mem_range.mpr (rank_lt_card ha)
  · rw [Finset.card_image_of_injOn (rank_injOn s), Finset.card_range]

theorem card_first_le (s : Finset κ) (n : Nat) : (s.filter (rank s · < n)).card ≤ n := by
  calc (s.filter (rank s · < n)).card
      = ((s.filter (rank s · < n)).image (rank s)).card := by
        rw [Finset.card_image_of_injOn]
        exact (rank_injOn s).mono (Finset.filter_subset _ s)
    _ ≤ (Finset.range n).card := by
        apply Finset.card_le_card
        intro m hm
        obtain ⟨a, ha, rfl⟩ := Finset.mem_image.mp hm
        exact Finset.mem_range.mpr (Finset.mem_filter.mp ha).2
    _ = n := Finset.card_range n

theorem card_first (hb : b ∈ s) (h : n ≤ rank s b) : n ≤ (s.filter (rank s · < n)).card := by
  have hall : Finset.range n ⊆ (s.filter (rank s · < n)).image (rank s) := by
    intro m hm
    have hm := Finset.mem_range.mp hm
    have hplace : m ∈ s.image (rank s) := by
      rw [image_rank, Finset.mem_range]
      exact (hm.trans_le h).trans (rank_lt_card hb)
    obtain ⟨a, ha, rfl⟩ := Finset.mem_image.mp hplace
    exact Finset.mem_image_of_mem _ (Finset.mem_filter.mpr ⟨ha, hm⟩)
  calc n = (Finset.range n).card := (Finset.card_range n).symm
    _ ≤ ((s.filter (rank s · < n)).image (rank s)).card := Finset.card_le_card hall
    _ ≤ (s.filter (rank s · < n)).card := Finset.card_image_le

/-! ## One change -/

/-- The elements that a change moves from behind a place to before it. -/
def forward (s s' : Finset κ) (n : Nat) : Finset κ :=
  (s ∩ s').filter fun a => n ≤ rank s a ∧ rank s' a < n

/-- Only where an element goes can another one move forward over a place. -/
theorem card_forward_le (s s' : Finset κ) (n : Nat) : (forward s s' n).card ≤ (s \ s').card := by
  rcases (forward s s' n).eq_empty_or_nonempty with hnone | ⟨b, hb⟩
  · simp [hnone]
  obtain ⟨hb, hbn, -⟩ := Finset.mem_filter.mp hb
  -- The first `n` elements were all taken before; those that stayed and those that moved forward
  -- now share `n` places.
  let first := s.filter (rank s · < n)
  have hfirst : n ≤ first.card := card_first (Finset.mem_inter.mp hb).1 hbn
  have hshare : forward s s' n ∪ (first ∩ s') ⊆ (s ∩ s').filter (rank (s ∩ s') · < n) := by
    intro a ha
    rcases Finset.mem_union.mp ha with ha | ha
    · obtain ⟨ha, -, han⟩ := Finset.mem_filter.mp ha
      exact Finset.mem_filter.mpr
        ⟨ha, (rank_mono Finset.inter_subset_right a).trans_lt han⟩
    · obtain ⟨ha, ha'⟩ := Finset.mem_inter.mp ha
      obtain ⟨ha, han⟩ := Finset.mem_filter.mp ha
      exact Finset.mem_filter.mpr ⟨Finset.mem_inter.mpr ⟨ha, ha'⟩,
        (rank_mono Finset.inter_subset_left a).trans_lt han⟩
  have hdisjoint : Disjoint (forward s s' n) (first ∩ s') := by
    rw [Finset.disjoint_left]
    intro a ha ha'
    have hlow := (Finset.mem_filter.mp (Finset.mem_inter.mp ha').1).2
    exact absurd (Finset.mem_filter.mp ha).2.1 (Nat.not_le.mpr hlow)
  have hplaces := (Finset.card_le_card hshare).trans (card_first_le (s ∩ s') n)
  rw [Finset.card_union_of_disjoint hdisjoint] at hplaces
  have hsplit : (first \ s').card + (first ∩ s').card = first.card :=
    Finset.card_sdiff_add_card_inter first s'
  have hgone : (first \ s').card ≤ (s \ s').card :=
    Finset.card_le_card (Finset.sdiff_subset_sdiff (Finset.filter_subset _ s) subset_rfl)
  omega

/-! ## Reading on while it changes -/

variable (s : Nat → Finset κ)

/-- What is there at each of the readings `0` to `K`. -/
def steady (K : Nat) : Finset κ := (s 0).filter fun a => ∀ k < K + 1, a ∈ s k

/-- What is there all the time, and is on no page. -/
def unseen (limit K : Nat) : Finset κ :=
  (steady s K).filter fun a => ∀ k < K + 1, a ∉ onPage limit k (s k)

/-- What is there all the time, and is on two pages. -/
def seenTwice (limit K : Nat) : Finset κ :=
  (steady s K).filter fun a =>
    ∃ k < K + 1, ∃ j < k, a ∈ onPage limit j (s j) ∧ a ∈ onPage limit k (s k)

variable {s}

theorem mem_steady : a ∈ steady s K ↔ ∀ k < K + 1, a ∈ s k := by
  rw [steady, Finset.mem_filter, and_iff_right_iff_imp]
  exact fun h => h 0 (Nat.succ_pos K)

/-- An element that no page shows has once moved forward over the places read before. -/
theorem unseen_forward (hlast : (s K).card < (K + 1) * limit) (ha : a ∈ unseen s limit K) :
    ∃ k < K, a ∈ forward (s k) (s (k + 1)) ((k + 1) * limit) := by
  obtain ⟨ha, hmiss⟩ := Finset.mem_filter.mp ha
  rw [mem_steady] at ha
  have hend : rank (s K) a < (K + 1) * limit :=
    (rank_lt_card (ha K (Nat.lt_succ_self K))).trans hlast
  have hex : ∃ k, rank (s k) a < (k + 1) * limit := ⟨K, hend⟩
  have hle := Nat.find_min' hex hend
  have hfound := Nat.find_spec hex
  have hbefore : ∀ k < Nat.find hex, ¬ rank (s k) a < (k + 1) * limit := fun k hk =>
    Nat.find_min hex hk
  generalize Nat.find hex = k at hle hfound hbefore
  have hlow : rank (s k) a < k * limit := by
    by_contra hhigh
    exact hmiss k (Nat.lt_succ_of_le hle) (Finset.mem_filter.mpr
      ⟨ha k (Nat.lt_succ_of_le hle), Nat.not_lt.mp hhigh, hfound⟩)
  cases k with
  | zero => rw [Nat.zero_mul] at hlow; exact absurd hlow (Nat.not_lt_zero _)
  | succ m =>
    refine ⟨m, hle, Finset.mem_filter.mpr ⟨Finset.mem_inter.mpr ⟨?_, ?_⟩, ?_, hlow⟩⟩
    · exact ha m (Nat.lt_succ_of_lt hle)
    · exact ha (m + 1) (Nat.lt_succ_of_le hle)
    · exact Nat.not_lt.mp (hbefore m (Nat.lt_succ_self m))

theorem seenTwice_back (ha : a ∈ seenTwice s limit K) :
    ∃ k < K, a ∈ forward (s (k + 1)) (s k) ((k + 1) * limit) := by
  obtain ⟨ha, k, hk, j, hjk, hj, hk'⟩ := Finset.mem_filter.mp ha
  rw [mem_steady] at ha
  have hstart := (Finset.mem_filter.mp hj).2.2
  have hend := (Finset.mem_filter.mp hk').2.1
  have hex : ∃ i, j < i ∧ i * limit ≤ rank (s i) a := ⟨k, hjk, hend⟩
  have hle := Nat.find_min' hex ⟨hjk, hend⟩
  obtain ⟨hji, hfound⟩ := Nat.find_spec hex
  have hbefore : ∀ i < Nat.find hex, ¬ (j < i ∧ i * limit ≤ rank (s i) a) := fun i hi =>
    Nat.find_min hex hi
  generalize Nat.find hex = i at hle hji hfound hbefore
  cases i with
  | zero => exact absurd hji (Nat.not_lt_zero j)
  | succ m =>
    have hlow : rank (s m) a < (m + 1) * limit := by
      rcases (Nat.lt_succ_iff.mp hji).eq_or_lt with rfl | hjm
      · exact hstart
      · have hlt := Nat.not_le.mp fun hle => hbefore m (Nat.lt_succ_self m) ⟨hjm, hle⟩
        exact hlt.trans_le (Nat.mul_le_mul_right limit (Nat.le_succ m))
    refine ⟨m, by omega, Finset.mem_filter.mpr ⟨Finset.mem_inter.mpr ⟨?_, ?_⟩, hfound, hlow⟩⟩
    · exact ha (m + 1) (by omega)
    · exact ha m (by omega)

/-- Up to a page that is not full, each element that goes hides at most one that stays. -/
theorem card_unseen_le (hlast : (s K).card < (K + 1) * limit) :
    (unseen s limit K).card ≤ ∑ k ∈ Finset.range K, (s k \ s (k + 1)).card := by
  have hcover : unseen s limit K ⊆
      (Finset.range K).biUnion fun k => forward (s k) (s (k + 1)) ((k + 1) * limit) := by
    intro a ha
    obtain ⟨k, hk, hforward⟩ := unseen_forward hlast ha
    exact Finset.mem_biUnion.mpr ⟨k, Finset.mem_range.mpr hk, hforward⟩
  exact (Finset.card_le_card hcover).trans
    (Finset.card_biUnion_le.trans (Finset.sum_le_sum fun k _ => card_forward_le _ _ _))

theorem card_seenTwice_le (s : Nat → Finset κ) (limit K : Nat) :
    (seenTwice s limit K).card ≤ ∑ k ∈ Finset.range K, (s (k + 1) \ s k).card := by
  have hcover : seenTwice s limit K ⊆
      (Finset.range K).biUnion fun k => forward (s (k + 1)) (s k) ((k + 1) * limit) := by
    intro a ha
    obtain ⟨k, hk, hback⟩ := seenTwice_back ha
    exact Finset.mem_biUnion.mpr ⟨k, Finset.mem_range.mpr hk, hback⟩
  exact (Finset.card_le_card hcover).trans
    (Finset.card_biUnion_le.trans (Finset.sum_le_sum fun k _ => card_forward_le _ _ _))

/-! ## Pages of a sorted list -/

variable {l : List κ}

theorem rank_append_cons {before after : List κ}
    (h : (before ++ a :: after).Pairwise (· < ·)) :
    rank (before ++ a :: after).toFinset a = before.length := by
  obtain ⟨-, hafter, hbefore⟩ := List.pairwise_append.mp h
  have hfilter : (before ++ a :: after).filter (· < a) = before := by
    rw [List.filter_append, List.filter_eq_self.mpr, List.filter_eq_nil_iff.mpr, List.append_nil]
    · intro x hx
      rcases List.mem_cons.mp hx with rfl | hx
      · simp
      · simpa using ((List.pairwise_cons.mp hafter).1 x hx).le
    · exact fun x hx => by simpa using hbefore x hx a List.mem_cons_self
  have hset : (before ++ a :: after).toFinset.filter (· < a) = before.toFinset := by
    ext x
    have hmem : x ∈ (before ++ a :: after).filter (· < a) ↔ x ∈ before := by rw [hfilter]
    rw [Finset.mem_filter, List.mem_toFinset, List.mem_toFinset, ← hmem, List.mem_filter,
      decide_eq_true_iff]
  have hnodup : (before ++ a :: after).Nodup := h.imp fun hlt => hlt.ne
  rw [rank, hset, List.toFinset_card_of_nodup (List.nodup_append.mp hnodup).1]

theorem mem_page_iff (h : l.Pairwise (· < ·)) :
    a ∈ page limit (k * limit) l ↔ a ∈ onPage limit k l.toFinset := by
  rw [onPage, Finset.mem_filter, List.mem_toFinset, Nat.succ_mul]
  constructor
  · intro ha
    refine ⟨mem_of_mem_page ha, ?_⟩
    obtain ⟨i, hi, rfl⟩ := List.mem_iff_getElem.mp ha
    rw [length_page] at hi
    have hlt : k * limit + i < l.length := by omega
    have hsplit : l = l.take (k * limit + i) ++ l[k * limit + i] :: l.drop (k * limit + i + 1) := by
      rw [List.getElem_cons_drop, List.take_append_drop]
    have hrank := rank_append_cons (hsplit ▸ h)
    rw [← hsplit, List.length_take_of_le hlt.le] at hrank
    have hget : (page limit (k * limit) l)[i] = l[k * limit + i] := by simp [page]
    rw [hget, hrank]
    omega
  · rintro ⟨ha, hlow, hhigh⟩
    obtain ⟨before, after, rfl⟩ := List.append_of_mem ha
    rw [rank_append_cons h] at hlow hhigh
    rw [page, List.drop_append_of_le_length hlow, List.take_append, List.mem_append,
      List.length_drop]
    obtain ⟨m, hm⟩ : ∃ m, limit - (before.length - k * limit) = m + 1 := ⟨_, (Nat.succ_pred (by omega)).symm⟩
    rw [hm, List.take_succ_cons]
    exact .inr List.mem_cons_self

end Paging
