import Mathlib.Algebra.Group.Int.Defs
import Mathlib.Algebra.Group.Nat.Defs
import Mathlib.Data.List.Basic

/-!
# Python strings and UUIDs
-/

namespace LibraryService.Python

def cut (n : Nat) (s : String) : String := String.ofList (s.toList.take n)

theorem length_cut_le (n : Nat) (s : String) : (cut n s).length ≤ n := by
  simp only [cut, String.length_ofList]
  exact List.length_take_le _ _

theorem mem_cut {n : Nat} {s : String} {c : Char} (h : c ∈ (cut n s).toList) : c ∈ s.toList := by
  simp only [cut, String.toList_ofList] at h
  exact List.mem_of_mem_take h

/-! ## UUIDs -/

structure UUID where
  int : BitVec 128
  deriving DecidableEq, Repr

def hexDigit (n : Nat) : Char := "0123456789abcdef".toList.getD n '0'

/-- The last `k` hexadecimal digits of `n`. -/
def hexDigits : Nat → Nat → List Char
  | 0, _ => []
  | k + 1, n => hexDigits k (n / 16) ++ [hexDigit (n % 16)]

/-- Groups of the given lengths, and the rest, with dashes between them. -/
def dashed : List Nat → List Char → List Char
  | [], cs => cs
  | k :: ks, cs => cs.take k ++ '-' :: dashed ks (cs.drop k)

/-- `str(uuid)`: 32 digits in groups of 8, 4, 4, 4 and 12. -/
def UUID.str (u : UUID) : String :=
  String.ofList (dashed [8, 4, 4, 4] (hexDigits 32 u.int.toNat))

/-- `uuid.hex`. -/
def UUID.hex (u : UUID) : String := String.ofList (hexDigits 32 u.int.toNat)

theorem hexDigit_injective {m n : Nat} (hm : m < 16) (hn : n < 16)
    (h : hexDigit m = hexDigit n) : m = n := by
  have hall : ∀ a : Fin 16, ∀ b : Fin 16, hexDigit a = hexDigit b → a = b := by decide
  exact congrArg Fin.val (hall ⟨m, hm⟩ ⟨n, hn⟩ h)

theorem length_hexDigits (k n : Nat) : (hexDigits k n).length = k := by
  induction k generalizing n with
  | zero => rfl
  | succ k ih => simp [hexDigits, ih]

theorem hexDigits_injective {k m n : Nat} (hm : m < 16 ^ k) (hn : n < 16 ^ k)
    (h : hexDigits k m = hexDigits k n) : m = n := by
  induction k generalizing m n with
  | zero => simp at hm hn; omega
  | succ k ih =>
    obtain ⟨hinit, hlast⟩ := List.append_inj' h rfl
    have hdiv : m / 16 = n / 16 := by
      apply ih _ _ hinit <;> rw [Nat.div_lt_iff_lt_mul (by omega)] <;> rw [← Nat.pow_succ] <;>
        assumption
    have hmod : m % 16 = n % 16 :=
      hexDigit_injective (Nat.mod_lt _ (by omega)) (Nat.mod_lt _ (by omega)) (by simpa using hlast)
    omega

theorem dashed_injective (ks : List Nat) {cs ds : List Char} (hlen : cs.length = ds.length)
    (h : dashed ks cs = dashed ks ds) : cs = ds := by
  induction ks generalizing cs ds with
  | nil => exact h
  | cons k ks ih =>
    obtain ⟨htake, hrest⟩ := List.append_inj h (by simp [hlen])
    have hdrop := ih (by simp [hlen]) (List.cons_inj_right _ |>.mp hrest)
    rw [← List.take_append_drop k cs, htake, hdrop, List.take_append_drop]

theorem UUID.str_injective {u v : UUID} (h : u.str = v.str) : u = v := by
  have hdigits := dashed_injective _ (by simp only [length_hexDigits]) (String.ofList_inj.mp h)
  have hint := hexDigits_injective u.int.isLt v.int.isLt hdigits
  cases u; cases v
  exact congrArg UUID.mk (BitVec.eq_of_toNat_eq hint)

end LibraryService.Python
