import LibraryService.General.Decoding
import LibraryService.Python.Text
import Std.Data.String.ToInt

/-!
# `repr`

The `repr` of strings, integers, tuples and dictionaries, and what it leaves undetermined: nothing.
-/

open Decoding

namespace LibraryService.Python

/-! ## Strings -/

/-- Double quotes around a string with a single quote and no double quote in it. -/
def quoteOf (s : List Char) : Char :=
  if '\x27' ∈ s ∧ '\x22' ∉ s then '\x22' else '\x27'

def hexEscape (letter : Char) (width : Nat) (c : Char) : List Char :=
  '\x5c' :: letter :: hexDigits width c.toNat

/-- What stands for a character between quotes. `printable` is `str.isprintable` on the characters
outside ASCII. -/
def escape (printable : Char → Bool) (quote c : Char) : List Char :=
  if c = quote ∨ c = '\x5c' then ['\x5c', c]
  else if c = '\t' then ['\x5c', 't']
  else if c = '\n' then ['\x5c', 'n']
  else if c = '\r' then ['\x5c', 'r']
  else if c.toNat < 0x20 ∨ c.toNat = 0x7f then hexEscape 'x' 2 c
  else if c.toNat < 0x7f ∨ printable c then [c]
  else if c.toNat ≤ 0xff then hexEscape 'x' 2 c
  else if c.toNat ≤ 0xffff then hexEscape 'u' 4 c
  else hexEscape 'U' 8 c

def reprStr (printable : Char → Bool) (s : String) : List Char :=
  quoteOf s.toList :: (s.toList.flatMap (escape printable (quoteOf s.toList)) ++ [quoteOf s.toList])

/-! ## Values -/

inductive Value
  | str (s : String)
  | int (n : Int)
  deriving DecidableEq, Repr

def Value.repr (printable : Char → Bool) : Value → List Char
  | str s => reprStr printable s
  | int n => n.repr.toList

/-- What comes after the first element: a tuple of one element keeps its comma. -/
def tupleRest (printable : Char → Bool) : List Value → List Char
  | [] => [',', ')']
  | v :: l => items (Value.repr printable) [',', ' '] [')'] (v :: l)

def reprTuple (printable : Char → Bool) : List Value → List Char
  | [] => ['(', ')']
  | v :: l => '(' :: (v.repr printable ++ tupleRest printable l)

def reprEntry (printable : Char → Bool) (e : String × Value) : List Char :=
  reprStr printable e.1 ++ ([':', ' '] ++ e.2.repr printable)

/-- The entries of a dictionary in insertion order. -/
def reprDict (printable : Char → Bool) (l : List (String × Value)) : List Char :=
  '\x7b' :: closed (reprEntry printable) [',', ' '] ['\x7d'] l

/-! ## Reading a character back -/

def hexValue (digits : List Char) : Nat :=
  digits.foldl (fun n d => 16 * n + "0123456789abcdef".toList.idxOf d) 0

theorem hexValue_hexDigits {k n : Nat} (h : n < 16 ^ k) : hexValue (hexDigits k n) = n := by
  induction k generalizing n with
  | zero => simp at h; simp [hexDigits, hexValue, h]
  | succ k ih =>
    have hdigit : ∀ d : Fin 16, "0123456789abcdef".toList.idxOf (hexDigit d) = d := by decide
    have hdiv : n / 16 < 16 ^ k := by rw [Nat.div_lt_iff_lt_mul (by omega), ← Nat.pow_succ]; exact h
    have hlast := hdigit ⟨n % 16, Nat.mod_lt _ (by omega)⟩
    have hinit := ih hdiv
    simp only [hexValue] at hinit
    simp only [hexDigits, hexValue, List.foldl_append, List.foldl_cons, List.foldl_nil, hinit, hlast]
    omega

def readHex (k : Nat) (cs : List Char) : Option (Char × List Char) :=
  some (Char.ofNat (hexValue (cs.take k)), cs.drop k)

/-- Reads one character of a string between quotes. -/
def readChar : List Char → Option (Char × List Char)
  | [] => none
  | c :: cs =>
    if c = '\x5c' then
      match cs with
      | [] => none
      | d :: ds =>
        if d = 't' then some ('\t', ds)
        else if d = 'n' then some ('\n', ds)
        else if d = 'r' then some ('\r', ds)
        else if d = 'x' then readHex 2 ds
        else if d = 'u' then readHex 4 ds
        else if d = 'U' then readHex 8 ds
        else some (d, ds)
    else some (c, cs)

theorem readHex_hexDigits {k : Nat} {c : Char} (h : c.toNat < 16 ^ k) (xs : List Char) :
    readHex k (hexDigits k c.toNat ++ xs) = some (c, xs) := by
  rw [readHex, List.take_left' (length_hexDigits k _), List.drop_left' (length_hexDigits k _),
    hexValue_hexDigits h, Char.ofNat_toNat]

theorem char_lt (c : Char) : c.toNat < 16 ^ 8 := by
  have := c.valid
  simp only [UInt32.isValidChar, Nat.isValidChar] at this
  change c.val.toNat < _
  omega

def IsQuote (quote : Char) : Prop := quote = '\x27' ∨ quote = '\x22'

theorem readChar_escape (printable : Char → Bool) {quote : Char} (hquote : IsQuote quote) (c : Char)
    (xs : List Char) : readChar (escape printable quote c ++ xs) = some (c, xs) := by
  unfold escape
  split
  · rename_i h
    rcases h with rfl | rfl
    · rcases hquote with rfl | rfl <;> rfl
    · rfl
  rename_i hc
  split
  · subst c; rfl
  split
  · subst c; rfl
  split
  · subst c; rfl
  split
  · exact readHex_hexDigits (by omega) xs
  split
  · have hne : c ≠ '\x5c' := fun h => hc (.inr h)
    simp [readChar, hne]
  split
  · exact readHex_hexDigits (by omega) xs
  split
  · exact readHex_hexDigits (by omega) xs
  · exact readHex_hexDigits (char_lt c) xs

/-! ## Nothing is lost -/

variable (printable : Char → Bool)

theorem quoteOf_isQuote (s : List Char) : IsQuote (quoteOf s) := by
  unfold quoteOf IsQuote
  split <;> simp

theorem escape_decodes {quote : Char} (hquote : IsQuote quote) :
    Decodes Anywhere (escape printable quote) :=
  decodes_of_read readChar (readChar_escape printable hquote)

theorem escape_startsWith {quote : Char} (hquote : IsQuote quote) (c : Char) :
    StartsWith (· ≠ quote) (escape printable quote c) := by
  have hback : ∀ cs, StartsWith (· ≠ quote) ('\x5c' :: cs) := by
    intro cs
    refine ⟨_, cs, rfl, ?_⟩
    rcases hquote with rfl | rfl <;> decide
  unfold escape hexEscape
  split
  · exact hback _
  rename_i hc
  repeat' split
  all_goals first | exact hback _ | exact ⟨c, [], rfl, fun h => hc (.inl h)⟩

theorem reprStr_decodes : Decodes Anywhere (reprStr printable) := by
  intro s t xs ys _ _ heq
  obtain ⟨hq, hrest⟩ := List.cons_eq_cons.mp heq
  rw [← hq] at hrest
  have hquote := quoteOf_isQuote s.toList
  obtain ⟨hst, rfl⟩ := (escape_decodes printable hquote).flatMap
    (escape_startsWith printable hquote) trivial trivial hrest
  exact ⟨String.toList_inj.mp hst, rfl⟩

def isNumeric (c : Char) : Bool := c.isDigit || c == '-'

theorem isNumeric_of_mem_repr {n : Int} {c : Char} (h : c ∈ n.repr.toList) : isNumeric c = true := by
  have hdigits : ∀ m : Nat, c ∈ m.repr.toList → isNumeric c = true := by
    intro m hm
    rw [Nat.toList_repr] at hm
    simp [isNumeric, Nat.isDigit_of_mem_toDigits (by omega) (by omega) hm]
  rw [Int.repr_eq_if] at h
  split at h
  · exact hdigits _ h
  · rw [String.toList_append, List.mem_append] at h
    rcases h with h | h
    · simp at h; subst h; rfl
    · exact hdigits _ h

theorem repr_int_startsWith (n : Int) : StartsWith (fun c => isNumeric c = true) n.repr.toList := by
  have hne : n.repr.toList ≠ [] := by
    rw [Int.repr_eq_if]
    split
    · rw [Nat.toList_repr]; exact Nat.toDigits_ne_nil
    · simp
  obtain ⟨c, cs, h⟩ := List.exists_cons_of_ne_nil hne
  exact ⟨c, cs, h, isNumeric_of_mem_repr (by rw [h]; simp)⟩

theorem repr_int_decodes :
    Decodes (StartsWith fun c => isNumeric c = false) fun n : Int => n.repr.toList :=
  decodes_of_forall isNumeric (fun _ _ => isNumeric_of_mem_repr)
    fun _ _ h => Int.repr_injective (String.toList_inj.mp h)

theorem quote_not_numeric {quote : Char} (h : IsQuote quote) : isNumeric quote = false := by
  rcases h with rfl | rfl <;> rfl

theorem value_decodes :
    Decodes (StartsWith fun c => isNumeric c = false) (Value.repr printable) := by
  -- A string starts with a quote, an integer does not.
  have hdiffer : ∀ (s : String) (n : Int) (xs ys : List Char),
      reprStr printable s ++ xs ≠ n.repr.toList ++ ys := by
    intro s n xs ys heq
    obtain ⟨c, cs, hn, hc⟩ := repr_int_startsWith n
    rw [hn] at heq
    have hquote := quote_not_numeric (quoteOf_isQuote s.toList)
    rw [(List.cons_eq_cons.mp heq).1, hc] at hquote
    cases hquote
  intro v w xs ys hxs hys heq
  cases v with
  | str s =>
    cases w with
    | str t =>
      obtain ⟨rfl, rfl⟩ := reprStr_decodes printable trivial trivial heq
      exact ⟨rfl, rfl⟩
    | int n => exact absurd heq (hdiffer s n xs ys)
  | int m =>
    cases w with
    | str t => exact absurd heq.symm (hdiffer t m ys xs)
    | int n =>
      obtain ⟨rfl, rfl⟩ := repr_int_decodes hxs hys heq
      exact ⟨rfl, rfl⟩

/-! ## Tuples and dictionaries -/

theorem value_decodes_before {s c : Char} (hs : isNumeric s = false) (hc : isNumeric c = false) :
    Decodes (StartsWith (· ∈ [s, c])) (Value.repr printable) :=
  (value_decodes printable).mono fun xs ⟨d, ds, hd, hmem⟩ => ⟨d, ds, hd, by
    simp only [List.mem_cons, List.not_mem_nil, or_false] at hmem
    rcases hmem with rfl | rfl <;> assumption⟩

theorem entry_decodes {s c : Char} (hs : isNumeric s = false) (hc : isNumeric c = false) :
    Decodes (StartsWith (· ∈ [s, c])) (reprEntry printable) :=
  (reprStr_decodes printable).seq ((value_decodes_before printable hs hc).prefixed [':', ' '])
    fun _ _ _ => trivial

theorem entry_startsWith (e : String × Value) : StartsWith (· ≠ '\x7d') (reprEntry printable e) := by
  refine ⟨_, _, rfl, ?_⟩
  rcases quoteOf_isQuote e.1.toList with h | h <;> rw [h] <;> decide

theorem reprDict_decodes : Decodes Anywhere (reprDict printable) :=
  ((entry_decodes printable rfl rfl).closed (by decide) (entry_startsWith printable)).prefixed ['\x7b']

theorem tupleRest_startsWith (l : List Value) (xs : List Char) :
    StartsWith (· ∈ [',', ')']) (tupleRest printable l ++ xs) := by
  cases l with
  | nil => exact ⟨_, _, rfl, by simp⟩
  | cons v l => exact ⟨_, _, rfl, by simp⟩

theorem tupleRest_decodes : Decodes Anywhere (tupleRest printable) := by
  intro l k xs ys _ _ heq
  cases l with
  | nil =>
    cases k with
    | nil => exact ⟨rfl, List.append_cancel_left heq⟩
    | cons w k => simp [tupleRest, items] at heq
  | cons v l =>
    cases k with
    | nil => simp [tupleRest, items] at heq
    | cons w k =>
      exact (value_decodes_before printable rfl rfl).items (by decide) trivial trivial heq

theorem value_startsWith (v : Value) : StartsWith (· ≠ ')') (v.repr printable) := by
  cases v with
  | str s =>
    refine ⟨_, _, rfl, ?_⟩
    rcases quoteOf_isQuote s.toList with h | h <;> rw [h] <;> decide
  | int n =>
    obtain ⟨c, cs, hn, hc⟩ := repr_int_startsWith n
    exact ⟨c, cs, hn, by rintro rfl; cases hc⟩

theorem reprTuple_decodes : Decodes Anywhere (reprTuple printable) := by
  intro l k xs ys _ _ heq
  cases l with
  | nil =>
    cases k with
    | nil => exact ⟨rfl, List.append_cancel_left heq⟩
    | cons w k =>
      simp only [reprTuple, List.cons_append, List.append_assoc] at heq
      exact absurd (List.cons_eq_cons.mp heq).2.symm
        ((value_startsWith printable w).append_ne _ _)
  | cons v l =>
    cases k with
    | nil =>
      simp only [reprTuple, List.cons_append, List.append_assoc] at heq
      exact absurd (List.cons_eq_cons.mp heq).2
        ((value_startsWith printable v).append_ne _ _)
    | cons w k =>
      simp only [reprTuple, List.cons_append, List.append_assoc] at heq
      obtain ⟨rfl, hrest⟩ := value_decodes_before printable rfl rfl
        (tupleRest_startsWith printable l xs) (tupleRest_startsWith printable k ys)
        (List.cons_eq_cons.mp heq).2
      obtain ⟨rfl, rfl⟩ := tupleRest_decodes printable trivial trivial hrest
      exact ⟨rfl, rfl⟩

end LibraryService.Python
