import LibraryService.Python.Repr

/-!
# The default keys

The key that `cached` and `reduced` make of a call when they are given no `key_func`.
-/

open Decoding LibraryService.Python

namespace LibraryService

abbrev Kwargs := List (String × Value)

/-- `f"{self.__class__.__name__}:{func.__name__}:{args}:{kwargs}"`. -/
def defaultKey (printable : Char → Bool) (className funcName : String) (args : List Value)
    (kwargs : Kwargs) : String :=
  className ++ ":" ++ funcName ++ ":" ++ String.ofList (reprTuple printable args) ++ ":" ++
    String.ofList (reprDict printable kwargs)

theorem defaultKey_injective {printable : Char → Bool} {className funcName : String}
    {args args' : List Value} {kwargs kwargs' : Kwargs}
    (h : defaultKey printable className funcName args kwargs =
      defaultKey printable className funcName args' kwargs') : args = args' ∧ kwargs = kwargs' := by
  have htexts : reprTuple printable args ++ (":".toList ++ reprDict printable kwargs) =
      reprTuple printable args' ++ (":".toList ++ reprDict printable kwargs') := by
    have hlist := congrArg String.toList h
    simpa only [defaultKey, String.toList_append, String.toList_ofList, List.append_assoc,
      List.append_cancel_left_eq] using hlist
  obtain ⟨rfl, hrest⟩ := reprTuple_decodes printable trivial trivial htexts
  exact ⟨rfl, (reprDict_decodes printable).injective trivial (List.append_cancel_left hrest)⟩

end LibraryService
