import LibraryService.OpenLibrary.StackRuns

/-!
# Keys of calls

When two calls of a decorated method share a key, and when two searches do.
-/

open LibraryService.Python

namespace LibraryService.OpenLibrary

/-- The key of a call in `cached.wrapped` and in `reduced.wrapped`. -/
def wrappedKey (printable : Char → Bool) (keyFunc : Option (List Value → Kwargs → String))
    (className funcName : String) (args : List Value) (kwargs : Kwargs) : String :=
  match keyFunc with
  | some f => f args kwargs
  | none => defaultKey printable className funcName args kwargs

theorem wrappedKey_none {printable : Char → Bool} {className funcName : String}
    {args args' : List Value} {kwargs kwargs' : Kwargs} :
    wrappedKey printable none className funcName args kwargs =
      wrappedKey printable none className funcName args' kwargs' ↔ args = args' ∧ kwargs = kwargs' := by
  constructor
  · intro h; exact defaultKey_injective h
  · rintro ⟨rfl, rfl⟩; rfl

/-! ## Searches -/

def SearchArgs.value (args : SearchArgs) (name : String) : Value :=
  if name = "query" then .str args.query
  else if name = "limit" then .int args.limit
  else .int args.offset

theorem SearchCall.kwargs_eq_map (call : SearchCall) :
    call.kwargs = (call.kwargs.map Prod.fst).map fun name => (name, call.args.value name) := by
  have hvalue : ∀ e ∈ call.args.kwargs, (e.1, call.args.value e.1) = e := by
    simp [SearchArgs.kwargs, SearchArgs.value]
  have hid : call.kwargs.map (fun e => (e.1, call.args.value e.1)) = call.kwargs.map id :=
    List.map_congr_left fun e he => hvalue e (call.perm.mem_iff.mp he)
  rw [List.map_id] at hid
  rw [List.map_map]
  exact hid.symm

theorem SearchArgs.eq_iff (args args' : SearchArgs) : args = args' ↔
    args.query = args'.query ∧ args.limit = args'.limit ∧ args.offset = args'.offset := by
  cases args; cases args'
  simp

theorem kwargs_eq_iff (call call' : SearchCall) : call.kwargs = call'.kwargs ↔
    call.args = call'.args ∧ call.kwargs.map Prod.fst = call'.kwargs.map Prod.fst := by
  constructor
  · intro h
    have hperm := call.perm.symm
    rw [h] at hperm
    exact ⟨kwargs_perm_injective (hperm.trans call'.perm), by rw [h]⟩
  · rintro ⟨hargs, hnames⟩
    rw [call.kwargs_eq_map, call'.kwargs_eq_map, hargs, hnames]

/-- **Keys never collide**: two calls of one method share the default key exactly when they have
the same positional and the same keyword arguments, and two searches by keyword exactly when they
have the same query, limit and offset, in the same order. -/
theorem keys_never_collide (printable : Char → Bool) (className funcName : String) :
    (∀ (args args' : List Value) (kwargs kwargs' : Kwargs),
      wrappedKey printable none className funcName args kwargs =
          wrappedKey printable none className funcName args' kwargs' ↔
        args = args' ∧ kwargs = kwargs') ∧
    ∀ call call' : SearchCall,
      wrappedKey printable none className funcName [] call.kwargs =
          wrappedKey printable none className funcName [] call'.kwargs ↔
        (call.args.query = call'.args.query ∧ call.args.limit = call'.args.limit ∧
          call.args.offset = call'.args.offset) ∧
        call.kwargs.map Prod.fst = call'.kwargs.map Prod.fst := by
  refine ⟨fun args args' kwargs kwargs' => wrappedKey_none, fun call call' => ?_⟩
  rw [wrappedKey_none, kwargs_eq_iff, SearchArgs.eq_iff, eq_self_iff_true, true_and]

end LibraryService.OpenLibrary
