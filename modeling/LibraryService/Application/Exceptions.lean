/-!
# Exceptions

The classes of `application/exceptions.py`, and the ones other code raises through it.
-/

namespace LibraryService

/-- Which `except` clause catches an exception object. -/
inductive ExcKind
  | exception
  | cancelledError
  | baseException
  deriving DecidableEq, Repr

inductive Exc
  | libraryException (message : String)
  | entityNotFoundException (message : String)
  | emptyPayloadException (message : String)
  | entityAlreadyExistsException (message : String)
  | invalidCredentialsException (message : String)
  | notAuthorizedException (detail : String)
  | permissionDeniedException (detail : String)
  /-- SQLAlchemy: an integrity error with the constraint it names, if any, any other
  database error, and the error of `.one()` on no row. -/
  | integrityError (constraintName : Option String)
  | dbapiError
  | noResultFound
  | unknownHashError
  | valueError
  | typeError
  | invalidStateError
  | cancelledError
  | exception (message : String)
  /-- Any other class, with the truth value its `__bool__` or `__len__` gives. -/
  | other (kind : ExcKind) (name : String) (truth : Bool)
  deriving DecidableEq, Repr

namespace Exc

def kind : Exc → ExcKind
  | cancelledError => .cancelledError
  | other k _ _ => k
  | _ => .exception

/-- Python's `bool(e)`. -/
def truth : Exc → Bool
  | other _ _ b => b
  | _ => true

/-- `except (Exception, asyncio.CancelledError)` catches it. -/
def ordinary (e : Exc) : Bool := e.kind != .baseException

end Exc

end LibraryService
