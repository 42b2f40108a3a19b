import LibraryService.Application.Exceptions
import LibraryService.Domain.Entities

/-!
# Requests and responses

What litestar and pydantic make of a request, the handlers of `exception_handlers.py`, and which of
them an exception is given to.
-/

open LibraryService.Domain

namespace LibraryService.Presentors

/-! ## Responses -/

/-- The members of `http.HTTPStatus` that the service uses. -/
inductive HTTPStatus
  | ok
  | created
  | noContent
  | badRequest
  | unauthorized
  | forbidden
  | notFound
  | conflict
  | unprocessableEntity
  | internalServerError
  | serviceUnavailable
  deriving DecidableEq, Repr

def HTTPStatus.value : HTTPStatus → Nat
  | ok => 200
  | created => 201
  | noContent => 204
  | badRequest => 400
  | unauthorized => 401
  | forbidden => 403
  | notFound => 404
  | conflict => 409
  | unprocessableEntity => 422
  | internalServerError => 500
  | serviceUnavailable => 503

theorem HTTPStatus.value_pos (s : HTTPStatus) : 0 < s.value := by cases s <;> decide

structure StatusResponseSchema where
  ok : Bool
  statusCode : Nat
  message : String
  statusCode_positive : 0 < statusCode
  deriving DecidableEq, Repr

/-- A response's content: what the route handler returned, what an exception handler did, or
litestar's own answer to an exception that has no handler. -/
inductive Content (β : Type)
  | body (b : β)
  | status (b : StatusResponseSchema)
  | unhandled
  deriving DecidableEq, Repr

structure Response (β : Type) where
  statusCode : HTTPStatus
  content : Content β
  deriving DecidableEq, Repr

/-! ## Exception handlers -/

/-- What a request can raise: litestar's refusal of its parameters or of its body, or an exception
of the route handler. -/
inductive Raised
  | validationException (detail : String)
  | exc (e : Exc)
  deriving DecidableEq, Repr

/-- A key of `exception_handlers`, or a class that is none. -/
inductive ExcClass
  | validationException
  | httpException
  | libraryException
  | entityNotFoundException
  | emptyPayloadException
  | entityAlreadyExistsException
  | invalidCredentialsException
  | notAuthorizedException
  | permissionDeniedException
  | exception
  deriving DecidableEq, Repr

namespace Raised

/-- The class and its bases, in the order of `__mro__`. -/
def mro : Raised → List ExcClass
  | validationException _ => [.validationException, .httpException, .exception]
  | exc (.libraryException _) => [.libraryException, .exception]
  | exc (.entityNotFoundException _) => [.entityNotFoundException, .libraryException, .exception]
  | exc (.emptyPayloadException _) => [.emptyPayloadException, .libraryException, .exception]
  | exc (.entityAlreadyExistsException _) =>
    [.entityAlreadyExistsException, .libraryException, .exception]
  | exc (.invalidCredentialsException _) =>
    [.invalidCredentialsException, .libraryException, .exception]
  | exc (.notAuthorizedException _) => [.notAuthorizedException, .httpException, .exception]
  | exc (.permissionDeniedException _) => [.permissionDeniedException, .httpException, .exception]
  | exc _ => [.exception]

/-- `exc.message`, or `exc.detail` of litestar's classes. -/
def message : Raised → String
  | validationException detail => detail
  | exc (.libraryException message) | exc (.entityNotFoundException message)
  | exc (.emptyPayloadException message) | exc (.entityAlreadyExistsException message)
  | exc (.invalidCredentialsException message) => message
  | exc (.notAuthorizedException detail) | exc (.permissionDeniedException detail) => detail
  | exc _ => ""

/-- `exc.status_code`, which litestar's classes have. -/
def statusCode : Raised → HTTPStatus
  | validationException _ => .badRequest
  | exc (.notAuthorizedException _) => .unauthorized
  | exc (.permissionDeniedException _) => .forbidden
  | exc _ => .internalServerError

end Raised

variable {β : Type}

def exceptionJsonResponse (statusCode : HTTPStatus) (message : String) : Response β :=
  { statusCode
    content := .status
      { ok := false
        statusCode := statusCode.value
        message
        statusCode_positive := statusCode.value_pos } }

def validationExceptionHandler (exc : Raised) : Response β :=
  exceptionJsonResponse .unprocessableEntity exc.message

def httpExceptionHandler (exc : Raised) : Response β :=
  exceptionJsonResponse exc.statusCode exc.message

def entityNotFoundExceptionHandler (exc : Raised) : Response β :=
  exceptionJsonResponse .notFound exc.message

def emptyPayloadExceptionHandler (exc : Raised) : Response β :=
  exceptionJsonResponse .badRequest exc.message

def libraryExceptionHandler (exc : Raised) : Response β :=
  exceptionJsonResponse .internalServerError exc.message

def entityAlreadyExistsExceptionHandler (exc : Raised) : Response β :=
  exceptionJsonResponse .conflict exc.message

def invalidCredentialsExceptionHandler (exc : Raised) : Response β :=
  exceptionJsonResponse .unauthorized exc.message

/-- The argument of `Litestar` in `get_litestar_app`. -/
def exceptionHandlers : ExcClass → Option (Raised → Response β)
  | .validationException => some validationExceptionHandler
  | .httpException => some httpExceptionHandler
  | .libraryException => some libraryExceptionHandler
  | .entityNotFoundException => some entityNotFoundExceptionHandler
  | .emptyPayloadException => some emptyPayloadExceptionHandler
  | .entityAlreadyExistsException => some entityAlreadyExistsExceptionHandler
  | .invalidCredentialsException => some invalidCredentialsExceptionHandler
  | .notAuthorizedException | .permissionDeniedException | .exception => none

/-- litestar takes the first class of the `__mro__` that has a handler. -/
def errorResponse (raised : Raised) : Response β :=
  match raised.mro.findSome? exceptionHandlers with
  | some handler => handler raised
  | none => ⟨.internalServerError, .unhandled⟩

/-- The response of a route whose handler ended so. -/
def routed (success : HTTPStatus) : Except Exc β → Response β
  | .ok b => ⟨success, .body b⟩
  | .error e => errorResponse (.exc e)

def route {α σ : Type} (success : HTTPStatus) (f : α → β) (res : Except Exc α × σ) :
    Response β × σ :=
  (routed success (res.1.map f), res.2)

/-- A refusal names its own status and the message of what was raised, and a response without
either is a 500. -/
theorem errorResponse_cases (raised : Raised) :
    (∃ s, (errorResponse raised : Response β) = exceptionJsonResponse s raised.message) ∨
      (errorResponse raised : Response β) = ⟨.internalServerError, .unhandled⟩ := by
  rcases raised with detail | e
  · exact .inl ⟨_, rfl⟩
  · cases e
    case libraryException | entityNotFoundException | emptyPayloadException |
      entityAlreadyExistsException | invalidCredentialsException | notAuthorizedException |
      permissionDeniedException => exact .inl ⟨_, rfl⟩
    all_goals exact .inr rfl

/-- What a client can rely on: an error's body says that it is one, with the status that the
response has, and an answer comes with a success. -/
def Response.Honest (r : Response β) : Prop :=
  match r.content with
  | .status b => b.ok = false ∧ b.statusCode = r.statusCode.value
  | .body _ => r.statusCode.value < 300
  | .unhandled => r.statusCode = .internalServerError

theorem errorResponse_honest (raised : Raised) : (errorResponse raised : Response β).Honest := by
  rcases errorResponse_cases (β := β) raised with ⟨s, h⟩ | h <;> rw [h]
  · exact ⟨rfl, rfl⟩
  · exact rfl

theorem routed_honest {success : HTTPStatus} (h : success.value < 300) (res : Except Exc β) :
    (routed success res).Honest := by
  cases res with
  | error e => exact errorResponse_honest (.exc e)
  | ok b => exact h

theorem route_honest {α σ : Type} {success : HTTPStatus} (h : success.value < 300) (f : α → β)
    (res : Except Exc α × σ) : (route success f res).1.Honest := routed_honest h _

/-- What a client is told: a status, and what comes with a success. -/
structure Reply (γ : Type) where
  statusCode : HTTPStatus
  content : Option γ

def Reply.failed {γ : Type} (statusCode : HTTPStatus) : Reply γ := ⟨statusCode, none⟩

/-- The reply that a response is, as far as `view` shows its body. -/
def Response.reply {γ : Type} (view : β → γ) (r : Response β) : Reply γ :=
  match r.content with
  | .body b => ⟨r.statusCode, some (view b)⟩
  | .status _ | .unhandled => .failed r.statusCode

/-! ## Requests -/

/-- A field of a JSON object, or a query parameter: absent, `null`, what pydantic or litestar reads
as a value of its type, or anything else. -/
inductive Given (α : Type)
  | absent
  | null
  | value (a : α)
  | unreadable
  deriving DecidableEq, Repr

/-- `α | None` with the default `None`. -/
def Given.optional {α : Type} : Given α → Option (Domain.Field α)
  | .absent => some none
  | .null => some (some none)
  | .value a => some (some (some a))
  | .unreadable => none

/-- `Annotated[int, Parameter(ge=1, le=100)] = 10`. -/
def limitParam : Given Int → Option Nat
  | .absent => some 10
  | .value limit => if 1 ≤ limit ∧ limit ≤ 100 then some limit.toNat else none
  | .null | .unreadable => none

/-- `Annotated[int, Parameter(ge=0)] = 0`. -/
def offsetParam : Given Int → Option Nat
  | .absent => some 0
  | .value offset => if 0 ≤ offset then some offset.toNat else none
  | .null | .unreadable => none

def paginationParams (limit offset : Given Int) : Option PaginationParams :=
  (limitParam limit).bind fun limit => (offsetParam offset).map fun offset => ⟨limit, offset⟩

/-- What is run on the validated part of a request; where nothing validates, litestar raises. -/
def validated {α σ : Type} (detail : String) (input : Option α) (s : σ) (run : α → Response β × σ) :
    Response β × σ :=
  match input with
  | none => (errorResponse (.validationException detail), s)
  | some a => run a

variable {α σ : Type} {detail : String} {input : Option α} {s : σ} {run : α → Response β × σ}

theorem validated_honest (h : ∀ a, (run a).1.Honest) : (validated detail input s run).1.Honest := by
  cases input with
  | none => exact errorResponse_honest (.validationException detail)
  | some a => exact h a

theorem validated_state {P : σ → Prop} (hs : P s) (h : ∀ a, P (run a).2) :
    P (validated detail input s run).2 := by
  cases input with
  | none => exact hs
  | some a => exact h a

end LibraryService.Presentors
