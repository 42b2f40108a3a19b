import Mathlib
import LibraryService.General.Effect
import LibraryService.Application.Exceptions
import LibraryService.Python.Text

/-!
# Request ids

`RequestIdMiddleware`, around any application that talks to its server through `send` and `receive`.
-/

open Effect LibraryService.Python

namespace LibraryService.Presentors

/-! ## ASGI -/

abbrev Header := ByteArray × ByteArray

structure Scope where
  type : String
  headers : Option (List Header)

/-- `ρ` holds the items of a message other than these two. -/
structure Message (ρ : Type) where
  type : String
  headers : Option (List Header)
  rest : ρ

/-- An application at work: what it does next, for each way its last call can end. -/
inductive App (ρ : Type)
  | ends (res : Except Exc Unit)
  | send (message : Message ρ) (next : Except Exc Unit → App ρ)
  | receive (next : Except Exc (Message ρ) → App ρ)
  /-- The application may look at the context variable, bind it and unbind it. -/
  | getRequestId (next : Option String → App ρ)
  | setRequestId (requestId : Option String) (next : App ρ)

/-- How the `k`-th call of the server's `send` and of its `receive` ends. -/
structure Server (ρ : Type) where
  send : Nat → Except Exc Unit
  receive : Nat → Except Exc (Message ρ)

structure Exchange (ρ : Type) where
  /-- The messages that the application has sent, and the ones that have come to the server. -/
  asked : List (Message ρ)
  sent : List (Message ρ)
  received : Nat
  /-- The context variable. -/
  requestId : Option String
  /-- How the application ended, if it was called. -/
  ended : Option (Except Exc Unit)

variable {ρ : Type}

def Exchange.start (requestId : Option String) : Exchange ρ :=
  { asked := [], sent := [], received := 0, requestId, ended := none }

def Server.sendMessage (server : Server ρ) (message : Message ρ) : Eff (Exchange ρ) Exc Unit :=
  Eff.of fun w => (server.send w.sent.length, { w with sent := w.sent ++ [message] })

def Server.receiveMessage (server : Server ρ) : Eff (Exchange ρ) Exc (Message ρ) :=
  Eff.of fun w => (server.receive w.received, { w with received := w.received + 1 })

/-- `await self.app(scope, receive, send)`. -/
def App.run (server : Server ρ) (send : Message ρ → Eff (Exchange ρ) Exc Unit) :
    App ρ → Eff (Exchange ρ) Exc Unit
  | ends res => do
    modify fun w => { w with ended := some res }
    Eff.ofExcept res
  | .send message next => do
    modify fun w => { w with asked := w.asked ++ [message] }
    let res ← (send message).attempt
    (next res).run server send
  | receive next => do
    let res ← server.receiveMessage.attempt
    (next res).run server send
  | getRequestId next => do
    let w ← get
    (next w.requestId).run server send
  | setRequestId requestId next => do
    modify fun w => { w with requestId }
    next.run server send

/-! ## The middleware -/

def REQUEST_ID_HEADER : ByteArray := "x-request-id".toUTF8

/-- `dict(headers).get(name)`: of two pairs with one name the later counts. -/
def headerValue (name : ByteArray) (headers : List Header) : Option ByteArray :=
  (headers.reverse.find? fun h => decide (h.1 = name)).map Prod.snd

def decode (value : ByteArray) : Except Exc String :=
  if h : value.validateUTF8 = true then
    .ok (String.fromUTF8 value (ByteArray.validateUTF8_eq_true_iff.mp h))
  else .error (.other .exception "UnicodeDecodeError" true)

/-- `incoming.decode() if incoming else uuid.uuid4().hex`. -/
def requestIdOf (uuid4 : UUID) (incoming : Option ByteArray) : Except Exc String :=
  match incoming with
  | none => .ok uuid4.hex
  | some value => if value = ByteArray.empty then .ok uuid4.hex else decode value

def withHeader (requestId : String) (message : Message ρ) : Message ρ :=
  if message.type = "http.response.start" then
    { message with
      headers := some (message.headers.getD [] ++ [(REQUEST_ID_HEADER, requestId.toUTF8)]) }
  else message

namespace RequestIdMiddleware

def call (server : Server ρ) (uuid4 : UUID) (app : Scope → App ρ) (scope : Scope) :
    Eff (Exchange ρ) Exc Unit :=
  if scope.type ≠ "http" then (app scope).run server server.sendMessage
  else do
    let incoming := headerValue REQUEST_ID_HEADER (scope.headers.getD [])
    let requestId ← Eff.ofExcept (requestIdOf uuid4 incoming)
    modify fun w => { w with requestId := some requestId }
    ((app scope).run server fun message => server.sendMessage (withHeader requestId message)).andFinally
      (modify fun w => { w with requestId := none })

end RequestIdMiddleware

/-! ## What it is for -/

/-- The value of the last pair with the name. -/
def LastValue (name : ByteArray) (headers : List Header) (value : ByteArray) : Prop :=
  ∃ before after, headers = before ++ (name, value) :: after ∧ ∀ h ∈ after, h.1 ≠ name

abbrev LastIncoming (scope : Scope) (value : ByteArray) : Prop :=
  LastValue REQUEST_ID_HEADER (scope.headers.getD []) value

/-- The last incoming value where it is not empty, and the fresh id otherwise. -/
structure Echoes (uuid4 : UUID) (scope : Scope) (value : ByteArray) : Prop where
  incoming : ∀ v, LastIncoming scope v → v ≠ ByteArray.empty → value = v
  fresh : (∀ v, LastIncoming scope v → v = ByteArray.empty) → value = uuid4.hex.toUTF8

/-- What comes to the server for a message of the application. -/
structure Forwarded (value : ByteArray) (message forwarded : Message ρ) : Prop where
  start : message.type = "http.response.start" → forwarded.type = message.type ∧
    forwarded.rest = message.rest ∧
    forwarded.headers = some (message.headers.getD [] ++ [(REQUEST_ID_HEADER, value)])
  other : message.type ≠ "http.response.start" → forwarded = message

/-- The application was called and ends the call, each of its messages was forwarded with one id,
and the context variable is unbound. -/
structure Correlated (uuid4 : UUID) (scope : Scope) (out : Except Exc Unit × Exchange ρ) : Prop where
  called : out.2.ended = some out.1
  forwarded : ∃ value, Echoes uuid4 scope value ∧
    List.Forall₂ (Forwarded value) out.2.asked out.2.sent
  unbound : out.2.requestId = none

variable {server : Server ρ} {uuid4 : UUID} {app : Scope → App ρ} {scope : Scope}
  {w : Exchange ρ} {name value : ByteArray} {headers : List Header}

/-! ## The incoming value -/

theorem headerValue_eq_some : headerValue name headers = some value ↔ LastValue name headers value := by
  unfold headerValue LastValue
  simp only [Option.map_eq_some_iff, List.find?_eq_some_iff_append, decide_eq_true_eq]
  constructor
  · rintro ⟨⟨_, _⟩, ⟨rfl, after, before, hsplit, hafter⟩, rfl⟩
    refine ⟨before.reverse, after.reverse, ?_, by simpa using hafter⟩
    rw [← List.reverse_reverse headers, hsplit]
    simp
  · rintro ⟨before, after, rfl, hafter⟩
    exact ⟨(name, value), ⟨rfl, after.reverse, before.reverse, by simp, by simpa using hafter⟩, rfl⟩

theorem lastIncoming_iff :
    LastIncoming scope value ↔ headerValue REQUEST_ID_HEADER (scope.headers.getD []) = some value :=
  headerValue_eq_some.symm

theorem decode_ok (h : value.validateUTF8 = true) : ∃ s, decode value = .ok s ∧ s.toUTF8 = value := by
  rw [decode, dif_pos h]
  exact ⟨_, rfl, rfl⟩

theorem decode_error (h : ¬ value.validateUTF8 = true) :
    decode value = .error (.other .exception "UnicodeDecodeError" true) := by
  rw [decode, dif_neg h]

theorem echoes_fresh (h : ∀ v, LastIncoming scope v → v = ByteArray.empty) :
    Echoes uuid4 scope uuid4.hex.toUTF8 :=
  ⟨fun v hv hne => absurd (h v hv) hne, fun _ => rfl⟩

theorem echoes_incoming (h : ∀ v, LastIncoming scope v ↔ v = value) (hne : value ≠ ByteArray.empty) :
    Echoes uuid4 scope value :=
  ⟨fun v hv _ => ((h v).mp hv).symm, fun hempty => absurd (hempty value ((h value).mpr rfl)) hne⟩

/-- An id is found exactly where the last incoming value can be decoded, and it echoes that value. -/
theorem requestIdOf_cases (uuid4 : UUID) (scope : Scope) :
    (∀ v, LastIncoming scope v → v.validateUTF8 = true) ∧ (∃ s,
        requestIdOf uuid4 (headerValue REQUEST_ID_HEADER (scope.headers.getD [])) = .ok s ∧
          Echoes uuid4 scope s.toUTF8) ∨
      (¬ ∀ v, LastIncoming scope v → v.validateUTF8 = true) ∧
        ∃ e, requestIdOf uuid4 (headerValue REQUEST_ID_HEADER (scope.headers.getD [])) = .error e := by
  cases hincoming : headerValue REQUEST_ID_HEADER (scope.headers.getD []) with
  | none =>
    have hnone : ∀ v, ¬ LastIncoming scope v := fun v hv => by
      rw [lastIncoming_iff, hincoming] at hv
      cases hv
    exact .inl ⟨fun v hv => absurd hv (hnone v), _, rfl,
      echoes_fresh fun v hv => absurd hv (hnone v)⟩
  | some value =>
    have hlast : ∀ v, LastIncoming scope v ↔ v = value := fun v => by
      rw [lastIncoming_iff, hincoming, Option.some.injEq, eq_comm]
    simp only [hlast, forall_eq, requestIdOf]
    by_cases hempty : value = ByteArray.empty
    · rw [if_pos hempty]
      refine .inl ⟨by rw [hempty]; rfl, _, rfl, echoes_fresh fun v hv => ?_⟩
      rw [(hlast v).mp hv, hempty]
    · rw [if_neg hempty]
      by_cases hvalid : value.validateUTF8 = true
      · obtain ⟨s, hs, hbytes⟩ := decode_ok hvalid
        exact .inl ⟨hvalid, s, hs, by rw [hbytes]; exact echoes_incoming hlast hempty⟩
      · exact .inr ⟨hvalid, _, decode_error hvalid⟩

/-! ## The application inside -/

theorem forwarded_withHeader (requestId : String) (message : Message ρ) :
    Forwarded requestId.toUTF8 message (withHeader requestId message) := by
  unfold withHeader
  constructor
  · intro hstart
    rw [if_pos hstart]
    exact ⟨rfl, rfl, rfl⟩
  · intro hother
    exact if_neg hother

/-- Whatever the application does, each message that it sends comes to the server with the header,
and in the end it has ended as it did. -/
theorem run_forwards (server : Server ρ) (requestId : String) (app : App ρ) (w : Exchange ρ)
    (h : List.Forall₂ (Forwarded requestId.toUTF8) w.asked w.sent) :
    let out := (app.run server fun m => server.sendMessage (withHeader requestId m)).runOn w
    List.Forall₂ (Forwarded requestId.toUTF8) out.2.asked out.2.sent ∧ out.2.ended = some out.1 := by
  induction app generalizing w with
  | ends res => exact ⟨h, rfl⟩
  | send message next ih =>
    simp only [App.run]
    rw [runOn_bind_ok (runOn_modify _ w), runOn_attempt_bind]
    apply ih
    exact List.rel_append h (.cons (forwarded_withHeader requestId message) .nil)
  | receive next ih =>
    simp only [App.run]
    rw [runOn_attempt_bind]
    exact ih _ _ h
  | getRequestId next ih =>
    simp only [App.run]
    rw [runOn_bind_ok (runOn_get w)]
    exact ih _ _ h
  | setRequestId requestId' next ih =>
    simp only [App.run]
    rw [runOn_bind_ok (runOn_modify _ w)]
    exact ih _ h

/-- **Requests are correlated** exactly when the last incoming id, if there is one, is UTF-8:
whatever the application does, and however it ends. -/
theorem request_correlated_iff (server : Server ρ) (uuid4 : UUID) (app : Scope → App ρ)
    (hscope : scope.type = "http") (outer : Option String) :
    Correlated uuid4 scope
        ((RequestIdMiddleware.call server uuid4 app scope).runOn (Exchange.start outer)) ↔
      ∀ v, LastIncoming scope v → v.validateUTF8 = true := by
  have hhttp : ¬ scope.type ≠ "http" := not_not.mpr hscope
  rw [RequestIdMiddleware.call, if_neg hhttp]
  dsimp only
  rcases requestIdOf_cases uuid4 scope with ⟨hvalid, requestId, hid, hecho⟩ | ⟨hinvalid, e, hid⟩
  · rw [hid, runOn_bind_ok (runOn_ofExcept _ _), runOn_bind_ok (runOn_modify _ _)]
    rw [runOn_andFinally (runOn_modify _ _)]
    obtain ⟨hforwarded, hended⟩ := run_forwards server requestId (app scope)
      { Exchange.start outer with requestId := some requestId } .nil
    exact iff_of_true ⟨hended, ⟨_, hecho, hforwarded⟩, rfl⟩ hvalid
  · rw [hid, runOn_bind_error (runOn_ofExcept _ _)]
    refine iff_of_false (fun h => ?_) hinvalid
    cases h.called

/-- An application that starts a response with one header, sends its body, and ends as that does. -/
def greeter (_ : Scope) : App Unit :=
  .send ⟨"http.response.start", some [("content-type".toUTF8, "text/plain".toUTF8)], ()⟩ fun _ =>
    .send ⟨"http.response.body", none, ()⟩ .ends

def quietServer : Server Unit where
  send _ := .ok ()
  receive _ := .ok ⟨"http.disconnect", none, ()⟩

def scopeWith (value : ByteArray) : Scope :=
  { type := "http", headers := some [(REQUEST_ID_HEADER, value)] }

theorem request_correlated_iff_ascii :
    Correlated ⟨7⟩ (scopeWith "abc".toUTF8)
        ((RequestIdMiddleware.call quietServer ⟨7⟩ greeter (scopeWith "abc".toUTF8)).runOn
          (Exchange.start none)) ↔
      ∀ v, LastIncoming (scopeWith "abc".toUTF8) v → v.validateUTF8 = true :=
  request_correlated_iff quietServer ⟨7⟩ greeter rfl none

/-- An id that is no UTF-8 raises before the application is called. -/
theorem undecodable_id_raises :
    let out := (RequestIdMiddleware.call quietServer ⟨7⟩ greeter (scopeWith ⟨#[0xff]⟩)).runOn
      (Exchange.start none)
    out.1 = .error (.other .exception "UnicodeDecodeError" true) ∧ out.2.ended = none ∧
      ¬ Correlated ⟨7⟩ (scopeWith ⟨#[0xff]⟩) out := by
  have hrun : (RequestIdMiddleware.call quietServer ⟨7⟩ greeter (scopeWith ⟨#[0xff]⟩)).runOn
      (Exchange.start none) =
      (.error (.other .exception "UnicodeDecodeError" true), Exchange.start none) := rfl
  rw [hrun]
  exact ⟨rfl, rfl, fun h => by cases h.called⟩

end LibraryService.Presentors
