import LibraryService.Domain.UploadFaults

/-!
# The upload consumer

`LogMessageMetaMiddleware` around `upload_open_library_books`, over any deliveries of its messages.
-/

open Transition Effect Relational LibraryService.Python LibraryService.Database LibraryService.Domain

namespace LibraryService.Presentors

/-! ## Messages and their log -/

/-- What JetStream says of a delivery; each is `none` where the object does not have it. -/
structure MsgMetadata where
  consumer : Option String
  numDelivered : Option Nat

structure UploadBooksEvent where
  queries : List String

structure StreamMessage where
  messageId : String
  metadata : Option MsgMetadata
  /-- What the parser makes of the payload. -/
  event : Except Exc UploadBooksEvent

/-- `_get_metadata`, without the metadata itself. -/
def getMetadata (msg : StreamMessage) : Option String × Option Nat :=
  (msg.metadata.bind MsgMetadata.consumer, msg.metadata.bind MsgMetadata.numDelivered)

inductive LogLevel
  | info
  | warning
  | error
  deriving DecidableEq, Repr

structure LogRecord where
  level : LogLevel
  text : String
  messageId : String
  redelivered : Option Nat
  consumer : Option String
  excInfo : Option Exc
  deriving DecidableEq

def receivedRecord (msg : StreamMessage) : LogRecord where
  level := if (getMetadata msg).2.any (1 < ·) then .warning else .info
  text := "[JetStream] Received message: ID=%s, Redelivered=%s, Consumer=%s."
  messageId := msg.messageId
  redelivered := (getMetadata msg).2
  consumer := (getMetadata msg).1
  excInfo := none

def failedRecord (msg : StreamMessage) (e : Exc) : LogRecord where
  level := .error
  text := "[JetStream] Message(ID=%s, Redelivered=%s, Consumer=%s) processing failed."
  messageId := msg.messageId
  redelivered := (getMetadata msg).2
  consumer := (getMetadata msg).1
  excInfo := some e

/-! ## `LogMessageMetaMiddleware` -/

/-- The methods of faststream's `BaseMiddleware` that the middleware calls. -/
structure BaseMiddleware where
  onConsume : StreamMessage → Except Exc StreamMessage
  afterConsume : Option Exc → Except Exc Unit

/-- It passes a message on, and raises the error that it is given. -/
structure BaseMiddleware.Default (base : BaseMiddleware) : Prop where
  onConsume : ∀ msg, base.onConsume msg = .ok msg
  returned : base.afterConsume none = .ok ()
  raised : ∀ e, base.afterConsume (some e) = .error e

/-- The log beside what the handler works on. -/
abbrev Logged (σ : Type) := List LogRecord × σ

variable {σ α : Type}

def writeLog (r : LogRecord) : Eff (Logged σ) Exc Unit := modify fun s => (s.1 ++ [r], s.2)

namespace LogMessageMetaMiddleware

def onConsume (base : BaseMiddleware) (msg : StreamMessage) : Eff (Logged σ) Exc StreamMessage := do
  writeLog (receivedRecord msg)
  Eff.ofExcept (base.onConsume msg)

def afterConsumeWithMessage (base : BaseMiddleware) (message : StreamMessage) (err : Option Exc) :
    Eff (Logged σ) Exc Unit := do
  match err with
  | some e => writeLog (failedRecord message e)
  | none => pure ()
  Eff.ofExcept (base.afterConsume err)

/-- What `except Exception` catches. -/
def caught : Except Exc α → Option Exc
  | .ok _ => none
  | .error e => if e.kind = .exception then some e else none

/-- The `finally` clause comes last on every path; after an exception that was caught the coroutine
returns `None`. -/
def consumeScope (base : BaseMiddleware) (callNext : StreamMessage → Eff (Logged σ) Exc α)
    (msg : StreamMessage) : Eff (Logged σ) Exc (Option α) := do
  let r ← (do let m ← onConsume base msg; callNext m).attempt
  afterConsumeWithMessage base msg (caught r)
  match r with
  | .ok result => pure (some result)
  | .error e => if e.kind = .exception then pure none else throw e

end LogMessageMetaMiddleware

open LogMessageMetaMiddleware

/-! ## The handler -/

/-- One delivery, with all that its handling meets. -/
structure Delivery (υ : Type) where
  msg : StreamMessage
  upstream : υ
  calls : UploadCalls υ
  fuel : Nat

variable {υ : Type}

/-- Each message is handled by a command with a unit of work of its own. -/
def uploadOpenLibraryBooks (d : Delivery υ) (event : UploadBooksEvent) :
    Eff BookTable Exc (Option Unit) :=
  Eff.of fun t =>
    let out := (d.calls.execute d.fuel event.queries).runOn (d.upstream, World.fresh t)
    (out.1, out.2.2.committed)

def handleMessage (d : Delivery υ) (msg : StreamMessage) : Eff BookTable Exc (Option Unit) := do
  let event ← Eff.ofExcept msg.event
  uploadOpenLibraryBooks d event

def consume (base : BaseMiddleware) (s : Logged BookTable) (d : Delivery υ) :
    Except Exc (Option (Option Unit)) × Logged BookTable :=
  (consumeScope base (fun msg => Eff.onSnd (handleMessage d msg)) d.msg).runOn s

/-! ## The middleware hides nothing -/

/-- What the middleware logs of a delivery that ends like this. -/
def recordsOf (msg : StreamMessage) (r : Except Exc α) : List LogRecord :=
  receivedRecord msg :: ((caught r).map (failedRecord msg)).toList

theorem consumeScope_runOn {base : BaseMiddleware} (h : base.Default) (x : StreamMessage → Eff σ Exc α)
    (msg : StreamMessage) (logs : List LogRecord) (s : σ) :
    (consumeScope base (fun m => Eff.onSnd (x m)) msg).runOn (logs, s) =
      (((x msg).runOn s).1.map some, logs ++ recordsOf msg ((x msg).runOn s).1,
        ((x msg).runOn s).2) := by
  have hreceive : (onConsume base msg).runOn (logs, s) =
      (.ok msg, logs ++ [receivedRecord msg], s) := by
    rw [onConsume, h.onConsume]
    rfl
  unfold consumeScope
  rw [runOn_attempt_bind, runOn_bind_ok hreceive, runOn_onSnd]
  generalize (x msg).runOn s = out
  obtain ⟨r, s'⟩ := out
  cases r with
  | ok a =>
    have hafter : (afterConsumeWithMessage base msg (caught (.ok a : Except Exc α))).runOn
        (logs ++ [receivedRecord msg], s') = (.ok (), logs ++ [receivedRecord msg], s') := by
      rw [caught, afterConsumeWithMessage, h.returned]
      rfl
    rw [runOn_bind_ok hafter]
    rfl
  | error e =>
    by_cases he : e.kind = .exception
    · have hafter : (afterConsumeWithMessage base msg (caught (.error e : Except Exc α))).runOn
          (logs ++ [receivedRecord msg], s') =
            (.error e, logs ++ [receivedRecord msg] ++ [failedRecord msg e], s') := by
        rw [caught, if_pos he, afterConsumeWithMessage, h.raised]
        rfl
      rw [runOn_bind_error hafter, recordsOf, caught, if_pos he, List.append_assoc]
      rfl
    · have hafter : (afterConsumeWithMessage base msg (caught (.error e : Except Exc α))).runOn
          (logs ++ [receivedRecord msg], s') = (.ok (), logs ++ [receivedRecord msg], s') := by
        rw [caught, if_neg he, afterConsumeWithMessage, h.returned]
        rfl
      rw [runOn_bind_ok hafter, recordsOf, caught, if_neg he]
      simp only [if_neg he]
      rfl

/-! ## What one delivery leaves -/

section Upstream

variable {search : String → Nat → Nat → Eff υ Exc OpenLibrary.OpenLibrarySearchResult}

theorem Pages.unique {query : String} {offset : Nat} {u u₁ u₂ : υ}
    {books₁ books₂ : List OpenLibrary.OpenLibraryBook} (h : Pages search query offset u books₁ u₁)
    (h' : Pages search query offset u books₂ u₂) : books₁ = books₂ ∧ u₁ = u₂ := by
  induction h generalizing books₂ u₂ with
  | last hr hshort =>
    cases h' with
    | last hr' _ => rw [hr] at hr'; cases hr'; exact ⟨rfl, rfl⟩
    | full hr' hfull _ => rw [hr] at hr'; cases hr'; exact absurd hshort hfull
  | full hr hfull _ ih =>
    cases h' with
    | last hr' hshort => rw [hr] at hr'; cases hr'; exact absurd hshort hfull
    | full hr' _ hrest =>
      rw [hr] at hr'; cases hr'
      obtain ⟨rfl, rfl⟩ := ih hrest
      exact ⟨rfl, rfl⟩

theorem Answered.unique {queries : List String} {u u₁ u₂ : υ}
    {books₁ books₂ : List OpenLibrary.OpenLibraryBook} (h : Answered search queries u books₁ u₁)
    (h' : Answered search queries u books₂ u₂) : books₁ = books₂ ∧ u₁ = u₂ := by
  induction h generalizing books₂ u₂ with
  | nil => cases h'; exact ⟨rfl, rfl⟩
  | cons hpages _ ih =>
    cases h' with
    | cons hpages' hrest =>
      obtain ⟨rfl, rfl⟩ := Pages.unique hpages hpages'
      obtain ⟨rfl, rfl⟩ := ih hrest
      exact ⟨rfl, rfl⟩

end Upstream

/-- The triples of all books that the upstream answered for the message. -/
def Delivery.triples (d : Delivery υ) : Set Triple :=
  {tr | ∃ event books u', d.msg.event = .ok event ∧
    Answered d.calls.search event.queries d.upstream books u' ∧
    tr ∈ triplesOf (books.map createBookOf)}

/-- An insert fails only with an exception that Python takes for true. -/
def Delivery.Sound (d : Delivery υ) : Prop :=
  ∀ k e, d.calls.inserts k = .raises e → e.truth = true

/-- How a delivery ends: it is handled and its books are there, it is still being handled, or it
fails and leaves the table; the session's `close` comes after the commit. -/
inductive Handled (d : Delivery υ) (t : BookTable) : Except Exc (Option Unit) → BookTable → Prop
  | done {t' : BookTable} (h : Adds t t' d.triples) : Handled d t (.ok (some ())) t'
  | fetching : Handled d t (.ok none) t
  | failed (e : Exc) : Handled d t (.error e) t
  | unclosed {t' : BookTable} (e : Exc) (hclose : d.calls.awaits.close ≠ .returns)
      (h : Adds t t' d.triples) : Handled d t (.error e) t'

variable {d : Delivery υ} {t t' : BookTable} {base : BaseMiddleware}

theorem triples_eq {event : UploadBooksEvent} {books : List OpenLibrary.OpenLibraryBook} {u' : υ}
    (hevent : d.msg.event = .ok event)
    (h : Answered d.calls.search event.queries d.upstream books u') :
    d.triples = triplesOf (books.map createBookOf) := by
  ext tr
  constructor
  · rintro ⟨event', books', u₂, hevent', h', htr⟩
    rw [hevent] at hevent'; cases hevent'
    obtain ⟨rfl, rfl⟩ := Answered.unique h h'
    exact htr
  · exact fun htr => ⟨event, books, u', hevent, h, htr⟩

theorem handleMessage_handled (hd : d.Sound) (t : BookTable) :
    Handled d t ((handleMessage d d.msg).runOn t).1 ((handleMessage d d.msg).runOn t).2 := by
  cases hevent : d.msg.event with
  | error e =>
    rw [handleMessage, hevent, runOn_bind_error (runOn_ofExcept _ t)]
    exact .failed e
  | ok event =>
    have hrun : (handleMessage d d.msg).runOn t = (uploadOpenLibraryBooks d event).runOn t := by
      rw [handleMessage, hevent, runOn_bind_ok (runOn_ofExcept _ t)]
    rw [hrun]
    change Handled d t ((d.calls.execute d.fuel event.queries).runOn (d.upstream, World.fresh t)).1
      ((d.calls.execute d.fuel event.queries).runOn (d.upstream, World.fresh t)).2.2.committed
    cases hf : (UploadBooksCommand.fetchBooks d.calls.search d.fuel event.queries []).runOn d.upstream with
    | mk r u' =>
      cases r with
      | error e =>
        rw [execute_unfetched hf]
        exact .failed e
      | ok found =>
        rcases fetchBooks_cases hf with ⟨rfl, -⟩ | ⟨books, rfl, hbooks⟩
        · rw [execute_fetching hf]
          exact .fetching
        · rw [execute_fetched hf, List.nil_append]
          have htriples := triples_eq hevent hbooks
          rcases save_cases hd books (World.fresh t) with
            ⟨hret, hup⟩ | ⟨e, hraise, hkept | ⟨hclose, hup⟩⟩
          · rw [hret]
            exact .done (htriples ▸ hup.adds)
          · rw [hraise, hkept]
            exact .failed e
          · rw [hraise]
            exact .unclosed e hclose (htriples ▸ hup.adds)

theorem consume_eq (h : base.Default) (s : Logged BookTable) (d : Delivery υ) :
    consume base s d = (((handleMessage d d.msg).runOn s.2).1.map some,
      s.1 ++ recordsOf d.msg ((handleMessage d d.msg).runOn s.2).1,
      ((handleMessage d d.msg).runOn s.2).2) :=
  consumeScope_runOn h (handleMessage d) d.msg s.1 s.2

/-! ## Any deliveries -/

def acked : Except Exc (Option (Option Unit)) := .ok (some (some ()))

/-- After any deliveries: every message that was handled has its books live, no other book has come,
and each triple is live once. The log has a line for each delivery and for each exception, and
nothing that was raised is hidden from the framework. -/
structure Consumed (s : Logged BookTable) (ds : List (Delivery υ))
    (outs : List (Except Exc (Option (Option Unit)))) (s' : Logged BookTable) : Prop where
  keeps : s.2.rows <+: s'.2.rows
  handled : ∀ p ∈ ds.zip outs, p.2 = acked → p.1.triples ⊆ liveTriples s'.2
  only : ∀ tr ∈ liveTriples s'.2, tr ∈ liveTriples s.2 ∨ ∃ p ∈ ds.zip outs, tr ∈ p.1.triples ∧
    (p.2 = acked ∨ p.1.calls.awaits.close ≠ .returns)
  distinct : (s'.2.rows.filter fun r => r.deletedAt.isNone).Pairwise fun r r' => r.triple ≠ r'.triple
  logged : s'.1 = s.1 ++ (ds.zip outs).flatMap fun p => recordsOf p.1.msg p.2
  shown : .ok none ∉ outs

/-- Where for each delivery one is handled that brings its books, the books are those there were and
those of all deliveries. -/
structure ExactlyOnce (s : Logged BookTable) (ds : List (Delivery υ))
    (outs : List (Except Exc (Option (Option Unit)))) (s' : Logged BookTable) : Prop
    extends Consumed s ds outs s' where
  settled : (∀ d ∈ ds, ∃ p ∈ ds.zip outs, p.2 = acked ∧ d.triples ⊆ p.1.triples) →
    liveTriples s'.2 = liveTriples s.2 ∪ {tr | ∃ d ∈ ds, tr ∈ d.triples}

theorem recordsOf_map (msg : StreamMessage) (r : Except Exc α) :
    recordsOf msg (r.map some) = recordsOf msg r := by
  cases r <;> rfl

theorem Handled.adds {r : Except Exc (Option Unit)} (h : Handled d t r t') :
    t.rows <+: t'.rows ∧ liveTriples t ⊆ liveTriples t' ∧
      (r = .ok (some ()) → d.triples ⊆ liveTriples t') ∧
      ∀ tr ∈ liveTriples t', tr ∈ liveTriples t ∨ tr ∈ d.triples ∧
        (r = .ok (some ()) ∨ d.calls.awaits.close ≠ .returns) := by
  have hadds : ∀ {t₁}, Adds t t₁ d.triples → liveTriples t ⊆ liveTriples t₁ ∧
      d.triples ⊆ liveTriples t₁ ∧ ∀ tr ∈ liveTriples t₁, tr ∈ liveTriples t ∨ tr ∈ d.triples := by
    intro t₁ h
    rw [h.live]
    exact ⟨Set.subset_union_left, Set.subset_union_right, fun tr htr => htr⟩
  cases h with
  | done h =>
    obtain ⟨hold, hnew, honly⟩ := hadds h
    exact ⟨h.keeps, hold, fun _ => hnew, fun tr htr => (honly tr htr).imp_right fun h => ⟨h, .inl rfl⟩⟩
  | fetching => exact ⟨List.prefix_refl _, subset_rfl, nofun, fun tr htr => .inl htr⟩
  | failed e => exact ⟨List.prefix_refl _, subset_rfl, nofun, fun tr htr => .inl htr⟩
  | unclosed e hclose h =>
    obtain ⟨hold, -, honly⟩ := hadds h
    exact ⟨h.keeps, hold, nofun, fun tr htr => (honly tr htr).imp_right fun h => ⟨h, .inr hclose⟩⟩

theorem deliveries_consumed (hbase : base.Default) {ds : List (Delivery υ)}
    (hds : ∀ d ∈ ds, d.Sound) (s : Logged BookTable) :
    Consumed s ds (answers (consume base) s ds).1 (answers (consume base) s ds).2 := by
  induction ds generalizing s with
  | nil =>
    exact ⟨List.prefix_refl _, by simp, fun tr htr => .inl htr, live_distinct _, by simp [answers],
      by simp [answers]⟩
  | cons d ds ih =>
    have hrest := ih (fun d' hd' => hds d' (by simp [hd'])) (consume base s d).2
    rw [answers]
    rw [consume_eq hbase] at hrest ⊢
    have hfirst := handleMessage_handled (hds d (by simp)) s.2
    generalize (handleMessage d d.msg).runOn s.2 = out at hrest hfirst ⊢
    obtain ⟨r, t'⟩ := out
    obtain ⟨hkeeps, hgrow, hnew, honly⟩ := hfirst.adds
    have hack : r.map some = acked ↔ r = .ok (some ()) := by
      cases r <;> simp [acked, Except.map]
    dsimp only at hrest ⊢
    constructor
    case keeps => exact hkeeps.trans hrest.keeps
    case handled =>
      rw [List.zip_cons_cons, List.forall_mem_cons]
      refine ⟨fun hok tr htr => ?_, hrest.handled⟩
      obtain ⟨x, hx, hxd, hxtr⟩ := hnew (hack.mp hok) htr
      exact ⟨x, hrest.keeps.subset hx, hxd, hxtr⟩
    case only =>
      intro tr htr
      simp only [List.zip_cons_cons, List.exists_mem_cons_iff, hack]
      rcases hrest.only tr htr with htr | htr
      · exact (honly tr htr).imp_right .inl
      · exact .inr (.inr htr)
    case distinct => exact hrest.distinct
    case logged =>
      rw [hrest.logged, List.zip_cons_cons, List.flatMap_cons, recordsOf_map, List.append_assoc]
    case shown =>
      rw [List.mem_cons, not_or]
      refine ⟨?_, hrest.shown⟩
      cases r <;> simp [Except.map]

theorem Consumed.settles {s s' : Logged BookTable} {ds : List (Delivery υ)}
    {outs : List (Except Exc (Option (Option Unit)))} (h : Consumed s ds outs s')
    (hack : ∀ d ∈ ds, ∃ p ∈ ds.zip outs, p.2 = acked ∧ d.triples ⊆ p.1.triples) :
    liveTriples s'.2 = liveTriples s.2 ∪ {tr | ∃ d ∈ ds, tr ∈ d.triples} := by
  apply Set.Subset.antisymm
  · intro tr htr
    refine (h.only tr htr).imp_right ?_
    rintro ⟨p, hp, hptr, -⟩
    exact ⟨p.1, (List.of_mem_zip hp).1, hptr⟩
  · rintro tr (⟨x, hx, hxd, hxtr⟩ | ⟨d, hd, htr⟩)
    · exact ⟨x, h.keeps.subset hx, hxd, hxtr⟩
    · obtain ⟨p, hp, hpack, hptr⟩ := hack d hd
      exact h.handled p hp hpack (hptr htr)

/-- **At-least-once delivery has its effect once**, whatever is delivered, in whatever order and
however often, and whatever fails meanwhile. -/
theorem deliveries_exactly_once (hbase : base.Default) {ds : List (Delivery υ)}
    (hds : ∀ d ∈ ds, d.Sound) (s : Logged BookTable) :
    ExactlyOnce s ds (answers (consume base) s ds).1 (answers (consume base) s ds).2 :=
  ⟨deliveries_consumed hbase hds s, (deliveries_consumed hbase hds s).settles⟩

def defaultBase : BaseMiddleware where
  onConsume msg := .ok msg
  afterConsume err := match err with
    | none => .ok ()
    | some e => .error e

/-- A message whose first delivery loses its connection, and its second. -/
def lostThenHandled : List (Delivery Nat) :=
  [{ msg := ⟨"m-1", some ⟨some "books", some 1⟩, .ok ⟨["Iliad"]⟩⟩, upstream := 0
     calls := lostConnection, fuel := 1 },
   { msg := ⟨"m-1", some ⟨some "books", some 2⟩, .ok ⟨["Iliad"]⟩⟩, upstream := 0
     calls := { lostConnection with inserts := fun _ => .returns }, fuel := 1 }]

theorem deliveries_exactly_once_lost :
    (answers (consume defaultBase) ([], Table.empty) lostThenHandled).1 =
        [.error (.other .exception "ConnectionLost" true), acked] ∧
      ExactlyOnce ([], Table.empty) lostThenHandled
        (answers (consume defaultBase) ([], Table.empty) lostThenHandled).1
        (answers (consume defaultBase) ([], Table.empty) lostThenHandled).2 := by
  refine ⟨rfl, deliveries_exactly_once ⟨fun _ => rfl, rfl, fun _ => rfl⟩ ?_ _⟩
  simp only [lostThenHandled, List.forall_mem_cons, List.not_mem_nil, false_imp_iff,
    implies_true, and_true]
  refine ⟨fun k e h => ?_, fun k e h => ?_⟩
  · cases h; rfl
  · cases h

end LibraryService.Presentors
