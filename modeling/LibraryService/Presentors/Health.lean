import LibraryService.Healthcheck.Runner
import LibraryService.Presentors.Http

/-!
# The readiness route

`HealthController.readiness`, and what its response tells of the three checks.
-/

open Transition
open LibraryService.Healthcheck (Answer CheckResult CheckTask Coroutine HealthCheck HeedingStep Label
  NatsConnection State cancelledError init readinessChecks runtimeError step OwnStep)

namespace LibraryService.Presentors

structure CheckResultSchema where
  name : String
  healthy : Bool
  detail : String
  deriving DecidableEq, Repr

structure ReadinessSchema where
  status : String
  checks : List CheckResultSchema
  deriving DecidableEq, Repr

def HealthController.readiness (results : List CheckResult) : Response ReadinessSchema :=
  let allOk := results.all fun r => r.healthy
  { statusCode := if allOk then .ok else .serviceUnavailable
    content := .body
      { status := if allOk then "ok" else "fail"
        checks := results.map fun r => ⟨r.name, r.healthy, r.detail⟩ } }

/-- What the route handler has come to. -/
def readinessAnswer (s : State 3) : Option (Except Healthcheck.Raised (Response ReadinessSchema)) :=
  s.gather.result.map (Except.map HealthController.readiness)

/-! ## What a check tells -/

/-- The check returns where it is up and nothing it awaited failed, and raises what failed. -/
def Checks (name : String) (up : Bool) (c : Coroutine) : Prop :=
  ∀ heard how, c.feed heard = some (.ends how) →
    how = .ok { name := name, healthy := true } ∧ up = true ∧ (∀ a ∈ heard, a = .ok ()) ∨
      ∃ e, how = .error e ∧ (.error e ∈ heard ∨ up = false ∧ e = runtimeError)

/-- The broker has a connection, and it does not say that it is not connected. -/
def natsUp : Option NatsConnection → Bool
  | none => false
  | some c => c.isConnected != some false

theorem checks_postgres : Checks "postgres" true Healthcheck.PostgresHealthCheck.check := by
  unfold Checks Healthcheck.PostgresHealthCheck
  intro heard how h
  match heard with
  | [] => cases h
  | [.error e] =>
    cases h
    exact .inr ⟨e, rfl, by simp⟩
  | .error e :: _ :: _ => cases h
  | [.ok ()] => cases h
  | [.ok (), _] => cases h
  | [.ok (), executed, .error e] =>
    cases h
    exact .inr ⟨e, rfl, by simp⟩
  | [.ok (), .error e, .ok ()] =>
    cases h
    exact .inr ⟨e, rfl, by simp⟩
  | [.ok (), .ok (), .ok ()] =>
    cases h
    exact .inl ⟨rfl, rfl, by simp⟩
  | .ok () :: _ :: _ :: _ :: _ => cases h

theorem checks_redis : Checks "redis" true Healthcheck.RedisHealthCheck.check := by
  unfold Checks Healthcheck.RedisHealthCheck
  intro heard how h
  match heard with
  | [] => cases h
  | [.error e] =>
    cases h
    exact .inr ⟨e, rfl, by simp⟩
  | [.ok ()] =>
    cases h
    exact .inl ⟨rfl, rfl, by simp⟩
  | _ :: _ :: _ => cases h

theorem checks_nats (connection : Option NatsConnection) :
    Checks "nats" (natsUp connection) (Healthcheck.NatsHealthCheck connection).check := by
  unfold Checks Healthcheck.NatsHealthCheck natsUp
  intro heard how h
  cases heard with
  | cons a as => cases h
  | nil =>
    cases connection with
    | none =>
      cases h
      exact .inr ⟨_, rfl, .inr ⟨rfl, rfl⟩⟩
    | some c =>
      simp only [Coroutine.feed, Option.some.injEq, Coroutine.ends.injEq] at h
      split at h <;> subst h
      · exact .inr ⟨_, rfl, .inr ⟨by simp [*], rfl⟩⟩
      · exact .inl ⟨rfl, by simp [*], by simp⟩

/-- What an entry of the response tells of its check. -/
structure Tells (name : String) (up : Bool) (task : CheckTask) (entry : CheckResultSchema) :
    Prop where
  name : entry.name = name
  healthy : entry.healthy = true ↔ up = true ∧ ∀ a ∈ task.heard, a = .ok ()
  detail : entry.healthy = true → entry.detail = "ok"
  error : entry.healthy = false →
    task.expired = true ∧ entry.detail = "error: TimeoutError" ∨
      ∃ e : Healthcheck.Raised, e.kind = .exception ∧ entry.detail = "error: " ++ e.typeName ∧
        (.error e ∈ task.heard ∨ up = false ∧ e = runtimeError)

section Ended

open Healthcheck (EndedAs exceptException_error exceptException_ok leaveTimeout_error)

variable {c : HealthCheck} {up : Bool} {task : CheckTask} {r : CheckResult} {e : Healthcheck.Raised}

theorem tells_of_ended (hc : Checks c.name up c.check) (h : EndedAs c task (.ok r)) :
    Tells c.name up task ⟨r.name, r.healthy, r.detail⟩ := by
  rcases h with ⟨hno, -⟩ | ⟨how, hfeed, hr⟩
  · cases hno
  · rcases hc task.heard how hfeed with ⟨rfl, hup, hheard⟩ | ⟨e, rfl, hwhy⟩
    · cases hr
      exact ⟨rfl, by simp [hup]; exact hheard, fun _ => rfl, nofun⟩
    · have hfailed : ¬ (up = true ∧ ∀ a ∈ task.heard, a = .ok ()) := by
        rintro ⟨hup, hall⟩
        rcases hwhy with he | ⟨hdown, -⟩
        · cases hall _ he
        · rw [hup] at hdown
          cases hdown
      obtain ⟨e', he', hleft⟩ := leaveTimeout_error task.expired task.cancelRequests e
      rw [he'] at hr
      obtain ⟨hkind, rfl⟩ := exceptException_ok hr.symm
      refine ⟨rfl, ⟨nofun, fun hup => absurd hup hfailed⟩, nofun, fun _ => ?_⟩
      rcases hleft with ⟨rfl, hexpired⟩ | ⟨rfl, -⟩
      · exact .inl ⟨hexpired, rfl⟩
      · exact .inr ⟨e', hkind, rfl, hwhy⟩

/-- Where only timers asked for a cancellation, `_safe_check` raises what its check raised, and no
`Exception` and no cancellation of its timer. -/
theorem raised_of_ended (hc : Checks c.name up c.check) (h : EndedAs c task (.error e))
    (htask : task.cancelRequests = if task.expired then 1 else 0) :
    e.kind ≠ .exception ∧ .error e ∈ task.heard ∧
      ¬ (e.kind = .cancelledError ∧ task.expired = true) := by
  rcases h with ⟨-, hexpired, hcancelled⟩ | ⟨how, hfeed, hr⟩
  · simp [htask, hexpired] at hcancelled
  · obtain ⟨hhow, hkind⟩ := exceptException_error hr.symm
    rcases hc task.heard how hfeed with ⟨rfl, -⟩ | ⟨e₀, rfl, hwhy⟩
    · cases hhow
    · obtain ⟨e', he', hleft⟩ := leaveTimeout_error task.expired task.cancelRequests e₀
      rw [he'] at hhow
      cases hhow
      rcases hleft with ⟨rfl, -⟩ | ⟨rfl, hkept⟩
      · exact absurd rfl hkind
      · refine ⟨hkind, ?_, fun ⟨hcancelled, hexpired⟩ => hkept ⟨hexpired, ?_, hcancelled⟩⟩
        · rcases hwhy with hheard | ⟨-, rfl⟩
          · exact hheard
          · exact absurd rfl hkind
        · simp [htask, hexpired]

end Ended

/-! ## The response -/

/-- The response has an entry for each check, in the order of the provider, and is 200 and "ok"
exactly if all of them are healthy. -/
structure Told (connection : Option NatsConnection) (s : State 3) (r : Response ReadinessSchema)
    (postgres redis nats : CheckResultSchema) : Prop where
  tellsPostgres : Tells "postgres" true (s.tasks 0) postgres
  tellsRedis : Tells "redis" true (s.tasks 1) redis
  tellsNats : Tells "nats" (natsUp connection) (s.tasks 2) nats
  status : if postgres.healthy && redis.healthy && nats.healthy
    then r = ⟨.ok, .body ⟨"ok", [postgres, redis, nats]⟩⟩
    else r = ⟨.serviceUnavailable, .body ⟨"fail", [postgres, redis, nats]⟩⟩

theorem values_three {g : Gather.State 3 Healthcheck.Raised CheckResult} {l : List CheckResult}
    (h : Gather.Values g l) : ∃ p q v, l = [p, q, v] ∧ g.ended 0 = some (.ok p) ∧
      g.ended 1 = some (.ok q) ∧ g.ended 2 = some (.ok v) := by
  unfold Gather.Values at h
  rw [show List.finRange 3 = [0, 1, 2] from rfl] at h
  match h with
  | .cons hp (.cons hq (.cons hv .nil)) => exact ⟨_, _, _, rfl, hp, hq, hv⟩

theorem checks_of (connection : Option NatsConnection) (i : Fin 3) :
    ∃ up, Checks (readinessChecks connection i).name up (readinessChecks connection i).check := by
  match i with
  | 0 => exact ⟨_, checks_postgres⟩
  | 1 => exact ⟨_, checks_redis⟩
  | 2 => exact ⟨_, checks_nats connection⟩

/-- **Readiness is told as it is**, whatever the checks meet and in whatever order. Where no await
returned that a timer had cancelled, a request ends whatever the checks wait for, `closed` being what
the closing of the connection comes back with. -/
theorem readiness_told (connection : Option NatsConnection) {ls : List (Label 3)} {s : State 3}
    (h : Run (ofStep (step (readinessChecks connection))) init ls s) :
    (∀ r, readinessAnswer s = some (.ok r) →
      ∃ postgres redis nats, Told connection s r postgres redis nats) ∧
    (∀ e, readinessAnswer s = some (.error e) → .cancel ∈ ls ∨
      e.kind ≠ .exception ∧ ∃ i, .error e ∈ (s.tasks i).heard ∧
        ¬ (e.kind = .cancelledError ∧ (s.tasks i).expired = true)) ∧
    (Run (HeedingStep (readinessChecks connection)) init ls s → readinessAnswer s = none →
      ∀ closed : Fin 3 → Answer, ∃ ks t, Run (OwnStep (readinessChecks connection) closed) s ks t ∧
        (readinessAnswer t).isSome = true) := by
  have hinv : Healthcheck.Inv (readinessChecks connection) s :=
    h.invariant Healthcheck.inv_init fun _ _ _ hx hstep => Healthcheck.inv_step hx hstep
  refine ⟨fun r hr => ?_, fun e he => ?_, fun hheeding hnone closed => ?_⟩
  · obtain ⟨x, hx, hmap⟩ := Option.map_eq_some_iff.mp hr
    cases x with
    | error e => cases hmap
    | ok results =>
      cases hmap
      obtain ⟨p, q, v, rfl, hp, hq, hv⟩ := values_three (Gather.result_ok hinv.gather hx)
      have hends := fun i r hi => Healthcheck.ended_as hinv (i := i) (x := r) hi
      refine ⟨_, _, _, tells_of_ended checks_postgres (hends 0 _ hp),
        tells_of_ended checks_redis (hends 1 _ hq),
        tells_of_ended (checks_nats connection) (hends 2 _ hv), ?_⟩
      unfold HealthController.readiness
      simp only [List.all_cons, List.all_nil, Bool.and_true, ← Bool.and_assoc]
      cases p.healthy && q.healthy && v.healthy <;> rfl
  · by_cases hcancel : .cancel ∈ ls
    · exact .inl hcancel
    · have hundisturbed : Healthcheck.Undisturbed s :=
        (h.restrict fun a ha => ne_of_mem_of_not_mem ha hcancel).invariant
          Healthcheck.undisturbed_init
          fun _ _ _ hx hstep => Healthcheck.undisturbed_step hx hstep.1 hstep.2
      obtain ⟨x, hx, hmap⟩ := Option.map_eq_some_iff.mp he
      cases x with
      | ok results => cases hmap
      | error e' =>
        cases hmap
        obtain ⟨i, hi⟩ := Gather.result_error hinv.gather hundisturbed.gather hx
        obtain ⟨up, hchecks⟩ := checks_of connection i
        obtain ⟨hkind, hheard, hkept⟩ :=
          raised_of_ended hchecks (Healthcheck.ended_as hinv hi) (hundisturbed.tasks i)
        exact .inr ⟨hkind, i, hheard, hkept⟩
  · have hgives := Healthcheck.readinessChecks_giveWay connection
    have hyields : ∀ i, Healthcheck.Yielding (s.tasks i) :=
      hheeding.invariant (I := fun s => ∀ i, Healthcheck.Yielding (s.tasks i))
        Healthcheck.yielding_init fun _ _ _ hx hstep => Healthcheck.yielding_step hgives hx hstep
    obtain ⟨ks, t, hrun, hresult⟩ :=
      Healthcheck.comes_to_end hgives closed hinv hyields (Option.map_eq_none_iff.mp hnone)
    exact ⟨ks, t, hrun, by rw [readinessAnswer, Option.isSome_map]; exact hresult⟩

/-- The database does not answer the statement, and the connection is open. -/
def unanswered (postgres redis nats : Fin 3) : List (Label 3) :=
  [.start postgres, .start redis, .start nats, .resume postgres (.ok ())]

/-- Then the timer cancels the statement, and the connection is given back. -/
def hangingPostgres (postgres redis nats : Fin 3) : List (Label 3) :=
  unanswered postgres redis nats ++ [.resume redis (.ok ()), .callback nats, .callback redis,
    .expire postgres, .resume postgres (.error cancelledError), .resume postgres (.ok ()),
    .callback postgres, .wake]

def postgresDown : List CheckResultSchema :=
  [⟨"postgres", false, "error: TimeoutError"⟩, ⟨"redis", true, "ok"⟩, ⟨"nats", true, "ok"⟩]

theorem readiness_told_hanging :
    (∃ s, exec (step (readinessChecks (some ⟨some true⟩))) init (hangingPostgres 0 1 2) = some s ∧
      readinessAnswer s = some (.ok ⟨.serviceUnavailable, .body ⟨"fail", postgresDown⟩⟩) ∧
      ∃ postgres redis nats, Told (some ⟨some true⟩) s
        ⟨.serviceUnavailable, .body ⟨"fail", postgresDown⟩⟩ postgres redis nats) ∧
    ∃ s, exec (step (readinessChecks (some ⟨some true⟩))) init (unanswered 0 1 2) = some s ∧
      ∀ closed, ∃ ks t, Run (OwnStep (readinessChecks (some ⟨some true⟩)) closed) s ks t ∧
        (readinessAnswer t).isSome = true := by
  refine ⟨⟨_, rfl, rfl, ?_⟩, _, rfl, ?_⟩
  · exact (readiness_told (some ⟨some true⟩) (run_of_exec (l := hangingPostgres 0 1 2) rfl)).1 _ rfl
  · have hheeding : Run (HeedingStep (readinessChecks (some ⟨some true⟩))) init
        (unanswered 0 1 2) _ := run_of_guarded (l := unanswered 0 1 2) rfl
    have htold := readiness_told (some ⟨some true⟩) (run_of_exec (l := unanswered 0 1 2) rfl)
    exact htold.2.2 hheeding rfl

end LibraryService.Presentors
