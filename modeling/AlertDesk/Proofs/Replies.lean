import AlertDesk.Proofs.Courses
import AlertDesk.Proofs.Requests

/-!
Requests with their replies. A pool of requests whose replies are kept runs as one whose replies are
dropped: the log and the store are the same. What is known of the runs of requests is so known of
runs in which the replies can be seen.
-/
namespace AlertDesk

inductive Reply where
  | nothing
  | session (s : Session)
  | claimed (s : Option Session)
  | status (s : SessionStatus)
  | orphans (sessions : List Session)
  | recovered (changed : Bool)
  | scanned (scan : Orphans.Scan)
  | event (e : Event)
  | stage (s : Stage)
  | execution (e : Execution)
  | moved (e : Execution) (s : Stage)
  | rows (count : Nat)
  | swept (report : Retention.Report)

namespace Request

def replying : Request → Service Reply
  | .submit submission freshId => return .session (← Sessions.submit submission freshId)
  | .get id => return .session (← Sessions.get id)
  | .claim worker => return .claimed (← Sessions.claimNext worker)
  | .heartbeat id => return .status (← Sessions.heartbeat id)
  | .progress id stageIndex stageId => do
    Sessions.updateProgress id stageIndex stageId
    return .nothing
  | .finish id outcome => return .session (← Sessions.setTerminal id outcome)
  | .cancel id => do
    Sessions.requestCancel id
    return .nothing
  | .findOrphans timeout => return .orphans (← Orphans.find timeout)
  | .recover observed action => return .recovered (← Orphans.recover observed action)
  | .scan timeout action => return .scanned (← Orphans.scan timeout action)
  | .publish sessionId channel payload =>
    return .event (← Sessions.publish sessionId channel payload)
  | .createStage request freshId => return .stage (← Stages.create request freshId)
  | .createExecution request freshId => return .execution (← Executions.create request freshId)
  | .setStatus id status message => return .execution (← Executions.setStatus id status message)
  | .transition id status message => do
    let (execution, stage) ← Executions.transition id status message
    return .moved execution stage
  | .delete id => do
    Executions.delete id
    return .nothing
  | .recompute id => return .stage (← Stages.recompute id)
  | .deleteSessions days => return .rows (← Retention.deleteSessions days)
  | .purgeEvents age => return .rows (← Retention.purgeEvents age)
  | .sweep policy => return .swept (← Retention.sweep policy)

def replies (requests : List Request) : Pool (Except Failure Reply) :=
  requests.map fun r => Flight.start r.replying.run

def drop (r : Except Failure Reply) : Except Failure Unit := r.map fun _ => ()

theorem service_eq (r : Request) : r.service = r.replying >>= fun _ => pure () := by
  cases r <;> simp only [service, replying, bind_assoc, pure_bind, bind_pure_unit]

theorem call_eq (r : Request) : r.call = r.replying.run.map drop := by
  rw [call, service_eq]
  refine congrArg (Call.bind r.replying.run) (funext fun a => ?_)
  cases a <;> rfl

theorem pool_eq (requests : List Request) :
    pool requests = (replies requests).map (·.map drop) := by
  rw [pool, replies, List.map_map]
  refine List.map_congr_left fun r _ => ?_
  change Flight.start r.call = (Flight.start r.replying.run).map drop
  rw [call_eq]
  rfl

end Request

namespace Pool

variable (requests : List Request) (schedule : List (Nat × Instant)) (st : Store)

theorem log_replies : log Store.engine schedule (Request.pool requests) st =
    log Store.engine schedule (Request.replies requests) st := by
  rw [Request.pool_eq, log_map]

theorem store_replies : (run Store.engine schedule (Request.pool requests) st).2 =
    (run Store.engine schedule (Request.replies requests) st).2 := by
  rw [Request.pool_eq, run_map]

def reply? (i : Nat) (p : Pool (Except Failure Reply)) : Option (Except Failure Reply) :=
  p[i]? >>= Flight.answer?

variable {requests schedule st}

/-- Each statement of a run is one that its request asks. -/
theorem askedBy_of_mem_pool_log {e : Entry Store}
    (he : e ∈ log Store.engine schedule (Request.pool requests) st) :
    ∃ r, requests[e.caller]? = some r ∧
      e.statement.AskedBy (fun now => (e.caller, now) ∈ schedule) r := by
  obtain ⟨first, rest, hlog⟩ := List.append_of_mem he
  have hbefore := run_keeps_before schedule (Request.pool requests) st (fun _ hmem => hmem)
    (Request.pool_asks requests fun i now => (i, now) ∈ schedule) (I := fun _ _ => True) trivial
    (fun _ _ _ _ _ _ => trivial) hlog
  exact hbefore.2

theorem askedBy_of_mem_log {e : Entry Store}
    (he : e ∈ log Store.engine schedule (Request.replies requests) st) :
    ∃ r, requests[e.caller]? = some r ∧
      e.statement.AskedBy (fun now => (e.caller, now) ∈ schedule) r := by
  rw [← log_replies] at he
  exact askedBy_of_mem_pool_log he

/-- Each request of a run has gone over its own entries of the log. -/
theorem course_replies (schedule : List (Nat × Instant)) (st : Store) {i : Nat} {r : Request}
    (hr : requests[i]? = some r) :
    ∃ f, (run Store.engine schedule (Request.replies requests) st).1[i]? = some f ∧
      r.replying.run.Course Store.engine (fun now => (i, now) ∈ schedule) r.replying.run
        (own i (log Store.engine schedule (Request.replies requests) st)) f.rest := by
  have hstart : ∀ f ∈ Request.replies requests, f.rest = f.call := by
    simp [Request.replies, Flight.start]
  have hlength : (run Store.engine schedule (Request.replies requests) st).1.length =
      (Request.replies requests).length :=
    run_induction Store.engine schedule _ st
      (motive := fun _ _ q _ => q.length = (Request.replies requests).length) rfl
      fun _ _ _ _ _ _ _ _ _ _ h hmoves => by cases hmoves <;> simp [h]
  have hlt : i < (run Store.engine schedule (Request.replies requests) st).1.length := by
    rw [hlength, Request.replies, List.length_map]
    exact (List.getElem?_eq_some_iff.mp hr).1
  refine ⟨_, List.getElem?_eq_getElem hlt, ?_⟩
  obtain ⟨⟨g, hg, hcall⟩, hcourse⟩ := course_run schedule _ st hstart i _
    (List.getElem?_eq_getElem hlt)
  have hplace : g = Flight.start r.replying.run := by
    rw [Request.replies, List.getElem?_map, hr] at hg
    exact (Option.some.inj hg).symm
  rwa [← hcall, hplace] at hcourse

/-- A request that has replied ended so, after its own entries of the log. -/
theorem ends_of_reply? {i : Nat} {r : Request} {answer : Except Failure Reply}
    (hr : requests[i]? = some r)
    (hreply : reply? i (run Store.engine schedule (Request.replies requests) st).1 = some answer) :
    r.replying.Ends (fun now => (i, now) ∈ schedule)
      (own i (log Store.engine schedule (Request.replies requests) st)) answer := by
  obtain ⟨f, hf, hcourse⟩ := course_replies schedule st hr
  rw [reply?, hf] at hreply
  change f.answer? = some answer at hreply
  unfold Flight.answer? at hreply
  split at hreply
  · next hrest =>
    cases hreply
    rw [hrest] at hcourse
    exact ⟨_, hcourse⟩
  · cases hreply

/-- A request that asked a statement has gone over the entries of its own before. -/
theorem course_of_log {first rest : List (Entry Store)} {e : Entry Store}
    (hlog : log Store.engine schedule (Request.replies requests) st = first ++ e :: rest)
    {r : Request} (hr : requests[e.caller]? = some r) :
    ∃ next, r.replying.run.Course Store.engine (fun now => (e.caller, now) ∈ schedule)
      r.replying.run (own e.caller first) (.ask e.statement next) := by
  obtain ⟨f, _, hcourse⟩ := course_replies schedule st hr
  have hown : own e.caller (first ++ e :: rest) =
      own e.caller first ++ e :: own e.caller rest := by simp [own, List.filter_append]
  rw [hlog, hown] at hcourse
  exact hcourse.to_entry

/-- A request that asked a statement came to it over the entries of its own before. -/
theorem comesTo_of_log {first rest : List (Entry Store)} {e : Entry Store}
    (hlog : log Store.engine schedule (Request.replies requests) st = first ++ e :: rest)
    {r : Request} (hr : requests[e.caller]? = some r) :
    r.replying.ComesTo (fun now => (e.caller, now) ∈ schedule) (own e.caller first)
      e.statement := by
  obtain ⟨next, hnext⟩ := course_of_log hlog hr
  exact ⟨_, _, hnext⟩

end Pool
end AlertDesk
