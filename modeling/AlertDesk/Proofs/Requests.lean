import AlertDesk.Proofs.Asking
import AlertDesk.Service.Sessions
import AlertDesk.Service.Claim
import AlertDesk.Service.Retention
import AlertDesk.Proofs.Verdicts

/-!
Requests: the calls that change the store, by their arguments. `Statement.AskedBy` says of each
statement which request asks it and with which data; `Store.Reached` are the stores that requests,
in any number and interleaved in any way, leave behind.
-/
namespace AlertDesk

inductive Request where
  | submit (submission : Submission) (freshId : String)
  | get (id : String)
  | claim (worker : String)
  | heartbeat (id : String)
  | progress (id : String) (stageIndex : Int) (stageId : String)
  | finish (id : String) (outcome : Outcome)
  | cancel (id : String)
  | findOrphans (timeout : Nat)
  | recover (observed : Session) (action : OrphanAction)
  | scan (timeout : Nat) (action : OrphanAction)
  | publish (sessionId : Option String) (channel : String) (payload : Json)
  | createStage (request : StageRequest) (freshId : String)
  | createExecution (request : ExecutionRequest) (freshId : String)
  | setStatus (id : String) (status : StageStatus) (message : Option String)
  | transition (id : String) (status : StageStatus) (message : Option String)
  | delete (id : String)
  | recompute (id : String)
  | deleteSessions (days : Nat)
  | purgeEvents (age : Nat)
  | sweep (policy : Retention.Policy)

namespace Request

def service : Request → Service Unit
  | .submit submission freshId => do let _ ← Sessions.submit submission freshId
  | .get id => do let _ ← Sessions.get id
  | .claim worker => do let _ ← Sessions.claimNext worker
  | .heartbeat id => do let _ ← Sessions.heartbeat id
  | .progress id stageIndex stageId => Sessions.updateProgress id stageIndex stageId
  | .finish id outcome => do let _ ← Sessions.setTerminal id outcome
  | .cancel id => Sessions.requestCancel id
  | .findOrphans timeout => do let _ ← Orphans.find timeout
  | .recover observed action => do let _ ← Orphans.recover observed action
  | .scan timeout action => do let _ ← Orphans.scan timeout action
  | .publish sessionId channel payload => do let _ ← Sessions.publish sessionId channel payload
  | .createStage request freshId => do let _ ← Stages.create request freshId
  | .createExecution request freshId => do let _ ← Executions.create request freshId
  | .setStatus id status message => do let _ ← Executions.setStatus id status message
  | .transition id status message => do let _ ← Executions.transition id status message
  | .delete id => Executions.delete id
  | .recompute id => do let _ ← Stages.recompute id
  | .deleteSessions days => do let _ ← Retention.deleteSessions days
  | .purgeEvents age => do let _ ← Retention.purgeEvents age
  | .sweep policy => do let _ ← Retention.sweep policy

def call (r : Request) : Call (Except Failure Unit) := r.service.run

def pool (requests : List Request) : Pool (Except Failure Unit) :=
  requests.map fun r => Flight.start r.call

end Request

def Stamp.Taken (clock : Instant → Prop) (s : Stamp) : Prop := ∃ t, clock t ∧ s = .ofInstant t

/-- The statement is one that the request asks; a read may be asked by any. -/
def Statement.AskedBy (clock : Instant → Prop) (r : Request) : Statement → Prop
  | .insertSession row => ∃ submission freshId t, r = .submit submission freshId ∧ clock t ∧
      submission.check = .ok () ∧ row = (submission.session freshId t).row
  | .claimSession _ worker now => r = .claim worker ∧ Text.isBlank worker = false ∧ now.Taken clock
  | .touchSession id now => r = .heartbeat id ∧ now.Taken clock
  | .advanceSession id stageIndex stageId now =>
      r = .progress id stageIndex stageId ∧ now.Taken clock
  | .endSession id outcome now =>
      r = .finish id outcome ∧ outcome.status.isTerminal = true ∧ now.Taken clock
  | .cancelSession id => r = .cancel id
  | .failOrphan id podId lastSeen now => now.Taken clock ∧ ∃ observed : Session,
      id = observed.id ∧ podId = observed.podId ∧
      lastSeen = observed.lastInteractionAt.map Stamp.ofInstant ∧
      (r = .recover observed .fail ∨ ∃ timeout, r = .scan timeout .fail)
  | .requeueOrphan id podId lastSeen => ∃ observed : Session,
      id = observed.id ∧ podId = observed.podId ∧
      lastSeen = observed.lastInteractionAt.map Stamp.ofInstant ∧
      (r = .recover observed .requeue ∨ ∃ timeout, r = .scan timeout .requeue)
  | .deleteExpired cutoff now => ∃ days t before, clock t ∧ now = .ofInstant t ∧ 0 < days ∧
      t.before? (days * Retention.nanosPerDay) = some before ∧ cutoff = .ofInstant before ∧
      (r = .deleteSessions days ∨ ∃ age, r = .sweep ⟨days, age⟩)
  | .insertStage row => ∃ request freshId, r = .createStage request freshId ∧
      request.check = .ok () ∧ row = (request.stage freshId).row
  | .activateStage _ now => now.Taken clock
  | .finalizeStage _ _ completion =>
      completion.status.isTerminal = true ∧ completion.completedAt.Taken clock
  | .reopenStage _ observed status now =>
      observed.isTerminal = true ∧ status.isTerminal = false ∧ now.Taken clock
  | .insertExecution row => ∃ request freshId, r = .createExecution request freshId ∧
      request.check = .ok () ∧ row = (request.execution freshId).row
  | .moveExecution id status message now => now.Taken clock ∧
      (r = .setStatus id status message ∨ r = .transition id status message)
  | .removeExecution id => r = .delete id
  | .insertEvent sessionId channel payload createdAt => createdAt.Taken clock ∧
      Text.isBlank channel = false ∧ ∃ value : Json, payload = value.text ∧
      r = .publish sessionId channel value
  | .purgeEvents cutoff => ∃ age t before, clock t ∧ t.before? age = some before ∧
      cutoff = .ofInstant before ∧ (r = .purgeEvents age ∨ ∃ days, r = .sweep ⟨days, age⟩)
  | _ => True

open Service

section
variable {clock : Instant → Prop} {r : Request}

namespace Sessions

theorem asks_submit (submission : Submission) (freshId : String) :
    (submit submission freshId).Asks clock
      (Statement.AskedBy clock (.submit submission freshId)) := by
  simp only [submit, Rows.createSession, asks_settle_bind, asks_clock_bind, asks_ask_bind,
    asks_pure, implies_true, and_true]
  intro _ hcheck t ht
  exact ⟨submission, freshId, t, rfl, ht, hcheck, rfl⟩

theorem asks_get (id : String) : (get id).Asks clock (Statement.AskedBy clock r) := by
  simp only [get, Rows.session?, Rows.readOne, bind_assoc, asks_ask_bind, asks_settle_bind]
  refine ⟨trivial, fun _ s _ => ?_⟩
  cases s <;> simp

theorem asks_status (id : String) : (status id).Asks clock (Statement.AskedBy clock r) := by
  simp only [status, Rows.sessionStatus?, asks_ask_bind]
  refine ⟨trivial, fun s => ?_⟩
  cases s <;> simp

theorem asks_heartbeat (id : String) :
    (heartbeat id).Asks clock (Statement.AskedBy clock (.heartbeat id)) := by
  simp only [heartbeat, Rows.touch?, asks_clock_bind, asks_ask_bind]
  refine fun t ht => ⟨⟨rfl, t, ht, rfl⟩, fun s => ?_⟩
  cases s with
  | none => exact asks_status id
  | some s => simp

theorem asks_updateProgress (id : String) (stageIndex : Int) (stageId : String) :
    (updateProgress id stageIndex stageId).Asks clock
      (Statement.AskedBy clock (.progress id stageIndex stageId)) := by
  simp only [updateProgress, Rows.advance, asks_clock_bind, asks_ask_bind]
  refine fun t ht => ⟨⟨rfl, t, ht, rfl⟩, fun rows => ?_⟩
  split
  · simp
  · exact asks_bind (asks_status id) (by simp)

theorem asks_setTerminal (id : String) (outcome : Outcome) :
    (setTerminal id outcome).Asks clock (Statement.AskedBy clock (.finish id outcome)) := by
  unfold setTerminal
  split
  · simp
  · next hterminal =>
    simp only [Rows.endSession, asks_clock_bind, asks_ask_bind]
    refine fun t ht => ⟨⟨rfl, by simpa using hterminal, t, ht, rfl⟩, fun rows => ?_⟩
    split
    · simpa only [bind_assoc] using asks_bind (asks_status id) (by simp)
    · exact asks_get id

theorem asks_requestCancel (id : String) :
    (requestCancel id).Asks clock (Statement.AskedBy clock (.cancel id)) := by
  simp only [requestCancel, Rows.markCancelling, asks_ask_bind]
  refine ⟨rfl, fun rows => ?_⟩
  split
  · simp
  · exact asks_bind (asks_status id) (by simp)

theorem asks_publish (sessionId : Option String) (channel : String) (payload : Json) :
    (publish sessionId channel payload).Asks clock
      (Statement.AskedBy clock (.publish sessionId channel payload)) := by
  simp only [publish, Rows.createEvent, asks_clock_bind, asks_settle_bind, asks_ask_bind,
    asks_pure, implies_true, and_true]
  intro t ht _ hcheck
  have hchannel := checkAll_eq_ok_iff.mp hcheck
  refine ⟨⟨t, ht, rfl⟩, by simpa using hchannel, payload, rfl, rfl⟩

theorem asks_claimNext (worker : String) :
    (claimNext worker).Asks clock (Statement.AskedBy clock (.claim worker)) := by
  unfold claimNext
  split
  · simp
  · next hworker =>
    simp only [Rows.oldestPending?, asks_ask_bind]
    refine ⟨trivial, fun candidate => ?_⟩
    cases candidate with
    | none => simp
    | some candidate =>
      simp only [Rows.claim, asks_clock_bind, asks_ask_bind]
      refine fun t ht => ⟨⟨rfl, by simpa using hworker, t, ht, rfl⟩, fun rows => ?_⟩
      split
      · simp
      · simp only [Rows.session?, Rows.readOne, bind_assoc, asks_ask_bind, asks_settle_bind]
        refine ⟨trivial, fun _ s _ => ?_⟩
        cases s <;> simp

end Sessions

namespace Orphans

theorem asks_find (timeout : Nat) : (find timeout).Asks clock (Statement.AskedBy clock r) := by
  simp only [find, Rows.stale, Rows.readAll, asks_clock_bind, asks_settle_bind, asks_ask_bind,
    asks_settle, implies_true, and_true]
  exact fun _ _ _ _ => trivial

/-- A recovery asks what its action says, on behalf of whoever may recover that session. -/
theorem asks_recover (observed : Session) (action : OrphanAction)
    (hr : r = .recover observed action ∨ ∃ timeout, r = .scan timeout action) :
    (recover observed action).Asks clock (Statement.AskedBy clock r) := by
  simp only [recover, Rows.recover, asks_clock_bind]
  intro t ht
  cases action with
  | report => simp
  | fail =>
    simp only [asks_ask_bind, asks_pure, implies_true, and_true]
    exact ⟨⟨t, ht, rfl⟩, observed, rfl, rfl, rfl, hr⟩
  | requeue =>
    simp only [asks_ask_bind, asks_pure, implies_true, and_true]
    exact ⟨observed, rfl, rfl, rfl, hr⟩

theorem asks_recoverEach (timeout : Nat) (action : OrphanAction) (orphans : List Session) :
    (recoverEach action orphans).Asks clock (Statement.AskedBy clock (.scan timeout action)) := by
  induction orphans with
  | nil => simp [recoverEach]
  | cons observed rest ih =>
    unfold recoverEach
    refine asks_bind (asks_attempt (asks_recover observed action (.inr ⟨timeout, rfl⟩))) fun _ => ?_
    exact asks_bind ih (by simp)

theorem asks_scan (timeout : Nat) (action : OrphanAction) :
    (scan timeout action).Asks clock (Statement.AskedBy clock (.scan timeout action)) := by
  refine asks_bind (asks_find timeout) fun orphans => ?_
  exact asks_bind (asks_recoverEach timeout action orphans) (by simp)

end Orphans

namespace Retention

theorem cutoff_eq_ok {now before : Instant} {age : Nat} {field : String}
    (h : Orphans.cutoff now age field = .ok before) : now.before? age = some before := by
  unfold Orphans.cutoff at h
  split at h
  · next t ht =>
    cases h
    exact ht
  · cases h

theorem asks_deleteSessions (days : Nat)
    (hr : r = .deleteSessions days ∨ ∃ age, r = .sweep ⟨days, age⟩) :
    (deleteSessions days).Asks clock (Statement.AskedBy clock r) := by
  unfold deleteSessions
  split
  · simp
  · next hdays =>
    simp only [Rows.deleteExpired, asks_clock_bind, asks_settle_bind, asks_ask]
    intro t ht before hbefore
    have hpos : 0 < days := by
      have hne : ¬ days = 0 := by simpa using hdays
      omega
    exact ⟨days, t, before, ht, rfl, hpos, cutoff_eq_ok hbefore, rfl, hr⟩

theorem asks_purgeEvents (age : Nat)
    (hr : r = .purgeEvents age ∨ ∃ days, r = .sweep ⟨days, age⟩) :
    (purgeEvents age).Asks clock (Statement.AskedBy clock r) := by
  simp only [purgeEvents, Rows.purge, asks_clock_bind, asks_settle_bind, asks_ask]
  intro t ht before hbefore
  exact ⟨age, t, before, ht, cutoff_eq_ok hbefore, rfl, hr⟩

theorem asks_sweep (policy : Policy) :
    (sweep policy).Asks clock (Statement.AskedBy clock (.sweep policy)) := by
  obtain ⟨days, age⟩ := policy
  refine asks_bind (asks_attempt (asks_deleteSessions days (.inr ⟨age, rfl⟩))) fun _ => ?_
  refine asks_bind (asks_attempt (asks_purgeEvents age (.inr ⟨days, rfl⟩))) fun _ => ?_
  exact asks_bind (asks_settle _) fun _ => asks_bind (asks_settle _) fun _ => asks_pure _

end Retention

def StageChange.statement (stage : Stage) (now : Instant) : StageChange → Statement
  | .activate => .activateStage stage.id (.ofInstant now)
  | .reopen status => .reopenStage stage.id stage.status status (.ofInstant now)
  | .finalize status message => .finalizeStage stage.id stage.status
      { status, completedAt := .ofInstant now
        durationMs := stage.startedAt.map fun start => start.elapsedMillis now
        errorMessage := message }

/-- What is planned may be asked for by any request. -/
theorem StageChange.askedBy_statement {stage : Stage} {statuses : List StageStatus}
    {policy : SuccessPolicy} {change : StageChange}
    (hplan : plan? stage (.of policy statuses) = some change) {now : Instant} (hnow : clock now)
    (r : Request) : (change.statement stage now).AskedBy clock r := by
  cases change with
  | activate => exact ⟨now, hnow, rfl⟩
  | reopen status =>
    have hstatus := of_reopen hplan
    exact ⟨hstatus.1, hstatus.2, now, hnow, rfl⟩
  | finalize status message => exact ⟨isTerminal_of_finalize hplan, now, hnow, rfl⟩

namespace Stages

theorem asks_get (id : String) : (get id).Asks clock (Statement.AskedBy clock r) := by
  simp only [get, Rows.stage?, Rows.readOne, bind_assoc, asks_ask_bind, asks_settle_bind]
  refine ⟨trivial, fun _ s _ => ?_⟩
  cases s <;> simp

/-- A write asks for what was planned. -/
theorem asks_write {stage : Stage} {statuses : List StageStatus} {change : StageChange}
    (hplan : StageChange.plan? stage (.of stage.policy statuses) = some change) :
    (write stage change).Asks clock (Statement.AskedBy clock r) := by
  simp only [write, asks_clock_bind]
  intro t ht
  have hasked := StageChange.askedBy_statement hplan ht r
  cases change with
  | activate => exact (asks_ask _).mpr hasked
  | reopen status => exact (asks_ask _).mpr hasked
  | finalize status message => exact (asks_ask _).mpr hasked

theorem asks_recomputeWithin (id : String) (attempts : Nat) :
    (recomputeWithin id attempts).Asks clock (Statement.AskedBy clock r) := by
  induction attempts with
  | zero => exact asks_get id
  | succ attempts ih =>
    refine asks_bind (asks_get id) fun stage => ?_
    simp only [Rows.topLevelStatuses, asks_ask_bind]
    refine ⟨trivial, fun statuses => ?_⟩
    cases hplan : StageChange.plan? stage (.of stage.policy statuses) with
    | none => simp
    | some change =>
      refine asks_bind (asks_write hplan) fun rows => ?_
      split
      · exact asks_get id
      · exact ih

theorem asks_recompute (id : String) :
    (recompute id).Asks clock (Statement.AskedBy clock r) := asks_recomputeWithin id attempts

theorem asks_create (request : StageRequest) (freshId : String) :
    (create request freshId).Asks clock
      (Statement.AskedBy clock (.createStage request freshId)) := by
  simp only [create, Rows.sessionStatus?, asks_settle_bind, asks_ask_bind]
  refine fun _ hcheck => ⟨trivial, fun status => ?_⟩
  cases status with
  | none => simp
  | some _ =>
    simp only [Rows.createStage, asks_ask_bind, asks_pure, implies_true, and_true]
    exact ⟨request, freshId, rfl, hcheck, rfl⟩

end Stages

namespace Executions

theorem asks_checkParent (stageId : String) (parentId : Option String) :
    (checkParent stageId parentId).Asks clock (Statement.AskedBy clock r) := by
  cases parentId with
  | none => simp [checkParent]
  | some id =>
    simp only [checkParent, Rows.execution?, Rows.readOne, bind_assoc, asks_ask_bind,
      asks_settle_bind]
    refine ⟨trivial, fun _ parent _ => ?_⟩
    cases parent with
    | none => simp
    | some parent =>
      simp only
      split <;> simp

/-- An execution is recomputed for only where it is top-level. -/
theorem asks_recomputeUnless (isSubAgent : Bool) (id : String) {α : Type} (a : α) :
    Asks clock (Statement.AskedBy clock r) (do
      if !isSubAgent then
        let _ ← Stages.recompute id
      return a) := by
  cases isSubAgent with
  | true => simp
  | false => exact asks_bind (Stages.asks_recompute id) (by simp)

theorem asks_create (request : ExecutionRequest) (freshId : String) :
    (create request freshId).Asks clock
      (Statement.AskedBy clock (.createExecution request freshId)) := by
  simp only [create, asks_settle_bind]
  intro _ hcheck
  refine asks_bind (Stages.asks_get _) fun stage => ?_
  split
  · simp
  · refine asks_bind (asks_checkParent _ _) fun _ => ?_
    simp only [Rows.createExecution, bind_assoc, asks_ask_bind]
    refine ⟨⟨request, freshId, rfl, hcheck, rfl⟩, fun _ => ?_⟩
    exact asks_recomputeUnless _ _ _

theorem asks_setStatus (id : String) (status : StageStatus) (message : Option String)
    (hr : r = .setStatus id status message ∨ r = .transition id status message) :
    (setStatus id status message).Asks clock (Statement.AskedBy clock r) := by
  simp only [setStatus, Rows.move?, Rows.readOne, bind_assoc, asks_clock_bind, asks_ask_bind,
    asks_settle_bind]
  refine fun t ht => ⟨⟨⟨t, ht, rfl⟩, hr⟩, fun _ e _ => ?_⟩
  cases e <;> simp

theorem asks_transition (id : String) (status : StageStatus) (message : Option String) :
    (transition id status message).Asks clock
      (Statement.AskedBy clock (.transition id status message)) := by
  refine asks_bind (asks_setStatus id status message (.inr rfl)) fun execution => ?_
  exact asks_bind (Stages.asks_recompute _) (by simp)

theorem asks_delete (id : String) :
    (delete id).Asks clock (Statement.AskedBy clock (.delete id)) := by
  simp only [delete, Rows.execution?, Rows.readOne, bind_assoc, asks_ask_bind, asks_settle_bind]
  refine ⟨trivial, fun _ execution _ => ?_⟩
  cases execution with
  | none => simp
  | some execution =>
    simp only [Rows.removeExecution, asks_ask_bind]
    refine ⟨rfl, fun rows => ?_⟩
    split
    · simp
    · exact asks_recomputeUnless _ _ _

end Executions

/-- A request asks only its own statements. -/
theorem Request.asks (r : Request) : r.call.Asks clock (Statement.AskedBy clock r) := by
  cases r with
  | submit submission freshId => exact asks_bind (Sessions.asks_submit _ _) (by simp)
  | get id => exact asks_bind (Sessions.asks_get _) (by simp)
  | claim worker => exact asks_bind (Sessions.asks_claimNext _) (by simp)
  | heartbeat id => exact asks_bind (Sessions.asks_heartbeat _) (by simp)
  | progress id stageIndex stageId => exact Sessions.asks_updateProgress _ _ _
  | finish id outcome => exact asks_bind (Sessions.asks_setTerminal _ _) (by simp)
  | cancel id => exact Sessions.asks_requestCancel _
  | findOrphans timeout => exact asks_bind (Orphans.asks_find _) (by simp)
  | recover observed action =>
    exact asks_bind (Orphans.asks_recover _ _ (.inl rfl)) (by simp)
  | scan timeout action => exact asks_bind (Orphans.asks_scan _ _) (by simp)
  | publish sessionId channel payload => exact asks_bind (Sessions.asks_publish _ _ _) (by simp)
  | createStage request freshId => exact asks_bind (Stages.asks_create _ _) (by simp)
  | createExecution request freshId => exact asks_bind (Executions.asks_create _ _) (by simp)
  | setStatus id status message =>
    exact asks_bind (Executions.asks_setStatus _ _ _ (.inl rfl)) (by simp)
  | transition id status message => exact asks_bind (Executions.asks_transition _ _ _) (by simp)
  | delete id => exact Executions.asks_delete _
  | recompute id => exact asks_bind (Stages.asks_recompute _) (by simp)
  | deleteSessions days => exact asks_bind (Retention.asks_deleteSessions _ (.inl rfl)) (by simp)
  | purgeEvents age => exact asks_bind (Retention.asks_purgeEvents _ (.inl rfl)) (by simp)
  | sweep policy => exact asks_bind (Retention.asks_sweep _) (by simp)

end

theorem Request.pool_asks (requests : List Request) (clock : Nat → Instant → Prop) :
    Pool.Asks clock (fun i s => ∃ r, requests[i]? = some r ∧ s.AskedBy (clock i) r)
      (Request.pool requests) := by
  intro i f hf
  obtain ⟨r, hr, rfl⟩ : ∃ r, requests[i]? = some r ∧ Flight.start r.call = f := by
    simpa [Request.pool] using hf
  have hasks : r.call.Asks (clock i) fun s => ∃ r, requests[i]? = some r ∧ s.AskedBy (clock i) r :=
    Call.Asks.mono (Request.asks r) fun s hs => ⟨r, hr, hs⟩
  exact ⟨hasks, hasks⟩

/-- The stores that requests leave behind: any number of them, in any interleaving, with the
readings of the clock that are allowed. -/
def Store.Reached (clock : Instant → Prop) (st : Store) : Prop :=
  ∃ (requests : List Request) (schedule : List (Nat × Instant)),
    (∀ x ∈ schedule, clock x.2) ∧
      st = (Pool.run Store.engine schedule (Request.pool requests) {}).2

/-- What the empty store has and each statement of a request keeps, every reached store has. -/
theorem Store.Reached.invariant {clock : Instant → Prop} {st : Store} (h : st.Reached clock)
    {I : Store → Prop} (start : I {})
    (step : ∀ r s st, Statement.AskedBy clock r s → I st → I (Store.engine s st).2) : I st := by
  obtain ⟨requests, schedule, hclock, rfl⟩ := h
  refine Pool.run_keeps schedule (Request.pool requests) {} (fun x hx => hclock x hx)
    (Request.pool_asks requests fun _ => clock) (I := fun _ st => I st) start ?_
  intro log i s st hasked hI
  obtain ⟨r, _, hs⟩ := hasked
  exact step r s st hs hI

/-- The states that the statements of a run meet are reached. -/
theorem Pool.reached_before {clock : Instant → Prop} {requests : List Request}
    {schedule : List (Nat × Instant)} (hclock : ∀ x ∈ schedule, clock x.2)
    {first rest : List (Pool.Entry Store)} {e : Pool.Entry Store}
    (hlog : Pool.log Store.engine schedule (Request.pool requests) {} = first ++ e :: rest) :
    e.before.Reached clock := by
  obtain ⟨made, later, rfl, hbefore⟩ := before_run hlog
  exact ⟨requests, made, fun x hx => hclock x (List.mem_append_left _ hx), hbefore⟩

end AlertDesk
