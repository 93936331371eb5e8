import AlertDesk.Store.Basic
import AlertDesk.Time.JulianDay
/-!
Statements: the atomic steps in which calls read and write the store. A write names the rows it is
meant for by a guard on their present state, and its answer says how many it found; a read changes
nothing. `Statement.exec` is the meaning of each, and fails only where a rule of the store would be
broken.
-/
namespace AlertDesk

/-! ### Sessions: guards and changes -/

namespace SessionRow

def isClaimable (r : SessionRow) : Bool := r.status == .pending && r.deletedAt.isNone

def isLive (r : SessionRow) : Bool := r.status.isLive

def isInProgress (r : SessionRow) : Bool := r.status == .inProgress

def claimed (worker : String) (now : Stamp) (r : SessionRow) : SessionRow :=
  { r with
    status := .inProgress, podId := some worker, startedAt := some now,
    lastInteractionAt := some now }

def touched (now : Stamp) (r : SessionRow) : SessionRow := { r with lastInteractionAt := some now }

def advanced (stageIndex : Int) (stageId : String) (now : Stamp) (r : SessionRow) : SessionRow :=
  { r with
    currentStageIndex := some stageIndex
    currentStageId := some stageId
    lastInteractionAt := some now }

/-- An outcome overwrites only the parts of the result that it has. -/
def ended (outcome : Outcome) (now : Stamp) (r : SessionRow) : SessionRow :=
  { r with
    status := outcome.status
    completedAt := some now
    lastInteractionAt := some now
    finalAnalysis := outcome.finalAnalysis.or r.finalAnalysis
    executiveSummary := outcome.executiveSummary.or r.executiveSummary
    errorMessage := outcome.errorMessage.or r.errorMessage }

def cancelling (r : SessionRow) : SessionRow := { r with status := .cancelling }

/-- The last sign of life: a heartbeat, else the claim, else the submission. -/
def lastSign (r : SessionRow) : Stamp := (r.lastInteractionAt.or r.startedAt).getD r.createdAt

def isStale (cutoff : Stamp) (r : SessionRow) : Bool :=
  r.isInProgress && r.deletedAt.isNone && decide (r.lastSign < cutoff)

def isAsSeen (podId : Option String) (lastSeen : Option Stamp) (r : SessionRow) : Bool :=
  r.isInProgress && r.podId == podId && r.lastInteractionAt == lastSeen

def orphanMessage : String := "orphaned: worker stopped heartbeating"

def abandoned (now : Stamp) (r : SessionRow) : SessionRow :=
  { r with status := .timedOut, completedAt := some now, errorMessage := some orphanMessage }

def requeued (r : SessionRow) : SessionRow :=
  { r with
    status := .pending
    podId := none
    startedAt := none
    lastInteractionAt := none
    currentStageIndex := none
    currentStageId := none }

/-- Not deleted, and completed, or submitted and still waiting, before the cutoff. -/
def isExpired (cutoff : Stamp) (r : SessionRow) : Bool :=
  r.deletedAt.isNone &&
    (r.completedAt.any (fun t => decide (t < cutoff)) ||
      (r.status == .pending && decide (r.createdAt < cutoff)))

def deleted (now : Stamp) (r : SessionRow) : SessionRow := { r with deletedAt := some now }

def precedes (a b : SessionRow) : Bool :=
  decide (a.createdAt < b.createdAt) || (a.createdAt == b.createdAt && decide (a.id < b.id))

def first? : List SessionRow → Option SessionRow
  | [] => none
  | r :: rest =>
    match first? rest with
    | none => some r
    | some s => if s.precedes r then some s else some r

/-- Silent for longer; a row without a heartbeat comes first, and ids decide between equals. -/
def silentLonger (a b : SessionRow) : Bool :=
  match a.lastInteractionAt, b.lastInteractionAt with
  | none, some _ => true
  | some _, none => false
  | none, none => decide (a.id ≤ b.id)
  | some s, some t => decide (s < t) || (s == t && decide (a.id ≤ b.id))

end SessionRow

/-! ### Stages: changes -/

structure Completion where
  status : StageStatus
  completedAt : Stamp
  durationMs : Option Int
  errorMessage : Option String
deriving DecidableEq, Repr

namespace StageRow

def isAt (id : String) (status : StageStatus) (r : StageRow) : Bool :=
  r.id == id && r.status == status

def activated (now : Stamp) (r : StageRow) : StageRow :=
  { r with status := .active, startedAt := r.startedAt.or (some now) }

def finalized (c : Completion) (r : StageRow) : StageRow :=
  { r with
    status := c.status
    completedAt := some c.completedAt
    durationMs := c.durationMs
    errorMessage := c.errorMessage }

/-- A stage that becomes active again keeps the time of its first start. -/
def reopened (status : StageStatus) (now : Stamp) (r : StageRow) : StageRow :=
  { r with
    status
    startedAt := r.startedAt.or (if status == .active then some now else none)
    completedAt := none
    durationMs := none
    errorMessage := none }

end StageRow

/-! ### Executions: change -/

namespace ExecutionRow

/-- The first entry into `active` stamps the start; the first into a terminal status stamps the end
and, where there was a start, the milliseconds between the two. All are taken from the row as it
was. -/
def moved (status : StageStatus) (message : Option String) (now : Stamp) (r : ExecutionRow) :
    ExecutionRow :=
  let ends := r.completedAt.isNone && status.isTerminal
  { r with
    status
    errorMessage := message.or r.errorMessage
    startedAt := if status == .active then r.startedAt.or (some now) else r.startedAt
    completedAt := if ends then some now else r.completedAt
    durationMs :=
      match r.startedAt with
      | some start => if ends then JulianDay.between? start now else r.durationMs
      | none => r.durationMs }

def isTopLevelOf (stageId : String) (r : ExecutionRow) : Bool :=
  r.stageId == stageId && r.parentId.isNone

def byIndex (rows : List ExecutionRow) : List ExecutionRow :=
  rows.mergeSort fun a b => decide (a.agentIndex ≤ b.agentIndex)

end ExecutionRow

/-! ### Statements -/

inductive Statement where
  | insertSession (row : SessionRow)
  | findSession (id : String)
  | sessionStatus (id : String)
  | listSessions (status : Option SessionStatus) (limit : Nat)
  | oldestPending
  | claimSession (id worker : String) (now : Stamp)
  | touchSession (id : String) (now : Stamp)
  | advanceSession (id : String) (stageIndex : Int) (stageId : String) (now : Stamp)
  | endSession (id : String) (outcome : Outcome) (now : Stamp)
  | cancelSession (id : String)
  | findStale (cutoff : Stamp)
  | failOrphan (id : String) (podId : Option String) (lastSeen : Option Stamp) (now : Stamp)
  | requeueOrphan (id : String) (podId : Option String) (lastSeen : Option Stamp)
  | deleteExpired (cutoff now : Stamp)
  | insertStage (row : StageRow)
  | findStage (id : String)
  | listStages (sessionId : String)
  | activateStage (id : String) (now : Stamp)
  | finalizeStage (id : String) (observed : StageStatus) (completion : Completion)
  | reopenStage (id : String) (observed status : StageStatus) (now : Stamp)
  | insertExecution (row : ExecutionRow)
  | findExecution (id : String)
  | listTopLevel (stageId : String)
  | topLevelStatuses (stageId : String)
  | listSubAgents (parentId : String)
  | moveExecution (id : String) (status : StageStatus) (message : Option String) (now : Stamp)
  | removeExecution (id : String)
  | insertEvent (sessionId : Option String) (channel payload : String) (createdAt : Stamp)
  | listEvents (sessionId : String)
  | purgeEvents (cutoff : Stamp)
deriving DecidableEq, Repr

namespace Statement

abbrev Answer : Statement → Type
  | .insertSession _ | .insertStage _ | .insertExecution _ => Unit
  | .findSession _ => Option SessionRow
  | .sessionStatus _ | .touchSession _ _ => Option SessionStatus
  | .listSessions _ _ | .findStale _ => List SessionRow
  | .oldestPending => Option String
  | .claimSession _ _ _ | .advanceSession _ _ _ _ | .endSession _ _ _ | .cancelSession _
  | .failOrphan _ _ _ _ | .requeueOrphan _ _ _ | .deleteExpired _ _ => Nat
  | .findStage _ => Option StageRow
  | .listStages _ => List StageRow
  | .activateStage _ _ | .finalizeStage _ _ _ | .reopenStage _ _ _ _ => Nat
  | .findExecution _ | .moveExecution _ _ _ _ => Option ExecutionRow
  | .listTopLevel _ | .listSubAgents _ => List ExecutionRow
  | .topLevelStatuses _ => List StageStatus
  | .removeExecution _ | .purgeEvents _ => Nat
  | .insertEvent _ _ _ _ => Int
  | .listEvents _ => List EventRow

/-- The write or read under whose name a deadline passes. Other reads have no deadline. -/
def operation? : Statement → Option Operation
  | .insertSession _ => some .createSession
  | .oldestPending => some .selectPending
  | .claimSession _ _ _ => some .claimSession
  | .touchSession _ _ => some .heartbeat
  | .advanceSession _ _ _ _ => some .updateProgress
  | .endSession _ _ _ => some .setTerminal
  | .cancelSession _ => some .requestCancel
  | .failOrphan _ _ _ _ | .requeueOrphan _ _ _ => some .recoverOrphan
  | .deleteExpired _ _ => some .softDelete
  | .insertStage _ => some .createStage
  | .activateStage _ _ => some .activateStage
  | .finalizeStage _ _ _ => some .finalizeStage
  | .reopenStage _ _ _ _ => some .reopenStage
  | .insertExecution _ => some .createExecution
  | .moveExecution _ _ _ _ => some .setExecutionStatus
  | .removeExecution _ => some .deleteExecution
  | .insertEvent _ _ _ _ => some .insertEvent
  | .purgeEvents _ => some .purgeEvents
  | .findSession _ | .sessionStatus _ | .listSessions _ _ | .findStale _ | .findStage _
  | .listStages _
  | .findExecution _ | .listTopLevel _ | .topLevelStatuses _ | .listSubAgents _ | .listEvents _ =>
    none

def exec (st : Store) : (s : Statement) → Except Violation (s.Answer × Store)
  | .insertSession row => (st.insertSession row).map fun st => ((), st)
  | .findSession id => .ok (st.session? id, st)
  | .sessionStatus id => .ok ((st.session? id).map (·.status), st)
  | .listSessions status limit =>
    let rows := st.sessions.filter fun r => r.deletedAt.isNone && status.all (r.status == ·)
    .ok ((rows.mergeSort fun a b => !a.precedes b).take limit, st)
  | .oldestPending => .ok ((SessionRow.first? (st.sessions.filter (·.isClaimable))).map (·.id), st)
  | .claimSession id worker now =>
    .ok (st.changeSessions (fun r => r.id == id && r.isClaimable) (SessionRow.claimed worker now))
  | .touchSession id now =>
    let guard := fun (r : SessionRow) => r.id == id && r.isLive
    .ok ((st.sessions.find? guard).map (·.status),
      (st.changeSessions guard (SessionRow.touched now)).2)
  | .advanceSession id stageIndex stageId now =>
    .ok (st.changeSessions (fun r => r.id == id && r.isInProgress)
      (SessionRow.advanced stageIndex stageId now))
  | .endSession id outcome now =>
    .ok (st.changeSessions (fun r => r.id == id && r.isLive) (SessionRow.ended outcome now))
  | .cancelSession id =>
    .ok (st.changeSessions (fun r => r.id == id && r.isInProgress) SessionRow.cancelling)
  | .findStale cutoff =>
    .ok ((st.sessions.filter (·.isStale cutoff)).mergeSort SessionRow.silentLonger, st)
  | .failOrphan id podId lastSeen now =>
    .ok (st.changeSessions (fun r => r.id == id && r.isAsSeen podId lastSeen)
      (SessionRow.abandoned now))
  | .requeueOrphan id podId lastSeen =>
    .ok (st.changeSessions (fun r => r.id == id && r.isAsSeen podId lastSeen) SessionRow.requeued)
  | .deleteExpired cutoff now =>
    .ok (st.changeSessions (·.isExpired cutoff) (SessionRow.deleted now))
  | .insertStage row => (st.insertStage row).map fun st => ((), st)
  | .findStage id => .ok (st.stage? id, st)
  | .listStages sessionId =>
    let rows := st.stages.filter (·.sessionId == sessionId)
    .ok (rows.mergeSort fun a b => decide (a.stageIndex ≤ b.stageIndex), st)
  | .activateStage id now => .ok (st.changeStages (·.isAt id .pending) (StageRow.activated now))
  | .finalizeStage id observed completion =>
    .ok (st.changeStages (·.isAt id observed) (StageRow.finalized completion))
  | .reopenStage id observed status now =>
    .ok (st.changeStages (·.isAt id observed) (StageRow.reopened status now))
  | .insertExecution row => (st.insertExecution row).map fun st => ((), st)
  | .findExecution id => .ok (st.execution? id, st)
  | .listTopLevel stageId =>
    .ok (ExecutionRow.byIndex (st.executions.filter (·.isTopLevelOf stageId)), st)
  | .topLevelStatuses stageId =>
    .ok ((ExecutionRow.byIndex (st.executions.filter (·.isTopLevelOf stageId))).map (·.status), st)
  | .listSubAgents parentId =>
    .ok (ExecutionRow.byIndex (st.executions.filter (·.parentId == some parentId)), st)
  | .moveExecution id status message now =>
    let change := ExecutionRow.moved status message now
    .ok ((st.execution? id).map change,
      { st with executions := Store.changeWhere (·.id == id) change st.executions })
  | .removeExecution id => .ok (st.removeExecution id)
  | .insertEvent sessionId channel payload createdAt =>
    .ok (st.insertEvent sessionId channel payload createdAt)
  | .listEvents sessionId =>
    let rows := st.events.filter (·.sessionId == some sessionId)
    .ok (rows.mergeSort fun a b => decide (a.id ≤ b.id), st)
  | .purgeEvents cutoff => .ok (st.removeEvents fun e => decide (e.createdAt < cutoff))

end Statement
end AlertDesk
