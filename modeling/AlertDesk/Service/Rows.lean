import AlertDesk.Call
/-!
Single statements as calls: each reads or writes once and gives back records in place of rows. The
services are made of these.
-/
namespace AlertDesk.Rows

open Service

def readAll {ρ α : Type} (read : ρ → Except Failure α) (rows : List ρ) : Service (List α) :=
  settle (rows.mapM read)

def readOne {ρ α : Type} (read : ρ → Except Failure α) (row : Option ρ) : Service (Option α) :=
  settle (row.mapM read)

/-! ### Sessions -/

def createSession (s : Session) : Service Session := do
  ask (.insertSession s.row)
  return s

def session? (id : String) : Service (Option Session) := do
  readOne SessionRow.read (← ask (.findSession id))

def sessionStatus? (id : String) : Service (Option SessionStatus) := ask (.sessionStatus id)

def sessions (status : Option SessionStatus) (limit : Nat) : Service (List Session) := do
  readAll SessionRow.read (← ask (.listSessions status limit))

def oldestPending? : Service (Option String) := ask .oldestPending

def claim (id worker : String) (now : Instant) : Service Nat :=
  ask (.claimSession id worker (.ofInstant now))

def touch? (id : String) (now : Instant) : Service (Option SessionStatus) :=
  ask (.touchSession id (.ofInstant now))

def advance (id : String) (stageIndex : Int) (stageId : String) (now : Instant) : Service Nat :=
  ask (.advanceSession id stageIndex stageId (.ofInstant now))

def endSession (id : String) (outcome : Outcome) (now : Instant) : Service Nat :=
  ask (.endSession id outcome (.ofInstant now))

def markCancelling (id : String) : Service Nat := ask (.cancelSession id)

def stale (cutoff : Instant) : Service (List Session) := do
  readAll SessionRow.read (← ask (.findStale (.ofInstant cutoff)))

/-- The orphan is recovered if it is still as it was observed. Reporting writes nothing. -/
def recover (observed : Session) (action : OrphanAction) (now : Instant) : Service Bool := do
  let lastSeen := observed.lastInteractionAt.map Stamp.ofInstant
  match action with
  | .report => return false
  | .fail =>
    let rows : Nat ← ask (.failOrphan observed.id observed.podId lastSeen (.ofInstant now))
    return rows == 1
  | .requeue =>
    let rows : Nat ← ask (.requeueOrphan observed.id observed.podId lastSeen)
    return rows == 1

def deleteExpired (cutoff now : Instant) : Service Nat :=
  ask (.deleteExpired (.ofInstant cutoff) (.ofInstant now))

/-! ### Stages -/

def createStage (s : Stage) : Service Stage := do
  ask (.insertStage s.row)
  return s

def stage? (id : String) : Service (Option Stage) := do
  readOne StageRow.read (← ask (.findStage id))

def stages (sessionId : String) : Service (List Stage) := do
  readAll StageRow.read (← ask (.listStages sessionId))

def activate (id : String) (now : Instant) : Service Nat := ask (.activateStage id (.ofInstant now))

def finalize (id : String) (observed status : StageStatus) (completedAt : Instant)
    (durationMs : Option Int) (errorMessage : Option String) : Service Nat :=
  ask (.finalizeStage id observed
    { status, completedAt := .ofInstant completedAt, durationMs, errorMessage })

def reopen (id : String) (observed status : StageStatus) (now : Instant) : Service Nat :=
  ask (.reopenStage id observed status (.ofInstant now))

/-! ### Executions -/

def createExecution (e : Execution) : Service Execution := do
  ask (.insertExecution e.row)
  return e

def execution? (id : String) : Service (Option Execution) := do
  readOne ExecutionRow.read (← ask (.findExecution id))

def topLevel (stageId : String) : Service (List Execution) := do
  readAll ExecutionRow.read (← ask (.listTopLevel stageId))

def topLevelStatuses (stageId : String) : Service (List StageStatus) :=
  ask (.topLevelStatuses stageId)

def subAgents (parentId : String) : Service (List Execution) := do
  readAll ExecutionRow.read (← ask (.listSubAgents parentId))

def move? (id : String) (status : StageStatus) (message : Option String) (now : Instant) :
    Service (Option Execution) := do
  readOne ExecutionRow.read (← ask (.moveExecution id status message (.ofInstant now)))

def removeExecution (id : String) : Service Nat := ask (.removeExecution id)

/-! ### Events -/

def createEvent (sessionId : Option String) (channel : String) (payload : Json)
    (createdAt : Instant) :
    Service Event := do
  settle (checkAll [(!Text.isBlank channel, "channel", .required)])
  let id : Int ← ask (.insertEvent sessionId channel payload.text (.ofInstant createdAt))
  return { id, sessionId, channel, payload, createdAt }

def events (sessionId : String) : Service (List Event) := do
  readAll EventRow.read (← ask (.listEvents sessionId))

def purge (cutoff : Instant) : Service Nat := ask (.purgeEvents (.ofInstant cutoff))

end AlertDesk.Rows
