import AlertDesk.Service.Rows
import AlertDesk.Verdict
/-!
The calls on stages and executions. After each change among the top-level executions of a stage, the
stage is brought in line with their verdict: it is read, a change is planned and written under a
guard on the status that was read, and when the guard does not hold all of it is done once more.
-/
namespace AlertDesk

inductive StageChange where
  | activate
  | reopen (status : StageStatus)
  | finalize (status : StageStatus) (message : Option String)
deriving DecidableEq, Repr

namespace StageChange

def plan? {τ : Type} (stage : StageOf τ) : Verdict → Option StageChange
  | .noExecutions => none
  | .running anyActive =>
    if stage.status.isTerminal then some (.reopen (if anyActive then .active else .pending))
    else if anyActive && stage.status == .pending then some .activate
    else none
  | .finished status message =>
    if stage.status == status && stage.errorMessage == message then none
    else some (.finalize status message)

end StageChange

namespace Stages

open Service

def get (id : String) : Service Stage := do
  match ← Rows.stage? id with
  | some s => return s
  | none => throw (.notFound .stage id)

/-- The change as a guarded write; the answer tells how many rows it found. -/
def write (stage : Stage) (change : StageChange) : Service Nat := do
  let now ← clock
  match change with
  | .activate => Rows.activate stage.id now
  | .reopen status => Rows.reopen stage.id stage.status status now
  | .finalize status message =>
    let duration := stage.startedAt.map fun start => start.elapsedMillis now
    Rows.finalize stage.id stage.status status now duration message

/-- Up to `attempts` guarded writes; the stage as it is after the last of them. -/
def recomputeWithin (id : String) : Nat → Service Stage
  | 0 => get id
  | attempts + 1 => do
    let stage ← get id
    let statuses ← Rows.topLevelStatuses id
    match StageChange.plan? stage (.of stage.policy statuses) with
    | none => return stage
    | some change =>
      let rows ← write stage change
      if rows == 1 then get id else recomputeWithin id attempts

def attempts : Nat := 8

def recompute (id : String) : Service Stage := recomputeWithin id attempts

def create (request : StageRequest) (freshId : String) : Service Stage := do
  settle request.check
  match ← Rows.sessionStatus? request.sessionId with
  | none => throw (.notFound .session request.sessionId)
  | some _ => Rows.createStage (request.stage freshId)

end Stages

namespace Executions

open Service

def checkParent (stageId : String) : Option String → Service Unit
  | none => return ()
  | some id => do
    match ← Rows.execution? id with
    | some parent =>
      if parent.stageId == stageId then return ()
      else throw (.validation "parent_execution_id" .foreignParent)
    | none => throw (.validation "parent_execution_id" (.unknownParent id))

def create (request : ExecutionRequest) (freshId : String) : Service Execution := do
  settle request.check
  let stage ← Stages.get request.stageId
  if stage.sessionId != request.sessionId then
    throw (.validation "session_id" .foreignStage)
  checkParent stage.id request.parentId
  let execution ← Rows.createExecution (request.execution freshId)
  if !execution.isSubAgent then
    let _ ← Stages.recompute execution.stageId
  return execution

def setStatus (id : String) (status : StageStatus) (message : Option String) :
    Service Execution := do
  match ← Rows.move? id status message (← clock) with
  | some e => return e
  | none => throw (.notFound .execution id)

def transition (id : String) (status : StageStatus) (message : Option String) :
    Service (Execution × Stage) := do
  let execution ← setStatus id status message
  return (execution, ← Stages.recompute execution.stageId)

def delete (id : String) : Service Unit := do
  match ← Rows.execution? id with
  | none => throw (.notFound .execution id)
  | some execution =>
    let rows ← Rows.removeExecution id
    if rows == 0 then throw (.notFound .execution id)
    if !execution.isSubAgent then
      let _ ← Stages.recompute execution.stageId

end Executions
end AlertDesk
