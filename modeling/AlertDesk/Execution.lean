import AlertDesk.Stage
/-!
Executions: one agent's run within a stage. A top-level execution has no parent; a sub-agent has one
and carries the task it was given.
-/
namespace AlertDesk

structure ExecutionOf (τ : Type) where
  id : String
  stageId : String
  sessionId : String
  agentName : String
  agentIndex : Int
  parentId : Option String := none
  task : Option String := none
  llmBackend : String
  llmProvider : Option String := none
  status : StageStatus
  startedAt : Option τ := none
  completedAt : Option τ := none
  durationMs : Option Int := none
  errorMessage : Option String := none
deriving DecidableEq, Repr

abbrev Execution := ExecutionOf Instant
abbrev ExecutionRow := ExecutionOf Stamp

namespace ExecutionOf

def map {τ υ : Type} (f : τ → υ) (e : ExecutionOf τ) : ExecutionOf υ where
  id := e.id
  stageId := e.stageId
  sessionId := e.sessionId
  agentName := e.agentName
  agentIndex := e.agentIndex
  parentId := e.parentId
  task := e.task
  llmBackend := e.llmBackend
  llmProvider := e.llmProvider
  status := e.status
  startedAt := e.startedAt.map f
  completedAt := e.completedAt.map f
  durationMs := e.durationMs
  errorMessage := e.errorMessage

def isSubAgent {τ : Type} (e : ExecutionOf τ) : Bool := e.parentId.isSome

end ExecutionOf

def Execution.row (e : Execution) : ExecutionRow := e.map Stamp.ofInstant

def ExecutionRow.read (r : ExecutionRow) : Except Failure Execution := do
  let startedAt ← Stamp.read? "started_at" r.startedAt
  let completedAt ← Stamp.read? "completed_at" r.completedAt
  return {
    id := r.id
    stageId := r.stageId
    sessionId := r.sessionId
    agentName := r.agentName
    agentIndex := r.agentIndex
    parentId := r.parentId
    task := r.task
    llmBackend := r.llmBackend
    llmProvider := r.llmProvider
    status := r.status
    startedAt
    completedAt
    durationMs := r.durationMs
    errorMessage := r.errorMessage }

structure ExecutionRequest where
  stageId : String
  sessionId : String
  agentName : String
  agentIndex : Int
  parentId : Option String := none
  task : Option String := none
  llmBackend : String
  llmProvider : Option String := none
deriving DecidableEq, Repr

namespace ExecutionRequest

def subAgent (parent : Execution) (agentName : String) (agentIndex : Int) (task : String) :
    ExecutionRequest where
  stageId := parent.stageId
  sessionId := parent.sessionId
  agentName
  agentIndex
  parentId := some parent.id
  task := some task
  llmBackend := parent.llmBackend
  llmProvider := parent.llmProvider

/-- A task is there, and not blank, exactly when there is a parent. -/
def check (r : ExecutionRequest) : Except Failure Unit :=
  checkAll [
    (!Text.isBlank r.stageId, "stage_id", .required),
    (!Text.isBlank r.sessionId, "session_id", .required),
    (!Text.isBlank r.agentName, "agent_name", .required),
    (!Text.isBlank r.llmBackend, "llm_backend", .required),
    (decide (1 ≤ r.agentIndex), "agent_index", .lessThanOne),
    (r.parentId.isNone || r.task.any (!Text.isBlank ·), "task", .subAgentWithoutTask),
    (r.parentId.isSome || r.task.isNone, "task", .taskWithoutParent)]

def execution (r : ExecutionRequest) (freshId : String) : Execution where
  id := freshId
  stageId := r.stageId
  sessionId := r.sessionId
  agentName := r.agentName
  agentIndex := r.agentIndex
  parentId := r.parentId
  task := r.task
  llmBackend := r.llmBackend
  llmProvider := r.llmProvider
  status := .pending

end ExecutionRequest
end AlertDesk
