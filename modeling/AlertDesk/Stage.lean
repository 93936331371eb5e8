import AlertDesk.Session
/-!
Stages: one step of a session, run by one or more agents. Stage records, like sessions, are kept
over instants or over stored texts.
-/
namespace AlertDesk

structure StageOf (τ : Type) where
  id : String
  sessionId : String
  stageName : String
  stageIndex : Int
  expectedAgentCount : Int
  parallelType : Option Parallelism := none
  successPolicy : Option SuccessPolicy := none
  status : StageStatus
  startedAt : Option τ := none
  completedAt : Option τ := none
  durationMs : Option Int := none
  errorMessage : Option String := none
  chatId : Option String := none
  chatUserMessageId : Option String := none
deriving DecidableEq, Repr

abbrev Stage := StageOf Instant
abbrev StageRow := StageOf Stamp

namespace StageOf

def map {τ υ : Type} (f : τ → υ) (s : StageOf τ) : StageOf υ where
  id := s.id
  sessionId := s.sessionId
  stageName := s.stageName
  stageIndex := s.stageIndex
  expectedAgentCount := s.expectedAgentCount
  parallelType := s.parallelType
  successPolicy := s.successPolicy
  status := s.status
  startedAt := s.startedAt.map f
  completedAt := s.completedAt.map f
  durationMs := s.durationMs
  errorMessage := s.errorMessage
  chatId := s.chatId
  chatUserMessageId := s.chatUserMessageId

/-- A stage without a policy of its own succeeds if any agent completed. -/
def policy {τ : Type} (s : StageOf τ) : SuccessPolicy := s.successPolicy.getD .any

end StageOf

def Stage.row (s : Stage) : StageRow := s.map Stamp.ofInstant

def StageRow.read (r : StageRow) : Except Failure Stage := do
  let startedAt ← Stamp.read? "started_at" r.startedAt
  let completedAt ← Stamp.read? "completed_at" r.completedAt
  return {
    id := r.id
    sessionId := r.sessionId
    stageName := r.stageName
    stageIndex := r.stageIndex
    expectedAgentCount := r.expectedAgentCount
    parallelType := r.parallelType
    successPolicy := r.successPolicy
    status := r.status
    startedAt
    completedAt
    durationMs := r.durationMs
    errorMessage := r.errorMessage
    chatId := r.chatId
    chatUserMessageId := r.chatUserMessageId }

structure StageRequest where
  sessionId : String
  stageName : String
  stageIndex : Int
  expectedAgentCount : Int
  parallelType : Option Parallelism := none
  successPolicy : Option SuccessPolicy := none
  chatId : Option String := none
  chatUserMessageId : Option String := none
deriving DecidableEq, Repr

namespace StageRequest

def check (r : StageRequest) : Except Failure Unit :=
  checkAll [
    (!Text.isBlank r.sessionId, "session_id", .required),
    (!Text.isBlank r.stageName, "stage_name", .required),
    (decide (0 ≤ r.stageIndex), "stage_index", .negative),
    (decide (1 ≤ r.expectedAgentCount), "expected_agent_count", .lessThanOne),
    (r.parallelType.isNone || decide (2 ≤ r.expectedAgentCount), "expected_agent_count",
      .tooFewForParallel)]

def stage (r : StageRequest) (freshId : String) : Stage where
  id := freshId
  sessionId := r.sessionId
  stageName := r.stageName
  stageIndex := r.stageIndex
  expectedAgentCount := r.expectedAgentCount
  parallelType := r.parallelType
  successPolicy := r.successPolicy
  status := .pending
  chatId := r.chatId
  chatUserMessageId := r.chatUserMessageId

end StageRequest
end AlertDesk
