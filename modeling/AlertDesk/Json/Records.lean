import AlertDesk.Json.Form
import AlertDesk.Execution
import AlertDesk.Event
/-!
The JSON forms of the records: sessions, stages, executions and events, and what they are made from.
The form of a record's times is given with it.
-/
namespace AlertDesk.Form

def session {τ : Type} (time : Form τ) : Form (SessionOf τ) :=
  record
    ["id", "alert_data", "alert_type", "chain_id", "status", "author", "pod_id",
      "created_at", "started_at", "last_interaction_at", "completed_at",
      "current_stage_index", "current_stage_id", "deleted_at", "final_analysis",
      "executive_summary", "error_message"]
    (fun s => [text.write s.id, text.write s.alertData, text.write s.alertType,
      text.write s.chainId, sessionStatus.write s.status, text.option s.author,
      text.option s.podId, time.write s.createdAt, time.option s.startedAt,
      time.option s.lastInteractionAt, time.option s.completedAt, int.option s.currentStageIndex,
      text.option s.currentStageId, time.option s.deletedAt, text.option s.finalAnalysis,
      text.option s.executiveSummary, text.option s.errorMessage])
    fun given => do
      return {
        id := ← text.get? given "id"
        alertData := ← text.get? given "alert_data"
        alertType := ← text.get? given "alert_type"
        chainId := ← text.get? given "chain_id"
        status := ← sessionStatus.get? given "status"
        author := ← text.getOption? given "author"
        podId := ← text.getOption? given "pod_id"
        createdAt := ← time.get? given "created_at"
        startedAt := ← time.getOption? given "started_at"
        lastInteractionAt := ← time.getOption? given "last_interaction_at"
        completedAt := ← time.getOption? given "completed_at"
        currentStageIndex := ← int.getOption? given "current_stage_index"
        currentStageId := ← text.getOption? given "current_stage_id"
        deletedAt := ← time.getOption? given "deleted_at"
        finalAnalysis := ← text.getOption? given "final_analysis"
        executiveSummary := ← text.getOption? given "executive_summary"
        errorMessage := ← text.getOption? given "error_message" }

def submission : Form Submission :=
  record ["id", "alert_data", "alert_type", "chain_id", "author"]
    (fun s => [text.option s.id, text.write s.alertData, text.write s.alertType,
      text.write s.chainId, text.option s.author])
    fun given => do
      return {
        id := ← text.getOption? given "id"
        alertData := ← text.get? given "alert_data"
        alertType := ← text.get? given "alert_type"
        chainId := ← text.get? given "chain_id"
        author := ← text.getOption? given "author" }

def outcome : Form Outcome :=
  record ["status", "final_analysis", "executive_summary", "error_message"]
    (fun o => [sessionStatus.write o.status, text.option o.finalAnalysis,
      text.option o.executiveSummary, text.option o.errorMessage])
    fun given => do
      return {
        status := ← sessionStatus.get? given "status"
        finalAnalysis := ← text.getOption? given "final_analysis"
        executiveSummary := ← text.getOption? given "executive_summary"
        errorMessage := ← text.getOption? given "error_message" }

def stage {τ : Type} (time : Form τ) : Form (StageOf τ) :=
  record
    ["id", "session_id", "stage_name", "stage_index", "expected_agent_count",
      "parallel_type", "success_policy", "status", "started_at", "completed_at",
      "duration_ms", "error_message", "chat_id", "chat_user_message_id"]
    (fun s => [text.write s.id, text.write s.sessionId, text.write s.stageName,
      int.write s.stageIndex, int.write s.expectedAgentCount, parallelism.option s.parallelType,
      successPolicy.option s.successPolicy, stageStatus.write s.status, time.option s.startedAt,
      time.option s.completedAt, int.option s.durationMs, text.option s.errorMessage,
      text.option s.chatId, text.option s.chatUserMessageId])
    fun given => do
      return {
        id := ← text.get? given "id"
        sessionId := ← text.get? given "session_id"
        stageName := ← text.get? given "stage_name"
        stageIndex := ← int.get? given "stage_index"
        expectedAgentCount := ← int.get? given "expected_agent_count"
        parallelType := ← parallelism.getOption? given "parallel_type"
        successPolicy := ← successPolicy.getOption? given "success_policy"
        status := ← stageStatus.get? given "status"
        startedAt := ← time.getOption? given "started_at"
        completedAt := ← time.getOption? given "completed_at"
        durationMs := ← int.getOption? given "duration_ms"
        errorMessage := ← text.getOption? given "error_message"
        chatId := ← text.getOption? given "chat_id"
        chatUserMessageId := ← text.getOption? given "chat_user_message_id" }

def stageRequest : Form StageRequest :=
  record
    ["session_id", "stage_name", "stage_index", "expected_agent_count", "parallel_type",
      "success_policy", "chat_id", "chat_user_message_id"]
    (fun r => [text.write r.sessionId, text.write r.stageName, int.write r.stageIndex,
      int.write r.expectedAgentCount, parallelism.option r.parallelType,
      successPolicy.option r.successPolicy, text.option r.chatId, text.option r.chatUserMessageId])
    fun given => do
      return {
        sessionId := ← text.get? given "session_id"
        stageName := ← text.get? given "stage_name"
        stageIndex := ← int.get? given "stage_index"
        expectedAgentCount := ← int.get? given "expected_agent_count"
        parallelType := ← parallelism.getOption? given "parallel_type"
        successPolicy := ← successPolicy.getOption? given "success_policy"
        chatId := ← text.getOption? given "chat_id"
        chatUserMessageId := ← text.getOption? given "chat_user_message_id" }

def execution {τ : Type} (time : Form τ) : Form (ExecutionOf τ) :=
  record
    ["id", "stage_id", "session_id", "agent_name", "agent_index", "parent_execution_id",
      "task", "llm_backend", "llm_provider", "status", "started_at", "completed_at",
      "duration_ms", "error_message"]
    (fun e => [text.write e.id, text.write e.stageId, text.write e.sessionId,
      text.write e.agentName, int.write e.agentIndex, text.option e.parentId, text.option e.task,
      text.write e.llmBackend, text.option e.llmProvider, stageStatus.write e.status,
      time.option e.startedAt, time.option e.completedAt, int.option e.durationMs,
      text.option e.errorMessage])
    fun given => do
      return {
        id := ← text.get? given "id"
        stageId := ← text.get? given "stage_id"
        sessionId := ← text.get? given "session_id"
        agentName := ← text.get? given "agent_name"
        agentIndex := ← int.get? given "agent_index"
        parentId := ← text.getOption? given "parent_execution_id"
        task := ← text.getOption? given "task"
        llmBackend := ← text.get? given "llm_backend"
        llmProvider := ← text.getOption? given "llm_provider"
        status := ← stageStatus.get? given "status"
        startedAt := ← time.getOption? given "started_at"
        completedAt := ← time.getOption? given "completed_at"
        durationMs := ← int.getOption? given "duration_ms"
        errorMessage := ← text.getOption? given "error_message" }

def executionRequest : Form ExecutionRequest :=
  record
    ["stage_id", "session_id", "agent_name", "agent_index", "parent_execution_id", "task",
      "llm_backend", "llm_provider"]
    (fun r => [text.write r.stageId, text.write r.sessionId, text.write r.agentName,
      int.write r.agentIndex, text.option r.parentId, text.option r.task, text.write r.llmBackend,
      text.option r.llmProvider])
    fun given => do
      return {
        stageId := ← text.get? given "stage_id"
        sessionId := ← text.get? given "session_id"
        agentName := ← text.get? given "agent_name"
        agentIndex := ← int.get? given "agent_index"
        parentId := ← text.getOption? given "parent_execution_id"
        task := ← text.getOption? given "task"
        llmBackend := ← text.get? given "llm_backend"
        llmProvider := ← text.getOption? given "llm_provider" }

def event {τ : Type} (time : Form τ) : Form (EventOf τ Json) :=
  record ["id", "session_id", "channel", "payload", "created_at"]
    (fun e => [int.write e.id, text.option e.sessionId, text.write e.channel, e.payload,
      time.write e.createdAt])
    fun given => do
      return {
        id := ← int.get? given "id"
        sessionId := ← text.getOption? given "session_id"
        channel := ← text.get? given "channel"
        payload := ← any.get? given "payload"
        createdAt := ← time.get? given "created_at" }

end AlertDesk.Form
