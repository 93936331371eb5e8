import AlertDesk.Store.Basic
/-!
The columns of the tables: how a row reads as cells, and how a single cell of it may be set. A
column says whether it may be empty and which words it admits; setting a cell against that is a
violation. Two stores are compared row by row and cell by cell.
-/
namespace AlertDesk

inductive Cell where
  | null
  | int (n : Int)
  | text (s : String)
deriving DecidableEq, Repr

namespace Cell

def ofOption {α : Type} (f : α → Cell) : Option α → Cell
  | none => .null
  | some a => f a

def stamp (s : Stamp) : Cell := .text s.text

/-! ### What a column takes: a value, or nothing for an empty cell -/

def readText : Cell → Except Violation (Option String)
  | .null => .ok none
  | .int n => .ok (some (toString n))
  | .text s => .ok (some s)

def readStamp (c : Cell) : Except Violation (Option Stamp) := (readText c).map (·.map Stamp.ofText)

/-- A number, also one written as a text. -/
def readInt : Cell → Except Violation (Option Int)
  | .null => .ok none
  | .int n => .ok (some n)
  | .text s =>
    let (negative, ds) := match s.toList with
      | '-' :: ds => (true, ds)
      | ds => (false, ds)
    if ds.isEmpty || !ds.all Char.isDigit then .error .datatype
    else .ok (some (if negative then -(Digits.number ds : Int) else Digits.number ds))

/-- One of the words of a vocabulary; `rule` is the check that any other text fails. -/
def readWord {α : Type} (rule : String) (ofName? : String → Option α) (c : Cell) :
    Except Violation (Option α) := do
  match ← readText c with
  | none => return none
  | some s =>
    match ofName? s with
    | some a => return some a
    | none => throw (.check rule)

end Cell

structure Column (ρ : Type) where
  name : String
  get : ρ → Cell
  set : Cell → ρ → Except Violation ρ

namespace Column

def required {ρ α : Type} (table : Table) (name : String) (write : α → Cell)
    (read : Cell → Except Violation (Option α)) (get : ρ → α) (set : α → ρ → ρ) : Column ρ where
  name
  get r := write (get r)
  set c r := do
    match ← read c with
    | some a => return set a r
    | none => throw (.notNull table name)

def optional {ρ α : Type} (name : String) (write : α → Cell)
    (read : Cell → Except Violation (Option α)) (get : ρ → Option α) (set : Option α → ρ → ρ) :
    Column ρ where
  name
  get r := .ofOption write (get r)
  set c r := do return set (← read c) r

def text {ρ : Type} (table : Table) (name : String) (get : ρ → String) (set : String → ρ → ρ) :
    Column ρ :=
  required table name Cell.text Cell.readText get set

def text? {ρ : Type} (name : String) (get : ρ → Option String) (set : Option String → ρ → ρ) :
    Column ρ :=
  optional name Cell.text Cell.readText get set

def int {ρ : Type} (table : Table) (name : String) (get : ρ → Int) (set : Int → ρ → ρ) : Column ρ :=
  required table name Cell.int Cell.readInt get set

def int? {ρ : Type} (name : String) (get : ρ → Option Int) (set : Option Int → ρ → ρ) : Column ρ :=
  optional name Cell.int Cell.readInt get set

def time {ρ : Type} (table : Table) (name : String) (get : ρ → Stamp) (set : Stamp → ρ → ρ) :
    Column ρ :=
  required table name Cell.stamp Cell.readStamp get set

def time? {ρ : Type} (name : String) (get : ρ → Option Stamp) (set : Option Stamp → ρ → ρ) :
    Column ρ :=
  optional name Cell.stamp Cell.readStamp get set

end Column

/-! ### The tables -/

namespace SessionRow

def statusRule : String :=
  "status IN ('pending','in_progress','cancelling','completed','failed','cancelled','timed_out')"

def columns : List (Column SessionRow) := [
  .text .session "id" (·.id) fun v r => { r with id := v },
  .text .session "alert_data" (·.alertData) fun v r => { r with alertData := v },
  .text .session "alert_type" (·.alertType) fun v r => { r with alertType := v },
  .text .session "chain_id" (·.chainId) fun v r => { r with chainId := v },
  .required .session "status" (fun s => .text s.name)
    (Cell.readWord statusRule SessionStatus.ofName?)
    (·.status) fun v r => { r with status := v },
  .text? "author" (·.author) fun v r => { r with author := v },
  .text? "pod_id" (·.podId) fun v r => { r with podId := v },
  .time .session "created_at" (·.createdAt) fun v r => { r with createdAt := v },
  .time? "started_at" (·.startedAt) fun v r => { r with startedAt := v },
  .time? "last_interaction_at" (·.lastInteractionAt) fun v r => { r with lastInteractionAt := v },
  .time? "completed_at" (·.completedAt) fun v r => { r with completedAt := v },
  .int? "current_stage_index" (·.currentStageIndex) fun v r => { r with currentStageIndex := v },
  .text? "current_stage_id" (·.currentStageId) fun v r => { r with currentStageId := v },
  .time? "deleted_at" (·.deletedAt) fun v r => { r with deletedAt := v },
  .text? "final_analysis" (·.finalAnalysis) fun v r => { r with finalAnalysis := v },
  .text? "executive_summary" (·.executiveSummary) fun v r => { r with executiveSummary := v },
  .text? "error_message" (·.errorMessage) fun v r => { r with errorMessage := v }]

end SessionRow

namespace StageRow

def statusRule : String :=
  "status IN ('pending','active','completed','failed','cancelled','timed_out')"

def parallelRule : String := "parallel_type IS NULL OR parallel_type IN ('multi_agent','replica')"

def policyRule : String := "success_policy IS NULL OR success_policy IN ('all','any')"

def columns : List (Column StageRow) := [
  .text .stage "id" (·.id) fun v r => { r with id := v },
  .text .stage "session_id" (·.sessionId) fun v r => { r with sessionId := v },
  .text .stage "stage_name" (·.stageName) fun v r => { r with stageName := v },
  .int .stage "stage_index" (·.stageIndex) fun v r => { r with stageIndex := v },
  .int .stage "expected_agent_count" (·.expectedAgentCount)
    fun v r => { r with expectedAgentCount := v },
  .optional "parallel_type" (fun s => .text s.name) (Cell.readWord parallelRule Parallelism.ofName?)
    (·.parallelType) fun v r => { r with parallelType := v },
  .optional "success_policy" (fun s => .text s.name)
    (Cell.readWord policyRule SuccessPolicy.ofName?)
    (·.successPolicy) fun v r => { r with successPolicy := v },
  .required .stage "status" (fun s => .text s.name) (Cell.readWord statusRule StageStatus.ofName?)
    (·.status) fun v r => { r with status := v },
  .time? "started_at" (·.startedAt) fun v r => { r with startedAt := v },
  .time? "completed_at" (·.completedAt) fun v r => { r with completedAt := v },
  .int? "duration_ms" (·.durationMs) fun v r => { r with durationMs := v },
  .text? "error_message" (·.errorMessage) fun v r => { r with errorMessage := v },
  .text? "chat_id" (·.chatId) fun v r => { r with chatId := v },
  .text? "chat_user_message_id" (·.chatUserMessageId) fun v r => { r with chatUserMessageId := v }]

end StageRow

namespace ExecutionRow

def columns : List (Column ExecutionRow) := [
  .text .execution "id" (·.id) fun v r => { r with id := v },
  .text .execution "stage_id" (·.stageId) fun v r => { r with stageId := v },
  .text .execution "session_id" (·.sessionId) fun v r => { r with sessionId := v },
  .text .execution "agent_name" (·.agentName) fun v r => { r with agentName := v },
  .int .execution "agent_index" (·.agentIndex) fun v r => { r with agentIndex := v },
  .text? "parent_execution_id" (·.parentId) fun v r => { r with parentId := v },
  .text? "task" (·.task) fun v r => { r with task := v },
  .text .execution "llm_backend" (·.llmBackend) fun v r => { r with llmBackend := v },
  .text? "llm_provider" (·.llmProvider) fun v r => { r with llmProvider := v },
  .required .execution "status" (fun s => .text s.name)
    (Cell.readWord StageRow.statusRule StageStatus.ofName?) (·.status)
      fun v r => { r with status := v },
  .time? "started_at" (·.startedAt) fun v r => { r with startedAt := v },
  .time? "completed_at" (·.completedAt) fun v r => { r with completedAt := v },
  .int? "duration_ms" (·.durationMs) fun v r => { r with durationMs := v },
  .text? "error_message" (·.errorMessage) fun v r => { r with errorMessage := v }]

end ExecutionRow

namespace EventRow

/-- The number of an event is never empty, and only a number can be put in its place. -/
def idColumn : Column EventRow where
  name := "id"
  get r := .int r.id
  set c r := do
    match ← Cell.readInt c with
    | some n => return { r with id := n }
    | none => throw .datatype

def columns : List (Column EventRow) := [
  idColumn,
  .text? "session_id" (·.sessionId) fun v r => { r with sessionId := v },
  .text .event "channel" (·.channel) fun v r => { r with channel := v },
  .text .event "payload" (·.payload) fun v r => { r with payload := v },
  .time .event "created_at" (·.createdAt) fun v r => { r with createdAt := v }]

end EventRow

/-! ### Rows as cells -/

structure Record where
  table : Table
  id : String
  cells : List (String × Cell)
deriving DecidableEq, Repr

namespace Record

def of {ρ : Type} (table : Table) (columns : List (Column ρ)) (id : String) (r : ρ) : Record :=
  ⟨table, id, columns.map fun c => (c.name, c.get r)⟩

def isSameRow (a b : Record) : Bool := a.table == b.table && a.id == b.id

end Record

namespace Store

def records (st : Store) : List Record :=
  st.sessions.map (fun r => .of .session SessionRow.columns r.id r) ++
    st.stages.map (fun r => .of .stage StageRow.columns r.id r) ++
    st.executions.map (fun r => .of .execution ExecutionRow.columns r.id r) ++
    st.events.map (fun r => .of .event EventRow.columns (toString r.id) r)

structure Change where
  table : Table
  id : String
  cells : Option (List (String × Cell))
deriving DecidableEq, Repr

def change? (old : List Record) (new : Record) : Option Change :=
  match old.find? new.isSameRow with
  | none => some ⟨new.table, new.id, some new.cells⟩
  | some was =>
    match new.cells.filter fun cell => !was.cells.contains cell with
    | [] => none
    | cells => some ⟨new.table, new.id, some cells⟩

def changes (before after : Store) : List Change :=
  let old := before.records
  let new := after.records
  let gone := old.filter fun was => !new.any was.isSameRow
  new.filterMap (change? old) ++ gone.map fun was => ⟨was.table, was.id, none⟩

end Store
end AlertDesk
