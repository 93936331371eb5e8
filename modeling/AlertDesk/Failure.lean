import AlertDesk.Status
/-!
Why a call failed, as causes, and the words for them. Every failure is of one of eight kinds; its
message is the kind's label and a detail. A failure of the store or a deadline leaves open whether a
write took effect, and only such a failure may be answered by trying again.
-/
namespace AlertDesk

namespace Failure

inductive Kind where
  | config | db | timeout | validation | notFound | alreadyExists | notCancellable
  | invalidTransition
deriving DecidableEq, Repr

namespace Kind

def label : Kind → String
  | .config => "config"
  | .db => "db"
  | .timeout => "timeout"
  | .validation => "validation"
  | .notFound => "not found"
  | .alreadyExists => "already exists"
  | .notCancellable => "not cancellable"
  | .invalidTransition => "invalid transition"

def message (k : Kind) (detail : String) : String := k.label ++ ": " ++ detail

/-- The outcome is unknown and the call may be repeated. -/
def isRetryable : Kind → Bool
  | .db | .timeout => true
  | _ => false

end Kind

/-- A validation detail names the field first. -/
def fieldDetail (field reason : String) : String := field ++ ": " ++ reason

end Failure

inductive Invalid where
  | required
  | blank
  | negative
  | lessThanOne
  | tooFewForParallel
  | subAgentWithoutTask
  | taskWithoutParent
  | foreignStage
  | foreignParent
  | unknownParent (id : String)
  | notPositive
  | outOfRange
  | notTerminal (status : SessionStatus)
  | unknownSessionStatus (name : String)
  | unknownStageStatus (name : String)
  | unknownParallelism (name : String)
  | unknownPolicy (name : String)
deriving DecidableEq, Repr

def Invalid.reason : Invalid → String
  | .required => "is required"
  | .blank => "must not be blank"
  | .negative => "must not be negative"
  | .lessThanOne => "must be at least 1"
  | .tooFewForParallel => "parallel stages need at least 2 agents"
  | .subAgentWithoutTask => "sub-agents require a task"
  | .taskWithoutParent => "only sub-agents carry a task"
  | .foreignStage => "does not own the referenced stage"
  | .foreignParent => "parent belongs to a different stage"
  | .unknownParent id => "unknown parent execution " ++ id
  | .notPositive => "must be greater than zero"
  | .outOfRange => "out of range"
  | .notTerminal status => status.name ++ " is not a terminal status"
  | .unknownSessionStatus name => "unknown session status: " ++ name
  | .unknownStageStatus name => "unknown status: " ++ name
  | .unknownParallelism name => "unknown parallel type: " ++ name
  | .unknownPolicy name => "unknown success policy: " ++ name

inductive ConfigFault where
  | missingFile
  | notUtf8
  | malformed
  | emptyDatabasePath
  | blankPodId
  | zeroTimeout
  | zeroRetention
  | zeroEventPeriod
  | zeroOrphanPeriod
  | retentionTooLong (limit : Nat)
  | periodTooLong (setting : String) (limit : Nat)
deriving DecidableEq, Repr

def ConfigFault.detail : ConfigFault → String
  | .missingFile => "failed to read config: No such file or directory (os error 2)"
  | .notUtf8 => "failed to read config: stream did not contain valid UTF-8"
  | .malformed => "invalid config"
  | .emptyDatabasePath => "database_path must not be empty"
  | .blankPodId => "pod_id must not be blank"
  | .zeroTimeout => "timeouts must be greater than zero"
  | .zeroRetention => "session_retention_days must be greater than zero"
  | .zeroEventPeriod => "event_ttl_seconds and cleanup_interval_seconds must be greater than zero"
  | .zeroOrphanPeriod =>
    "orphan timeout_seconds and check_interval_seconds must be greater than zero"
  | .retentionTooLong limit => "session_retention_days must not exceed " ++ toString limit
  | .periodTooLong setting limit => setting ++ " must not exceed " ++ toString limit

inductive Table where
  | session | stage | execution | event
deriving DecidableEq, Repr

namespace Table

def all : List Table := [.session, .stage, .execution, .event]

def name : Table → String
  | .session => "session"
  | .stage => "stage"
  | .execution => "agent_execution"
  | .event => "event"

def ofName? (s : String) : Option Table := all.find? (·.name == s)

end Table

inductive Violation where
  | primaryKey (table : Table)
  | stageIndex
  | topLevelIndex
  | subAgentIndex
  | foreignKey
  | notNull (table : Table) (column : String)
  | check (expression : String)
  | datatype
deriving DecidableEq, Repr

namespace Violation

def isDuplicate : Violation → Bool
  | .primaryKey _ | .stageIndex | .topLevelIndex | .subAgentIndex => true
  | _ => false

def detail : Violation → String
  | .primaryKey table => "(code: 1555) UNIQUE constraint failed: " ++ table.name ++ ".id"
  | .stageIndex => "(code: 2067) UNIQUE constraint failed: stage.session_id, stage.stage_index"
  | .topLevelIndex =>
    "(code: 2067) UNIQUE constraint failed: agent_execution.stage_id, agent_execution.agent_index"
  | .subAgentIndex =>
    "(code: 2067) UNIQUE constraint failed: agent_execution.parent_execution_id, " ++
      "agent_execution.agent_index"
  | .foreignKey => "(code: 787) FOREIGN KEY constraint failed"
  | .notNull table column =>
    "(code: 1299) NOT NULL constraint failed: " ++ table.name ++ "." ++ column
  | .check expression => "(code: 275) CHECK constraint failed: " ++ expression
  | .datatype => "(code: 20) datatype mismatch"

end Violation

inductive StoreFault where
  | violation (v : Violation)
  | noTable (name : String)
  | noColumn (name : String)
  | injected
  | closed
  | badTime (column : String)
  | badPayload
  | noDirectory (reason : String)
  | notADatabase
  | cannotOpen
deriving DecidableEq, Repr

namespace StoreFault

def returned (detail : String) : String := "error returned from database: " ++ detail

def detail : StoreFault → String
  | .violation v => returned v.detail
  | .noTable name => returned ("(code: 1) no such table: " ++ name)
  | .noColumn name => returned ("(code: 1) no such column: " ++ name)
  | .injected => returned "(code: 1811) injected"
  | .closed => "attempted to acquire a connection on a closed pool"
  | .badTime column => "invalid " ++ column
  | .badPayload => "invalid event payload"
  | .noDirectory reason => "failed to create db dir: " ++ reason
  | .notADatabase => returned "(code: 26) file is not a database"
  | .cannotOpen => returned "(code: 14) unable to open database file"

end StoreFault

inductive Operation where
  | createSession | selectPending | claimSession | heartbeat | updateProgress | setTerminal
  | requestCancel | recoverOrphan | softDelete | createStage | activateStage | finalizeStage
  | reopenStage | createExecution | setExecutionStatus | deleteExecution | insertEvent | purgeEvents
deriving DecidableEq, Repr

namespace Operation

def label : Operation → String
  | .createSession => "create session"
  | .selectPending => "select pending session"
  | .claimSession => "claim session"
  | .heartbeat => "heartbeat"
  | .updateProgress => "update session progress"
  | .setTerminal => "set session terminal"
  | .requestCancel => "request cancel"
  | .recoverOrphan => "recover orphan"
  | .softDelete => "soft delete sessions"
  | .createStage => "create stage"
  | .activateStage => "activate stage"
  | .finalizeStage => "finalize stage"
  | .reopenStage => "reopen stage"
  | .createExecution => "create agent execution"
  | .setExecutionStatus => "set execution status"
  | .deleteExecution => "delete agent execution"
  | .insertEvent => "insert event"
  | .purgeEvents => "purge events"

/-- Claims and statements over many rows have the longer deadline. -/
def isBulk : Operation → Bool
  | .selectPending | .claimSession | .softDelete | .purgeEvents => true
  | _ => false

end Operation

inductive Entity where
  | session | stage | execution
deriving DecidableEq, Repr

def Entity.label : Entity → String
  | .session => "session"
  | .stage => "stage"
  | .execution => "agent execution"

inductive Failure where
  | config (fault : ConfigFault)
  | store (fault : StoreFault)
  | timeout (operation : Operation) (millis : Nat)
  | validation (field : String) (invalid : Invalid)
  | notFound (entity : Entity) (id : String)
  | notCancellable (id : String) (status : SessionStatus)
  | progressRefused (id : String) (status : SessionStatus)
  | outcomeRefused (id : String) (status wanted : SessionStatus)
deriving DecidableEq, Repr

namespace Failure

/-- A violated uniqueness rule is a duplicate; every other fault of the store is one of the
store. -/
def kind : Failure → Kind
  | .config _ => .config
  | .store (.violation v) => if v.isDuplicate then .alreadyExists else .db
  | .store _ => .db
  | .timeout _ _ => .timeout
  | .validation _ _ => .validation
  | .notFound _ _ => .notFound
  | .notCancellable _ _ => .notCancellable
  | .progressRefused _ _ | .outcomeRefused _ _ _ => .invalidTransition

def detail : Failure → String
  | .config fault => fault.detail
  | .store fault => fault.detail
  | .timeout operation millis => operation.label ++ " exceeded " ++ toString millis ++ "ms"
  | .validation field invalid => fieldDetail field invalid.reason
  | .notFound entity id => entity.label ++ " " ++ id
  | .notCancellable id status => "session " ++ id ++ " is " ++ status.name
  | .progressRefused id status =>
    "session " ++ id ++ " is " ++ status.name ++ "; progress requires in_progress"
  | .outcomeRefused id status wanted =>
    "session " ++ id ++ " is " ++ status.name ++ "; cannot become " ++ wanted.name

def message (f : Failure) : String := f.kind.message f.detail

def isRetryable (f : Failure) : Bool := f.kind.isRetryable

end Failure

def checkAll (rules : List (Bool × String × Invalid)) : Except Failure Unit :=
  match rules.find? fun rule => !rule.1 with
  | some (_, field, invalid) => .error (.validation field invalid)
  | none => .ok ()

/-! ### Names read as words -/

def SessionStatus.parse (s : String) : Except Failure SessionStatus :=
  match ofName? s with
  | some status => .ok status
  | none => .error (.validation "status" (.unknownSessionStatus s))

def StageStatus.parse (s : String) : Except Failure StageStatus :=
  match ofName? s with
  | some status => .ok status
  | none => .error (.validation "status" (.unknownStageStatus s))

def Parallelism.parse (s : String) : Except Failure Parallelism :=
  match ofName? s with
  | some p => .ok p
  | none => .error (.validation "parallel_type" (.unknownParallelism s))

def SuccessPolicy.parse (s : String) : Except Failure SuccessPolicy :=
  match ofName? s with
  | some p => .ok p
  | none => .error (.validation "success_policy" (.unknownPolicy s))

theorem checkAll_eq_ok_iff {rules : List (Bool × String × Invalid)} :
    checkAll rules = .ok () ↔ ∀ rule ∈ rules, rule.1 = true := by
  unfold checkAll
  split
  · next h =>
    have hmem := List.mem_of_find?_eq_some h
    have hno := List.find?_some h
    constructor
    · intro hc
      cases hc
    · intro hall
      have := hall _ hmem
      simp_all
  · next h =>
    simp only [true_iff]
    intro rule hrule
    have := List.find?_eq_none.mp h rule hrule
    simpa using this

end AlertDesk
