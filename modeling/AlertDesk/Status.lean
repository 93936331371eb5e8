/-!
The small vocabularies of the desk: where a session, a stage or an execution stands, how the agents
of a stage relate, when a stage counts as a success, and what is done about an orphan. Each word has
one name, and a name belongs to one word.
-/
namespace AlertDesk

inductive SessionStatus where
  | pending | inProgress | cancelling | completed | failed | cancelled | timedOut
deriving DecidableEq, Repr, Inhabited

namespace SessionStatus

def all : List SessionStatus :=
  [.pending, .inProgress, .cancelling, .completed, .failed, .cancelled, .timedOut]

def name : SessionStatus → String
  | .pending => "pending"
  | .inProgress => "in_progress"
  | .cancelling => "cancelling"
  | .completed => "completed"
  | .failed => "failed"
  | .cancelled => "cancelled"
  | .timedOut => "timed_out"

def ofName? (s : String) : Option SessionStatus := all.find? (·.name == s)

def isTerminal : SessionStatus → Bool
  | .completed | .failed | .cancelled | .timedOut => true
  | _ => false

/-- A worker owns the session: it is being worked on, asked to stop or not. -/
def isLive : SessionStatus → Bool
  | .inProgress | .cancelling => true
  | _ => false

theorem ofName?_name (s : SessionStatus) : ofName? s.name = some s := by cases s <;> decide

end SessionStatus

/-- Stages and executions share one vocabulary. -/
inductive StageStatus where
  | pending | active | completed | failed | cancelled | timedOut
deriving DecidableEq, Repr, Inhabited

namespace StageStatus

def all : List StageStatus := [.pending, .active, .completed, .failed, .cancelled, .timedOut]

def name : StageStatus → String
  | .pending => "pending"
  | .active => "active"
  | .completed => "completed"
  | .failed => "failed"
  | .cancelled => "cancelled"
  | .timedOut => "timed_out"

def ofName? (s : String) : Option StageStatus := all.find? (·.name == s)

def isTerminal : StageStatus → Bool
  | .pending | .active => false
  | _ => true

theorem ofName?_name (s : StageStatus) : ofName? s.name = some s := by cases s <;> decide

end StageStatus

inductive Parallelism where
  | multiAgent | replica
deriving DecidableEq, Repr, Inhabited

namespace Parallelism

def all : List Parallelism := [.multiAgent, .replica]

def name : Parallelism → String
  | .multiAgent => "multi_agent"
  | .replica => "replica"

def ofName? (s : String) : Option Parallelism := all.find? (·.name == s)

end Parallelism

/-- A finished stage succeeds if all of its agents completed, or if any did. -/
inductive SuccessPolicy where
  | all | any
deriving DecidableEq, Repr

namespace SuccessPolicy

instance : Inhabited SuccessPolicy := ⟨.any⟩

def name : SuccessPolicy → String
  | .all => "all"
  | .any => "any"

def ofName? (s : String) : Option SuccessPolicy := [SuccessPolicy.all, .any].find? (·.name == s)

end SuccessPolicy

inductive OrphanAction where
  | report | fail | requeue
deriving DecidableEq, Repr, Inhabited

namespace OrphanAction

def all : List OrphanAction := [.report, .fail, .requeue]

def name : OrphanAction → String
  | .report => "report"
  | .fail => "fail"
  | .requeue => "requeue"

def ofName? (s : String) : Option OrphanAction := all.find? (·.name == s)

end OrphanAction
end AlertDesk
