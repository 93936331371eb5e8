import AlertDesk.Execution
import AlertDesk.Event
/-!
The store: four tables of rows and the largest event id ever given out. Rows are inserted under the
rules of their table and otherwise left as they are; an execution is removed with every execution
below it.
-/
namespace AlertDesk

structure Store where
  sessions : List SessionRow := []
  stages : List StageRow := []
  executions : List ExecutionRow := []
  events : List EventRow := []
  lastEventId : Int := 0
deriving DecidableEq, Repr, Inhabited

namespace Store

def changeWhere {ρ : Type} (guard : ρ → Bool) (change : ρ → ρ) (rows : List ρ) : List ρ :=
  rows.map fun r => if guard r then change r else r

variable (st : Store)

def session? (id : String) : Option SessionRow := st.sessions.find? (·.id == id)

def stage? (id : String) : Option StageRow := st.stages.find? (·.id == id)

def execution? (id : String) : Option ExecutionRow := st.executions.find? (·.id == id)

def changeSessions (guard : SessionRow → Bool) (change : SessionRow → SessionRow) : Nat × Store :=
  (st.sessions.countP guard, { st with sessions := changeWhere guard change st.sessions })

def changeStages (guard : StageRow → Bool) (change : StageRow → StageRow) : Nat × Store :=
  (st.stages.countP guard, { st with stages := changeWhere guard change st.stages })

/-! ### Insertion -/

def insertSession (row : SessionRow) : Except Violation Store :=
  if (st.session? row.id).isSome then .error (.primaryKey .session)
  else .ok { st with sessions := st.sessions ++ [row] }

/-- A taken index is found before a taken id, and a missing session last. -/
def insertStage (row : StageRow) : Except Violation Store :=
  if st.stages.any fun r => r.sessionId == row.sessionId && r.stageIndex == row.stageIndex then
    .error .stageIndex
  else if (st.stage? row.id).isSome then .error (.primaryKey .stage)
  else if (st.session? row.sessionId).isNone then .error .foreignKey
  else .ok { st with stages := st.stages ++ [row] }

/-- Two executions compete for an index if both are top-level in one stage, or sub-agents of one
parent. -/
def sameScope (a b : ExecutionRow) : Bool :=
  match a.parentId, b.parentId with
  | none, none => a.stageId == b.stageId
  | some p, some q => p == q
  | _, _ => false

def indexTaken (row : ExecutionRow) : Bool :=
  st.executions.any fun r => sameScope r row && r.agentIndex == row.agentIndex

def insertExecution (row : ExecutionRow) : Except Violation Store :=
  if st.indexTaken row then
    .error (if row.isSubAgent then .subAgentIndex else .topLevelIndex)
  else if (st.execution? row.id).isSome then .error (.primaryKey .execution)
  else if (st.stage? row.stageId).isNone || (st.session? row.sessionId).isNone ||
      row.parentId.any (fun p => p != row.id && (st.execution? p).isNone) then .error .foreignKey
  else .ok { st with executions := st.executions ++ [row] }

/-- One more than any event id there is or was. -/
def nextEventId : Int := st.events.foldl (fun n e => max n e.id) st.lastEventId + 1

def insertEvent (sessionId : Option String) (channel payload : String) (createdAt : Stamp) :
    Int × Store :=
  let id := st.nextEventId
  (id, { st with
    events := st.events ++ [{ id, sessionId, channel, payload, createdAt }]
    lastEventId := id })

/-! ### Removal -/

/-- Following parent links from `r`, `steps` times at most, comes to the execution named `root`. -/
def isUnder (rows : List ExecutionRow) (root : String) : Nat → ExecutionRow → Bool
  | 0, r => r.id == root
  | steps + 1, r =>
    r.id == root ||
      match r.parentId with
      | none => false
      | some p =>
        match rows.find? (·.id == p) with
        | none => false
        | some parent => isUnder rows root steps parent

/-- The execution goes, and with it all that reach it by their parent links. A path without a cycle
has fewer links than there are executions. -/
def removeExecution (id : String) : Nat × Store :=
  match st.execution? id with
  | none => (0, st)
  | some _ =>
    (1, { st with
      executions := st.executions.filter fun r =>
        !isUnder st.executions id st.executions.length r })

def removeEvents (guard : EventRow → Bool) : Nat × Store :=
  (st.events.countP guard, { st with events := st.events.filter (!guard ·) })

end Store
end AlertDesk
