import AlertDesk.Store.Column
import AlertDesk.Call
/-!
A database: a store and the condition it is in. Tables may be missing, triggers may stand in the way
of writes to single rows, the one connection may be held by someone else, and the database may be
closed. `Database.engine` carries out statements under that condition; where nothing is in the way
it answers as the store does.
-/
namespace AlertDesk

inductive Verb where
  | update | delete
deriving DecidableEq, Repr

/-- A trigger stands before one kind of write to one row: it has the row passed over, or it ends the
statement. -/
structure Trigger where
  table : Table
  id : String
  verb : Verb
  aborts : Bool
deriving DecidableEq, Repr

/-- How long statements may take, in milliseconds. -/
structure Deadlines where
  single : Nat := 5000
  bulk : Nat := 30000
deriving DecidableEq, Repr

namespace Deadlines

def limit (d : Deadlines) (op : Operation) : Nat := if op.isBulk then d.bulk else d.single

end Deadlines

namespace Statement

def table : Statement → Table
  | .insertSession _ | .findSession _ | .sessionStatus _ | .listSessions _ _ | .oldestPending
  | .claimSession _ _ _ | .touchSession _ _ | .advanceSession _ _ _ _ | .endSession _ _ _
  | .cancelSession _ | .findStale _ | .failOrphan _ _ _ _ | .requeueOrphan _ _ _
  | .deleteExpired _ _ => .session
  | .insertStage _ | .findStage _ | .listStages _ | .activateStage _ _ | .finalizeStage _ _ _
  | .reopenStage _ _ _ _ => .stage
  | .insertExecution _ | .findExecution _ | .listTopLevel _ | .topLevelStatuses _ | .listSubAgents _
  | .moveExecution _ _ _ _ | .removeExecution _ => .execution
  | .insertEvent _ _ _ _ | .listEvents _ | .purgeEvents _ => .event

def verb? : Statement → Option Verb
  | .claimSession _ _ _ | .touchSession _ _ | .advanceSession _ _ _ _ | .endSession _ _ _
  | .cancelSession _ | .failOrphan _ _ _ _ | .requeueOrphan _ _ _ | .deleteExpired _ _
  | .activateStage _ _ | .finalizeStage _ _ _ | .reopenStage _ _ _ _ | .moveExecution _ _ _ _ =>
    some .update
  | .removeExecution _ | .purgeEvents _ => some .delete
  | _ => none

def parents : Statement → List Table
  | .insertStage _ => [.session]
  | .insertExecution _ | .removeExecution _ => [.session, .stage]
  | _ => []

instance (s : Statement) : DecidableEq s.Answer := by cases s <;> exact inferInstance

end Statement

namespace Store

def setAside (st : Store) (table : Table) (named : String → Bool) : Store × Store :=
  let pick {ρ : Type} (t : Table) (id : ρ → String) (rows : List ρ) : List ρ × List ρ :=
    rows.partition fun r => !(t == table && named (id r))
  let (sessions, sessions') := pick .session (·.id) st.sessions
  let (stages, stages') := pick .stage (·.id) st.stages
  let (executions, executions') := pick .execution (·.id) st.executions
  let (events, events') := pick .event (fun e => toString e.id) st.events
  ({ st with sessions, stages, executions, events },
    { st with
      sessions := sessions', stages := stages', executions := executions', events := events' })

def rejoin (st aside : Store) : Store :=
  { st with
    sessions := st.sessions ++ aside.sessions
    stages := st.stages ++ aside.stages
    executions := st.executions ++ aside.executions
    events := st.events ++ aside.events }

def isLinked (st : Store) : Bool :=
  (st.stages.all fun r => (st.session? r.sessionId).isSome) &&
    st.executions.all fun r =>
      (st.stage? r.stageId).isSome && (st.session? r.sessionId).isSome &&
        r.parentId.all fun p => (st.execution? p).isSome

end Store

structure Database where
  store : Store := {}
  missing : List Table := []
  triggers : List Trigger := []
  deadlines : Deadlines := {}
  isHeld : Bool := false
  isClosed : Bool := false

namespace Database

variable (db : Database)

/-- Of two triggers before the same write the later one acts. -/
def trigger? (table : Table) (verb : Verb) (id : String) : Option Trigger :=
  db.triggers.find? fun t => t.table == table && t.verb == verb && t.id == id

def skips (table : Table) (verb : Verb) (id : String) : Bool :=
  (db.trigger? table verb id).any (!·.aborts)

def refuses (table : Table) (verb : Verb) (id : String) : Bool :=
  (db.trigger? table verb id).any (·.aborts)

def obstacle? (s : Statement) : Option Failure :=
  if db.isClosed then some (.store .closed)
  else
    match s.operation? with
    | some op =>
      if db.isHeld then some (.timeout op (db.deadlines.limit op)) else noTable? s
    | none => noTable? s
where
  noTable? (s : Statement) : Option Failure :=
    if db.missing.contains s.table then some (.store (.noTable s.table.name))
    else (s.parents.find? db.missing.contains).map fun t => .store (.noTable ("main." ++ t.name))

/-- A write to rows under triggers. Rows to be skipped are set aside. A row that refuses the write
ends the statement if the statement would reach it: without that row the answer, or what is removed,
would be less. An execution that is skipped must not lose its parent. -/
def execGuarded (verb : Verb) (s : Statement) : Except Failure (s.Answer × Store) := do
  let table := s.table
  let (rest, aside) := db.store.setAside table (db.skips table verb)
  let run := fun (st : Store) => (s.exec st).mapError (Failure.store ∘ .violation)
  let (answer, after) ← run rest
  let refusing := fun (r : Record) => r.table == table && db.refuses table verb r.id
  let reached ← match verb with
    | .delete => pure ((rest.records.filter fun r => !after.records.any r.isSameRow).any refusing)
    | .update => do
      let (less, _) ← run (rest.setAside table (db.refuses table verb)).1
      pure (less != answer)
  if reached then throw (.store .injected)
  let joined := after.rejoin aside
  if verb == .delete && !joined.isLinked then throw (.store (.violation .foreignKey))
  return (answer, joined)

def engine : Engine Database := fun s db =>
  match db.obstacle? s with
  | some failure => (.error failure, db)
  | none =>
    let result := match s.verb? with
      | some verb =>
        if db.triggers.isEmpty then (s.exec db.store).mapError (Failure.store ∘ .violation)
        else db.execGuarded verb s
      | none => (s.exec db.store).mapError (Failure.store ∘ .violation)
    match result with
    | .ok (answer, store) => (.ok answer, { db with store })
    | .error failure => (.error failure, db)

/-! ### Direct access -/

def assignIn {ρ : Type} (columns : List (Column ρ)) (column : String) (cell : Cell) (rows : List ρ)
    (isNamed : ρ → Bool) (check : ρ → List ρ → Except Violation Unit) (put : List ρ → Store) :
    Except Failure (Nat × Store) := do
  let some c := columns.find? (·.name == column) | throw (.store (.noColumn column))
  let some row := rows.find? isNamed | return (0, put rows)
  let violation := Failure.store ∘ StoreFault.violation
  let new ← (c.set cell row).mapError violation
  let others := rows.filter (!isNamed ·)
  (check new others).mapError violation
  let st := put (rows.map fun r => if isNamed r then new else r)
  if st.isLinked then return (1, st) else throw (.store (.violation .foreignKey))

def checkStage (new : StageRow) (others : List StageRow) : Except Violation Unit := do
  if others.any fun r => r.sessionId == new.sessionId && r.stageIndex == new.stageIndex then
    throw .stageIndex
  if others.any (·.id == new.id) then throw (.primaryKey .stage)

def checkExecution (new : ExecutionRow) (others : List ExecutionRow) : Except Violation Unit := do
  if others.any fun r => Store.sameScope r new && r.agentIndex == new.agentIndex then
    throw (if new.isSubAgent then .subAgentIndex else .topLevelIndex)
  if others.any (·.id == new.id) then throw (.primaryKey .execution)

def assignStored (table : Table) (id column : String) (cell : Cell) :
    Except Failure (Nat × Store) :=
  let st := db.store
  match table with
  | .session => assignIn SessionRow.columns column cell st.sessions (·.id == id)
      (fun new others =>
        if others.any (·.id == new.id) then throw (.primaryKey .session) else .ok ())
      ({ st with sessions := · })
  | .stage => assignIn StageRow.columns column cell st.stages (·.id == id) checkStage
      ({ st with stages := · })
  | .execution =>
    assignIn ExecutionRow.columns column cell st.executions (·.id == id) checkExecution
      ({ st with executions := · })
  | .event => assignIn EventRow.columns column cell st.events (fun e => toString e.id == id)
      (fun new others => if others.any (·.id == new.id) then throw (.primaryKey .event) else .ok ())
      ({ st with events := · })

/-- A table goes with its rows, its triggers and the rows that refer to it. The numbers of events
start anew when their table is made again. -/
def withoutTable (table : Table) : Database :=
  let st := db.store
  let store := match table with
    | .session => { st with sessions := [], stages := [], executions := [] }
    | .stage => { st with stages := [], executions := [] }
    | .execution => { st with executions := [] }
    | .event => { st with events := [], lastEventId := 0 }
  { db with
    store
    missing := table :: db.missing
    triggers := db.triggers.filter fun t => t.table != table }

def tableObstacle? (table : Table) : Option Failure :=
  if db.isClosed then some (.store .closed)
  else if db.missing.contains table then some (.store (.noTable table.name))
  else none

def dropTable (table : Table) : Except Failure Unit × Database :=
  match db.tableObstacle? table with
  | some failure => (.error failure, db)
  | none => (.ok (), db.withoutTable table)

def addTrigger (t : Trigger) : Except Failure Unit × Database :=
  match db.tableObstacle? t.table with
  | some failure => (.error failure, db)
  | none => (.ok (), { db with triggers := t :: db.triggers })

def bootstrap : Except Failure Unit × Database :=
  if db.isClosed then (.error (.store .closed), db) else (.ok (), { db with missing := [] })

def assign (table : Table) (id column : String) (cell : Cell) : Except Failure Nat × Database :=
  match db.tableObstacle? table with
  | some failure => (.error failure, db)
  | none =>
    if db.skips table .update id then (.ok 0, db)
    else if db.refuses table .update id &&
    db.store.records.any (fun r => r.table == table && r.id == id) then
      (.error (.store .injected), db)
    else
      match db.assignStored table id column cell with
      | .ok (rows, store) => (.ok rows, { db with store })
      | .error failure => (.error failure, db)

def reconnect : Database :=
  { db with isHeld := false, isClosed := false, deadlines := {}, missing := [] }

end Database
end AlertDesk
