import AlertDesk.Store.Column
import AlertDesk.Json.Value
/-!
A store as one JSON value: each table is an array of its rows, and each row an object of its cells.
The largest event id stands beside the tables. What breaks the rule of a column is not read.
-/
namespace AlertDesk

namespace Cell

def form : Cell → Json
  | .null => .null
  | .int n => .int n
  | .text s => .str s

def ofForm? : Json → Option Cell
  | .null => some .null
  | .int n => some (.int n)
  | .str s => some (.text s)
  | _ => none

end Cell

namespace Store.Snapshot

def rowForm {ρ : Type} (columns : List (Column ρ)) (r : ρ) : Json :=
  .ofFields (columns.map fun c => (c.name, (c.get r).form))

/-- A row from its cells; `blank` is any row, all cells of which are set. -/
def readRow? {ρ : Type} (columns : List (Column ρ)) (blank : ρ) (v : Json) : Option ρ :=
  columns.foldlM (fun r c => do (c.set (← Cell.ofForm? (← v.field? c.name)) r).toOption) blank

def readRows? {ρ : Type} (columns : List (Column ρ)) (blank : ρ) : Option Json → Option (List ρ)
  | some (.arr rows) => rows.mapM (readRow? columns blank)
  | _ => none

def blankSession : SessionRow :=
  { id := "", alertData := "", alertType := "", chainId := "", status := .pending,
    createdAt := ⟨[]⟩ }

def blankStage : StageRow :=
  { id := "", sessionId := "", stageName := "", stageIndex := 0, expectedAgentCount := 0,
    status := .pending }

def blankExecution : ExecutionRow :=
  { id := "", stageId := "", sessionId := "", agentName := "", agentIndex := 0, llmBackend := "",
    status := .pending }

def blankEvent : EventRow :=
  { id := 0, sessionId := none, channel := "", payload := "", createdAt := ⟨[]⟩ }

def form (st : Store) : Json :=
  .ofFields [
    (Table.session.name, .arr (st.sessions.map (rowForm SessionRow.columns))),
    (Table.stage.name, .arr (st.stages.map (rowForm StageRow.columns))),
    (Table.execution.name, .arr (st.executions.map (rowForm ExecutionRow.columns))),
    (Table.event.name, .arr (st.events.map (rowForm EventRow.columns))),
    ("last_event_id", .int st.lastEventId)]

def read? (v : Json) : Option Store := do
  return {
    sessions := ← readRows? SessionRow.columns blankSession (v.field? Table.session.name)
    stages := ← readRows? StageRow.columns blankStage (v.field? Table.stage.name)
    executions := ← readRows? ExecutionRow.columns blankExecution (v.field? Table.execution.name)
    events := ← readRows? EventRow.columns blankEvent (v.field? Table.event.name)
    lastEventId := ← (v.field? "last_event_id").bind Json.int? }

end Store.Snapshot
end AlertDesk
