import AlertDesk.Operator.Arguments
import AlertDesk.Json.Records
import AlertDesk.Service.Sessions
import AlertDesk.Service.Stages
import AlertDesk.Service.Retention
import AlertDesk.Config
/-!
The operator's commands as calls. Each answers a JSON value that is printed; a failure is printed as
an error.
-/
namespace AlertDesk.Operator

open Service

/-- Stored records are shown with the instants the store holds. -/
def sessionJson : Session → Json := (Form.session Form.instant).write

def stageJson : Stage → Json := (Form.stage Form.instant).write

def executionJson : Execution → Json := (Form.execution Form.instant).write

def eventJson : Event → Json := (Form.event Form.instant).write

def scanForm (scan : Orphans.Scan) : Json :=
  .ofFields [("detected", .int scan.detected), ("recovered", .int scan.recovered)]

def sweepForm (report : Retention.Report) : Json :=
  .ofFields
    [("sessions_soft_deleted", .int report.sessions), ("events_deleted", .int report.events)]

def withField (name : String) (value : Json) : Json → Json
  | .obj fields => .obj (Json.insert name value fields)
  | v => v

def stagesForm : List Stage → Service (List Json)
  | [] => return []
  | stage :: rest => do
    let executions ← Rows.topLevel stage.id
    let form := withField "executions" (.arr (executions.map executionJson)) (stageJson stage)
    return form :: (← stagesForm rest)

/-- Each of the orphans in turn; the first failure ends the command. -/
def recoverAll (action : OrphanAction) : List Session → Service Nat
  | [] => return 0
  | observed :: rest => do
    let isRecovered ← Orphans.recover observed action
    return (if isRecovered then 1 else 0) + (← recoverAll action rest)

def Command.call (freshId : String) : Command → Service Json
  | .submit alertType chainId alertData author => do
    return sessionJson (← Sessions.submit { alertType, chainId, alertData, author } freshId)
  | .describe id => do
    let session ← Sessions.get id
    let stages ← stagesForm (← Rows.stages id)
    return withField "stages" (.arr stages) (sessionJson session)
  | .list status limit => do
    let status ← settle (status.mapM SessionStatus.parse)
    return .arr ((← Rows.sessions status limit).map sessionJson)
  | .cancel id => do
    Sessions.requestCancel id
    return .ofFields [("id", .str id), ("status", .str SessionStatus.cancelling.name)]
  | .orphans seconds action => do
    let sessions ← Orphans.find (seconds * Config.nanosPerSecond)
    let scan : Orphans.Scan :=
      { detected := sessions.length, recovered := ← recoverAll action sessions }
    return .ofFields [
      ("action", .str action.name),
      ("sessions", .arr (sessions.map sessionJson)),
      ("scan", scanForm scan)]
  | .sweep days seconds => do
    return sweepForm
      (← Retention.sweep { sessionDays := days, eventAge := seconds * Config.nanosPerSecond })
  | .events sessionId => do
    return .arr ((← Rows.events sessionId).map eventJson)

def versionText : String := "alertflow-ctl 0.1.0"

def failureText (f : Failure) : String := "Error: " ++ f.message

end AlertDesk.Operator
