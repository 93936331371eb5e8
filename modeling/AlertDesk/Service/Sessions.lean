import AlertDesk.Service.Rows
/-!
The calls on one session: hand it in, look at it, keep it alive, end it, ask it to stop, and publish
what happens to it. A call writes first, under a guard on the status; only when no row passed the
guard does it look up the status to say why.
-/
namespace AlertDesk.Sessions

open Service

def submit (submission : Submission) (freshId : String) : Service Session := do
  settle submission.check
  Rows.createSession (submission.session freshId (← clock))

def get (id : String) : Service Session := do
  match ← Rows.session? id with
  | some s => return s
  | none => throw (.notFound .session id)

def status (id : String) : Service SessionStatus := do
  match ← Rows.sessionStatus? id with
  | some s => return s
  | none => throw (.notFound .session id)

/-- The status of the session, which is refreshed if a worker owns it. -/
def heartbeat (id : String) : Service SessionStatus := do
  match ← Rows.touch? id (← clock) with
  | some s => return s
  | none => status id

def updateProgress (id : String) (stageIndex : Int) (stageId : String) : Service Unit := do
  let rows ← Rows.advance id stageIndex stageId (← clock)
  if rows == 1 then return ()
  throw (.progressRefused id (← status id))

def setTerminal (id : String) (outcome : Outcome) : Service Session := do
  if !outcome.status.isTerminal then
    throw (.validation "status" (.notTerminal outcome.status))
  let rows ← Rows.endSession id outcome (← clock)
  if rows == 0 then
    throw (.outcomeRefused id (← status id) outcome.status)
  get id

def requestCancel (id : String) : Service Unit := do
  let rows ← Rows.markCancelling id
  if rows == 1 then return ()
  throw (.notCancellable id (← status id))

def publish (sessionId : Option String) (channel : String) (payload : Json) : Service Event := do
  Rows.createEvent sessionId channel payload (← clock)

end AlertDesk.Sessions
