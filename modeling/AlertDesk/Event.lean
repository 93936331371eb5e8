import AlertDesk.Session
import AlertDesk.Json.Reader
import AlertDesk.Json.Writer
/-!
Events: notices for whoever listens on a channel. An event carries a JSON payload; a stored one
carries the payload's text.
-/
namespace AlertDesk

structure EventOf (τ π : Type) where
  id : Int
  sessionId : Option String
  channel : String
  payload : π
  createdAt : τ
deriving Repr

abbrev Event := EventOf Instant Json
abbrev EventRow := EventOf Stamp String

deriving instance DecidableEq for EventOf

/-- The event that a row stands for; the payload is read before the time. -/
def EventRow.read (r : EventRow) : Except Failure Event := do
  let payload ← match Json.read? Json.storedDepth r.payload with
    | some v => pure v
    | none => throw (.store .badPayload)
  let createdAt ← r.createdAt.read "created_at"
  return { id := r.id, sessionId := r.sessionId, channel := r.channel, payload, createdAt }

end AlertDesk
