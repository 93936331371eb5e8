import AlertDesk.Failure
import AlertDesk.Text.Blank
import AlertDesk.Time.Stamp
/-!
Sessions: one alert under analysis. A session record is kept over instants where it is worked with
and over stored texts where it is stored; `SessionOf.read` goes from the second to the first. A
submission asks for a session, an outcome ends one.
-/
namespace AlertDesk

structure SessionOf (τ : Type) where
  id : String
  alertData : String
  alertType : String
  chainId : String
  status : SessionStatus
  author : Option String := none
  podId : Option String := none
  createdAt : τ
  startedAt : Option τ := none
  lastInteractionAt : Option τ := none
  completedAt : Option τ := none
  currentStageIndex : Option Int := none
  currentStageId : Option String := none
  deletedAt : Option τ := none
  finalAnalysis : Option String := none
  executiveSummary : Option String := none
  errorMessage : Option String := none
deriving DecidableEq, Repr

abbrev Session := SessionOf Instant

abbrev SessionRow := SessionOf Stamp

namespace SessionOf

def map {τ υ : Type} (f : τ → υ) (s : SessionOf τ) : SessionOf υ where
  id := s.id
  alertData := s.alertData
  alertType := s.alertType
  chainId := s.chainId
  status := s.status
  author := s.author
  podId := s.podId
  createdAt := f s.createdAt
  startedAt := s.startedAt.map f
  lastInteractionAt := s.lastInteractionAt.map f
  completedAt := s.completedAt.map f
  currentStageIndex := s.currentStageIndex
  currentStageId := s.currentStageId
  deletedAt := s.deletedAt.map f
  finalAnalysis := s.finalAnalysis
  executiveSummary := s.executiveSummary
  errorMessage := s.errorMessage

def isDeleted {τ : Type} (s : SessionOf τ) : Bool := s.deletedAt.isSome

end SessionOf

namespace Stamp

def read (column : String) (s : Stamp) : Except Failure Instant :=
  match s.instant? with
  | some t => .ok t
  | none => .error (.store (.badTime column))

def read? (column : String) : Option Stamp → Except Failure (Option Instant)
  | none => .ok none
  | some s => (s.read column).map some

end Stamp

def Session.row (s : Session) : SessionRow := s.map Stamp.ofInstant

/-- The session that a row stands for. The first time that cannot be read decides the failure. -/
def SessionRow.read (r : SessionRow) : Except Failure Session := do
  let createdAt ← r.createdAt.read "created_at"
  let startedAt ← Stamp.read? "started_at" r.startedAt
  let lastInteractionAt ← Stamp.read? "last_interaction_at" r.lastInteractionAt
  let completedAt ← Stamp.read? "completed_at" r.completedAt
  let deletedAt ← Stamp.read? "deleted_at" r.deletedAt
  return {
    id := r.id
    alertData := r.alertData
    alertType := r.alertType
    chainId := r.chainId
    status := r.status
    author := r.author
    podId := r.podId
    createdAt
    startedAt
    lastInteractionAt
    completedAt
    currentStageIndex := r.currentStageIndex
    currentStageId := r.currentStageId
    deletedAt
    finalAnalysis := r.finalAnalysis
    executiveSummary := r.executiveSummary
    errorMessage := r.errorMessage }

structure Submission where
  id : Option String := none
  alertData : String
  alertType : String
  chainId : String
  author : Option String := none
deriving DecidableEq, Repr

namespace Submission

/-- An id that is given is not blank, nor are the alert type and the chain; the alert data is not
empty. -/
def check (s : Submission) : Except Failure Unit :=
  checkAll [
    (!s.id.any Text.isBlank, "id", .blank),
    (!Text.isBlank s.alertType, "alert_type", .required),
    (!Text.isBlank s.chainId, "chain_id", .required),
    (!s.alertData.isEmpty, "alert_data", .required)]

def session (s : Submission) (freshId : String) (now : Instant) : Session where
  id := s.id.getD freshId
  alertData := s.alertData
  alertType := s.alertType
  chainId := s.chainId
  status := .pending
  author := s.author
  createdAt := now

end Submission

structure Outcome where
  status : SessionStatus
  finalAnalysis : Option String := none
  executiveSummary : Option String := none
  errorMessage : Option String := none
deriving DecidableEq, Repr

namespace Outcome

def ofStatus (status : SessionStatus) : Outcome := { status }

def completed (finalAnalysis : String) (executiveSummary : Option String) : Outcome :=
  { status := .completed, finalAnalysis := some finalAnalysis, executiveSummary }

def failed (errorMessage : String) : Outcome :=
  { status := .failed, errorMessage := some errorMessage }

end Outcome
end AlertDesk
