import AlertDesk.Status
/-!
The verdict on a stage: what the statuses of its top-level executions say about it under its policy.
It is still running while any of them is; a finished stage is a success by the policy, or timed out
or cancelled if all of them were, or failed.
-/
namespace AlertDesk

inductive Verdict where
  | noExecutions
  | running (anyActive : Bool)
  | finished (status : StageStatus) (message : Option String)
deriving DecidableEq, Repr

namespace Verdict

def someFailed : String := "one or more agents failed"
def allFailed : String := "all agents failed"
def allTimedOut : String := "all agents timed out"
def allCancelled : String := "all agents cancelled"

def succeeds : SuccessPolicy → List StageStatus → Bool
  | .all, statuses => statuses.all (· == .completed)
  | .any, statuses => statuses.contains .completed

def failureMessage : SuccessPolicy → String
  | .all => someFailed
  | .any => allFailed

def of (policy : SuccessPolicy) (statuses : List StageStatus) : Verdict :=
  if statuses.isEmpty then .noExecutions
  else if statuses.any (!·.isTerminal) then .running (statuses.contains .active)
  else if succeeds policy statuses then .finished .completed none
  else if statuses.all (· == .timedOut) then .finished .timedOut (some allTimedOut)
  else if statuses.all (· == .cancelled) then .finished .cancelled (some allCancelled)
  else .finished .failed (some (failureMessage policy))

end Verdict
end AlertDesk
