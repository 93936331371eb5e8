import AlertDesk.Service.Rows
/-!
Claiming: a worker takes the oldest session that waits. The candidate is selected and then claimed
under a guard; a worker that finds its candidate gone starts over with the next one.
-/
namespace AlertDesk.Sessions

open Service

def claimNext (worker : String) : Service (Option Session) := do
  if Text.isBlank worker then throw (.validation "worker_id" .required)
  match ← Rows.oldestPending? with
  | none => return none
  | some candidate =>
    let rows ← Rows.claim candidate worker (← clock)
    if rows != 1 then again
    else
      match ← Rows.session? candidate with
      | some s => return some s
      | none => throw (.notFound .session candidate)

end AlertDesk.Sessions
