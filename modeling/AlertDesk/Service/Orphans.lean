import AlertDesk.Service.Rows
/-!
Orphans: sessions whose worker has been silent for longer than a timeout. A scan finds them and does
with each what its action says, provided that it is still as it was observed.
-/
namespace AlertDesk.Orphans

open Service

/-- The instant that lies an age before now; `field` is to blame for an age that leads out of
range. -/
def cutoff (now : Instant) (age : Nat) (field : String) : Except Failure Instant :=
  match now.before? age with
  | some t => .ok t
  | none => .error (.validation field .outOfRange)

def find (timeout : Nat) : Service (List Session) := do
  Rows.stale (← settle (cutoff (← clock) timeout "timeout"))

def recover (observed : Session) (action : OrphanAction) : Service Bool := do
  Rows.recover observed action (← clock)

structure Scan where
  detected : Nat
  recovered : Nat
deriving DecidableEq, Repr

/-- Each of the observed sessions is recovered by itself; a failure of one does not stop the
rest. -/
def recoverEach (action : OrphanAction) : List Session → Service Nat
  | [] => return 0
  | observed :: rest => do
    let count := match ← attempt (recover observed action) with
      | .ok true => 1
      | _ => 0
    return count + (← recoverEach action rest)

def scan (timeout : Nat) (action : OrphanAction) : Service Scan := do
  let orphans ← find timeout
  return { detected := orphans.length, recovered := ← recoverEach action orphans }

end AlertDesk.Orphans
