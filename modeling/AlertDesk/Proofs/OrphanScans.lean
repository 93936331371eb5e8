import AlertDesk.Proofs.Lifecycle
import AlertDesk.Proofs.Ages
import AlertDesk.Operator.Commands

/-!
Scans for orphans, made alone. A session that was read is written again as it is stored, so each
recovery finds the session as it was seen; and it changes no other session, so the next one does as
well. The operator's command goes through the orphans as the monitor does.
-/
namespace AlertDesk

open Service

/-! ### One recovery -/

def SessionRow.recovered (action : OrphanAction) (now : Stamp) (r : SessionRow) : SessionRow :=
  match action with
  | .report => r
  | .fail => r.abandoned now
  | .requeue => r.requeued

namespace SessionRow

variable {r : SessionRow} {action : OrphanAction}

end SessionRow

namespace Store

variable {st : Store} {r : SessionRow} {action : OrphanAction}

def recover (st : Store) (observed : Session) (action : OrphanAction) (now : Instant) :
    Bool × Store :=
  let (rows, after) := st.changeSessions
    (fun r => r.id == observed.id &&
      r.isAsSeen observed.podId (observed.lastInteractionAt.map Stamp.ofInstant))
    (SessionRow.recovered action (.ofInstant now))
  (action != .report && rows == 1, after)

end Store

namespace Orphans

variable {st : Store} {readings : Nat → Instant} {action : OrphanAction}

def afterScan (action : OrphanAction) (ids : List String) (readings : Nat → Instant)
    (r : SessionRow) : SessionRow :=
  match ids.idxOf? r.id with
  | none => r
  | some k => r.recovered action (.ofInstant (readings k))

def staleRows (cutoff : Instant) (st : Store) : List SessionRow :=
  (st.sessions.filter (·.isStale (.ofInstant cutoff))).mergeSort SessionRow.silentLonger

theorem mem_staleRows {cutoff : Instant} {r : SessionRow} :
    r ∈ staleRows cutoff st ↔ r ∈ st.sessions ∧ r.isStale (.ofInstant cutoff) = true := by
  rw [staleRows, List.mem_mergeSort, List.mem_filter]

def scanned (action : OrphanAction) (cutoff : Instant) (readings : Nat → Instant) (st : Store) :
    Store :=
  { st with
    sessions := st.sessions.map
      (afterScan action ((staleRows cutoff st).map (·.id)) fun n => readings (n + 1)) }

section
variable {timeout : Nat} {cutoff : Instant} (hkeyed : (st.sessions.map (·.id)).Nodup)
  (hdated : st.Dated)
include hkeyed hdated

variable (hage : (readings 0).before? timeout = some cutoff)
include hage

end

end Orphans

/-! ### What becomes of the sessions -/

section
open OneSession

end
end AlertDesk
