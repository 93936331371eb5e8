import AlertDesk.Config
/-!
The worker: it reads its configuration, opens the database and runs the two background tasks until
it is told to end. Each task makes a first pass at once. What the worker does is told by its log.
-/
namespace AlertDesk.Worker

def started : String := "alertflow worker bootstrap"
def configured : String := "configuration loaded"
def connected : String := "database connected"
def sweeping : List String := ["retention service started"]
def monitoring : List String := ["orphan monitor started"]
def ended : List String := ["shutdown signal received", "alertflow shut down"]

def sweepLog : Except Failure Retention.Report → List String
  | .ok report =>
    (if 0 < report.sessions then ["soft-deleted old sessions"] else []) ++
      (if 0 < report.events then ["deleted expired events"] else []) ++
      ["retention sweep completed"]
  | .error _ => ["retention sweep failed"]

/-- What the log says of a scan. A scan that finds nothing is not mentioned. -/
def scanLog (action : OrphanAction) : Except Failure Orphans.Scan → List String
  | .ok scan =>
    if scan.detected = 0 then []
    else
      ["orphaned session detected"] ++
        (if 0 < scan.recovered then ["orphaned session recovered"] else []) ++
        (if action ≠ .report ∧ scan.recovered < scan.detected then
          ["orphan changed since observed; skipped"] else []) ++ ["orphan scan completed"]
  | .error _ => ["orphan scan failed"]

def firstPasses (c : Config) : Service (List String) := do
  let report ← Service.attempt (Retention.sweep c.retention)
  let scan ← Service.attempt (Orphans.scan c.orphanAge c.orphanAction)
  return sweepLog report ++ scanLog c.orphanAction scan

def upLog (passes : List String) : List String :=
  [started, configured, connected] ++ sweeping ++ monitoring ++ passes

def logFormats : List String := ["text", "json"]

end AlertDesk.Worker
