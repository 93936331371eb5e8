import AlertDesk.Operator.Commands
import AlertDesk.Store.Snapshot
import AlertDesk.Json.Pretty
import AlertDesk.Worker
import Std.Time.DateTime.Timestamp
/-!
The command line. The store is kept in a file as JSON text, which a command reads, works on and
writes back. With the word `worker` and the path of a configuration, the background tasks run until
the process is ended.
-/
namespace AlertDesk.Program

def clock : IO Instant := return ⟨(← Std.Time.Timestamp.now).toNanosecondsSinceUnixEpoch.val⟩

def hexDigits (n : Nat) : List Char := [Nat.digitChar (n / 16), Nat.digitChar (n % 16)]

/-- Random digits in the groups of an identifier, with the marks of its fourth version. -/
def freshId : IO String := do
  let bytes := (← IO.getRandomBytes 16).toList.map (·.toNat)
  let marked := bytes.mapIdx fun i b =>
    if i = 6 then b % 16 + 64 else if i = 8 then b % 64 + 128 else b
  let ds := marked.flatMap hexDigits
  let groups :=
    [ds.take 8, (ds.drop 8).take 4, (ds.drop 12).take 4, (ds.drop 16).take 4, ds.drop 20]
  return "-".intercalate (groups.map String.ofList)

def fileDepth : Nat := 1000

/-- The store in a file; none if the file holds no store. A file that is not there is an empty
store. -/
def load (path : String) : IO (Option Store) := do
  let text ← try some <$> IO.FS.readFile path catch _ => pure none
  return match text with
    | none => some {}
    | some text => (Json.read? fileDepth text).bind Store.Snapshot.read?

def save (path : String) (st : Store) : IO Unit :=
  IO.FS.writeFile path (Store.Snapshot.form st).text

def rounds : Nat := 1000000

def perform {α : Type} (path : String) (call : Service α) : IO (Except Failure α) := do
  match ← load path with
  | none => return .error (.store .notADatabase)
  | some store =>
    let (result, db) := Call.run Database.engine (← clock) call.run rounds { store }
    save path db.store
    return result.getD (.error (.timeout .claimSession db.deadlines.bulk))

def usage : String :=
  "Usage: alertflow-ctl --database <PATH> submit|show|list|cancel|orphans|sweep|events [OPTIONS]"

def operate (args : List String) : IO UInt32 := do
  match Operator.invocation (← IO.getEnv "ALERTFLOW_DATABASE") none args with
  | .error .version => IO.println Operator.versionText; return 0
  | .error .help => IO.println usage; return 0
  | .error .usage => IO.eprintln usage; return 2
  | .ok invocation =>
    match ← perform invocation.database (invocation.command.call (← freshId)) with
    | .ok v => IO.println v.pretty; return 0
    | .error f => IO.eprintln (Operator.failureText f); return 1

def log (lines : List String) : IO Unit := lines.forM fun line => IO.eprintln line

/-- The passes of the two tasks, each after its own number of seconds. -/
partial def keepWorking (c : Config) (untilSweep untilScan : Nat) : IO Unit := do
  let wait := min untilSweep untilScan
  IO.sleep (UInt32.ofNat (1000 * wait))
  if untilSweep = wait then
    match ← perform c.databasePath (Service.attempt (Retention.sweep c.retention)) with
    | .ok report => log (Worker.sweepLog report)
    | .error f => log [Operator.failureText f]
  if untilScan = wait then
    match ← perform c.databasePath (Service.attempt (Orphans.scan c.orphanAge c.orphanAction)) with
    | .ok scan => log (Worker.scanLog c.orphanAction scan)
    | .error f => log [Operator.failureText f]
  keepWorking c (if untilSweep = wait then c.cleanupSeconds else untilSweep - wait)
    (if untilScan = wait then c.checkSeconds else untilScan - wait)

def work (path : String) : IO UInt32 := do
  log [Worker.started]
  let bytes ← try some <$> IO.FS.readBinFile path catch _ => pure none
  match Config.ofFile (← IO.getEnv "HOSTNAME") (String.ofList ((← freshId).toList.take 8))
    bytes with
  | .error f => log [Operator.failureText f]; return 1
  | .ok config =>
    log [Worker.configured]
    match ← perform config.databasePath (Worker.firstPasses config) with
    | .error f => log [Operator.failureText f]; return 1
    | .ok passes =>
      log ((Worker.upLog passes).drop 2)
      keepWorking config config.cleanupSeconds config.checkSeconds
      return 0

end AlertDesk.Program

def main (args : List String) : IO UInt32 :=
  match args with
  | ["worker", path] => AlertDesk.Program.work path
  | args => AlertDesk.Program.operate args
