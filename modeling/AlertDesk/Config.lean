import AlertDesk.Failure
import AlertDesk.Text.Blank
import AlertDesk.Toml.Reader
import AlertDesk.Service.Retention
import AlertDesk.Store.Database
/-!
The configuration of a worker, read from TOML text. Settings that are left out have defaults, the
database path apart. A configuration is accepted only with positive deadlines and periods, and with
ages and periods short enough for the calendar.
-/
namespace AlertDesk

/-- Times are in the units of their settings: milliseconds for deadlines, days for sessions, else
seconds. -/
structure Config where
  databasePath : String
  podId : Option String := none
  deadlines : Deadlines := {}
  sessionDays : Nat := 365
  eventSeconds : Nat := 3600
  cleanupSeconds : Nat := 43200
  orphanSeconds : Nat := 300
  checkSeconds : Nat := 60
  orphanAction : OrphanAction := .report
deriving Repr

namespace Config

def maxDays : Nat := 36500

/-- A hundred years of 365 days. -/
def maxSeconds : Nat := 100 * 365 * 86400

/-! ### Reading settings -/

/-- The settings of a section, which is a table, or an array that gives them in order. A time in its
place sets nothing. -/
inductive Section where
  | named (fields : Toml.Fields)
  | ordered (items : List Toml)

def Section.ofToml? : Toml → Option Section
  | .table _ fields => some (.named fields)
  | .array items => some (.ordered items)
  | .time => some (.named [])
  | _ => none

def section? (fields : Toml.Fields) (name : String) : Option Section :=
  match fields.lookup name with
  | none => some (.named [])
  | some v => Section.ofToml? v

def Section.get {α : Type} (s : Section) (name : String) (place : Nat) (default : α)
    (read : Toml → Option α) : Option α :=
  let given := match s with
    | .named fields => fields.lookup name
    | .ordered items => items[place]?
  match given with
  | none => some default
  | some v => read v

def natural? (bound : Nat) : Toml → Option Nat
  | .int n => if 0 ≤ n ∧ n < bound then some n.toNat else none
  | _ => none

def number? : Toml → Option Nat := natural? (Nat.pow 2 64)

/-- The action by its name, which may also stand as the one key of a table, with nothing for its
value. -/
def action? : Toml → Option OrphanAction
  | .text name => OrphanAction.ofName? name
  | .table _ [(name, .table _ [])] | .table _ [(name, .array [])] => OrphanAction.ofName? name
  | _ => none

def text? : Toml → Option String
  | .text s => some s
  | _ => none

def ofFields? (fields : Toml.Fields) : Option Config := do
  let timeouts ← section? fields "timeouts"
  let retention ← section? fields "retention"
  let orphans ← section? fields "orphans"
  let root := Section.named fields
  return {
    databasePath := ← (← fields.lookup "database_path") |> text?
    podId := ← root.get "pod_id" 1 none fun v => (text? v).map some
    deadlines := {
      single := ← timeouts.get "status_update_ms" 0 5000 number?
      bulk := ← timeouts.get "bulk_ms" 1 30000 number? }
    sessionDays := ← retention.get "session_retention_days" 0 365 (natural? (Nat.pow 2 32))
    eventSeconds := ← retention.get "event_ttl_seconds" 1 3600 number?
    cleanupSeconds := ← retention.get "cleanup_interval_seconds" 2 43200 number?
    orphanSeconds := ← orphans.get "timeout_seconds" 0 300 number?
    checkSeconds := ← orphans.get "check_interval_seconds" 1 60 number?
    orphanAction := ← orphans.get "action" 2 .report action? }

/-! ### Checks -/

/-- Each rule with the fault of a configuration that breaks it, in the order in which they are
checked. -/
def rules (c : Config) : List (Bool × ConfigFault) := [
  (!c.databasePath.isEmpty, .emptyDatabasePath),
  (!c.podId.any Text.isBlank, .blankPodId),
  (decide (0 < c.deadlines.single) && decide (0 < c.deadlines.bulk), .zeroTimeout),
  (decide (0 < c.sessionDays), .zeroRetention),
  (decide (0 < c.eventSeconds) && decide (0 < c.cleanupSeconds), .zeroEventPeriod),
  (decide (0 < c.orphanSeconds) && decide (0 < c.checkSeconds), .zeroOrphanPeriod),
  (decide (c.sessionDays ≤ maxDays), .retentionTooLong maxDays),
  (decide (c.eventSeconds ≤ maxSeconds), .periodTooLong "retention.event_ttl_seconds" maxSeconds),
  (decide (c.cleanupSeconds ≤ maxSeconds),
    .periodTooLong "retention.cleanup_interval_seconds" maxSeconds),
  (decide (c.orphanSeconds ≤ maxSeconds), .periodTooLong "orphans.timeout_seconds" maxSeconds),
  (decide (c.checkSeconds ≤ maxSeconds),
    .periodTooLong "orphans.check_interval_seconds" maxSeconds)]

def check (c : Config) : Except Failure Unit :=
  match c.rules.find? fun rule => !rule.1 with
  | some (_, fault) => .error (.config fault)
  | none => .ok ()

/-- The name of a pod that was given none: its host, if that is not blank, and a suffix. -/
def defaultPodId (host : Option String) (suffix : String) : String :=
  (host.filter (!Text.isBlank ·)).getD "pod" ++ "-" ++ suffix

def ofText (host : Option String) (suffix : String) (s : String) : Except Failure Config := do
  let some config := (Toml.read? s).bind ofFields? | throw (.config .malformed)
  config.check
  return { config with podId := some (config.podId.getD (defaultPodId host suffix)) }

def ofFile (host : Option String) (suffix : String) : Option ByteArray → Except Failure Config
  | none => .error (.config .missingFile)
  | some bytes =>
    match String.fromUTF8? bytes with
    | some s => ofText host suffix s
    | none => .error (.config .notUtf8)

/-! ### What it says to the background tasks -/

def nanosPerSecond : Nat := 1000000000

def retention (c : Config) : Retention.Policy where
  sessionDays := c.sessionDays
  eventAge := c.eventSeconds * nanosPerSecond

def orphanAge (c : Config) : Nat := c.orphanSeconds * nanosPerSecond

end Config
end AlertDesk
