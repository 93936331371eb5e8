import AlertDesk.Service.Orphans
/-!
Retention: old sessions are marked deleted and old events are removed. A sweep does both, whether or
not the first of them fails.
-/
namespace AlertDesk.Retention

open Service

/-- How long sessions are kept in days and events in nanoseconds. -/
structure Policy where
  sessionDays : Nat
  eventAge : Nat
deriving DecidableEq, Repr

structure Report where
  sessions : Nat
  events : Nat
deriving DecidableEq, Repr

def nanosPerDay : Nat := 86400 * 1000000000

def deleteSessions (days : Nat) : Service Nat := do
  if days == 0 then throw (.validation "retention_days" .notPositive)
  let now ← clock
  Rows.deleteExpired (← settle (Orphans.cutoff now (days * nanosPerDay) "retention_days")) now

def purgeEvents (age : Nat) : Service Nat := do
  Rows.purge (← settle (Orphans.cutoff (← clock) age "ttl"))

def sweep (policy : Policy) : Service Report := do
  let sessions ← attempt (deleteSessions policy.sessionDays)
  let events ← attempt (purgeEvents policy.eventAge)
  return { sessions := ← settle sessions, events := ← settle events }

end AlertDesk.Retention
