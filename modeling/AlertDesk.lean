import AlertDesk.Text.Blank
import AlertDesk.Text.Digits
import AlertDesk.Time.Calendar
import AlertDesk.Time.Instant
import AlertDesk.Json.Reader
import AlertDesk.Json.Writer
import AlertDesk.Time.Rfc3339
import AlertDesk.Time.Stamp
import AlertDesk.Time.JulianDay
import AlertDesk.Execution
import AlertDesk.Event
import AlertDesk.Verdict
import AlertDesk.Store.Database
import AlertDesk.Service.Sessions
import AlertDesk.Service.Claim
import AlertDesk.Service.Stages
import AlertDesk.Service.Retention
import AlertDesk.Task
import AlertDesk.Config
import AlertDesk.Json.Records
import AlertDesk.Schema
import AlertDesk.Location
import AlertDesk.Operator.Commands
import AlertDesk.Worker
import AlertDesk.Main
import AlertDesk.Proofs.Asking
import AlertDesk.Proofs.Courses
import AlertDesk.Proofs.Alone
import AlertDesk.Proofs.Replies
import AlertDesk.Proofs.Requests
import AlertDesk.Proofs.Effects
import AlertDesk.Proofs.Lifecycle
import AlertDesk.Proofs.Dates
import AlertDesk.Proofs.StoredTimes
import AlertDesk.Proofs.Queue
import AlertDesk.Proofs.Claims
import AlertDesk.Proofs.Turns
import AlertDesk.Proofs.StageView
import AlertDesk.Proofs.Convergence
import AlertDesk.Proofs.PlannedWrites
import AlertDesk.Proofs.Planning
import AlertDesk.Proofs.Attempts
import AlertDesk.Proofs.Settling
import AlertDesk.Proofs.Retries
import AlertDesk.Proofs.Deletion
import AlertDesk.Proofs.Histories
import AlertDesk.Proofs.Observed
import AlertDesk.Proofs.SessionCalls
import AlertDesk.Proofs.AtOnce
import AlertDesk.Proofs.SubAgents
import AlertDesk.Proofs.Isolation
import AlertDesk.Proofs.Forest
import AlertDesk.Proofs.Structure
import AlertDesk.Proofs.Creation
import AlertDesk.Proofs.Refusals
import AlertDesk.Proofs.TimeOrder
import AlertDesk.Proofs.ReadBack
import AlertDesk.Proofs.Ages
import AlertDesk.Proofs.TaskLife
import AlertDesk.Proofs.StageRows
import AlertDesk.Proofs.RecomputeAlone
import AlertDesk.Proofs.ConcurrentRecomputes
import AlertDesk.Proofs.Doubles
import AlertDesk.Proofs.JulianScale
import AlertDesk.Proofs.Bookkeeping
import AlertDesk.Proofs.OrphanScans
import AlertDesk.Proofs.Sweeps
import AlertDesk.Proofs.Durations
import AlertDesk.Proofs.ExecutionTimes
import AlertDesk.Proofs.Subtrees
import AlertDesk.Proofs.Readings
import AlertDesk.Proofs.Chronology
import AlertDesk.Proofs.SignsOfLife
import AlertDesk.Proofs.SweepCounts
import AlertDesk.Proofs.Policies
import AlertDesk.Proofs.Admission
import AlertDesk.Proofs.EventLog
import AlertDesk.Proofs.Settings
import AlertDesk.Proofs.BackgroundPasses
import AlertDesk.Proofs.LostRaces
