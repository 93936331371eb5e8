import AlertDesk.Proofs.Sweeps
import Mathlib.Algebra.BigOperators.Fin

/-!
Sweeps add up. However sweeps overlap with each other and with whatever else is done, a session is
deleted by one statement at most and stays deleted as of then, and the counts that sweeps answer add
up to the sessions that are deleted in the end. A sweep that comes again before anything else has
been written finds nothing that is left to delete; if it keeps sessions longer, this takes times
whose years have four digits.
-/
namespace AlertDesk

/-- A sweep gives a time of deletion to a session that has none, and nothing else changes that
time. -/
theorem Statement.deletedAt_onSession (s : Statement) (r : SessionRow) :
    (s.onSession r).deletedAt = r.deletedAt ∨
      ∃ cutoff now, s = .deleteExpired cutoff now ∧ r.isExpired cutoff = true := by
  cases hfinds : s.finds r with
  | false =>
    rw [onSession_of_not_finds hfinds]
    exact .inl rfl
  | true =>
    have hwrites := writesSession_of_finds hfinds
    generalize s.onSession r = after at hwrites
    cases hwrites with
    | delete cutoff now hr => exact .inr ⟨cutoff, now, rfl, hr⟩
    | claim | touch | advance | finish | cancel | abandon | requeue => exact .inl rfl

namespace Pool

/-! ### What one statement deletes -/

def Entry.deletes (e : Entry Store) (r : SessionRow) : Bool :=
  !r.isDeleted && (e.statement.onSession r).isDeleted

def Entry.marks (id : String) (e : Entry Store) : Bool :=
  e.before.sessions.any fun r => r.id == id && e.deletes r

def Entry.deleted (e : Entry Store) : Nat := e.before.sessions.countP e.deletes

/-- The statement of a sweep that keeps sessions for these days and has read this time off the
clock. -/
def Entry.Sweeps (now : Instant) (days : Nat) (e : Entry Store) : Prop :=
  ∃ before, now.before? (days * Retention.nanosPerDay) = some before ∧
    e.statement = .deleteExpired (.ofInstant before) (.ofInstant now)

variable {log : List (Entry Store)} {st : Store} {e : Entry Store} {r : SessionRow}
  {requests : List Request} {schedule : List (Nat × Instant)}

theorem Entry.deletes_eq_isExpired {cutoff now : Stamp}
    (h : e.statement = .deleteExpired cutoff now) (r : SessionRow) :
    e.deletes r = r.isExpired cutoff := by
  rw [deletes, h]
  cases hexpired : r.isExpired cutoff with
  | true =>
    have hafter : (Statement.deleteExpired cutoff now).onSession r = r.deleted now :=
      if_pos hexpired
    rw [hafter, SessionOf.isDeleted, SessionRow.deletedAt_of_isExpired hexpired]
    rfl
  | false =>
    rw [Statement.onSession_of_not_finds (s := .deleteExpired cutoff now) hexpired]
    exact Bool.not_and_self _

/-- A sweep answers how many sessions it deletes, and sets their times of deletion and nothing
else. -/
theorem Entry.engine_sweep {cutoff now : Stamp} (h : e.statement = .deleteExpired cutoff now) :
    Store.engine (.deleteExpired cutoff now) e.before = (.ok e.deleted, { e.before with
      sessions := e.before.sessions.map fun r =>
        if e.deletes r then { r with deletedAt := some now } else r }) := by
  have hdeletes : e.deletes = fun r => r.isExpired cutoff := funext (deletes_eq_isExpired h)
  rw [deleted, hdeletes]
  rfl

/-- Only sweeps delete. -/
theorem Entry.exists_of_deletes (h : e.deletes r = true) :
    ∃ cutoff now, e.statement = .deleteExpired cutoff now := by
  rcases e.statement.deletedAt_onSession r with hsame | ⟨cutoff, now, hs, _⟩
  · rw [deletes, SessionOf.isDeleted, SessionOf.isDeleted, hsame, Bool.not_and_self] at h
    cases h
  · exact ⟨cutoff, now, hs⟩

theorem Entry.deletedAt_of_isDeleted (e : Entry Store) (h : r.isDeleted = true) :
    (e.statement.onSession r).deletedAt = r.deletedAt := by
  rcases e.statement.deletedAt_onSession r with hsame | ⟨cutoff, now, _, hexpired⟩
  · exact hsame
  · rw [SessionOf.isDeleted, SessionRow.deletedAt_of_isExpired hexpired] at h
    cases h

theorem Entry.isDeleted_onSession (e : Entry Store) (r : SessionRow) :
    (e.statement.onSession r).isDeleted = (r.isDeleted || e.deletes r) := by
  cases hdeleted : r.isDeleted with
  | true => rw [SessionOf.isDeleted, e.deletedAt_of_isDeleted hdeleted, Bool.true_or, ← hdeleted,
      SessionOf.isDeleted]
  | false => simp [deletes, hdeleted]

/-- The deleted sessions after a statement are those from before and those that it deletes. -/
theorem countP_isDeleted_onSession (e : Entry Store) (rows : List SessionRow) :
    (rows.map e.statement.onSession).countP (·.isDeleted) =
      rows.countP (·.isDeleted) + rows.countP e.deletes := by
  induction rows with
  | nil => rfl
  | cons r rows ih =>
    simp only [List.map_cons, List.countP_cons, ih, e.isDeleted_onSession r]
    cases hdeleted : r.isDeleted with
    | true => simp [Entry.deletes, hdeleted]; omega
    | false => simp; omega

theorem Entry.deleted_eq_zero (h : ∀ cutoff now, e.statement ≠ .deleteExpired cutoff now) :
    e.deleted = 0 := by
  rw [deleted, List.countP_eq_zero]
  intro r _ hdeletes
  obtain ⟨cutoff, now, hs⟩ := exists_of_deletes hdeletes
  exact h cutoff now hs

/-! ### What a run deletes -/

/-- The sessions that are deleted so far are those that the statements so far have deleted, each of
them once. -/
structure Counted (log : List (Entry Store)) (st : Store) : Prop where
  keyed : st.Keyed
  total : (log.map Entry.deleted).sum = st.sessions.countP (·.isDeleted)
  once : ∀ id, log.countP (Entry.marks id) = ((st.session? id).any (·.isDeleted)).toNat

theorem Counted.engine {request : Request} {clock : Instant → Prop} {s : Statement}
    (h : Counted log st) (hs : s.AskedBy clock request) (i : Nat) :
    Counted (log ++ [⟨i, s, st⟩]) (Store.engine s st).2 where
  keyed := Statement.keyed_engine h.keyed s
  total := by
    have hnew : (s.newSessions st).countP (·.isDeleted) = 0 := by
      rw [List.countP_eq_zero]
      intro r hr
      rw [Statement.of_mem_newSessions hr] at hs
      obtain ⟨_, _, _, _, _, _, rfl⟩ := hs
      exact Bool.false_ne_true
    have hold := countP_isDeleted_onSession ⟨i, s, st⟩ st.sessions
    rw [List.map_append, List.sum_append, h.total, Statement.engine_sessions,
      List.countP_append, hnew, hold]
    rfl
  once := fun id => by
    rw [List.countP_append, h.once id, List.countP_singleton]
    cases hbefore : st.session? id with
    | none =>
      have hunmarked : Entry.marks id ⟨i, s, st⟩ = false := Store.any_session_of_none hbefore _
      rw [hunmarked]
      cases hafter : (Store.engine s st).2.session? id with
      | none => rfl
      | some r =>
        rw [Store.session?_engine_of_none hbefore hafter] at hs
        obtain ⟨_, _, _, _, _, _, rfl⟩ := hs
        rfl
    | some r =>
      have hmarks : Entry.marks id ⟨i, s, st⟩ = Entry.deletes ⟨i, s, st⟩ r :=
        Store.any_session h.keyed hbefore _
      have hdeleted : (s.onSession r).isDeleted = (r.isDeleted || Entry.deletes ⟨i, s, st⟩ r) :=
        Entry.isDeleted_onSession ⟨i, s, st⟩ r
      rw [Store.session?_engine_of_some s hbefore, hmarks, Option.any_some, Option.any_some,
        hdeleted]
      cases hr : r.isDeleted with
      | true => simp [Entry.deletes, hr]
      | false => cases Entry.deletes ⟨i, s, st⟩ r <;> rfl

theorem counted_run (requests : List Request) (schedule : List (Nat × Instant)) :
    Counted (Pool.log Store.engine schedule (Request.pool requests) {})
      (run Store.engine schedule (Request.pool requests) {}).2 := by
  refine run_keeps schedule (Request.pool requests) ({} : Store) (fun _ _ => trivial)
    (Request.pool_asks requests fun _ _ => True) (I := Counted)
    ⟨balanced_empty.keyed, rfl, fun id => by simp [Store.session?]⟩ ?_
  intro log i s st hasked h
  obtain ⟨_, _, hs⟩ := hasked
  exact h.engine hs i

/-- What all statements delete is what the statements of each call delete, taken together. -/
theorem sum_own (f : Entry Store → Nat) {calls : Nat} (hcallers : ∀ e ∈ log, e.caller < calls) :
    ∑ i : Fin calls, ((own i log).map f).sum = (log.map f).sum := by
  induction log with
  | nil => simp [own]
  | cons e log ih =>
    obtain ⟨hcaller, hrest⟩ := List.forall_mem_cons.mp hcallers
    have hown (i : Fin calls) : ((own i (e :: log)).map f).sum =
        (if i = ⟨e.caller, hcaller⟩ then f e else 0) + ((own i log).map f).sum := by
      by_cases hi : i = ⟨e.caller, hcaller⟩
      · subst hi
        simp [own]
      · have hne : (e.caller == (i : Nat)) = false :=
          beq_eq_false_iff_ne.mpr fun heq => hi (Fin.ext heq.symm)
        simp [own, hi, hne]
    simp only [hown, Finset.sum_add_distrib, ih hrest, Finset.sum_ite_eq', Finset.mem_univ, if_true,
      List.map_cons, List.sum_cons]

end Pool

/-! ### What a sweep answers -/

namespace Retention

open Service

variable {clock : Instant → Prop} {es : List (Pool.Entry Store)} {days : Nat}

/-- A sweep with a retention that is no good asks nothing; any other asks one statement, and answers
how many sessions this has deleted. -/
theorem ends_deleteSessions {answer : Except Failure Nat}
    (h : (deleteSessions days).Ends clock es answer) :
    (∃ now look, clock now ∧ es = [look] ∧ look.Sweeps now days ∧ answer = .ok look.deleted) ∨
    (es = [] ∧ FailsWith .validation answer ∧
      (days = 0 ∨ ∃ now, clock now ∧ now.before? (days * nanosPerDay) = none)) := by
  by_cases hdays : days = 0
  · subst hdays
    obtain ⟨rfl, rfl⟩ := ends_throw.mp h
    exact .inr ⟨rfl, failsWith_validation _ _, .inl rfl⟩
  · have hzero : (days == 0) = false := by simpa using hdays
    simp only [deleteSessions, hzero, Bool.false_eq_true, if_false] at h
    obtain ⟨now, hnow, h⟩ := ends_clock_bind.mp h
    rcases Orphans.ends_cutoff_bind h with ⟨before, hage, h⟩ | ⟨hage, rfl, rfl⟩
    · obtain ⟨i, st, rfl, rfl⟩ := ends_ask h
      let look : Pool.Entry Store := ⟨i, .deleteExpired (.ofInstant before) (.ofInstant now), st⟩
      have hanswer := Pool.Entry.engine_sweep (e := look) rfl
      exact .inl ⟨now, look, hnow, rfl, ⟨before, hage, rfl⟩, congrArg Prod.fst hanswer⟩
    · exact .inr ⟨rfl, failsWith_validation _ _, .inr ⟨now, hnow, hage⟩⟩

section
variable {P : Statement → Prop}

theorem asksOnly_deleteSessions (days : Nat)
    (hdelete : ∀ cutoff now, P (.deleteExpired cutoff now)) :
    (deleteSessions days).AsksOnly P := by
  unfold deleteSessions
  split
  · trivial
  · refine asksOnly_clock_bind fun now => ?_
    exact asksOnly_settle_bind fun before => asksOnly_ask (hdelete _ _)

theorem asksOnly_purgeEvents (age : Nat) (hpurge : ∀ cutoff, P (.purgeEvents cutoff)) :
    (purgeEvents age).AsksOnly P := by
  unfold purgeEvents
  refine asksOnly_clock_bind fun now => ?_
  exact asksOnly_settle_bind fun before => asksOnly_ask (hpurge _)

theorem asksOnly_sweep (policy : Policy) : (sweep policy).AsksOnly fun _ => True := by
  refine asksOnly_bind (asksOnly_attempt (asksOnly_deleteSessions _ fun _ _ => trivial))
    fun sessions => ?_
  refine asksOnly_bind (asksOnly_attempt (asksOnly_purgeEvents _ fun _ => trivial)) fun events => ?_
  exact asksOnly_settle_bind fun _ => asksOnly_settle_bind fun _ => asksOnly_pure _

end

/-- A sweep that succeeds answers what its first half has deleted, and its second half deletes
none. -/
theorem ends_sweep {policy : Policy} {report : Report}
    (h : (sweep policy).Ends clock es (.ok report)) :
    (es.map Pool.Entry.deleted).sum = report.sessions := by
  obtain ⟨first, second, sessions, rfl, hfirst, h⟩ :=
    ends_attempt_bind (asksOnly_deleteSessions (P := fun _ => True) _ fun _ _ => trivial) h
  have hpurge : (purgeEvents policy.eventAge).AsksOnly fun s => ∃ cutoff, s = .purgeEvents cutoff :=
    asksOnly_purgeEvents _ fun cutoff => ⟨cutoff, rfl⟩
  obtain ⟨second, rest, events, rfl, hsecond, h⟩ := ends_attempt_bind hpurge h
  obtain ⟨count, rfl, hcounted⟩ := ends_settle_bind_ok h
  obtain ⟨purged, rfl, hboth⟩ := ends_settle_bind_ok hcounted
  obtain ⟨rfl, hreport⟩ := ends_pure.mp hboth
  cases hreport
  have hpurged : (second.map Pool.Entry.deleted).sum = 0 := by
    refine List.sum_eq_zero fun n hn => ?_
    obtain ⟨e, he, rfl⟩ := List.mem_map.mp hn
    obtain ⟨cutoff, hstatement⟩ := hpurge.ends hsecond e he
    exact Pool.Entry.deleted_eq_zero fun _ _ => by simp [hstatement]
  rcases ends_deleteSessions hfirst with ⟨_, look, _, rfl, _, hcount⟩ | ⟨_, hfails, _⟩
  · cases hcount
    simp [hpurged]
  · exact absurd hfails (not_failsWith_ok _)

end Retention

/-- How many sessions the answer to a request says that it has deleted. A sweep that is still under
way or has failed does not say. -/
def Request.told? : Request → Option (Except Failure Reply) → Option Nat
  | .deleteSessions _, some (.ok (.rows count)) => some count
  | .deleteSessions _, some (.error _) => some 0
  | .sweep _, some (.ok (.swept report)) => some report.sessions
  | .deleteSessions _, _ | .sweep _, _ => none
  | _, _ => some 0

namespace Pool

variable {log : List (Entry Store)} {st : Store} {e : Entry Store} {r : SessionRow}
  {requests : List Request} {schedule : List (Nat × Instant)}

/-- A request to delete sessions that has been answered. -/
theorem ends_of_reply?_deleteSessions {i days : Nat} {answer : Except Failure Reply}
    (hrequest : requests[i]? = some (.deleteSessions days))
    (hreply : reply? i (run Store.engine schedule (Request.replies requests) {}).1 = some answer) :
    ∃ count, answer = count.map .rows ∧
      (Retention.deleteSessions days).Ends (fun now => (i, now) ∈ schedule)
        (own i (Pool.log Store.engine schedule (Request.pool requests) {})) count := by
  rw [log_replies]
  obtain ⟨count, hends, rfl⟩ := Service.ends_bind_pure
    (Retention.asksOnly_deleteSessions (P := fun _ => True) days fun _ _ => trivial)
    (ends_of_reply? hrequest hreply)
  exact ⟨count, rfl, hends⟩

/-- Requests of other kinds delete no sessions. -/
theorem sum_deleted_own_eq_zero {i : Nat} {request : Request}
    (hrequest : requests[i]? = some request) (hnone : ∀ days, request ≠ .deleteSessions days)
    (hnone' : ∀ policy, request ≠ .sweep policy) :
    ((own i (Pool.log Store.engine schedule (Request.pool requests) {})).map Entry.deleted).sum =
      0 := by
  refine List.sum_eq_zero fun n hn => ?_
  obtain ⟨e, he, rfl⟩ := List.mem_map.mp hn
  obtain ⟨hmem, hcaller⟩ := List.mem_filter.mp he
  obtain ⟨request', hrequest', hs⟩ := askedBy_of_mem_pool_log hmem
  rw [beq_iff_eq.mp hcaller, hrequest, Option.some.injEq] at hrequest'
  refine Entry.deleted_eq_zero fun cutoff now hsweep => ?_
  rw [hsweep] at hs
  obtain ⟨days, _, _, _, _, _, _, _, hasks | ⟨age, hasks⟩⟩ := hs
  · exact hnone days (hrequest'.trans hasks)
  · exact hnone' _ (hrequest'.trans hasks)

/-- What a request says is what it has done. -/
theorem sum_deleted_own {i : Nat} {request : Request} (hrequest : requests[i]? = some request)
    {count : Nat} (htold : request.told? (reply? i
      (run Store.engine schedule (Request.replies requests) {}).1) = some count) :
    ((own i (Pool.log Store.engine schedule (Request.pool requests) {})).map Entry.deleted).sum =
      count := by
  generalize hreply : reply? i (run Store.engine schedule (Request.replies requests) {}).1 = reply
    at htold
  cases request with
  | deleteSessions days =>
    cases reply with
    | none => cases htold
    | some answer =>
      obtain ⟨told, rfl, hends⟩ := ends_of_reply?_deleteSessions hrequest hreply
      rcases Retention.ends_deleteSessions hends with ⟨_, look, _, hown, _, rfl⟩ | ⟨hown, hfails, _⟩
      · cases htold
        rw [hown]
        exact Nat.add_zero look.deleted
      · obtain ⟨e, rfl, _⟩ := hfails
        cases htold
        rw [hown]
        rfl
  | sweep policy =>
    cases reply with
    | none => cases htold
    | some answer =>
      obtain ⟨report, hends, rfl⟩ := Service.ends_bind_pure (Retention.asksOnly_sweep policy)
        (ends_of_reply? hrequest hreply)
      cases report with
      | error e => cases htold
      | ok report =>
        cases htold
        rw [log_replies]
        exact Retention.ends_sweep hends
  | _ =>
    cases htold
    exact sum_deleted_own_eq_zero hrequest nofun nofun

/-- What all requests say, taken together, is what all statements have deleted. -/
theorem sum_told (counts : Fin requests.length → Nat) (htold : ∀ i, requests[i].told?
      (reply? i (run Store.engine schedule (Request.replies requests) {}).1) = some (counts i)) :
    ∑ i, counts i =
      ((Pool.log Store.engine schedule (Request.pool requests) {}).map Entry.deleted).sum := by
  have hcallers : ∀ e ∈ Pool.log Store.engine schedule (Request.pool requests) {},
      e.caller < requests.length := by
    intro e he
    obtain ⟨_, hrequest, _⟩ := askedBy_of_mem_pool_log he
    exact (List.getElem?_eq_some_iff.mp hrequest).1
  rw [← sum_own Entry.deleted hcallers]
  exact Finset.sum_congr rfl fun i _ =>
    (sum_deleted_own (List.getElem?_eq_getElem i.isLt) (htold i)).symm

/-! ### Sweeps that come again -/

/-- What a sweep has read off the clock is a reading of the run. -/
theorem Entry.Sweeps.storable {now : Instant} {days : Nat} (h : e.Sweeps now days)
    (he : e ∈ Pool.log Store.engine schedule (Request.pool requests) {})
    (hyears : ∀ x ∈ schedule, x.2.Storable) : now.Storable := by
  obtain ⟨_, _, hs⟩ := h
  obtain ⟨_, _, hasked⟩ := askedBy_of_mem_pool_log he
  rw [hs] at hasked
  obtain ⟨_, t, _, ht, hstamp, _⟩ := hasked
  have hread : t.Storable := hyears (e.caller, t) ht
  refine Stamp.storable_of_readable ?_
  rw [hstamp]
  exact Stamp.readable_ofInstant hread

/-- A sweep finds nothing where another one that finds as much has just been. -/
theorem Entry.not_deletes_after {e e' : Entry Store} {cutoff cutoff' now now' : Stamp}
    (hs : e.statement = .deleteExpired cutoff now)
    (hs' : e'.statement = .deleteExpired cutoff' now')
    (hmet : e'.before = (Store.engine e.statement e.before).2)
    (hfinds : ∀ r ∈ e.before.sessions, r.isExpired cutoff' = true → r.isExpired cutoff = true) :
    ∀ r ∈ e'.before.sessions, e'.deletes r = false := by
  have hafter : e'.before.sessions = e.before.sessions.map e.statement.onSession := by
    rw [hmet, Statement.engine_sessions, hs]
    exact List.append_nil _
  rw [hafter, List.forall_mem_map]
  intro r hr
  rw [Entry.deletes_eq_isExpired hs', hs, Bool.eq_false_iff]
  intro hexpired
  cases hfirst : r.isExpired cutoff with
  | true =>
    -- It is deleted by now.
    have hdeleted : (Statement.deleteExpired cutoff now).onSession r = r.deleted now :=
      if_pos hfirst
    rw [hdeleted] at hexpired
    cases SessionRow.deletedAt_of_isExpired hexpired
  | false =>
    rw [Statement.onSession_of_not_finds (s := .deleteExpired cutoff now) hfirst] at hexpired
    rw [hfinds r hr hexpired] at hfirst
    cases hfirst

theorem Entry.deleted_eq_zero_iff :
    e.deleted = 0 ↔ ∀ r ∈ e.before.sessions, e.deletes r = false := by
  rw [deleted, List.countP_eq_zero]
  simp only [Bool.not_eq_true]

theorem Entry.same_after {cutoff now : Stamp} (hs : e.statement = .deleteExpired cutoff now)
    (hnone : ∀ r ∈ e.before.sessions, e.deletes r = false) :
    (Store.engine e.statement e.before).2 = e.before := by
  have hsame : (e.before.sessions.map fun r =>
      if e.deletes r then { r with deletedAt := some now } else r) = e.before.sessions :=
    (List.map_congr_left fun r hr => if_neg (Bool.eq_false_iff.mp (hnone r hr))).trans
      (List.map_id _)
  rw [hs, Entry.engine_sweep hs, hsame]

/-- Sessions that are kept longer are not over sooner, where times lie in the years with four
digits. -/
theorem isExpired_of_longer {now : Instant} {age age' : Nat} {before before' : Instant}
    (hr : r.Timed Instant.Storable) (hnow : now.Storable) (hle : age ≤ age')
    (hage : now.before? age = some before) (hage' : now.before? age' = some before')
    (h : r.isExpired (.ofInstant before') = true) : r.isExpired (.ofInstant before) = true := by
  rw [Instant.eq_of_before? hage', SessionRow.isExpired_eq hr hnow] at h
  rw [Instant.eq_of_before? hage, SessionRow.isExpired_eq hr hnow]
  exact SessionRow.overBefore_mono hle h

/-- A sweep that comes again before anything else has been written, and keeps sessions as long,
deletes nothing; nor does one that keeps them longer, where times lie in the years with four
digits. -/
theorem swept_again {first between rest : List (Entry Store)} {e e' : Entry Store} {now : Instant}
    {days days' : Nat}
    (hlog : Pool.log Store.engine schedule (Request.pool requests) {} =
      first ++ e :: (between ++ e' :: rest))
    (hquiet : ∀ b ∈ between, (Store.engine b.statement b.before).2 = b.before)
    (h : e.Sweeps now days) (h' : e'.Sweeps now days') (hle : days ≤ days')
    (hyears : days = days' ∨ ∀ x ∈ schedule, x.2.Storable) :
    e'.deleted = 0 ∧ (Store.engine e'.statement e'.before).2 = e'.before := by
  obtain ⟨before, hage, hs⟩ := id h
  obtain ⟨before', hage', hs'⟩ := id h'
  have hmet : e'.before = (Store.engine e.statement e.before).2 := by
    have hchain := chain_log Store.engine schedule (Request.pool requests) ({} : Store)
    rw [hlog] at hchain
    exact chain_quiet (chain_between hchain) hquiet
  have hnone : ∀ r ∈ e'.before.sessions, e'.deletes r = false := by
    refine Entry.not_deletes_after hs hs' hmet fun r hr hexpired => ?_
    rcases hyears with rfl | hyears
    · rw [hage', Option.some.injEq] at hage
      rwa [← hage]
    · have hreached := reached_before hyears hlog
      have he : e ∈ Pool.log Store.engine schedule (Request.pool requests) {} := by simp [hlog]
      have hnow := h.storable he hyears
      have hages : days * Retention.nanosPerDay ≤ days' * Retention.nanosPerDay :=
        Nat.mul_le_mul_right Retention.nanosPerDay hle
      exact isExpired_of_longer (hreached.dated.sessions r hr) hnow hages hage hage' hexpired
  exact ⟨Entry.deleted_eq_zero_iff.mpr hnone, Entry.same_after hs' hnone⟩

/-- How sweeps account for the sessions that are deleted: in a run with this log, which leaves this
store and these calls behind. -/
structure SweepsAddUp (requests : List Request) (schedule : List (Nat × Instant))
    (log : List (Entry Store)) (last : Store) (calls : Pool (Except Failure Reply)) : Prop where
  once : ∀ id, log.countP (Entry.marks id) = ((last.session? id).any (·.isDeleted)).toNat
  lasting : ∀ e ∈ log, ∀ r ∈ e.before.sessions, r.isDeleted = true →
    ∃ r', (Store.engine e.statement e.before).2.session? r.id = some r' ∧
      r'.deletedAt = r.deletedAt
  total : (log.map Entry.deleted).sum = last.sessions.countP (·.isDeleted)
  told : ∀ counts : Fin requests.length → Nat,
    (∀ i, requests[i].told? (reply? i calls) = some (counts i)) →
      ∑ i, counts i = last.sessions.countP (·.isDeleted)
  answered : ∀ i days answer, requests[i]? = some (.deleteSessions days) →
    reply? i calls = some answer →
    (∃ now look, (i, now) ∈ schedule ∧ own i log = [look] ∧ look.Sweeps now days ∧
      answer = .ok (.rows look.deleted)) ∨
    (own i log = [] ∧ FailsWith .validation answer ∧ (days = 0 ∨ ∃ now, (i, now) ∈ schedule ∧
      now.before? (days * Retention.nanosPerDay) = none))
  deletedAt : ∀ e ∈ log, ∀ cutoff now, e.statement = .deleteExpired cutoff now →
    Store.engine (.deleteExpired cutoff now) e.before = (.ok e.deleted, { e.before with
      sessions := e.before.sessions.map fun r =>
        if e.deletes r then { r with deletedAt := some now } else r })
  again : ∀ first e between e' rest, log = first ++ e :: (between ++ e' :: rest) →
    (∀ b ∈ between, (Store.engine b.statement b.before).2 = b.before) →
    ∀ now days days', e.Sweeps now days → e'.Sweeps now days' → days ≤ days' →
      (days = days' ∨ ∀ x ∈ schedule, x.2.Storable) →
      e'.deleted = 0 ∧ (Store.engine e'.statement e'.before).2 = e'.before

/-- However sweeps overlap with whatever else is done, each session is deleted by one statement at
most, and its time of deletion is never changed or taken back. What the sweeps delete adds up to the
sessions that are deleted in the end, and so do the counts that they answer, once each has told its
own. A sweep whose retention is good asks one statement and answers what that answers, and one whose
retention is not good asks none. The statement answers how many sessions it deletes, and sets the
times of deletion of these and nothing else. If a sweep comes again with the same reading of the
clock before anything else is written, it deletes nothing; nor does one that keeps sessions longer,
where times lie in the years that have four digits. -/
theorem sessions_deleted_once (requests : List Request) (schedule : List (Nat × Instant)) :
    SweepsAddUp requests schedule (Pool.log Store.engine schedule (Request.pool requests) {})
      (run Store.engine schedule (Request.pool requests) {}).2
      (run Store.engine schedule (Request.replies requests) {}).1 := by
  have hcounted := counted_run requests schedule
  refine ⟨hcounted.once, fun e he r hr hdeleted => ?_, hcounted.total, fun counts htold => ?_,
    fun i days answer hrequest hreply => ?_, fun e _ cutoff now h => Entry.engine_sweep h,
    fun first e between e' rest hlog hquiet now days days' h h' hle hyears =>
      swept_again hlog hquiet h h' hle hyears⟩
  · obtain ⟨first, rest, hlog⟩ := List.append_of_mem he
    have hreached : e.before.Reached fun _ => True := reached_before (fun _ _ => trivial) hlog
    have hr' := Store.session?_of_mem hreached.keyed hr
    exact ⟨_, Store.session?_engine_of_some e.statement hr', e.deletedAt_of_isDeleted hdeleted⟩
  · exact (sum_told counts htold).trans hcounted.total
  · obtain ⟨count, rfl, hends⟩ := ends_of_reply?_deleteSessions hrequest hreply
    rcases Retention.ends_deleteSessions hends with
      ⟨now, look, hnow, hown, hsweeps, rfl⟩ | ⟨hown, ⟨e, rfl, hkind⟩, hbad⟩
    · exact .inl ⟨now, look, hnow, hown, hsweeps, rfl⟩
    · exact .inr ⟨hown, ⟨e, rfl, hkind⟩, hbad⟩

end Pool

/-! Two sessions are handed in a day apart, and three sweeps are made; the first two look at the
clock before either of them deletes anything. -/

namespace Overlapping

def hours (n : Int) : Instant := ⟨n * 3600000000000⟩

def requests : List Request := [
  .submit OneSession.submission "",
  .submit { OneSession.submission with id := some "t" } "",
  .deleteSessions 1,
  .sweep { sessionDays := 1, eventAge := 3600000000000 },
  .deleteSessions 1]

def schedule : List (Nat × Instant) :=
  List.replicate 2 (0, hours 0) ++ List.replicate 2 (1, hours 24) ++
    [(2, hours 36), (3, hours 36)] ++ [(2, hours 36)] ++ List.replicate 3 (3, hours 36) ++
    List.replicate 2 (4, hours 60)

def counts : Fin requests.length → Nat := ![0, 0, 1, 0, 1]

def reply (i : Nat) : Option (Except Failure Reply) :=
  Pool.reply? i (Pool.run Store.engine schedule (Request.replies requests) {}).1

def answered (now : Instant) (days days' : Nat) : List (Except Failure Nat) :=
  let requests : List Request := [.submit OneSession.submission "", .deleteSessions days,
    .deleteSessions days']
  let schedule :=
    List.replicate 2 (0, hours 0) ++ List.replicate 2 (1, now) ++ List.replicate 2 (2, now)
  (Pool.answers (Pool.run Store.engine schedule (Request.replies requests) {}).1).filterMap fun
    | .ok (.rows count) => some (.ok count)
    | .ok _ => none
    | .error e => some (.error e)

end Overlapping

namespace Pool

open Overlapping

theorem sessions_deleted_once_overlapping :
    (∀ i, requests[i].told? (reply i) = some (counts i)) ∧ ∑ i, counts i = 2 ∧
      (run Store.engine schedule (Request.pool requests) {}).2.sessions.countP
        (·.isDeleted) = 2 := by
  have htold : ∀ i, requests[i].told? (reply i) = some (counts i) := by decide +kernel
  have hsum := (sessions_deleted_once requests schedule).told
  have hcounts : ∑ i, counts i = 2 := by decide
  exact ⟨htold, hcounts, (hsum counts htold).symm.trans hcounts⟩

/-- A sweep that keeps sessions longer may be refused where the one before it was not. And in the
year 10000, where a day before now is written with a sign and so comes before all that is stored, it
deletes what the one before it did not. -/
theorem longer_retention_told :
    answered ⟨2 * Instant.perDay⟩ 1 200000000 =
      [.ok 1, .error (.validation "retention_days" .outOfRange)] ∧
    answered ⟨(⟨10000, 1, 15⟩ : Date).dayNumber * Instant.perDay⟩ 1 60 = [.ok 0, .ok 1] := by
  decide +kernel

end Pool
end AlertDesk
