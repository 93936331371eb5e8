import AlertDesk.Proofs.Ages

/-!
Sweeps made alone. A sweep is two calls, and a failure of the first does not keep the second from
being made. Each of them looks at its own age before its own write, so an age that is no good costs
only the write that it is meant for.
-/
namespace AlertDesk.Retention

open Service

variable {st : Store} {readings : Nat → Instant} {days age : Nat}

/-! ### The two halves -/

/-- Sessions cannot be kept for no days, nor for more of them than the calendar has before now. -/
def BadDays (now : Instant) (days : Nat) : Prop :=
  days = 0 ∨ now.before? (days * nanosPerDay) = none

def BadAge (now : Instant) (age : Nat) : Prop := now.before? age = none

/-- What the clock shows once the sessions are done. Where they are kept for no days, it was not
looked at. -/
def afterSessions (days : Nat) (readings : Nat → Instant) : Nat → Instant :=
  if days = 0 then readings else fun n => readings (n + 1)

theorem deleteSessions_of_bad (h : BadDays (readings 0) days) (st : Store) : ∃ invalid,
    (deleteSessions days).LeadsTo readings st (.error (.validation "retention_days" invalid))
      (afterSessions days readings) st := by
  by_cases hdays : days = 0
  · subst hdays
    exact ⟨.notPositive, fun β f => rfl⟩
  · have hzero : (days == 0) = false := by simpa using hdays
    have hage := h.resolve_left hdays
    refine ⟨.outOfRange, ?_⟩
    rw [afterSessions, if_neg hdays]
    simp only [deleteSessions, hzero, Bool.false_eq_true, if_false]
    refine leadsTo_clock_bind ?_
    rw [Orphans.cutoff, hage]
    exact fun β f => rfl

theorem deleteSessions_of_good {cutoff : Instant} (hdays : days ≠ 0)
    (hcutoff : (readings 0).before? (days * nanosPerDay) = some cutoff) (st : Store) :
    let swept := st.changeSessions (·.isExpired (.ofInstant cutoff))
      (SessionRow.deleted (.ofInstant (readings 0)))
    (deleteSessions days).LeadsTo readings st (.ok swept.1) (afterSessions days readings)
      swept.2 := by
  have hzero : (days == 0) = false := by simpa using hdays
  rw [afterSessions, if_neg hdays]
  simp only [deleteSessions, hzero, Bool.false_eq_true, if_false]
  refine leadsTo_clock_bind ?_
  rw [Orphans.cutoff, hcutoff]
  exact fun β f => rfl

theorem purgeEvents_of_bad (h : BadAge (readings 0) age) (st : Store) :
    (purgeEvents age).LeadsTo readings st (.error (.validation "ttl" .outOfRange))
      (fun n => readings (n + 1)) st := by
  simp only [purgeEvents]
  refine leadsTo_clock_bind ?_
  rw [Orphans.cutoff, h]
  exact fun β f => rfl

theorem purgeEvents_of_good {cutoff : Instant} (hcutoff : (readings 0).before? age = some cutoff)
    (st : Store) :
    let purged := st.removeEvents fun e => decide (e.createdAt < .ofInstant cutoff)
    (purgeEvents age).LeadsTo readings st (.ok purged.1) (fun n => readings (n + 1)) purged.2 := by
  simp only [purgeEvents]
  refine leadsTo_clock_bind ?_
  rw [Orphans.cutoff, hcutoff]
  exact fun β f => rfl

/-! ### The whole -/

/-- The sessions first, then the events, and only then is it looked at whether either has failed. -/
theorem alone_sweep {policy : Policy} {sessions events : Except Failure Nat}
    {later last : Nat → Instant} {mid after : Store}
    (hsessions : (deleteSessions policy.sessionDays).LeadsTo readings st sessions later mid)
    (hevents : (purgeEvents policy.eventAge).LeadsTo later mid events last after) :
    (sweep policy).alone readings st =
      (some (do return { sessions := ← sessions, events := ← events }), after) := by
  rw [sweep, hsessions.attempt, hevents.attempt]
  cases sessions with
  | error e => rfl
  | ok deleted => cases events <;> rfl

/-- A sweep made alone answers a validation failure exactly when one of its two ages is no good. If
it is the number of days, no session is changed, and events are purged just as they are without the
sessions; if it is the age of the events, no event is removed; and if both are no good, nothing is
written. -/
theorem sweep_checks_each_age_first (policy : Policy) (readings : Nat → Instant) (st : Store) :
    ∃ report after, (sweep policy).alone readings st = (some report, after) ∧
      (FailsWith .validation report ↔ BadDays (readings 0) policy.sessionDays ∨
        BadAge (afterSessions policy.sessionDays readings 0) policy.eventAge) ∧
      (∀ field invalid, report = .error (.validation field invalid) →
        (field = "retention_days" ∧ after.sessions = st.sessions ∧ ∃ events,
          (purgeEvents policy.eventAge).alone (afterSessions policy.sessionDays readings) st =
            (some events, after)) ∨
        (field = "ttl" ∧ after.events = st.events)) ∧
      (BadDays (readings 0) policy.sessionDays →
        BadAge (afterSessions policy.sessionDays readings 0) policy.eventAge → after = st) ∧
      after = { st with sessions := after.sessions, events := after.events } := by
  -- Either age may be good or bad; if both are bad, the failure that is told is that of the days.
  by_cases hdays : BadDays (readings 0) policy.sessionDays
  · obtain ⟨invalid, hsessions⟩ := deleteSessions_of_bad hdays st
    have hreport : FailsWith .validation
        (.error (.validation "retention_days" invalid) : Except Failure Report) :=
      failsWith_validation _ _
    cases hage : (afterSessions policy.sessionDays readings 0).before? policy.eventAge with
    | none =>
      have hevents := purgeEvents_of_bad hage st
      refine ⟨_, _, alone_sweep hsessions hevents, iff_of_true hreport (.inl hdays), ?_,
        fun _ _ => rfl, rfl⟩
      rintro _ _ ⟨⟩
      exact .inl ⟨rfl, rfl, _, hevents.alone⟩
    | some cutoff =>
      have hevents := purgeEvents_of_good hage st
      refine ⟨_, _, alone_sweep hsessions hevents, iff_of_true hreport (.inl hdays), ?_,
        fun _ hbad => ?_, rfl⟩
      · rintro _ _ ⟨⟩
        exact .inl ⟨rfl, rfl, _, hevents.alone⟩
      · rw [BadAge, hage] at hbad
        cases hbad
  · obtain ⟨hpositive, hreach⟩ := not_or.mp hdays
    obtain ⟨cutoff, hcutoff⟩ := Option.ne_none_iff_exists'.mp hreach
    have hsessions := deleteSessions_of_good hpositive hcutoff st
    cases hage : (afterSessions policy.sessionDays readings 0).before? policy.eventAge with
    | none =>
      refine ⟨_, _, alone_sweep hsessions (purgeEvents_of_bad hage _),
        iff_of_true (failsWith_validation _ _) (.inr hage), ?_, fun hbad => absurd hbad hdays, rfl⟩
      rintro _ _ ⟨⟩
      exact .inr ⟨rfl, rfl⟩
    | some cutoff' =>
      refine ⟨_, _, alone_sweep hsessions (purgeEvents_of_good hage _),
        iff_of_false (not_failsWith_ok _) (not_or.mpr ⟨hdays, ?_⟩), ?_,
        fun hbad => absurd hbad hdays, rfl⟩
      · rw [BadAge, hage]
        exact Option.some_ne_none _
      · rintro _ _ ⟨⟩

def published : Store :=
  (Pool.run Store.engine (List.replicate 4 (0, ⟨0⟩))
    (Request.pool [.publish none "alerts" (.str "disk full")]) {}).2

/-- No days are no retention, and yet the event of the day before is gone. -/
theorem refused_sweep_purges_events : published.Reached Instant.Storable ∧
    ∃ after, (sweep { sessionDays := 0, eventAge := 3600000000000 }).alone
        (fun _ => ⟨Instant.perDay⟩) published =
      (some (.error (.validation "retention_days" .notPositive)), after) ∧
    published.events.length = 1 ∧ after.events = [] := by
  refine ⟨⟨_, _, fun turn hturn => ?_, rfl⟩, _, rfl, by decide +kernel, by decide +kernel⟩
  rw [List.eq_of_mem_replicate hturn]
  decide

end AlertDesk.Retention
