import AlertDesk.Proofs.Observed
import AlertDesk.Proofs.ReadBack
import AlertDesk.Service.Retention

/-!
Ages. What is older than an age is told by comparing texts: the time that lies the age before now is
written as stored times are, and what comes before it is older. Where the stored times lie in the
years that have four digits, the texts are in the order of the times to the microsecond, even if the
age leads back beyond these years; so what is found old is old.
-/
namespace AlertDesk

namespace Instant

variable {now : Instant} {age : Nat}

/-- The age is longer than ages can be, or it leads back beyond the calendar. -/
def OutOfReach (now : Instant) (age : Nat) : Prop := maxAge < age ∨ now.plus (-age) < earliest

instance : Decidable (now.OutOfReach age) := inferInstanceAs (Decidable (_ ∨ _))

def ago (now : Instant) (age : Nat) : Instant := (now.plus (-age)).cut

theorem before?_eq_none (h : now.OutOfReach age) : now.before? age = none := by
  refine if_neg fun hboth => ?_
  simp only [inRange, Bool.and_eq_true, decide_eq_true_eq] at hboth
  obtain ⟨hage, hlow, _⟩ := hboth
  rcases h with hlong | hearly
  · omega
  · exact absurd hearly (Int.not_lt.mpr hlow)

theorem before?_eq_some (hnow : now.Storable) (h : ¬ now.OutOfReach age) :
    now.before? age = some (now.plus (-age)) := by
  obtain ⟨hage, hlow⟩ := not_or.mp h
  have hhigh : now.plus (-age) ≤ latest := by
    have hbounds := hnow.bounds
    change now.nanos + -(age : Int) ≤ latest.nanos
    rw [latest_nanos]
    omega
  have hlow' : earliest ≤ now.plus (-age) := Int.not_lt.mp hlow
  refine if_pos ⟨by omega, ?_⟩
  simp [inRange, hlow', hhigh]

theorem eq_of_before? {before : Instant} (h : now.before? age = some before) :
    before = now.plus (-age) := by
  simp only [before?, Option.ite_none_right_eq_some, Option.some.injEq] at h
  exact h.2.symm

theorem ago_mono {age' : Nat} (h : age ≤ age') {t : Instant} (ht : t < now.ago age') :
    t < now.ago age := by
  change t.nanos < (now.nanos + -(age' : Int)) / 1000 * 1000 at ht
  change t.nanos < (now.nanos + -(age : Int)) / 1000 * 1000
  omega

end Instant

namespace Stamp

variable {s : Stamp} {now : Instant} {age : Nat}

/-- Whatever time was stored so, it lies further back than the age. -/
def OlderThan (age : Nat) (now : Instant) (s : Stamp) : Prop :=
  ∀ t, s = ofInstant t → t.nanos + age < now.nanos

theorem lt_iff_named_lt (hs : s.Taken Instant.Storable) (hnow : now.Storable) :
    s < ofInstant (now.plus (-age)) ↔ s.named < now.ago age := by
  obtain ⟨t, ht, rfl⟩ := hs
  have hyear : (now.plus (-age)).date.year ≤ now.date.year := by
    apply Instant.year_mono
    change now.nanos + -(age : Int) ≤ now.nanos
    omega
  rw [named_ofInstant ht]
  exact ofInstant_lt_iff_of_year_le ht (Int.le_trans hyear hnow.2)

theorem olderThan_of_named_lt (hs : s.Taken Instant.Storable) (h : s.named < now.ago age) :
    s.OlderThan age now := by
  intro t hst
  have ht : t.Storable := storable_of_readable (hst ▸ hs.readable fun _ ht => ht)
  rw [hst, named_ofInstant ht] at h
  change t.nanos / 1000 * 1000 < (now.nanos + -(age : Int)) / 1000 * 1000 at h
  omega

end Stamp

/-! ### Rows by their times -/

namespace SessionRow

variable {r : SessionRow} {now : Instant} {age : Nat}

/-- It is worked on, and the last sign of life came earlier. -/
def silentSince (t : Instant) (r : SessionRow) : Bool :=
  r.isInProgress && r.deletedAt.isNone && decide (r.lastSign.named < t)

/-- It was completed earlier, or was handed in earlier and still waits. -/
def overBefore (t : Instant) (r : SessionRow) : Bool :=
  r.deletedAt.isNone && (r.completedAt.any (fun s => decide (s.named < t)) ||
    (r.status == .pending && decide (r.createdAt.named < t)))

theorem Timed.lastSign {clock : Instant → Prop} (h : r.Timed clock) : r.lastSign.Taken clock := by
  unfold SessionRow.lastSign
  cases hlast : r.lastInteractionAt with
  | some s => exact h.lastInteractionAt s hlast
  | none =>
    cases hstart : r.startedAt with
    | some s => exact h.startedAt s hstart
    | none => exact h.createdAt

theorem Timed.readable (h : r.Timed Instant.Storable) : r.Readable where
  createdAt := h.createdAt.readable fun _ ht => ht
  startedAt := fun s hs => (h.startedAt s hs).readable fun _ ht => ht
  lastInteractionAt := fun s hs => (h.lastInteractionAt s hs).readable fun _ ht => ht
  completedAt := fun s hs => (h.completedAt s hs).readable fun _ ht => ht
  deletedAt := fun s hs => (h.deletedAt s hs).readable fun _ ht => ht

theorem isStale_eq (hr : r.Timed Instant.Storable) (hnow : now.Storable) (age : Nat) :
    r.isStale (.ofInstant (now.plus (-age))) = r.silentSince (now.ago age) := by
  simp only [isStale, silentSince, Stamp.lt_iff_named_lt hr.lastSign hnow]

theorem isExpired_eq (hr : r.Timed Instant.Storable) (hnow : now.Storable) (age : Nat) :
    r.isExpired (.ofInstant (now.plus (-age))) = r.overBefore (now.ago age) := by
  have hcompleted : r.completedAt.any (fun s => decide (s < .ofInstant (now.plus (-age)))) =
      r.completedAt.any fun s => decide (s.named < now.ago age) := by
    cases hend : r.completedAt with
    | none => rfl
    | some s => simp only [Option.any_some, Stamp.lt_iff_named_lt (hr.completedAt s hend) hnow]
  simp only [isExpired, overBefore, hcompleted, Stamp.lt_iff_named_lt hr.createdAt hnow]

theorem olderThan_of_silentSince (hr : r.Timed Instant.Storable)
    (h : r.silentSince (now.ago age) = true) : r.lastSign.OlderThan age now := by
  simp only [silentSince, Bool.and_eq_true, decide_eq_true_eq] at h
  exact Stamp.olderThan_of_named_lt hr.lastSign h.2

theorem olderThan_of_overBefore (hr : r.Timed Instant.Storable)
    (h : r.overBefore (now.ago age) = true) :
    (∃ s, r.completedAt = some s ∧ s.OlderThan age now) ∨
      r.status = .pending ∧ r.createdAt.OlderThan age now := by
  simp only [overBefore, Bool.and_eq_true, Bool.or_eq_true, Option.any_eq_true, beq_iff_eq,
    decide_eq_true_eq] at h
  rcases h.2 with ⟨s, hend, hs⟩ | ⟨hstatus, hs⟩
  · exact .inl ⟨s, hend, Stamp.olderThan_of_named_lt (hr.completedAt s hend) hs⟩
  · exact .inr ⟨hstatus, Stamp.olderThan_of_named_lt hr.createdAt hs⟩

theorem silentSince_mono {age' : Nat} (h : age ≤ age') (hr : r.silentSince (now.ago age') = true) :
    r.silentSince (now.ago age) = true := by
  simp only [silentSince, Bool.and_eq_true, decide_eq_true_eq] at hr ⊢
  exact ⟨hr.1, Instant.ago_mono h hr.2⟩

theorem overBefore_mono {age' : Nat} (h : age ≤ age') (hr : r.overBefore (now.ago age') = true) :
    r.overBefore (now.ago age) = true := by
  simp only [overBefore, Bool.and_eq_true, Bool.or_eq_true, Option.any_eq_true,
    decide_eq_true_eq] at hr ⊢
  refine ⟨hr.1, ?_⟩
  rcases hr.2 with ⟨s, hend, hs⟩ | ⟨hstatus, hs⟩
  · exact .inl ⟨s, hend, Instant.ago_mono h hs⟩
  · exact .inr ⟨hstatus, Instant.ago_mono h hs⟩

end SessionRow

namespace EventRow

variable {e : EventRow} {now : Instant} {age : Nat}

def publishedBefore (t : Instant) (e : EventRow) : Bool := decide (e.createdAt.named < t)

theorem lt_eq_publishedBefore (he : e.createdAt.Taken Instant.Storable) (hnow : now.Storable)
    (age : Nat) :
    decide (e.createdAt < .ofInstant (now.plus (-age))) = e.publishedBefore (now.ago age) := by
  simp only [publishedBefore, Stamp.lt_iff_named_lt he hnow]

end EventRow

/-- The times of sessions and events lie in the years that have four digits. -/
structure Store.Dated (st : Store) : Prop where
  sessions : ∀ r ∈ st.sessions, r.Timed Instant.Storable
  events : ∀ e ∈ st.events, e.createdAt.Taken Instant.Storable

theorem Store.Dated.engine {r : Request} {s : Statement} {st : Store} (hst : st.Dated)
    (hs : s.AskedBy Instant.Storable r) : (Store.engine s st).2.Dated where
  events := hs.events_taken hst.events
  sessions := by
    intro row hrow
    rw [Statement.engine_sessions] at hrow
    rcases List.mem_append.mp hrow with hold | hnew
    · obtain ⟨before, hbefore, rfl⟩ := List.mem_map.mp hold
      exact (hst.sessions before hbefore).onSession hs
    · rw [Statement.of_mem_newSessions hnew] at hs
      obtain ⟨submission, freshId, t, _, ht, _, rfl⟩ := hs
      exact ⟨⟨t, ht, rfl⟩, by simp [Session.row, Submission.session, SessionOf.map],
        by simp [Session.row, Submission.session, SessionOf.map],
        by simp [Session.row, Submission.session, SessionOf.map],
        by simp [Session.row, Submission.session, SessionOf.map]⟩

/-- So they are in the stores that requests leave behind while the clock stays within these
years. -/
theorem Store.Reached.dated {st : Store} (h : st.Reached Instant.Storable) : st.Dated :=
  h.invariant ⟨by simp, by simp⟩ fun _ _ _ hs hst => hst.engine hs

namespace Store

variable {st : Store}

/-- Only the rows that there are matter for a guard. -/
theorem changeSessions_congr {guard guard' : SessionRow → Bool} (change : SessionRow → SessionRow)
    (h : ∀ r ∈ st.sessions, guard r = guard' r) :
    st.changeSessions guard change = st.changeSessions guard' change := by
  have hcount : st.sessions.countP guard = st.sessions.countP guard' :=
    List.countP_congr fun r hr => by rw [h r hr]
  have hchanged : changeWhere guard change st.sessions = changeWhere guard' change st.sessions :=
    List.map_congr_left fun r hr => by rw [h r hr]
  rw [changeSessions, hcount, hchanged, changeSessions]

theorem removeEvents_congr {guard guard' : EventRow → Bool}
    (h : ∀ e ∈ st.events, guard e = guard' e) : st.removeEvents guard = st.removeEvents guard' := by
  have hcount : st.events.countP guard = st.events.countP guard' :=
    List.countP_congr fun e he => by rw [h e he]
  have hkept : st.events.filter (!guard ·) = st.events.filter (!guard' ·) :=
    List.filter_congr fun e he => by rw [h e he]
  rw [removeEvents, hcount, hkept, removeEvents]

end Store

/-! ### Calls that are given an age -/

open Service

section
variable {st : Store} {now : Instant} {readings : Nat → Instant} {age : Nat}

theorem Orphans.cutoff_eq_error (h : now.OutOfReach age) (field : String) :
    cutoff now age field = .error (.validation field .outOfRange) := by
  rw [cutoff, Instant.before?_eq_none h]

theorem Orphans.cutoff_eq_ok (hnow : now.Storable) (h : ¬ now.OutOfReach age) (field : String) :
    cutoff now age field = .ok (now.plus (-age)) := by
  rw [cutoff, Instant.before?_eq_some hnow h]

/-- A call goes on from the time that lies the age before now, or it ends where there is none. -/
theorem Orphans.ends_cutoff_bind {α : Type} {clock : Instant → Prop} {es : List (Pool.Entry Store)}
    {field : String} {f : Instant → Service α} {answer : Except Failure α}
    (h : (settle (cutoff now age field) >>= f).Ends clock es answer) :
    (∃ before, now.before? age = some before ∧ (f before).Ends clock es answer) ∨
    (now.before? age = none ∧ es = [] ∧ answer = .error (.validation field .outOfRange)) := by
  cases hage : now.before? age with
  | none =>
    rw [cutoff, hage, settle_error, throw_bind, ends_throw] at h
    exact .inr ⟨rfl, h⟩
  | some before =>
    rw [cutoff, hage, settle_ok, pure_bind] at h
    exact .inl ⟨before, rfl, h⟩

theorem failsWith_validation {α : Type} (field : String) (invalid : Invalid) :
    FailsWith .validation (.error (.validation field invalid) : Except Failure α) := ⟨_, rfl, rfl⟩

theorem not_failsWith_ok {α : Type} {kind : Failure.Kind} (a : α) :
    ¬ FailsWith kind (.ok a : Except Failure α) := by
  intro h
  obtain ⟨e, he, _⟩ := h
  cases he

theorem mapM_ok {ρ α : Type} {read : ρ → Except Failure α} {f : ρ → α} {rows : List ρ}
    (h : ∀ r ∈ rows, read r = .ok (f r)) : rows.mapM read = .ok (rows.map f) := by
  induction rows with
  | nil => rfl
  | cons r rows ih =>
    rw [List.mapM_cons, h r List.mem_cons_self, ih fun r' hr' => h r' (List.mem_cons_of_mem r hr')]
    rfl

/-- The orphans are the sessions that have been silent for longer than the timeout. -/
theorem Orphans.alone_find (hst : st.Dated) (hnow : now.Storable) (hreading : readings 0 = now)
    (h : ¬ now.OutOfReach age) : ∃ sessions : List Session,
      (find age).alone readings st = (some (.ok sessions), st) ∧
      sessions.Perm
        ((st.sessions.filter (·.silentSince (now.ago age))).map (·.map Stamp.named)) := by
  have hselected : st.sessions.filter (·.isStale (.ofInstant (now.plus (-age)))) =
      st.sessions.filter (·.silentSince (now.ago age)) :=
    List.filter_congr fun r hr => SessionRow.isStale_eq (hst.sessions r hr) hnow age
  generalize hrows : (st.sessions.filter (·.silentSince (now.ago age))).mergeSort
    SessionRow.silentLonger = rows
  have hread : rows.mapM SessionRow.read = .ok (rows.map (·.map Stamp.named)) := by
    refine mapM_ok fun r hr => SessionRow.read_eq_ok ?_
    rw [← hrows, List.mem_mergeSort] at hr
    exact (hst.sessions r (List.mem_filter.mp hr).1).readable
  refine ⟨rows.map (·.map Stamp.named), ?_, ?_⟩
  · simp only [find]
    rw [alone_clock_bind, hreading, cutoff_eq_ok hnow h, settle_ok, pure_bind, ← hread, ← hrows,
      ← hselected]
    rfl
  · rw [← hrows]
    exact (List.mergeSort_perm _ _).map _

/-- The sessions that have been over for longer than the retention, and no others, are deleted. -/
theorem Retention.alone_deleteSessions (hst : st.Dated) (hnow : now.Storable)
    (hreading : readings 0 = now) {days : Nat} (hdays : days ≠ 0)
    (h : ¬ now.OutOfReach (days * nanosPerDay)) : (deleteSessions days).alone readings st =
      (some (.ok (st.changeSessions (·.overBefore (now.ago (days * nanosPerDay)))
        (SessionRow.deleted (.ofInstant now))).1),
      (st.changeSessions (·.overBefore (now.ago (days * nanosPerDay)))
        (SessionRow.deleted (.ofInstant now))).2) := by
  have hselected := Store.changeSessions_congr (SessionRow.deleted (.ofInstant now)) fun r hr =>
    SessionRow.isExpired_eq (hst.sessions r hr) hnow (days * nanosPerDay)
  have hzero : (days == 0) = false := by simpa using hdays
  simp only [deleteSessions, hzero, Bool.false_eq_true, if_false]
  rw [alone_clock_bind, hreading, Orphans.cutoff_eq_ok hnow h, settle_ok, pure_bind, ← hselected]
  rfl

/-- The events that were published longer ago than the age, and no others, are removed. -/
theorem Retention.alone_purgeEvents (hst : st.Dated) (hnow : now.Storable)
    (hreading : readings 0 = now) (h : ¬ now.OutOfReach age) :
    (purgeEvents age).alone readings st =
      (some (.ok (st.removeEvents (·.publishedBefore (now.ago age))).1),
        (st.removeEvents (·.publishedBefore (now.ago age))).2) := by
  have hselected := Store.removeEvents_congr fun e he =>
    EventRow.lt_eq_publishedBefore (hst.events e he) hnow age
  simp only [purgeEvents]
  rw [alone_clock_bind, hreading, Orphans.cutoff_eq_ok hnow h, settle_ok, pure_bind, ← hselected]
  rfl

structure Orphans.Found (st : Store) (now : Instant) (timeout : Nat)
    (answer : Except Failure (List Session)) : Prop where
  refused : FailsWith .validation answer ↔ now.OutOfReach timeout
  silent : ¬ now.OutOfReach timeout → ∃ sessions : List Session, answer = .ok sessions ∧
    sessions.Perm ((st.sessions.filter (·.silentSince (now.ago timeout))).map (·.map Stamp.named))

theorem Orphans.found (hst : st.Dated) (hnow : now.Storable) (hreading : readings 0 = now)
    (timeout : Nat) : ∃ answer, (find timeout).alone readings st = (some answer, st) ∧
      Found st now timeout answer := by
  by_cases hout : now.OutOfReach timeout
  · refine ⟨.error (.validation "timeout" .outOfRange), ?_, ?_, fun hin => absurd hout hin⟩
    · simp only [find]
      rw [alone_clock_bind, hreading, cutoff_eq_error hout]
      rfl
    · exact iff_of_true (failsWith_validation _ _) hout
  · obtain ⟨sessions, halone, hperm⟩ := alone_find hst hnow hreading hout
    exact ⟨.ok sessions, halone, iff_of_false (not_failsWith_ok _) hout,
      fun _ => ⟨sessions, rfl, hperm⟩⟩

namespace Retention

structure Marked (st : Store) (now : Instant) (days : Nat) (answer : Except Failure Nat)
    (after : Store) : Prop where
  refused : FailsWith .validation answer ↔ days = 0 ∨ now.OutOfReach (days * nanosPerDay)
  unchanged : FailsWith .validation answer → after = st
  counted : days ≠ 0 → ¬ now.OutOfReach (days * nanosPerDay) →
    answer = .ok (st.sessions.countP (·.overBefore (now.ago (days * nanosPerDay))))
  deletedAt : days ≠ 0 → ¬ now.OutOfReach (days * nanosPerDay) → after =
    { st with sessions := st.sessions.map fun r =>
        if r.overBefore (now.ago (days * nanosPerDay)) then
          { r with deletedAt := some (.ofInstant now) }
        else r }

theorem marked (hst : st.Dated) (hnow : now.Storable) (hreading : readings 0 = now) (days : Nat) :
    ∃ answer after, (deleteSessions days).alone readings st = (some answer, after) ∧
      Marked st now days answer after := by
  by_cases hdays : days = 0
  · subst hdays
    exact ⟨.error (.validation "retention_days" .notPositive), st, rfl,
      iff_of_true (failsWith_validation _ _) (.inl rfl), fun _ => rfl, fun hne => absurd rfl hne,
      fun hne => absurd rfl hne⟩
  · by_cases hout : now.OutOfReach (days * nanosPerDay)
    · refine ⟨.error (.validation "retention_days" .outOfRange), st, ?_,
        iff_of_true (failsWith_validation _ _) (.inr hout), fun _ => rfl,
        fun _ hin => absurd hout hin, fun _ hin => absurd hout hin⟩
      have hzero : (days == 0) = false := by simpa using hdays
      simp only [deleteSessions, hzero, Bool.false_eq_true, if_false]
      rw [alone_clock_bind, hreading, Orphans.cutoff_eq_error hout]
      rfl
    · exact ⟨_, _, alone_deleteSessions hst hnow hreading hdays hout,
        iff_of_false (not_failsWith_ok _) (not_or.mpr ⟨hdays, hout⟩),
        fun hfails => absurd hfails (not_failsWith_ok _), fun _ _ => rfl, fun _ _ => rfl⟩

structure Purged (st : Store) (now : Instant) (age : Nat) (answer : Except Failure Nat)
    (after : Store) : Prop where
  refused : FailsWith .validation answer ↔ now.OutOfReach age
  unchanged : FailsWith .validation answer → after = st
  counted : ¬ now.OutOfReach age →
    answer = .ok (st.events.countP (·.publishedBefore (now.ago age)))
  kept : ¬ now.OutOfReach age →
    after = { st with events := st.events.filter (!·.publishedBefore (now.ago age)) }

theorem purged (hst : st.Dated) (hnow : now.Storable) (hreading : readings 0 = now) (age : Nat) :
    ∃ answer after, (purgeEvents age).alone readings st = (some answer, after) ∧
      Purged st now age answer after := by
  by_cases hout : now.OutOfReach age
  · refine ⟨.error (.validation "ttl" .outOfRange), st, ?_,
      iff_of_true (failsWith_validation _ _) hout, fun _ => rfl, fun hin => absurd hout hin,
      fun hin => absurd hout hin⟩
    simp only [purgeEvents]
    rw [alone_clock_bind, hreading, Orphans.cutoff_eq_error hout]
    rfl
  · exact ⟨_, _, alone_purgeEvents hst hnow hreading hout, iff_of_false (not_failsWith_ok _) hout,
      fun hfails => absurd hfails (not_failsWith_ok _), fun _ => rfl, fun _ => rfl⟩

end Retention

/-- What calls that are given an age select, how old it is, and what they select for a larger
age. -/
structure Store.SelectedByAge (st : Store) (now : Instant) (readings : Nat → Instant) : Prop where
  find : ∀ timeout, ∃ answer, (Orphans.find timeout).alone readings st = (some answer, st) ∧
    Orphans.Found st now timeout answer
  deleteSessions : ∀ days, ∃ answer after,
    (Retention.deleteSessions days).alone readings st = (some answer, after) ∧
    Retention.Marked st now days answer after
  purgeEvents : ∀ age, ∃ answer after,
    (Retention.purgeEvents age).alone readings st = (some answer, after) ∧
    Retention.Purged st now age answer after
  silent : ∀ age, ∀ r ∈ st.sessions, r.silentSince (now.ago age) = true →
    r.lastSign.OlderThan age now
  expired : ∀ age, ∀ r ∈ st.sessions, r.overBefore (now.ago age) = true →
    (∃ s, r.completedAt = some s ∧ s.OlderThan age now) ∨
      r.status = .pending ∧ r.createdAt.OlderThan age now
  published : ∀ age, ∀ e ∈ st.events, e.publishedBefore (now.ago age) = true →
    e.createdAt.OlderThan age now
  silent_mono : ∀ age age', age ≤ age' → ∀ r : SessionRow,
    r.silentSince (now.ago age') = true → r.silentSince (now.ago age) = true
  expired_mono : ∀ age age', age ≤ age' → ∀ r : SessionRow,
    r.overBefore (now.ago age') = true → r.overBefore (now.ago age) = true
  published_mono : ∀ age age', age ≤ age' → ∀ e : EventRow,
    e.publishedBefore (now.ago age') = true → e.publishedBefore (now.ago age) = true

/-- Where times lie in the years that have four digits, a call that is given an age answers that the
age is out of range exactly when it is; and otherwise it selects, of its kind, the rows whose times
to the microsecond come before the time that lies the age before now. So whatever is selected is
older than the age, and is selected for every smaller age as well. -/
theorem ages_chronological (hst : st.Dated) (hnow : now.Storable) (hreading : readings 0 = now) :
    st.SelectedByAge now readings where
  find := Orphans.found hst hnow hreading
  deleteSessions := Retention.marked hst hnow hreading
  purgeEvents := Retention.purged hst hnow hreading
  silent _ r hr := SessionRow.olderThan_of_silentSince (hst.sessions r hr)
  expired _ r hr := SessionRow.olderThan_of_overBefore (hst.sessions r hr)
  published _ e he h := Stamp.olderThan_of_named_lt (hst.events e he) (of_decide_eq_true h)
  silent_mono _ _ hle _ := SessionRow.silentSince_mono hle
  expired_mono _ _ hle _ := SessionRow.overBefore_mono hle
  published_mono _ _ hle _ h := decide_eq_true (Instant.ago_mono hle (of_decide_eq_true h))

def twoDaysOn : Nat → Instant := fun _ => ⟨2 * Instant.perDay⟩

/-- The alert still waits. It is not kept for longer than a day, it is kept for three thousand
years, and no time at all is no retention. -/
theorem waiting_session_expires :
    (∃ after, (Retention.deleteSessions 1).alone twoDaysOn (OneExecution.store .active) =
      (some (.ok 1), after)) ∧
    (∃ after, (Retention.deleteSessions 1095750).alone twoDaysOn (OneExecution.store .active) =
      (some (.ok 0), after)) ∧
    ∃ answer after, (Retention.deleteSessions 0).alone twoDaysOn (OneExecution.store .active) =
      (some answer, after) ∧ FailsWith .validation answer := by
  have hreached : (OneExecution.store .active).Reached Instant.Storable :=
    OneExecution.reached_store .active (by decide)
  have hnow : (twoDaysOn 0).Storable := by decide
  have hages := (ages_chronological hreached.dated hnow rfl).deleteSessions
  have hday : (OneExecution.store .active).sessions.countP
      (·.overBefore ((twoDaysOn 0).ago (1 * Retention.nanosPerDay))) = 1 := by decide +kernel
  have hlong : (OneExecution.store .active).sessions.countP
      (·.overBefore ((twoDaysOn 0).ago (1095750 * Retention.nanosPerDay))) = 0 := by decide +kernel
  refine ⟨?_, ?_, ?_⟩
  · obtain ⟨answer, after, halone, hmarked⟩ := hages 1
    rw [hmarked.counted (by decide) (by decide), hday] at halone
    exact ⟨after, halone⟩
  · obtain ⟨answer, after, halone, hmarked⟩ := hages 1095750
    rw [hmarked.counted (by decide) (by decide), hlong] at halone
    exact ⟨after, halone⟩
  · obtain ⟨answer, after, halone, hmarked⟩ := hages 0
    exact ⟨answer, after, halone, hmarked.refused.mpr (.inl rfl)⟩

end
end AlertDesk
