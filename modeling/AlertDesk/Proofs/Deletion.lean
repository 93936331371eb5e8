import AlertDesk.Proofs.Ownership

/-!
Sessions under the retention sweep. A sweep deletes sessions that ended long ago, and sessions that
were handed in long ago and wait: a session that a worker had and gave back is one of these. A
deleted session is out of use. It waits or has ended, and no statement changes it any more.
-/
namespace AlertDesk

/-- The row is what has become of a submission, and a worker has it only while it is not deleted. -/
structure SessionRow.Kept (r : SessionRow) : Prop where
  follows : ∃ filed : SessionRow, filed.status = .pending ∧ filed.Untouched ∧ filed.Follows r
  undeleted : r.isLive = true → r.deletedAt = none

namespace SessionRow

variable {clock : Instant → Prop} {request : Request} {s : Statement} {r : SessionRow}

theorem deletedAt_of_isClaimable (h : r.isClaimable = true) : r.deletedAt = none := by
  simp only [isClaimable, Bool.and_eq_true, Option.isNone_iff_eq_none] at h
  exact h.2

theorem deletedAt_of_isExpired {cutoff : Stamp} (h : r.isExpired cutoff = true) :
    r.deletedAt = none := by
  simp only [isExpired, Bool.and_eq_true, Option.isNone_iff_eq_none] at h
  exact h.1

theorem pending_or_terminal_of_not_live (h : r.isLive = false) :
    r.status = .pending ∨ r.status.isTerminal = true := by
  rw [isLive] at h
  cases hstatus : r.status <;> simp [hstatus, SessionStatus.isLive, SessionStatus.isTerminal] at h ⊢

theorem Kept.isTerminal_of_completedAt (h : r.Kept) (hdone : r.completedAt.isSome = true) :
    r.status.isTerminal = true := by
  obtain ⟨_, _, _, hfollows⟩ := h.follows
  exact hfollows.terminal.mpr hdone

/-- A session that a sweep may delete is in nobody's hands. -/
theorem Kept.not_live_of_isExpired (h : r.Kept) {cutoff : Stamp} (hr : r.isExpired cutoff = true) :
    r.isLive = false := by
  simp only [isExpired, Bool.and_eq_true, Bool.or_eq_true, beq_iff_eq] at hr
  rcases hr.2 with hdone | ⟨hpending, _⟩
  · have hterminal := h.isTerminal_of_completedAt (Option.isSome_of_any hdone)
    rw [isLive]
    cases hstatus : r.status <;>
      simp [hstatus, SessionStatus.isLive, SessionStatus.isTerminal] at hterminal ⊢
  · rw [isLive, hpending]
    rfl

theorem Kept.onSession (hs : s.AskedBy clock request) (h : r.Kept) : (s.onSession r).Kept where
  follows := by
    obtain ⟨filed, hfiled, hfresh, hfollows⟩ := h.follows
    exact ⟨filed, hfiled, hfresh, hfollows.onSession hs hfiled hfresh⟩
  undeleted := by
    apply Statement.onSession_keeps
      (P := fun after => after.isLive = true → after.deletedAt = none) h.undeleted
    intro after hwrites hlive
    cases hwrites with
    | claim id worker now hr =>
      have hnone := deletedAt_of_isClaimable hr
      exact hnone
    | touch id now hr => exact h.undeleted hr
    | advance id stageIndex stageId now hr => exact h.undeleted (isLive_of_isInProgress hr)
    | finish id outcome now hr => exact h.undeleted hr
    | cancel id hr => exact h.undeleted (isLive_of_isInProgress hr)
    | abandon id podId lastSeen now hr =>
      exact h.undeleted (isLive_of_isInProgress (isInProgress_of_isAsSeen hr))
    | requeue id podId lastSeen hr =>
      exact h.undeleted (isLive_of_isInProgress (isInProgress_of_isAsSeen hr))
    | delete cutoff now hr =>
      have hrest := h.not_live_of_isExpired hr
      exact absurd hlive (Bool.eq_false_iff.mp hrest)

/-- What a sweep deletes has ended before the cutoff, unless it waits since before the cutoff. -/
theorem Kept.ended_of_isExpired_iff (h : r.Kept) (cutoff : Stamp) :
    (r.isExpired cutoff = true →
      r.status.isTerminal = true ∧ ∃ t, r.completedAt = some t ∧ t < cutoff) ↔
      ¬ (r.status = .pending ∧ r.deletedAt = none ∧ r.createdAt < cutoff) := by
  constructor
  · intro hended hwaits
    obtain ⟨hpending, hthere, hold⟩ := hwaits
    have hexpired : r.isExpired cutoff = true := by simp [isExpired, hpending, hthere, hold]
    have hterminal := (hended hexpired).1
    rw [hpending] at hterminal
    cases hterminal
  · intro hwaits hexpired
    have hthere := deletedAt_of_isExpired hexpired
    simp only [isExpired, Bool.and_eq_true, Bool.or_eq_true, beq_iff_eq, decide_eq_true_eq,
      Option.any_eq_true] at hexpired
    rcases hexpired.2 with ⟨t, ht, hlt⟩ | ⟨hpending, hold⟩
    · exact ⟨h.isTerminal_of_completedAt (Option.isSome_iff_exists.mpr ⟨t, ht⟩), t, ht, hlt⟩
    · exact absurd ⟨hpending, hthere, hold⟩ hwaits

/-- A sweep changes just the sessions that it deletes. -/
theorem onSession_deleteExpired_ne_iff {cutoff now : Stamp} :
    (Statement.deleteExpired cutoff now).onSession r ≠ r ↔ r.isExpired cutoff = true := by
  by_cases hexpired : r.isExpired cutoff = true
  · have hafter : (Statement.deleteExpired cutoff now).onSession r = r.deleted now :=
      if_pos hexpired
    refine iff_of_true (fun hsame => ?_) hexpired
    have hdeleted : some now = r.deletedAt := congrArg SessionOf.deletedAt (hafter.symm.trans hsame)
    rw [deletedAt_of_isExpired hexpired] at hdeleted
    cases hdeleted
  · exact iff_of_false (fun hchanged => hchanged (if_neg hexpired)) hexpired

/-- Each guard asks for a session that is in someone's hands or not deleted. -/
theorem onSession_of_deleted (hdeleted : r.isDeleted = true) (hrest : r.isLive = false)
    (s : Statement) : s.onSession r = r := by
  have hthere : r.deletedAt ≠ none := Option.isSome_iff_ne_none.mp hdeleted
  have hrest : ¬ r.isLive = true := Bool.eq_false_iff.mp hrest
  apply Statement.onSession_keeps (P := fun after => after = r) rfl
  intro after hwrites
  cases hwrites with
  | claim id worker now hr => exact absurd (deletedAt_of_isClaimable hr) hthere
  | touch id now hr => exact absurd hr hrest
  | advance id stageIndex stageId now hr => exact absurd (isLive_of_isInProgress hr) hrest
  | finish id outcome now hr => exact absurd hr hrest
  | cancel id hr => exact absurd (isLive_of_isInProgress hr) hrest
  | abandon id podId lastSeen now hr =>
    exact absurd (isLive_of_isInProgress (isInProgress_of_isAsSeen hr)) hrest
  | requeue id podId lastSeen hr =>
    exact absurd (isLive_of_isInProgress (isInProgress_of_isAsSeen hr)) hrest
  | delete cutoff now hr => exact absurd (deletedAt_of_isExpired hr) hthere

end SessionRow

def Store.KeepsSessions (st : Store) : Prop := ∀ r ∈ st.sessions, r.Kept

theorem Store.KeepsSessions.engine {clock : Instant → Prop} {request : Request} {st : Store}
    {s : Statement} (h : st.KeepsSessions) (hs : s.AskedBy clock request) :
    (Store.engine s st).2.KeepsSessions := by
  intro r hr
  rw [Statement.engine_sessions] at hr
  rcases List.mem_append.mp hr with hold | hnew
  · obtain ⟨before, hbefore, rfl⟩ := List.mem_map.mp hold
    exact (h before hbefore).onSession hs
  · rw [Statement.of_mem_newSessions hnew] at hs
    obtain ⟨submission, freshId, now, _, _, _, rfl⟩ := hs
    have hfresh : SessionRow.Untouched (submission.session freshId now).row :=
      ⟨rfl, rfl, rfl, rfl, rfl, rfl, rfl, rfl, rfl⟩
    exact ⟨⟨_, rfl, hfresh, .refl rfl hfresh⟩, fun _ => rfl⟩

theorem Store.Reached.keepsSessions {clock : Instant → Prop} {st : Store} (h : st.Reached clock) :
    st.KeepsSessions :=
  h.invariant (I := Store.KeepsSessions) (by simp [Store.KeepsSessions])
    fun _ _ _ hs hst => hst.engine hs

/-! ### One session and one sweep -/

namespace OneSession

def late : Instant := ⟨100 * Retention.nanosPerDay⟩

def rivals : List Request := [.submit submission "", .claim "a", .deleteSessions 90]

def sweptFirst : List (Nat × Instant) :=
  List.replicate 9 (0, ⟨0⟩) ++ [(1, late)] ++ List.replicate 3 (2, late)

/-- The session is claimed, this comes of it, and in the end there is a sweep. -/
def sweptAfter (next : Request) : List Request :=
  [.submit submission "", .claim "a", next, .deleteSessions 90]

def sweptLate : List (Nat × Instant) :=
  (List.range 3).flatMap (fun i => List.replicate 9 (i, ⟨0⟩)) ++ List.replicate 3 (3, late)

def entries (next : Request) : List (Pool.Entry Store) :=
  Pool.log Store.engine sweptLate (Request.pool (sweptAfter next)) {}

def cutoff : Stamp := .ofInstant ⟨10 * Retention.nanosPerDay⟩

def isSweptWith (next : Request) (status : SessionStatus) : Bool :=
  (entries next).getLast?.any fun e =>
    e.statement == .deleteExpired cutoff (.ofInstant late) &&
      (e.before.session? "s").any fun r =>
        r.status == status && (Store.engine e.statement e.before).2.session? "s" != some r

theorem of_isSweptWith (next : Request) (status : SessionStatus)
    (h : isSweptWith next status = true) :
    ∃ (e : Pool.Entry Store) (r : SessionRow), entries next = (entries next).dropLast ++ e :: [] ∧
      e.statement = .deleteExpired cutoff (.ofInstant late) ∧ e.before.session? "s" = some r ∧
      r.status = status ∧ (Store.engine e.statement e.before).2.session? "s" ≠ some r := by
  obtain ⟨e, he, h⟩ := (Option.any_eq_true _ _).mp h
  obtain ⟨first, hlog⟩ := List.getLast?_eq_some_iff.mp he
  simp only [Bool.and_eq_true, beq_iff_eq, bne_iff_ne, Option.any_eq_true] at h
  obtain ⟨hstatement, r, hr, hstatus, hafter⟩ := h
  refine ⟨e, r, ?_, hstatement, hr, hstatus, hafter⟩
  rw [hlog, List.dropLast_concat]

end OneSession

namespace Pool

/-- Whatever requests do at whatever times, and however far their calls have come: a session that
is deleted waits or has ended, and stays as it is. -/
theorem deleted_sessions_rest (requests : List Request) (first rest : List (Nat × Instant)) :
    ∀ r ∈ (run Store.engine first (Request.pool requests) ({} : Store)).2.sessions,
      r.isDeleted = true →
        (r.status = .pending ∨ r.status.isTerminal = true) ∧
        (run Store.engine (first ++ rest) (Request.pool requests) ({} : Store)).2.session? r.id =
          some r := by
  intro r hr hdeleted
  have hreached : Store.Reached (fun _ => True)
      (run Store.engine first (Request.pool requests) ({} : Store)).2 :=
    ⟨requests, first, fun _ _ => trivial, rfl⟩
  have hrest : r.isLive = false := by
    rw [Bool.eq_false_iff]
    intro hlive
    have hnone := (hreached.keepsSessions r hr).undeleted hlive
    rw [SessionOf.isDeleted, hnone] at hdeleted
    cases hdeleted
  refine ⟨SessionRow.pending_or_terminal_of_not_live hrest, ?_⟩
  rw [run_append]
  have hasks : Pool.Asks (fun _ _ => True) _
      (run Store.engine first (Request.pool requests) ({} : Store)).1 :=
    asks_run first _ _ (fun _ _ => trivial) (Request.pool_asks requests fun _ _ => True)
  refine run_keeps rest _ _ (fun _ _ => trivial) hasks
    (I := fun _ (st : Store) => st.session? r.id = some r)
    (Store.session?_of_mem hreached.keyed hr) ?_
  intro _ _ s st _ hst
  rw [Store.session?_engine_of_some s hst, SessionRow.onSession_of_deleted hdeleted hrest]

section
open OneSession

/-- A worker has chosen a session, a sweep deletes it, and the claim that follows leaves it
alone. -/
theorem deleted_candidate_rests : ∃ r : SessionRow, r.deletedAt = some (.ofInstant late) ∧
    (∃ e ∈ log Store.engine (sweptFirst ++ List.replicate 9 (1, late)) (Request.pool rivals) {},
      e.statement = .claimSession r.id "a" (.ofInstant late)) ∧
    (run Store.engine (sweptFirst ++ List.replicate 9 (1, late))
      (Request.pool rivals) {}).2.session? r.id = some r := by
  have hdeleted : ((run Store.engine sweptFirst (Request.pool rivals) {}).2.sessions.any fun r =>
      r.deletedAt == some (.ofInstant late) &&
        (log Store.engine (sweptFirst ++ List.replicate 9 (1, late)) (Request.pool rivals) {}).any
          fun e => e.statement == .claimSession r.id "a" (.ofInstant late)) = true := by
    decide +kernel
  obtain ⟨r, hr, hboth⟩ := List.any_eq_true.mp hdeleted
  rw [Bool.and_eq_true, beq_iff_eq, List.any_eq_true] at hboth
  obtain ⟨hthere, e, he, hclaim⟩ := hboth
  have hrests := deleted_sessions_rest rivals sweptFirst (List.replicate 9 (1, late)) r hr
    (by rw [SessionOf.isDeleted, hthere]; rfl)
  exact ⟨r, hthere, ⟨e, he, beq_iff_eq.mp hclaim⟩, hrests.2⟩

end

theorem keepsSessions_before (requests : List Request) (schedule : List (Nat × Instant))
    {first rest : List (Entry Store)} {e : Entry Store}
    (hlog : log Store.engine schedule (Request.pool requests) {} = first ++ e :: rest) :
    e.before.KeepsSessions := by
  have hbefore := run_keeps_before schedule (Request.pool requests) ({} : Store)
    (fun _ _ => trivial) (Request.pool_asks requests fun _ _ => True)
    (I := fun _ st => Store.KeepsSessions st) (by simp [Store.KeepsSessions])
    (fun _ _ _ _ hasked h => by
      obtain ⟨_, _, hs⟩ := hasked
      exact h.engine hs) hlog
  exact hbefore.1

/-- A sweep deletes a session only if it has ended before the cutoff, and leaves a session as it is
that can be claimed, unless the session was requeued as often as it was claimed and was handed in
before the cutoff. -/
theorem sweep_spares_iff (requests : List Request) (schedule : List (Nat × Instant))
    {first rest : List (Entry Store)} {e : Entry Store}
    (hlog : log Store.engine schedule (Request.pool requests) {} = first ++ e :: rest)
    {cutoff now : Stamp} (hsweep : e.statement = .deleteExpired cutoff now) {id : String}
    {r : SessionRow} (hr : e.before.session? id = some r) :
    let after := (Store.engine e.statement e.before).2.session? id
    (∃ days t before, 0 < days ∧ now = .ofInstant t ∧
      t.before? (days * Retention.nanosPerDay) = some before ∧ cutoff = .ofInstant before ∧
      (requests[e.caller]? = some (.deleteSessions days) ∨
        ∃ age, requests[e.caller]? = some (.sweep ⟨days, age⟩))) ∧
    (((after ≠ some r → r.status.isTerminal = true ∧ ∃ t, r.completedAt = some t ∧ t < cutoff) ∧
        (r.isClaimable = true → after = some r)) ↔
      ¬ (first.countP (·.claims id) = first.countP (·.requeues id) ∧
        r.deletedAt = none ∧ r.createdAt < cutoff)) := by
  intro after
  obtain ⟨hbalanced, request, hrequest, hs⟩ := balanced_before requests schedule hlog
  have hkept : r.Kept :=
    keepsSessions_before requests schedule hlog r (Store.session?_some hr).1
  have hwaits : r.status = .pending ↔
      first.countP (·.claims id) = first.countP (·.requeues id) := by
    have hbalance := hbalanced.balance id
    simp only [Store.inHand, hr, Option.elim_some, SessionRow.inHand] at hbalance
    split at hbalance
    · next hpending => exact iff_of_true hpending hbalance
    · next hpending => exact iff_of_false hpending (by omega)
  have hchanged : after ≠ some r ↔ r.isExpired cutoff = true := by
    have hafter : after = some (e.statement.onSession r) :=
      Store.session?_engine_of_some e.statement hr
    rw [hafter, hsweep, Ne, Option.some.injEq]
    exact SessionRow.onSession_deleteExpired_ne_iff
  have hended := hkept.ended_of_isExpired_iff cutoff
  rw [hwaits, ← hchanged] at hended
  refine ⟨?_, ?_⟩
  · rw [hsweep] at hs
    obtain ⟨days, t, before, _, hnow, hdays, hbefore, hcutoff, hcaller⟩ := hs
    refine ⟨days, t, before, hdays, hnow, hbefore, hcutoff, ?_⟩
    rcases hcaller with rfl | ⟨age, rfl⟩
    · exact .inl hrequest
    · exact .inr ⟨age, hrequest⟩
  · rw [← hended]
    refine and_iff_left_of_imp fun hspares hclaimable => ?_
    by_contra hafter
    have hterminal := (hspares hafter).1
    rw [SessionRow.status_of_isClaimable hclaimable] at hterminal
    cases hterminal

section
open OneSession

/-- A session that its worker has completed is deleted, and it has ended in time. -/
theorem completed_session_swept : ∃ (e : Entry Store) (r : SessionRow) (t : Stamp),
    (entries (.finish "s" (.ofStatus .completed))).getLast? = some e ∧
    e.before.session? "s" = some r ∧
    (Store.engine e.statement e.before).2.session? "s" ≠ some r ∧
    r.completedAt = some t ∧ t < cutoff := by
  obtain ⟨e, r, hlog, hsweep, hr, _, hafter⟩ :=
    of_isSweptWith (.finish "s" (.ofStatus .completed)) .completed (by decide +kernel)
  have hheld : (entries (.finish "s" (.ofStatus .completed))).dropLast.countP (·.claims "s") ≠
      (entries (.finish "s" (.ofStatus .completed))).dropLast.countP (·.requeues "s") := by
    decide +kernel
  have hspares := (sweep_spares_iff _ _ hlog hsweep hr).2.mpr fun h => hheld h.1
  obtain ⟨_, t, ht, hlt⟩ := hspares.1 hafter
  refine ⟨e, r, t, ?_, hr, hafter, ht, hlt⟩
  rw [hlog, List.getLast?_concat]

/-- A session that its worker gave back is deleted while it waits to be claimed again. -/
theorem requeued_session_swept :
    ¬ ∀ (requests : List Request) (schedule : List (Nat × Instant))
      (first rest : List (Entry Store))
      (e : Entry Store) (cutoff now : Stamp) (id : String) (r : SessionRow),
      log Store.engine schedule (Request.pool requests) {} = first ++ e :: rest →
      e.statement = .deleteExpired cutoff now → e.before.session? id = some r →
      0 < first.countP (·.claims id) → (Store.engine e.statement e.before).2.session? id ≠ some r →
        r.status.isTerminal = true ∧ ∃ t, r.completedAt = some t ∧ t < cutoff := by
  intro hclaim
  obtain ⟨e, r, hlog, hsweep, hr, hpending, hafter⟩ :=
    of_isSweptWith (.recover observed .requeue) .pending (by decide +kernel)
  have hclaimed : 0 < (entries (.recover observed .requeue)).dropLast.countP (·.claims "s") := by
    decide +kernel
  have hended := hclaim _ _ _ [] e cutoff _ "s" r hlog hsweep hr hclaimed hafter
  rw [hpending] at hended
  cases hended.1

end
end Pool
end AlertDesk
