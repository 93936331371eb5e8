import AlertDesk.Proofs.Soundness

/-!
The life of a session. Each session was handed in by some request; while it waits it looks as it
did then, also after it has been put back into the queue; what its other columns hold follows from
its status; and its status changes only along the stages of its life.
-/
namespace AlertDesk

inductive SessionStatus.Change : SessionStatus → SessionStatus → Prop
  | claim : Change .pending .inProgress
  | requeue : Change .inProgress .pending
  | cancel : Change .inProgress .cancelling
  | finish (live ended : SessionStatus) (hlive : live.isLive = true)
      (hended : ended.isTerminal = true) : Change live ended

namespace SessionRow

def handedIn (r : SessionRow) : String × String × String × String × Option String × Stamp :=
  (r.id, r.alertData, r.alertType, r.chainId, r.author, r.createdAt)

structure Untouched (r : SessionRow) : Prop where
  podId : r.podId = none
  startedAt : r.startedAt = none
  lastInteractionAt : r.lastInteractionAt = none
  completedAt : r.completedAt = none
  currentStageIndex : r.currentStageIndex = none
  currentStageId : r.currentStageId = none
  finalAnalysis : r.finalAnalysis = none
  executiveSummary : r.executiveSummary = none
  errorMessage : r.errorMessage = none

structure Owned (r : SessionRow) : Prop where
  podId : r.podId.isSome = true
  startedAt : r.startedAt.isSome = true
  lastInteractionAt : r.lastInteractionAt.isSome = true
  completedAt : r.completedAt = none
  finalAnalysis : r.finalAnalysis = none
  executiveSummary : r.executiveSummary = none
  errorMessage : r.errorMessage = none

/-- The row is what has become of the one that was filed. -/
structure Follows (filed r : SessionRow) : Prop where
  handedIn : r.handedIn = filed.handedIn
  pending : r.status = .pending → r = { filed with deletedAt := r.deletedAt } ∧ r.Untouched
  live : r.status.isLive = true → r.Owned
  terminal : r.status.isTerminal = true ↔ r.completedAt.isSome = true

theorem handedIn_onSession (s : Statement) (r : SessionRow) :
    (s.onSession r).handedIn = r.handedIn := by
  apply Statement.onSession_keeps (P := fun after => after.handedIn = r.handedIn) rfl
  intro after hwrites
  cases hwrites <;> rfl

/-! ### What each change leaves of the row -/

section
variable {filed r : SessionRow}

theorem status_of_isInProgress (h : r.isInProgress = true) : r.status = .inProgress := by
  simpa [isInProgress] using h

theorem isLive_of_isInProgress (h : r.isInProgress = true) : r.isLive = true := by
  simp [isLive, status_of_isInProgress h, SessionStatus.isLive]

theorem isInProgress_of_isAsSeen {podId : Option String} {lastSeen : Option Stamp}
    (h : r.isAsSeen podId lastSeen = true) : r.isInProgress = true := by
  simp only [isAsSeen, Bool.and_eq_true] at h
  exact h.1.1

theorem status_of_isClaimable (h : r.isClaimable = true) : r.status = .pending := by
  simp only [isClaimable, Bool.and_eq_true, beq_iff_eq] at h
  exact h.1

theorem Follows.claimed (h : filed.Follows r) (hr : r.isClaimable = true) (worker : String)
    (now : Stamp) : filed.Follows (r.claimed worker now) where
  handedIn := h.handedIn
  pending hstatus := by cases hstatus
  live _ := by
    obtain ⟨_, hfresh⟩ := h.pending (status_of_isClaimable hr)
    exact ⟨rfl, rfl, rfl, hfresh.completedAt, hfresh.finalAnalysis, hfresh.executiveSummary,
      hfresh.errorMessage⟩
  terminal := by
    obtain ⟨_, hfresh⟩ := h.pending (status_of_isClaimable hr)
    simp [SessionRow.claimed, SessionStatus.isTerminal, hfresh.completedAt]

/-- A live row that stays live keeps following, as long as it keeps its owner and gets no result. -/
theorem Follows.of_live (h : filed.Follows r) (hr : r.isLive = true) {after : SessionRow}
    (hlive : after.isLive = true) (hsame : after.handedIn = r.handedIn)
    (howned : r.Owned → after.Owned) : filed.Follows after where
  handedIn := hsame.trans h.handedIn
  pending hstatus := by simp [isLive, hstatus, SessionStatus.isLive] at hlive
  live _ := howned (h.live hr)
  terminal := by
    have hopen : after.status.isTerminal = false := by
      simp only [isLive] at hlive
      cases hstatus : after.status <;>
        simp [hstatus, SessionStatus.isLive, SessionStatus.isTerminal] at hlive ⊢
    simp [hopen, (howned (h.live hr)).completedAt]

theorem Follows.touched (h : filed.Follows r) (hr : r.isLive = true) (now : Stamp) :
    filed.Follows (r.touched now) :=
  h.of_live hr hr rfl fun howned => { howned with lastInteractionAt := rfl }

theorem Follows.advanced (h : filed.Follows r) (hr : r.isLive = true) (stageIndex : Int)
    (stageId : String) (now : Stamp) : filed.Follows (r.advanced stageIndex stageId now) :=
  h.of_live hr hr rfl fun howned => { howned with lastInteractionAt := rfl }

theorem Follows.cancelling (h : filed.Follows r) (hr : r.isLive = true) :
    filed.Follows r.cancelling :=
  h.of_live hr rfl rfl fun howned => { howned with }

theorem Follows.ended (h : filed.Follows r) {outcome : Outcome}
    (houtcome : outcome.status.isTerminal = true) (now : Stamp) :
    filed.Follows (r.ended outcome now) where
  handedIn := h.handedIn
  pending hstatus := by
    have hpending : outcome.status = .pending := hstatus
    simp [hpending, SessionStatus.isTerminal] at houtcome
  live hlive := by
    change outcome.status.isLive = true at hlive
    cases hstatus : outcome.status <;>
      simp [hstatus, SessionStatus.isTerminal, SessionStatus.isLive] at houtcome hlive
  terminal := by simp [SessionRow.ended, houtcome]

theorem Follows.abandoned (h : filed.Follows r) (now : Stamp) :
    filed.Follows (r.abandoned now) where
  handedIn := h.handedIn
  pending hstatus := by cases hstatus
  live hlive := by cases hlive
  terminal := by simp [SessionRow.abandoned, SessionStatus.isTerminal]

/-- What was never written since the session was handed in is as it was, and the rest is unset
again. -/
theorem Follows.requeued (h : filed.Follows r) (hfiled : filed.status = .pending)
    (hfresh : filed.Untouched) (hr : r.isLive = true) : filed.Follows r.requeued where
  handedIn := h.handedIn
  pending _ := by
    have howned := h.live hr
    have hsame := h.handedIn
    simp only [SessionRow.handedIn, Prod.mk.injEq] at hsame
    obtain ⟨hid, hdata, htype, hchain, hauthor, hcreated⟩ := hsame
    refine ⟨?_, rfl, rfl, rfl, howned.completedAt, rfl, rfl, howned.finalAnalysis,
      howned.executiveSummary, howned.errorMessage⟩
    simp only [SessionRow.requeued, SessionOf.mk.injEq]
    exact ⟨hid, hdata, htype, hchain, hfiled.symm, hauthor, hfresh.podId.symm, hcreated,
      hfresh.startedAt.symm, hfresh.lastInteractionAt.symm,
      howned.completedAt.trans hfresh.completedAt.symm, hfresh.currentStageIndex.symm,
      hfresh.currentStageId.symm, trivial, howned.finalAnalysis.trans hfresh.finalAnalysis.symm,
      howned.executiveSummary.trans hfresh.executiveSummary.symm,
      howned.errorMessage.trans hfresh.errorMessage.symm⟩
  live hlive := by cases hlive
  terminal := by
    simp [SessionRow.requeued, SessionStatus.isTerminal, (h.live hr).completedAt]

theorem Follows.deleted (h : filed.Follows r) (now : Stamp) : filed.Follows (r.deleted now) where
  handedIn := h.handedIn
  pending hstatus := by
    obtain ⟨heq, hfresh⟩ := h.pending hstatus
    refine ⟨?_, { hfresh with }⟩
    rw [heq]
    rfl
  live hlive := { h.live hlive with }
  terminal := h.terminal

/-- A row that has just been filed. -/
theorem Follows.refl (hfiled : filed.status = .pending) (hfresh : filed.Untouched) :
    filed.Follows filed where
  handedIn := rfl
  pending _ := ⟨rfl, hfresh⟩
  live hlive := by simp [hfiled, SessionStatus.isLive] at hlive
  terminal := by simp [hfiled, SessionStatus.isTerminal, hfresh.completedAt]

/-- Every statement of a request leaves a row that follows the same one. -/
theorem Follows.onSession {clock : Instant → Prop} {request : Request} {s : Statement}
    (hs : s.AskedBy clock request) (hfiled : filed.status = .pending) (hfresh : filed.Untouched)
    (h : filed.Follows r) : filed.Follows (s.onSession r) := by
  apply Statement.onSession_keeps h
  intro after hwrites
  cases hwrites with
  | claim id worker now hr => exact h.claimed hr worker now
  | touch id now hr => exact h.touched hr now
  | advance id stageIndex stageId now hr =>
    exact h.advanced (isLive_of_isInProgress hr) stageIndex stageId now
  | finish id outcome now hr => exact h.ended hs.2.1 now
  | cancel id hr => exact h.cancelling (isLive_of_isInProgress hr)
  | abandon id podId lastSeen now hr => exact h.abandoned now
  | requeue id podId lastSeen hr =>
    exact h.requeued hfiled hfresh (isLive_of_isInProgress (isInProgress_of_isAsSeen hr))
  | delete cutoff now hr => exact h.deleted now

/-- Every statement of a request leaves the status as it is or moves it on. -/
theorem change_onSession {clock : Instant → Prop} {request : Request} {s : Statement}
    (hs : s.AskedBy clock request) (r : SessionRow) :
    (s.onSession r).status = r.status ∨ SessionStatus.Change r.status (s.onSession r).status := by
  apply Statement.onSession_keeps
    (P := fun after => after.status = r.status ∨ SessionStatus.Change r.status after.status)
  · exact .inl rfl
  · intro after hwrites
    cases hwrites with
    | claim id worker now hr =>
      rw [status_of_isClaimable hr]
      exact .inr .claim
    | touch => exact .inl rfl
    | advance => exact .inl rfl
    | finish id outcome now hr => exact .inr (.finish _ _ hr hs.2.1)
    | cancel id hr =>
      rw [status_of_isInProgress hr]
      exact .inr .cancel
    | abandon id podId lastSeen now hr =>
      rw [status_of_isInProgress (isInProgress_of_isAsSeen hr)]
      exact .inr (.finish _ _ rfl rfl)
    | requeue id podId lastSeen hr =>
      rw [status_of_isInProgress (isInProgress_of_isAsSeen hr)]
      exact .inr .requeue
    | delete => exact .inl rfl

end

end SessionRow

def SessionRow.FiledBy (requests : List Request) (schedule : List (Nat × Instant))
    (row : SessionRow) : Prop :=
  ∃ i submission freshId now, requests[i]? = some (.submit submission freshId) ∧
    (i, now) ∈ schedule ∧ row = (submission.session freshId now).row

namespace SessionRow.FiledBy

variable {requests : List Request} {schedule : List (Nat × Instant)} {row : SessionRow}

theorem status (h : row.FiledBy requests schedule) : row.status = .pending := by
  obtain ⟨_, _, _, _, _, _, rfl⟩ := h
  rfl

theorem untouched (h : row.FiledBy requests schedule) : row.Untouched := by
  obtain ⟨_, _, _, _, _, _, rfl⟩ := h
  exact ⟨rfl, rfl, rfl, rfl, rfl, rfl, rfl, rfl, rfl⟩

end SessionRow.FiledBy

namespace Pool

theorem sessions_follow (requests : List Request) (schedule : List (Nat × Instant)) :
    ∀ r ∈ (run Store.engine schedule (Request.pool requests) {}).2.sessions,
      ∃ filed : SessionRow, filed.FiledBy requests schedule ∧ filed.Follows r := by
  refine run_keeps schedule (Request.pool requests) {} (fun x hx => hx)
    (Request.pool_asks requests fun i now => (i, now) ∈ schedule)
    (I := fun _ (st : Store) => ∀ r ∈ st.sessions,
      ∃ filed : SessionRow, filed.FiledBy requests schedule ∧ filed.Follows r) ?_ ?_
  · simp
  · intro log i s st hasked hI r hr
    obtain ⟨request, hrequest, hs⟩ := hasked
    rw [Statement.engine_sessions] at hr
    rcases List.mem_append.mp hr with hold | hnew
    · obtain ⟨before, hbefore, rfl⟩ := List.mem_map.mp hold
      obtain ⟨filed, hfiled, hfollows⟩ := hI before hbefore
      exact ⟨filed, hfiled, hfollows.onSession hs hfiled.status hfiled.untouched⟩
    · rw [Statement.of_mem_newSessions hnew] at hs
      obtain ⟨submission, freshId, now, rfl, hnow, _, rfl⟩ := hs
      have hfiled : SessionRow.FiledBy requests schedule (submission.session freshId now).row :=
        ⟨i, submission, freshId, now, hrequest, hnow, rfl⟩
      exact ⟨_, hfiled, .refl hfiled.status hfiled.untouched⟩

/-- A step of a pool of requests leaves each session in the table and moves its status on at most
once. -/
theorem sessions_step {requests : List Request} {p : Pool (Except Failure Unit)} (st : Store)
    (hp : p.Asks (fun _ _ => True)
      (fun i s => ∃ r, requests[i]? = some r ∧ s.AskedBy (fun _ => True) r))
    (i : Nat) (now : Instant) :
    ∀ r ∈ st.sessions, ∃ r' ∈ (p.step Store.engine now i st).2.sessions,
      r'.handedIn = r.handedIn ∧
        (r'.status = r.status ∨ SessionStatus.Change r.status r'.status) := by
  intro r hr
  have hmoves := moves_step Store.engine now i p st
  generalize p.asked? i st = entry at hmoves
  generalize p.step Store.engine now i st = after at hmoves
  obtain ⟨p', st'⟩ := after
  cases hmoves with
  | ask f s next hf hrest =>
    have hasks := (hp i f hf).2
    rw [hrest] at hasks
    obtain ⟨request, _, hs⟩ := hasks.1
    refine ⟨s.onSession r, ?_, SessionRow.handedIn_onSession s r,
      SessionRow.change_onSession hs r⟩
    rw [Statement.engine_sessions]
    exact List.mem_append_left _ (List.mem_map_of_mem hr)
  | idle => exact ⟨r, hr, rfl, .inl rfl⟩
  | clock => exact ⟨r, hr, rfl, .inl rfl⟩
  | again => exact ⟨r, hr, rfl, .inl rfl⟩

/-- In every state that a run of requests reaches, each session is what has become of the one that a
request handed in, and whatever step comes next, its status changes only as a session's may. -/
theorem sessions_live_on (requests : List Request) (schedule : List (Nat × Instant)) :
    let p := (run Store.engine schedule (Request.pool requests) {}).1
    let st := (run Store.engine schedule (Request.pool requests) ({} : Store)).2
    (st.sessions.map (·.id)).Nodup ∧
    (∀ r ∈ st.sessions, ∃ filed : SessionRow, filed.FiledBy requests schedule ∧
      filed.Follows r) ∧
    ∀ i now, ∀ r ∈ st.sessions, ∃ r' ∈ (p.step Store.engine now i st).2.sessions,
      r'.handedIn = r.handedIn ∧
        (r'.status = r.status ∨ SessionStatus.Change r.status r'.status) := by
  have hreached : Store.Reached (fun _ => True) _ :=
    ⟨requests, schedule, fun _ _ => trivial, rfl⟩
  refine ⟨hreached.keyed.sessions, sessions_follow requests schedule, ?_⟩
  exact fun i now => sessions_step _
    (asks_run schedule _ _ (fun _ _ => trivial) (Request.pool_asks requests _)) i now

end Pool
end AlertDesk
