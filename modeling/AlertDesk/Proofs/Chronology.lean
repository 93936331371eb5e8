import AlertDesk.Proofs.Ages
import AlertDesk.Proofs.Readings

/-!
The times of sessions and stages are in order. A statement writes the time that was read last, so no
time that is in the store lies after it; and what it leaves in the row comes before in the course of
the session or the stage. Where calls are made one after the other under a clock that does not go
back, the order is kept through all of their statements, also where times are cleared and set again.
-/
namespace AlertDesk

/-! ### The order of the times of a record -/

/-- Of the times that are set, none lies before one of an earlier part of the course of a session,
and it is not deleted before it was handed in or completed. -/
structure SessionOf.InOrder {τ : Type} (le : τ → τ → Prop) (s : SessionOf τ) : Prop where
  started : ∀ start ∈ s.startedAt, le s.createdAt start
  seen : ∀ last ∈ s.lastInteractionAt, le s.createdAt last ∧ ∀ start ∈ s.startedAt, le start last
  completed : ∀ till ∈ s.completedAt, le s.createdAt till ∧ (∀ start ∈ s.startedAt, le start till) ∧
    ∀ last ∈ s.lastInteractionAt, le last till
  deleted : ∀ gone ∈ s.deletedAt, le s.createdAt gone ∧ ∀ till ∈ s.completedAt, le till gone

def StageOf.InOrder {τ : Type} (le : τ → τ → Prop) (s : StageOf τ) : Prop :=
  ∀ start ∈ s.startedAt, ∀ till ∈ s.completedAt, le start till

section
variable {τ υ : Type} {P : τ → Prop} {le : τ → τ → Prop} {le' : υ → υ → Prop} {f : τ → υ}

theorem SessionOf.InOrder.map {s : SessionOf τ} (h : s.InOrder le) (hs : s.EachTime P)
    (hf : ∀ a b, P a → P b → le a b → le' (f a) (f b)) : (s.map f).InOrder le' where
  started := by
    simp only [SessionOf.map, Option.mem_def, Option.map_eq_some_iff]
    rintro _ ⟨start, hstart, rfl⟩
    exact hf _ _ hs.createdAt (hs.startedAt start hstart) (h.started start hstart)
  seen := by
    simp only [SessionOf.map, Option.mem_def, Option.map_eq_some_iff]
    rintro _ ⟨last, hlast, rfl⟩
    obtain ⟨hcreated, hstarted⟩ := h.seen last hlast
    have hP := hs.lastInteractionAt last hlast
    refine ⟨hf _ _ hs.createdAt hP hcreated, ?_⟩
    rintro _ ⟨start, hstart, rfl⟩
    exact hf _ _ (hs.startedAt start hstart) hP (hstarted start hstart)
  completed := by
    simp only [SessionOf.map, Option.mem_def, Option.map_eq_some_iff]
    rintro _ ⟨till, htill, rfl⟩
    obtain ⟨hcreated, hstarted, hseen⟩ := h.completed till htill
    have hP := hs.completedAt till htill
    refine ⟨hf _ _ hs.createdAt hP hcreated, ?_, ?_⟩
    · rintro _ ⟨start, hstart, rfl⟩
      exact hf _ _ (hs.startedAt start hstart) hP (hstarted start hstart)
    · rintro _ ⟨last, hlast, rfl⟩
      exact hf _ _ (hs.lastInteractionAt last hlast) hP (hseen last hlast)
  deleted := by
    simp only [SessionOf.map, Option.mem_def, Option.map_eq_some_iff]
    rintro _ ⟨gone, hgone, rfl⟩
    obtain ⟨hcreated, hcompleted⟩ := h.deleted gone hgone
    have hP := hs.deletedAt gone hgone
    refine ⟨hf _ _ hs.createdAt hP hcreated, ?_⟩
    rintro _ ⟨till, htill, rfl⟩
    exact hf _ _ (hs.completedAt till htill) hP (hcompleted till htill)

theorem StageOf.InOrder.map {s : StageOf τ} (h : s.InOrder le) (hs : s.EachTime P)
    (hf : ∀ a b, P a → P b → le a b → le' (f a) (f b)) : (s.map f).InOrder le' := by
  simp only [StageOf.InOrder, StageOf.map, Option.mem_def, Option.map_eq_some_iff]
  rintro _ ⟨start, hstart, rfl⟩ _ ⟨till, htill, rfl⟩
  exact hf _ _ (hs.startedAt start hstart) (hs.completedAt till htill) (h start hstart till htill)

theorem SessionOf.EachTime.mono {s : SessionOf τ} {Q : τ → Prop} (h : s.EachTime P)
    (hPQ : ∀ t, P t → Q t) : s.EachTime Q where
  createdAt := hPQ _ h.createdAt
  startedAt := fun t ht => hPQ t (h.startedAt t ht)
  lastInteractionAt := fun t ht => hPQ t (h.lastInteractionAt t ht)
  completedAt := fun t ht => hPQ t (h.completedAt t ht)
  deletedAt := fun t ht => hPQ t (h.deletedAt t ht)

theorem StageOf.EachTime.mono {s : StageOf τ} {Q : τ → Prop} (h : s.EachTime P)
    (hPQ : ∀ t, P t → Q t) : s.EachTime Q where
  startedAt := fun t ht => hPQ t (h.startedAt t ht)
  completedAt := fun t ht => hPQ t (h.completedAt t ht)

end

/-- Times that are in order are stored as texts that are in order. -/
theorem Stamp.not_ofInstant_lt {a b : Instant} (ha : a.Storable) (hb : b.Storable) (hle : a ≤ b) :
    ¬ ofInstant b < ofInstant a := by
  rw [ofInstant_lt_iff hb ha]
  change a.nanos ≤ b.nanos at hle
  change ¬ b.nanos / 1000 * 1000 < a.nanos / 1000 * 1000
  omega

/-! ### What one statement does -/

def SessionRow.Chronicled (P : Instant → Prop) (r : SessionRow) : Prop :=
  ∃ session : Session, r = session.row ∧ session.InOrder (· ≤ ·) ∧ session.EachTime P

def StageRow.Chronicled (P : Instant → Prop) (r : StageRow) : Prop :=
  ∃ stage : Stage, r = stage.row ∧ stage.InOrder (· ≤ ·) ∧ stage.EachTime P ∧
    (stage.status.isTerminal = false → stage.completedAt = none)

section
variable {P : Instant → Prop} {now : Option Instant} {s : Statement}

def Instant.OrNow (P : Instant → Prop) (now : Option Instant) (t : Instant) : Prop := P t ∨ t ∈ now

theorem Instant.le_refl (t : Instant) : t ≤ t := Int.le_refl t.nanos

/-- A sign of life comes last as long as the session has not ended. -/
theorem SessionOf.InOrder.touched {session : Session} (h : session.InOrder (· ≤ ·)) {n : Instant}
    (hn : session.EachTime (· ≤ n))
    (hunended : session.completedAt = none ∧ session.deletedAt = none) :
    SessionOf.InOrder (· ≤ ·) { session with lastInteractionAt := some n } where
  started := h.started
  seen := by simpa using ⟨hn.createdAt, hn.startedAt⟩
  completed := by simp [hunended.1]
  deleted := by simp [hunended.2]

/-- Only a session that has ended has an end. -/
theorem SessionRow.Kept.completedAt_eq_none {r : SessionRow} (h : r.Kept)
    (hr : r.status.isTerminal = false) : r.completedAt = none := by
  rw [← Option.not_isSome_iff_eq_none]
  intro hdone
  rw [h.isTerminal_of_completedAt hdone] at hr
  cases hr

theorem SessionStatus.isTerminal_of_isLive {status : SessionStatus} (h : status.isLive = true) :
    status.isTerminal = false := by
  cases status <;> simp [isLive, isTerminal] at h ⊢

/-- What is done with a session that waits or is worked on is done before it ends or is deleted. -/
theorem SessionRow.Kept.unended {session : Session} (h : session.row.Kept)
    (hr : session.row.isClaimable = true ∨ session.row.isLive = true) :
    session.completedAt = none ∧ session.deletedAt = none := by
  have hrow : session.row.status.isTerminal = false ∧ session.row.deletedAt = none := by
    rcases hr with hclaimable | hlive
    · refine ⟨?_, deletedAt_of_isClaimable hclaimable⟩
      rw [status_of_isClaimable hclaimable]
      rfl
    · exact ⟨SessionStatus.isTerminal_of_isLive hlive, h.undeleted hlive⟩
  exact ⟨Option.map_eq_none_iff.mp (h.completedAt_eq_none hrow.1), Option.map_eq_none_iff.mp hrow.2⟩

/-- The times of the session are in order and all such, and so is this one, which none of them
follows. -/
structure SessionOf.UpTo (Q : Instant → Prop) (n : Instant) (session : Session) : Prop where
  order : session.InOrder (· ≤ ·)
  times : session.EachTime Q
  below : session.EachTime (· ≤ n)
  now : Q n

section
variable {session : Session} {Q : Instant → Prop} {n : Instant}

theorem SessionOf.UpTo.fresh (h : session.UpTo Q n) : ∀ t ∈ some n, Q t := by
  intro t ht
  obtain rfl := Option.some.inj ht
  exact h.now

theorem SessionOf.UpTo.claimed (h : session.UpTo Q n) (worker : String)
    (hunended : session.completedAt = none ∧ session.deletedAt = none) :
    (session.row.claimed worker (.ofInstant n)).Chronicled Q := by
  refine ⟨{ session with
    status := .inProgress
    podId := some worker
    startedAt := some n
    lastInteractionAt := some n }, rfl, ?_, ?_⟩
  · exact {
      started := by simpa using h.below.createdAt
      seen := by simpa using ⟨h.below.createdAt, Instant.le_refl n⟩
      completed := by simp [hunended.1]
      deleted := by simp [hunended.2] }
  · exact { h.times with startedAt := h.fresh, lastInteractionAt := h.fresh }

theorem SessionOf.UpTo.touched (h : session.UpTo Q n)
    (hunended : session.completedAt = none ∧ session.deletedAt = none) :
    (session.row.touched (.ofInstant n)).Chronicled Q :=
  ⟨{ session with lastInteractionAt := some n }, rfl, h.order.touched h.below hunended,
    { h.times with lastInteractionAt := h.fresh }⟩

theorem SessionOf.UpTo.advanced (h : session.UpTo Q n) (stageIndex : Int) (stageId : String)
    (hunended : session.completedAt = none ∧ session.deletedAt = none) :
    (session.row.advanced stageIndex stageId (.ofInstant n)).Chronicled Q :=
  ⟨{ session with
    currentStageIndex := some stageIndex
    currentStageId := some stageId
    lastInteractionAt := some n }, rfl, { h.order.touched h.below hunended with },
    { h.times with lastInteractionAt := h.fresh }⟩

theorem SessionOf.UpTo.ended (h : session.UpTo Q n) (outcome : Outcome)
    (hunended : session.completedAt = none ∧ session.deletedAt = none) :
    (session.row.ended outcome (.ofInstant n)).Chronicled Q := by
  refine ⟨{ session with
    status := outcome.status
    completedAt := some n
    lastInteractionAt := some n
    finalAnalysis := outcome.finalAnalysis.or session.finalAnalysis
    executiveSummary := outcome.executiveSummary.or session.executiveSummary
    errorMessage := outcome.errorMessage.or session.errorMessage }, rfl, ?_, ?_⟩
  · exact { h.order.touched h.below hunended with
      completed := by simpa using ⟨h.below.createdAt, h.below.startedAt, Instant.le_refl n⟩
      deleted := by simp [hunended.2] }
  · exact { h.times with lastInteractionAt := h.fresh, completedAt := h.fresh }

theorem SessionOf.UpTo.abandoned (h : session.UpTo Q n) (hundeleted : session.deletedAt = none) :
    (session.row.abandoned (.ofInstant n)).Chronicled Q := by
  refine ⟨{ session with
    status := .timedOut
    completedAt := some n
    errorMessage := some SessionRow.orphanMessage }, rfl, ?_, ?_⟩
  · exact { h.order with
      completed := by
        simpa using ⟨h.below.createdAt, h.below.startedAt, h.below.lastInteractionAt⟩
      deleted := by simp [hundeleted] }
  · exact { h.times with completedAt := h.fresh }

theorem SessionOf.EachTime.requeued (h : session.EachTime Q)
    (hunended : session.completedAt = none ∧ session.deletedAt = none) :
    session.row.requeued.Chronicled Q := by
  have hnone : ∀ t ∈ (none : Option Instant), Q t := by simp
  refine ⟨{ session with
    status := .pending
    podId := none
    startedAt := none
    lastInteractionAt := none
    currentStageIndex := none
    currentStageId := none }, rfl, ?_, ?_⟩
  · exact {
      started := by simp
      seen := by simp
      completed := by simp [hunended.1]
      deleted := by simp [hunended.2] }
  · exact { h with startedAt := hnone, lastInteractionAt := hnone }

theorem SessionOf.UpTo.deleted (h : session.UpTo Q n) :
    (session.row.deleted (.ofInstant n)).Chronicled Q := by
  refine ⟨{ session with deletedAt := some n }, rfl, ?_, { h.times with deletedAt := h.fresh }⟩
  exact { h.order with deleted := by simpa using ⟨h.below.createdAt, h.below.completedAt⟩ }

end

open SessionRow in
theorem SessionRow.Chronicled.onSession {r : SessionRow} (h : r.Chronicled P) (hkept : r.Kept)
    (hwrites : s.writes? = now.map Stamp.ofInstant) (hnow : ∀ n ∈ now, ∀ t, P t → t ≤ n) :
    (s.onSession r).Chronicled (Instant.OrNow P now) := by
  obtain ⟨session, rfl, horder, htimes⟩ := h
  have hold : session.EachTime (Instant.OrNow P now) := htimes.mono fun _ ht => .inl ht
  have hupTo {n : Instant} (hn : now = some n) : session.UpTo (Instant.OrNow P now) n :=
    ⟨horder, hold, htimes.mono (hnow n hn), .inr hn⟩
  refine Statement.onSession_keeps (P := fun after => after.Chronicled (Instant.OrNow P now))
    ⟨session, rfl, horder, hold⟩ fun after hafter => ?_
  cases hafter with
  | claim id worker stamp hr =>
    obtain ⟨n, hn, rfl⟩ := Option.map_eq_some_iff.mp hwrites.symm
    exact (hupTo hn).claimed worker (hkept.unended (.inl hr))
  | touch id stamp hr =>
    obtain ⟨n, hn, rfl⟩ := Option.map_eq_some_iff.mp hwrites.symm
    exact (hupTo hn).touched (hkept.unended (.inr hr))
  | advance id stageIndex stageId stamp hr =>
    obtain ⟨n, hn, rfl⟩ := Option.map_eq_some_iff.mp hwrites.symm
    have hlive := isLive_of_isInProgress hr
    exact (hupTo hn).advanced stageIndex stageId (hkept.unended (.inr hlive))
  | finish id outcome stamp hr =>
    obtain ⟨n, hn, rfl⟩ := Option.map_eq_some_iff.mp hwrites.symm
    exact (hupTo hn).ended outcome (hkept.unended (.inr hr))
  | cancel id hr =>
    exact ⟨{ session with status := .cancelling }, rfl, { horder with }, { hold with }⟩
  | abandon id podId lastSeen stamp hr =>
    obtain ⟨n, hn, rfl⟩ := Option.map_eq_some_iff.mp hwrites.symm
    have hlive := isLive_of_isInProgress (isInProgress_of_isAsSeen hr)
    exact (hupTo hn).abandoned (hkept.unended (.inr hlive)).2
  | requeue id podId lastSeen hr =>
    have hlive := isLive_of_isInProgress (isInProgress_of_isAsSeen hr)
    exact hold.requeued (hkept.unended (.inr hlive))
  | delete cutoff stamp hr =>
    obtain ⟨n, hn, rfl⟩ := Option.map_eq_some_iff.mp hwrites.symm
    exact (hupTo hn).deleted

theorem StageOf.EachTime.started_or {stage : Stage} (h : stage.EachTime P) {start : Option Instant}
    (hstart : ∀ t ∈ start, P t) : ∀ t ∈ stage.startedAt.or start, P t := by
  intro t ht
  rcases Option.or_eq_some_iff.mp ht with hold | ⟨_, hnew⟩
  · exact h.startedAt t hold
  · exact hstart t hnew

section
variable {stage : Stage} {Q : Instant → Prop} {n : Instant}

/-- A stage starts only when it has no end, and keeps the time of its first start. -/
theorem StageOf.EachTime.activated (h : stage.EachTime Q) (hn : Q n)
    (hcompleted : stage.completedAt = none) :
    (stage.row.activated (.ofInstant n)).Chronicled Q := by
  refine ⟨{ stage with status := .active, startedAt := stage.startedAt.or (some n) },
    ?_, ?_, ?_, ?_⟩
  · simp [Stage.row, StageOf.map, StageRow.activated]
  · simp [StageOf.InOrder, hcompleted]
  · exact { h with startedAt := h.started_or (by simpa using hn) }
  · exact fun _ => hcompleted

theorem StageOf.EachTime.finalized (h : stage.EachTime Q) (hbelow : stage.EachTime (· ≤ n))
    (hn : Q n) {completion : Completion} (hcompletedAt : completion.completedAt = .ofInstant n)
    (hterminal : completion.status.isTerminal = true) :
    (stage.row.finalized completion).Chronicled Q := by
  refine ⟨{ stage with
    status := completion.status
    completedAt := some n
    durationMs := completion.durationMs
    errorMessage := completion.errorMessage }, ?_, ?_, ?_, fun hrunning => ?_⟩
  · simp [Stage.row, StageOf.map, StageRow.finalized, hcompletedAt]
  · simpa [StageOf.InOrder] using hbelow.startedAt
  · exact { h with completedAt := by simpa using hn }
  · rw [hterminal] at hrunning
    cases hrunning

/-- A stage that is opened again has no end. -/
theorem StageOf.EachTime.reopened (h : stage.EachTime Q) (hn : Q n) (status : StageStatus) :
    (stage.row.reopened status (.ofInstant n)).Chronicled Q := by
  refine ⟨{ stage with
    status
    startedAt := stage.startedAt.or (if status == .active then some n else none)
    completedAt := none
    durationMs := none
    errorMessage := none }, ?_, ?_, ?_, fun _ => rfl⟩
  · cases hactive : status == .active <;> simp [Stage.row, StageOf.map, StageRow.reopened, hactive]
  · simp [StageOf.InOrder]
  · refine { h with completedAt := by simp, startedAt := h.started_or fun t ht => ?_ }
    split at ht
    · obtain rfl := Option.some.inj ht
      exact hn
    · cases ht

end

open StageRow in
theorem StageRow.Chronicled.onStage {r : StageRow} {clock : Instant → Prop} {request : Request}
    (h : r.Chronicled P) (hasked : s.AskedBy clock request)
    (hwrites : s.writes? = now.map Stamp.ofInstant) (hnow : ∀ n ∈ now, ∀ t, P t → t ≤ n) :
    (s.onStage r).Chronicled (Instant.OrNow P now) := by
  obtain ⟨stage, rfl, horder, htimes, hends⟩ := h
  have hold : stage.EachTime (Instant.OrNow P now) := htimes.mono fun _ ht => .inl ht
  refine Statement.onStage_keeps (P := fun after => after.Chronicled (Instant.OrNow P now))
    ⟨stage, rfl, horder, hold, hends⟩ fun after hafter => ?_
  cases hafter with
  | activate id stamp hr =>
    obtain ⟨n, hn, rfl⟩ := Option.map_eq_some_iff.mp hwrites.symm
    have hpending : stage.status = .pending := by
      simp only [isAt, Bool.and_eq_true, beq_iff_eq] at hr
      exact hr.2
    exact hold.activated (.inr hn) (hends (by rw [hpending]; rfl))
  | finalize id observed completion hr =>
    obtain ⟨n, hn, hcompletedAt⟩ := Option.map_eq_some_iff.mp hwrites.symm
    exact hold.finalized (htimes.mono (hnow n hn)) (.inr hn) hcompletedAt.symm hasked.1
  | reopen id observed status stamp hr =>
    obtain ⟨n, hn, rfl⟩ := Option.map_eq_some_iff.mp hwrites.symm
    exact hold.reopened (.inr hn) status

end

/-! ### What a run does -/

structure Store.Chronicled (P : Instant → Prop) (st : Store) : Prop where
  sessions : ∀ r ∈ st.sessions, r.Chronicled P
  stages : ∀ r ∈ st.stages, r.Chronicled P

namespace Store.Chronicled

variable {P : Instant → Prop} {s : Statement} {st : Store}
  {clock : Instant → Prop} {request : Request}

theorem engine (h : st.Chronicled P) (now : Option Instant) (hkept : st.KeepsSessions)
    (hasked : s.AskedBy clock request)
    (hwrites : s.writes? = now.map Stamp.ofInstant) (hnow : ∀ n ∈ now, ∀ t, P t → t ≤ n) :
    (Store.engine s st).2.Chronicled (Instant.OrNow P now) where
  sessions := fun r hr => by
    rw [Statement.engine_sessions] at hr
    rcases List.mem_append.mp hr with hold | hnew
    · obtain ⟨before, hbefore, rfl⟩ := List.mem_map.mp hold
      exact (h.sessions before hbefore).onSession (hkept before hbefore) hwrites hnow
    · rw [Statement.of_mem_newSessions hnew] at hasked hwrites
      obtain ⟨submission, freshId, t, _, _, _, rfl⟩ := hasked
      obtain ⟨n, hn, hstamp⟩ := Option.map_eq_some_iff.mp hwrites.symm
      refine ⟨submission.session freshId n, ?_, ?_, ?_⟩
      · simp only [Session.row, SessionOf.map, Submission.session] at hstamp ⊢
        rw [hstamp]
      · exact ⟨by simp [Submission.session], by simp [Submission.session],
          by simp [Submission.session], by simp [Submission.session]⟩
      · exact ⟨.inr hn, by simp [Submission.session], by simp [Submission.session],
          by simp [Submission.session], by simp [Submission.session]⟩
  stages := fun r hr => by
    rw [Statement.engine_stages] at hr
    rcases List.mem_append.mp hr with hold | hnew
    · obtain ⟨before, hbefore, rfl⟩ := List.mem_map.mp hold
      exact (h.stages before hbefore).onStage hasked hwrites hnow
    · rw [(Statement.of_mem_newStages hnew).1] at hasked
      obtain ⟨request, freshId, _, _, rfl⟩ := hasked
      exact ⟨request.stage freshId, rfl, by simp [StageOf.InOrder, StageRequest.stage],
        ⟨by simp [StageRequest.stage], by simp [StageRequest.stage]⟩, fun _ => rfl⟩

theorem mono {Q : Instant → Prop} (h : st.Chronicled P) (hPQ : ∀ t, P t → Q t) :
    st.Chronicled Q where
  sessions := fun r hr => by
    obtain ⟨session, hrow, horder, htimes⟩ := h.sessions r hr
    exact ⟨session, hrow, horder, htimes.mono hPQ⟩
  stages := fun r hr => by
    obtain ⟨stage, hrow, horder, htimes, hends⟩ := h.stages r hr
    exact ⟨stage, hrow, horder, htimes.mono hPQ, hends⟩

end Store.Chronicled

namespace Pool

variable {requests : List Request} {schedule : List (Nat × Instant)}

/-- The times in the store are times that were written, as long as these were written in order. -/
theorem chronicled_written {times : List Instant} (horder : times.Pairwise (· ≤ ·))
    (hwritten : (log Store.engine schedule (Request.pool requests) {}).filterMap
      (·.statement.writes?) = times.map Stamp.ofInstant) :
    (run Store.engine schedule (Request.pool requests) {}).2.Chronicled (· ∈ times) := by
  refine chain_induction (chain_log Store.engine schedule (Request.pool requests) {})
    (motive := fun log st => ∀ times : List Instant, times.Pairwise (· ≤ ·) →
      log.filterMap (·.statement.writes?) = times.map Stamp.ofInstant →
      st.Chronicled (· ∈ times)) ?_ ?_ times horder hwritten
  · exact fun _ _ _ => ⟨by simp, by simp⟩
  · intro first e rest hlog h times horder hwritten
    obtain ⟨request, _, hasked⟩ := askedBy_of_mem_pool_log (e := e) (by rw [hlog]; simp)
    rw [List.filterMap_append] at hwritten
    obtain ⟨before, last, rfl, hbefore, hlast⟩ := List.map_eq_append_iff.mp hwritten.symm
    obtain ⟨hsorted, _, hle⟩ := List.pairwise_append.mp horder
    have hchronicled := h before hsorted hbefore.symm
    have hkept := keepsSessions_before requests schedule hlog
    cases hwrites : e.statement.writes? with
    | none =>
      refine (hchronicled.engine none hkept hasked hwrites (by simp)).mono fun t ht => ?_
      exact List.mem_append_left _ (ht.resolve_right (by simp))
    | some stamp =>
      obtain ⟨n, rfl, hn⟩ := List.map_eq_singleton_iff.mp
        (hlast.trans (by simp [hwrites] : _ = [stamp]))
      refine (hchronicled.engine (some n) hkept hasked ?_ ?_).mono fun t ht => ?_
      · rw [hwrites, Option.map_some, hn]
      · intro m hm t ht
        cases hm
        exact hle t ht n (List.mem_singleton_self n)
      · rcases ht with ht | ht
        · exact List.mem_append_left _ ht
        · cases ht
          exact List.mem_append_right _ (List.mem_singleton_self n)

/-- Where calls are made one after the other under a clock that does not go back, the rows of
sessions and stages are the stored forms of records whose times are readings of the clock and in
order: a session is handed in, started, last seen, completed and deleted, a stage is started and
completed, none of these before another that comes first, as far as they are set. While the clock
stays within the years that have four digits, the texts in the rows are in that order too. -/
theorem times_in_order (requests : List Request) {schedule : List (Nat × Instant)}
    (horder : OneByOne schedule) (hclock : schedule.Pairwise (·.2 ≤ ·.2)) :
    let st := (run Store.engine schedule (Request.pool requests) {}).2
    (∀ r ∈ st.sessions, ∃ session : Session, r = session.row ∧ session.InOrder (· ≤ ·) ∧
      session.EachTime fun t => ∃ x ∈ schedule, x.2 = t) ∧
    (∀ r ∈ st.stages, ∃ stage : Stage, r = stage.row ∧ stage.InOrder (· ≤ ·) ∧
      stage.EachTime fun t => ∃ x ∈ schedule, x.2 = t) ∧
    ((∀ x ∈ schedule, x.2.Storable) →
      (∀ r ∈ st.sessions, r.InOrder fun earlier later => ¬ later < earlier) ∧
      ∀ r ∈ st.stages, r.InOrder fun earlier later => ¬ later < earlier) := by
  intro st
  obtain ⟨times, hwritten, hsorted, hread⟩ := written_in_order requests horder hclock
  have hst : st.Chronicled fun t => ∃ x ∈ schedule, x.2 = t :=
    (chronicled_written hsorted hwritten).mono hread
  refine ⟨hst.sessions, fun r hr => ?_, fun hyears => ⟨fun r hr => ?_, fun r hr => ?_⟩⟩
  · obtain ⟨stage, hrow, hordered, htimes, _⟩ := hst.stages r hr
    exact ⟨stage, hrow, hordered, htimes⟩
  · obtain ⟨session, rfl, hordered, htimes⟩ := hst.sessions r hr
    exact hordered.map htimes fun a b ⟨x, hx, ha⟩ ⟨y, hy, hb⟩ =>
      Stamp.not_ofInstant_lt (ha ▸ hyears x hx) (hb ▸ hyears y hy)
  · obtain ⟨stage, rfl, hordered, htimes, _⟩ := hst.stages r hr
    exact hordered.map htimes fun a b ⟨x, hx, ha⟩ ⟨y, hy, hb⟩ =>
      Stamp.not_ofInstant_lt (ha ▸ hyears x hx) (hb ▸ hyears y hy)

end Pool

/-! A session is put back into the queue, claimed again, completed and deleted, and its stage is
completed, opened again and failed. -/

namespace WholeCourse

open OneExecution (agent)
open Reopening (steps)

def requests : List Request := [
  .submit
    { id := some "s", alertData := "disk full", alertType := "disk", chainId := "default" } "",
  .claim "a",
  .scan 1000000000 .requeue,
  .claim "b",
  .createStage
    { sessionId := "s", stageName := "triage", stageIndex := 0, expectedAgentCount := 1 } "st",
  .createExecution (agent 1) "e",
  .transition "e" .completed none,
  .transition "e" .active none,
  .transition "e" .failed (some "no such disk"),
  .heartbeat "s",
  .finish "s" (.ofStatus .completed),
  .deleteSessions 1]

def seconds (n : Int) : Instant := ⟨n * 1000000000 + 999⟩

def schedule : List (Nat × Instant) :=
  steps 0 3 (seconds 0) ++ steps 1 4 (seconds 1) ++ steps 2 5 (seconds 10) ++
    steps 3 4 (seconds 20) ++ steps 4 3 (seconds 21) ++ steps 5 8 (seconds 22) ++
    steps 6 9 (seconds 23) ++ steps 7 9 (seconds 24) ++ steps 8 9 (seconds 25) ++
    steps 9 2 (seconds 26) ++ steps 10 4 (seconds 27) ++ steps 11 2 (seconds 200000)

def store : Store := (Pool.run Store.engine schedule (Request.pool requests) {}).2

end WholeCourse

open WholeCourse in
theorem Pool.times_in_order_whole : OneByOne schedule ∧ schedule.Pairwise (·.2 ≤ ·.2) ∧
    (∀ x ∈ schedule, x.2.Storable) ∧
    (∃ r ∈ store.sessions, r.InOrder (fun earlier later => ¬ later < earlier) ∧
      (r.createdAt, r.startedAt, r.lastInteractionAt, r.completedAt, r.deletedAt) =
        (.ofInstant (seconds 0), some (.ofInstant (seconds 20)), some (.ofInstant (seconds 27)),
          some (.ofInstant (seconds 27)), some (.ofInstant (seconds 200000)))) ∧
    ∃ r ∈ store.stages, r.InOrder (fun earlier later => ¬ later < earlier) ∧
      (r.status, r.startedAt, r.completedAt) =
        (.failed, some (.ofInstant (seconds 24)), some (.ofInstant (seconds 25))) := by
  have horder : OneByOne schedule := by
    unfold OneByOne
    decide +kernel
  have hclock : schedule.Pairwise (·.2 ≤ ·.2) := by decide +kernel
  have hyears : ∀ x ∈ schedule, Instant.Storable x.2 := by decide +kernel
  obtain ⟨_, _, htexts⟩ := times_in_order requests horder hclock
  obtain ⟨hsessions, hstages⟩ := htexts hyears
  have hsession : store.sessions.map
      (fun r => (r.createdAt, r.startedAt, r.lastInteractionAt, r.completedAt, r.deletedAt)) =
        [(.ofInstant (seconds 0), some (.ofInstant (seconds 20)), some (.ofInstant (seconds 27)),
          some (.ofInstant (seconds 27)), some (.ofInstant (seconds 200000)))] := by
    rw [store, Store.engine_eq_ordered]
    decide +kernel
  have hstage : store.stages.map (fun r => (r.status, r.startedAt, r.completedAt)) =
      [(.failed, some (.ofInstant (seconds 24)), some (.ofInstant (seconds 25)))] := by
    rw [store, Store.engine_eq_ordered]
    decide +kernel
  obtain ⟨r, hr, hrow⟩ := List.map_eq_singleton_iff.mp hsession
  obtain ⟨r', hr', hrow'⟩ := List.map_eq_singleton_iff.mp hstage
  have hmem : r ∈ store.sessions := by rw [hr]; exact List.mem_singleton_self r
  have hmem' : r' ∈ store.stages := by rw [hr']; exact List.mem_singleton_self r'
  exact ⟨horder, hclock, hyears, ⟨r, hmem, hsessions r hmem, hrow⟩,
    ⟨r', hmem', hstages r' hmem', hrow'⟩⟩

end AlertDesk
