import AlertDesk.Proofs.StageRows

/-!
The times that calls write. A call writes no other time than the one that it read off the clock
last. So where calls are made one after the other under a clock that does not go back, the times are
written in their order.
-/
namespace AlertDesk

namespace Statement

def writes? : Statement → Option Stamp
  | .insertSession row => some row.createdAt
  | .claimSession _ _ now | .touchSession _ now | .advanceSession _ _ _ now | .endSession _ _ now
  | .failOrphan _ _ _ now | .deleteExpired _ now | .activateStage _ now | .reopenStage _ _ _ now
  | .moveExecution _ _ _ now => some now
  | .finalizeStage _ _ completion => some completion.completedAt
  | .insertEvent _ _ _ createdAt => some createdAt
  | _ => none

/-- If the statement writes a time, it is the stored form of this reading. -/
def WritesAt (last : Option Instant) (s : Statement) : Prop :=
  ∀ stamp ∈ s.writes?, ∃ now ∈ last, stamp = .ofInstant now

/-- What a request writes is the stored form of a reading. -/
theorem taken_of_writes? {clock : Instant → Prop} {request : Request} {s : Statement}
    {stamp : Stamp} (hs : s.AskedBy clock request) (h : s.writes? = some stamp) :
    stamp.Taken clock := by
  cases s with
  | insertSession row =>
    cases h
    obtain ⟨submission, freshId, t, _, ht, _, rfl⟩ := hs
    exact ⟨t, ht, rfl⟩
  | deleteExpired cutoff now =>
    cases h
    obtain ⟨_, t, _, ht, rfl, _⟩ := hs
    exact ⟨t, ht, rfl⟩
  | claimSession | endSession | reopenStage =>
    cases h
    exact hs.2.2
  | touchSession | advanceSession | finalizeStage =>
    cases h
    exact hs.2
  | failOrphan | moveExecution | insertEvent =>
    cases h
    exact hs.1
  | activateStage =>
    cases h
    exact hs
  | _ => cases h

theorem writesAt_of_none {s : Statement} (h : s.writes? = none) (last : Option Instant) :
    s.WritesAt last := by simp [WritesAt, h]

theorem writesAt_of_eq {s : Statement} {now : Instant} (h : s.writes? = some (.ofInstant now)) :
    s.WritesAt (some now) := by simp [WritesAt, h]

end Statement

namespace Call

variable {α β : Type}

/-- Each time that the call writes is the one that it read last, beginning with this one. -/
def Timely (last : Option Instant) : Call α → Prop
  | .done _ => True
  | .ask s next => s.WritesAt last ∧ ∀ r, (next r).Timely last
  | .clock next => ∀ t, (next t).Timely (some t)
  | .again => True

theorem timely_bind {c : Call α} {f : α → Call β} {last : Option Instant} (hc : c.Timely last)
    (hf : ∀ a last, (f a).Timely last) : (c.bind f).Timely last := by
  induction c generalizing last with
  | done a => exact hf a last
  | ask s next ih => exact ⟨hc.1, fun r => ih r (hc.2 r)⟩
  | clock next ih => exact fun t => ih t (hc t)
  | again => trivial

end Call

namespace Service

variable {α β : Type} {last : Option Instant}

def Timely (last : Option Instant) (x : Service α) : Prop := Call.Timely last x.run

@[simp] theorem timely_pure (a : α) : Timely last (pure a : Service α) := trivial

@[simp] theorem timely_throw (f : Failure) : Timely last (throw f : Service α) := trivial

@[simp] theorem timely_settle (r : Except Failure α) : Timely last (settle r) := trivial

@[simp] theorem timely_again : Timely last (again : Service α) := trivial

@[simp] theorem timely_ask (s : Statement) :
    Timely (α := no_index s.Answer) last (ask s) ↔ s.WritesAt last :=
  ⟨fun h => h.1, fun hs => ⟨hs, fun _ => trivial⟩⟩

theorem timely_bind {x : Service α} {f : α → Service β} (hx : x.Timely last)
    (hf : ∀ a last, (f a).Timely last) : (x >>= f).Timely last := by
  refine Call.timely_bind hx fun r last => ?_
  cases r with
  | ok a => exact hf a last
  | error e => trivial

@[simp] theorem timely_ask_bind (s : Statement) (f : s.Answer → Service β) :
    Timely last (bind (α := no_index s.Answer) (ask s) f) ↔
      s.WritesAt last ∧ ∀ a, (f a).Timely last := by
  refine ⟨fun h => ⟨h.1, fun a => h.2 (.ok a)⟩, fun h => ⟨h.1, fun r => ?_⟩⟩
  cases r with
  | ok a => exact h.2 a
  | error e => trivial

@[simp] theorem timely_clock_bind (f : Instant → Service β) :
    (Service.clock >>= f).Timely last ↔ ∀ t, (f t).Timely (some t) := Iff.rfl

@[simp] theorem timely_settle_bind (r : Except Failure α) (f : α → Service β) :
    (settle r >>= f).Timely last ↔ ∀ a, r = .ok a → (f a).Timely last := by
  cases r with
  | ok a => simp
  | error e => simp

theorem timely_attempt {x : Service α} (hx : x.Timely last) : (attempt x).Timely last :=
  Call.timely_bind hx fun _ _ => trivial

end Service

open Service Statement

/-! ### The calls write the time that they read last -/

section
variable {last : Option Instant}

namespace Sessions

theorem timely_submit (submission : Submission) (freshId : String) :
    (submit submission freshId).Timely last := by
  simp only [submit, Rows.createSession, timely_settle_bind, timely_clock_bind, timely_ask_bind,
    timely_pure, implies_true, and_true]
  exact fun _ _ _ => writesAt_of_eq rfl

theorem timely_get (id : String) : (get id).Timely last := by
  simp only [get, Rows.session?, Rows.readOne, bind_assoc, timely_ask_bind, timely_settle_bind]
  refine ⟨writesAt_of_none rfl last, fun _ s _ => ?_⟩
  cases s <;> simp

theorem timely_status (id : String) : (status id).Timely last := by
  simp only [status, Rows.sessionStatus?, timely_ask_bind]
  refine ⟨writesAt_of_none rfl last, fun s => ?_⟩
  cases s <;> simp

theorem timely_heartbeat (id : String) : (heartbeat id).Timely last := by
  simp only [heartbeat, Rows.touch?, timely_clock_bind, timely_ask_bind]
  refine fun _ => ⟨writesAt_of_eq rfl, fun s => ?_⟩
  cases s with
  | none => exact timely_status id
  | some s => simp

theorem timely_updateProgress (id : String) (stageIndex : Int) (stageId : String) :
    (updateProgress id stageIndex stageId).Timely last := by
  simp only [updateProgress, Rows.advance, timely_clock_bind, timely_ask_bind]
  refine fun _ => ⟨writesAt_of_eq rfl, fun rows => ?_⟩
  split
  · simp
  · exact timely_bind (timely_status id) (by simp)

theorem timely_setTerminal (id : String) (outcome : Outcome) :
    (setTerminal id outcome).Timely last := by
  unfold setTerminal
  split
  · simp
  · simp only [Rows.endSession, timely_clock_bind, timely_ask_bind]
    refine fun _ => ⟨writesAt_of_eq rfl, fun rows => ?_⟩
    split
    · simpa only [bind_assoc] using timely_bind (timely_status id) (by simp)
    · exact timely_get id

theorem timely_requestCancel (id : String) : (requestCancel id).Timely last := by
  simp only [requestCancel, Rows.markCancelling, timely_ask_bind]
  refine ⟨writesAt_of_none rfl last, fun rows => ?_⟩
  split
  · simp
  · exact timely_bind (timely_status id) (by simp)

theorem timely_publish (sessionId : Option String) (channel : String) (payload : Json) :
    (publish sessionId channel payload).Timely last := by
  simp only [publish, Rows.createEvent, timely_clock_bind, timely_settle_bind, timely_ask_bind,
    timely_pure, implies_true, and_true]
  exact fun _ _ _ => writesAt_of_eq rfl

theorem timely_claimNext (worker : String) : (claimNext worker).Timely last := by
  unfold claimNext
  split
  · simp
  · simp only [Rows.oldestPending?, timely_ask_bind]
    refine ⟨writesAt_of_none rfl last, fun candidate => ?_⟩
    cases candidate with
    | none => simp
    | some candidate =>
      simp only [Rows.claim, timely_clock_bind, timely_ask_bind]
      refine fun _ => ⟨writesAt_of_eq rfl, fun rows => ?_⟩
      split
      · simp
      · simp only [Rows.session?, Rows.readOne, bind_assoc, timely_ask_bind, timely_settle_bind]
        refine ⟨writesAt_of_none rfl _, fun _ s _ => ?_⟩
        cases s <;> simp

end Sessions

namespace Orphans

theorem timely_find (timeout : Nat) : (find timeout).Timely last := by
  simp only [find, Rows.stale, Rows.readAll, timely_clock_bind, timely_settle_bind, timely_ask_bind,
    timely_settle, implies_true, and_true]
  exact fun _ _ _ => writesAt_of_none rfl _

theorem timely_recover (observed : Session) (action : OrphanAction) :
    (recover observed action).Timely last := by
  simp only [recover, Rows.recover, timely_clock_bind]
  intro now
  cases action with
  | report => simp
  | fail =>
    simp only [timely_ask_bind, timely_pure, implies_true, and_true]
    exact writesAt_of_eq rfl
  | requeue =>
    simp only [timely_ask_bind, timely_pure, implies_true, and_true]
    exact writesAt_of_none rfl (some now)

theorem timely_recoverEach (action : OrphanAction) (orphans : List Session) :
    (recoverEach action orphans).Timely last := by
  induction orphans generalizing last with
  | nil => simp [recoverEach]
  | cons observed rest ih =>
    unfold recoverEach
    refine timely_bind (timely_attempt (timely_recover observed action)) fun _ _ => ?_
    exact timely_bind ih (by simp)

theorem timely_scan (timeout : Nat) (action : OrphanAction) :
    (scan timeout action).Timely last := by
  refine timely_bind (timely_find timeout) fun orphans _ => ?_
  exact timely_bind (timely_recoverEach action orphans) (by simp)

end Orphans

namespace Retention

theorem timely_deleteSessions (days : Nat) : (deleteSessions days).Timely last := by
  unfold deleteSessions
  split
  · simp
  · simp only [Rows.deleteExpired, timely_clock_bind, timely_settle_bind, timely_ask]
    exact fun _ _ _ => writesAt_of_eq rfl

theorem timely_purgeEvents (age : Nat) : (purgeEvents age).Timely last := by
  simp only [purgeEvents, Rows.purge, timely_clock_bind, timely_settle_bind, timely_ask]
  exact fun _ _ _ => writesAt_of_none rfl _

theorem timely_sweep (policy : Policy) : (sweep policy).Timely last := by
  refine timely_bind (timely_attempt (timely_deleteSessions policy.sessionDays)) fun _ _ => ?_
  refine timely_bind (timely_attempt (timely_purgeEvents policy.eventAge)) fun _ _ => ?_
  exact timely_bind (timely_settle _) fun _ _ => timely_bind (timely_settle _) fun _ _ =>
    timely_pure _

end Retention

namespace Stages

theorem timely_get (id : String) : (get id).Timely last := by
  simp only [get, Rows.stage?, Rows.readOne, bind_assoc, timely_ask_bind, timely_settle_bind]
  refine ⟨writesAt_of_none rfl last, fun _ s _ => ?_⟩
  cases s <;> simp

theorem timely_write (stage : Stage) (change : StageChange) : (write stage change).Timely last := by
  simp only [write, timely_clock_bind]
  intro now
  cases change <;> exact (timely_ask _).mpr (writesAt_of_eq rfl)

theorem timely_recomputeWithin (id : String) (attempts : Nat) :
    (recomputeWithin id attempts).Timely last := by
  induction attempts generalizing last with
  | zero => exact timely_get id
  | succ attempts ih =>
    refine timely_bind (timely_get id) fun stage last => ?_
    simp only [Rows.topLevelStatuses, timely_ask_bind]
    refine ⟨writesAt_of_none rfl last, fun statuses => ?_⟩
    cases StageChange.plan? stage (.of stage.policy statuses) with
    | none => simp
    | some change =>
      refine timely_bind (timely_write stage change) fun rows _ => ?_
      split
      · exact timely_get id
      · exact ih

theorem timely_recompute (id : String) : (recompute id).Timely last :=
  timely_recomputeWithin id attempts

theorem timely_create (request : StageRequest) (freshId : String) :
    (create request freshId).Timely last := by
  simp only [create, Rows.sessionStatus?, timely_settle_bind, timely_ask_bind]
  refine fun _ _ => ⟨writesAt_of_none rfl last, fun status => ?_⟩
  cases status with
  | none => simp
  | some _ =>
    simp only [Rows.createStage, timely_ask_bind, timely_pure, implies_true, and_true]
    exact writesAt_of_none rfl last

end Stages

namespace Executions

theorem timely_checkParent (stageId : String) (parentId : Option String) :
    (checkParent stageId parentId).Timely last := by
  cases parentId with
  | none => simp [checkParent]
  | some id =>
    simp only [checkParent, Rows.execution?, Rows.readOne, bind_assoc, timely_ask_bind,
      timely_settle_bind]
    refine ⟨writesAt_of_none rfl last, fun _ parent _ => ?_⟩
    cases parent with
    | none => simp
    | some parent =>
      simp only
      split <;> simp

theorem timely_recomputeUnless (isSubAgent : Bool) (id : String) {α : Type} (a : α) :
    Timely last (do
      if !isSubAgent then
        let _ ← Stages.recompute id
      return a) := by
  cases isSubAgent with
  | true => simp
  | false => exact timely_bind (Stages.timely_recompute id) (by simp)

theorem timely_create (request : ExecutionRequest) (freshId : String) :
    (create request freshId).Timely last := by
  simp only [create, timely_settle_bind]
  intro _ _
  refine timely_bind (Stages.timely_get _) fun stage last => ?_
  split
  · simp
  · refine timely_bind (timely_checkParent _ _) fun _ last => ?_
    simp only [Rows.createExecution, bind_assoc, timely_ask_bind]
    exact ⟨writesAt_of_none rfl last, fun _ => timely_recomputeUnless _ _ _⟩

theorem timely_setStatus (id : String) (status : StageStatus) (message : Option String) :
    (setStatus id status message).Timely last := by
  simp only [setStatus, Rows.move?, Rows.readOne, bind_assoc, timely_clock_bind, timely_ask_bind,
    timely_settle_bind]
  refine fun _ => ⟨writesAt_of_eq rfl, fun _ e _ => ?_⟩
  cases e <;> simp

theorem timely_transition (id : String) (status : StageStatus) (message : Option String) :
    (transition id status message).Timely last := by
  refine timely_bind (timely_setStatus id status message) fun execution _ => ?_
  exact timely_bind (Stages.timely_recompute _) (by simp)

theorem timely_delete (id : String) : (delete id).Timely last := by
  simp only [delete, Rows.execution?, Rows.readOne, bind_assoc, timely_ask_bind, timely_settle_bind]
  refine ⟨writesAt_of_none rfl last, fun _ execution _ => ?_⟩
  cases execution with
  | none => simp
  | some execution =>
    simp only [Rows.removeExecution, timely_ask_bind]
    refine ⟨writesAt_of_none rfl last, fun rows => ?_⟩
    split
    · simp
    · exact timely_recomputeUnless _ _ _

end Executions

theorem Request.timely (r : Request) : r.call.Timely last := by
  cases r with
  | submit submission freshId => exact timely_bind (Sessions.timely_submit _ _) (by simp)
  | get id => exact timely_bind (Sessions.timely_get _) (by simp)
  | claim worker => exact timely_bind (Sessions.timely_claimNext _) (by simp)
  | heartbeat id => exact timely_bind (Sessions.timely_heartbeat _) (by simp)
  | progress id stageIndex stageId => exact Sessions.timely_updateProgress _ _ _
  | finish id outcome => exact timely_bind (Sessions.timely_setTerminal _ _) (by simp)
  | cancel id => exact Sessions.timely_requestCancel _
  | findOrphans timeout => exact timely_bind (Orphans.timely_find _) (by simp)
  | recover observed action => exact timely_bind (Orphans.timely_recover _ _) (by simp)
  | scan timeout action => exact timely_bind (Orphans.timely_scan _ _) (by simp)
  | publish sessionId channel payload => exact timely_bind (Sessions.timely_publish _ _ _) (by simp)
  | createStage request freshId => exact timely_bind (Stages.timely_create _ _) (by simp)
  | createExecution request freshId => exact timely_bind (Executions.timely_create _ _) (by simp)
  | setStatus id status message => exact timely_bind (Executions.timely_setStatus _ _ _) (by simp)
  | transition id status message => exact timely_bind (Executions.timely_transition _ _ _) (by simp)
  | delete id => exact Executions.timely_delete _
  | recompute id => exact timely_bind (Stages.timely_recompute _) (by simp)
  | deleteSessions days => exact timely_bind (Retention.timely_deleteSessions _) (by simp)
  | purgeEvents age => exact timely_bind (Retention.timely_purgeEvents _) (by simp)
  | sweep policy => exact timely_bind (Retention.timely_sweep _) (by simp)

end

/-! ### Calls one after the other -/

namespace Pool

variable {α σ : Type} {engine : Engine σ}

/-- What was written, in this order, when these steps had been made. A call after which none has
made a step has read no time before those that were written. -/
structure Written (made : List (Nat × Instant)) (log : List (Entry σ)) (p : Pool α)
    (times : List Instant) : Prop where
  stamps : log.filterMap (·.statement.writes?) = times.map Stamp.ofInstant
  ordered : times.Pairwise (· ≤ ·)
  read : ∀ t ∈ times, ∃ x ∈ made, x.2 = t
  whole : ∀ (i : Nat) (f : Flight α), p[i]? = some f → f.call.Timely none
  rest : ∀ (i : Nat) (f : Flight α), p[i]? = some f → (∀ x ∈ made, x.1 ≤ i) →
    ∃ last, f.rest.Timely last ∧ ∀ t ∈ last, (i, t) ∈ made ∧ ∀ u ∈ times, u ≤ t

section
variable {made : List (Nat × Instant)} {log : List (Entry σ)} {p : Pool α} {times : List Instant}
  {i : Nat} {now : Instant} {f : Flight α}

theorem Written.later (h : Written made log p times) (x : Nat × Instant) :
    Written (made ++ [x]) log p times where
  stamps := h.stamps
  ordered := h.ordered
  read := fun t ht => by
    obtain ⟨y, hy, hread⟩ := h.read t ht
    exact ⟨y, List.mem_append_left _ hy, hread⟩
  whole := h.whole
  rest := fun j g hg hlast => by
    obtain ⟨last, htimely, hbounds⟩ := h.rest j g hg (List.forall_mem_append.mp hlast).1
    exact ⟨last, htimely, fun t ht => ⟨List.mem_append_left _ (hbounds t ht).1, (hbounds t ht).2⟩⟩

theorem Written.silent (h : Written made log p times) {e : Entry σ}
    (hsilent : e.statement.writes? = none) : Written made (log ++ [e]) p times :=
  { h with stamps := by simp [hsilent, h.stamps] }

/-- A call goes on, and the others stay where they are. -/
theorem Written.set (h : Written made log p times) (hf : p[i]? = some f) {rest : Call α}
    {last : Option Instant} (hrest : rest.Timely last)
    (hbounds : ∀ t ∈ last, (i, t) ∈ made ∧ ∀ u ∈ times, u ≤ t) :
    Written made log (p.set i ⟨f.call, rest⟩) times where
  stamps := h.stamps
  ordered := h.ordered
  read := h.read
  whole := fun j g hg => by
    rcases getElem?_set_cases hg with ⟨rfl, rfl⟩ | ⟨_, hold⟩
    · exact h.whole i f hf
    · exact h.whole j g hold
  rest := fun j g hg hlast => by
    rcases getElem?_set_cases hg with ⟨rfl, rfl⟩ | ⟨_, hold⟩
    · exact ⟨last, hrest, hbounds⟩
    · exact h.rest j g hold hlast

/-- What a call writes is the time that it read last, and the calls after it have read none. -/
theorem Written.write (h : Written made log p times) (hf : p[i]? = some f)
    (horder : ∀ x ∈ made, x.1 ≤ i) {t : Instant} (ht : (i, t) ∈ made) (hle : ∀ u ∈ times, u ≤ t)
    {e : Entry σ} (hwrites : e.statement.writes? = some (.ofInstant t)) {rest : Call α}
    (hrest : rest.Timely (some t)) :
    Written made (log ++ [e]) (p.set i ⟨f.call, rest⟩) (times ++ [t]) where
  stamps := by simp [h.stamps, hwrites]
  ordered := List.pairwise_append.mpr ⟨h.ordered, List.pairwise_singleton _ t, by simpa using hle⟩
  read := fun u hu => by
    rcases List.mem_append.mp hu with hold | hnew
    · exact h.read u hold
    · exact ⟨(i, t), ht, (List.mem_singleton.mp hnew).symm⟩
  whole := (h.set hf hrest fun _ htime => by cases htime; exact ⟨ht, hle⟩).whole
  rest := fun j g hg hlast => by
    rcases getElem?_set_cases hg with ⟨rfl, rfl⟩ | ⟨hne, hold⟩
    · refine ⟨some t, hrest, fun _ htime => ?_⟩
      cases htime
      refine ⟨ht, fun u hu => ?_⟩
      rcases List.mem_append.mp hu with hold | hnew
      · exact hle u hold
      · exact Int.le_of_eq (congrArg Instant.nanos (List.mem_singleton.mp hnew))
    · obtain ⟨last, htimely, hbounds⟩ := h.rest j g hold hlast
      refine ⟨last, htimely, fun u hu => ?_⟩
      -- Had this call made a step, then it would not come after the one that writes.
      exact absurd (Nat.le_antisymm (hlast _ ht) (horder _ (hbounds u hu).1)) hne

theorem Written.moves (h : Written made log p times) {st st' : σ} {p' : Pool α}
    {entry : Option (Entry σ)} (hmoves : Moves engine now i p st entry p' st')
    (horder : ∀ x ∈ made, x.1 ≤ i) (hclock : ∀ x ∈ made, x.2 ≤ now) :
    ∃ times, Written (made ++ [(i, now)]) (log ++ entry.toList) p' times := by
  cases hmoves with
  | idle => exact ⟨times, by simpa using h.later (i, now)⟩
  | ask f s next hf hrest =>
    obtain ⟨last, htimely, hbounds⟩ := h.rest i f hf horder
    rw [hrest] at htimely
    obtain ⟨hwrites, hnext⟩ := htimely
    cases hstamp : s.writes? with
    | none => exact ⟨times, ((h.set hf (hnext _) hbounds).silent hstamp).later (i, now)⟩
    | some stamp =>
      obtain ⟨t, ht, rfl⟩ := hwrites stamp hstamp
      obtain rfl : last = some t := ht
      obtain ⟨hread, hle⟩ := hbounds t rfl
      exact ⟨times ++ [t], (h.write hf horder hread hle hstamp (hnext _)).later (i, now)⟩
  | clock f next hf hrest =>
    obtain ⟨last, htimely, _⟩ := h.rest i f hf horder
    rw [hrest] at htimely
    rw [Option.toList_none, List.append_nil]
    refine ⟨times, (h.later (i, now)).set hf (htimely now) fun _ ht => ?_⟩
    cases ht
    refine ⟨List.mem_append_right _ (List.mem_singleton_self _), fun u hu => ?_⟩
    obtain ⟨x, hx, rfl⟩ := h.read u hu
    exact hclock x hx
  | again f hf hrest =>
    rw [Option.toList_none, List.append_nil]
    exact ⟨times, (h.later (i, now)).set hf (h.whole i f hf) (by simp)⟩

end

/-- Where calls are made one after the other under a clock that does not go back, the times that
they write are readings of the clock in their order. -/
theorem written_in_order (requests : List Request) {schedule : List (Nat × Instant)}
    (horder : OneByOne schedule) (hclock : schedule.Pairwise (·.2 ≤ ·.2)) : ∃ times : List Instant,
      (log Store.engine schedule (Request.pool requests) {}).filterMap (·.statement.writes?) =
        times.map Stamp.ofInstant ∧
      times.Pairwise (· ≤ ·) ∧ ∀ t ∈ times, ∃ x ∈ schedule, x.2 = t := by
  have hwritten := run_induction Store.engine schedule (Request.pool requests) {}
    (motive := fun made log p _ => OneByOne made → made.Pairwise (·.2 ≤ ·.2) →
      ∃ times, Written made log p times) ?_ ?_
  · obtain ⟨times, h⟩ := hwritten horder hclock
    exact ⟨times, h.stamps, h.ordered, h.read⟩
  · have hbegins : ∀ (i : Nat) (f : Flight (Except Failure Unit)),
        (Request.pool requests)[i]? = some f → f.call.Timely none ∧ f.rest.Timely none := by
      intro i f hf
      obtain ⟨r, _, rfl⟩ : ∃ r, requests[i]? = some r ∧ Flight.start r.call = f := by
        simpa [Request.pool] using hf
      exact ⟨r.timely, r.timely⟩
    exact fun _ _ => ⟨[], rfl, .nil, by simp, fun i f hf => (hbegins i f hf).1,
      fun i f hf _ => ⟨none, (hbegins i f hf).2, by simp⟩⟩
  · intro made log p st i now entry p' st' _ h hmoves horder hclock
    obtain ⟨hbefore, _, hlast⟩ := List.pairwise_append.mp horder
    obtain ⟨hread, _, hnow⟩ := List.pairwise_append.mp hclock
    obtain ⟨times, htimes⟩ := h hbefore hread
    exact htimes.moves hmoves (fun x hx => hlast x hx _ (List.mem_singleton_self _))
      fun x hx => hnow x hx _ (List.mem_singleton_self _)

end Pool
end AlertDesk
