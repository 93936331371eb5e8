import AlertDesk.Proofs.Replies
import AlertDesk.Proofs.StageView

/-!
Where the writes of stages come from. A call writes a stage only right after it has read the stage
and the statuses of its executions, and writes what is planned for what it read. So every write in
the log of a run can be told from the states that the two reads before it met.
-/
namespace AlertDesk

namespace Statement

def writesStage : Statement → Bool
  | .activateStage _ _ | .finalizeStage _ _ _ | .reopenStage _ _ _ _ => true
  | _ => false

def writes (id : String) : Statement → Bool
  | .activateStage i _ | .finalizeStage i _ _ | .reopenStage i _ _ _ => i == id
  | _ => false

theorem WritesStage.writes {s : Statement} {r after : StageRow} (h : WritesStage r s after) :
    s.writes r.id = true := by
  cases h with
  | activate id now hr => simp [Statement.writes, StageRow.id_of_isAt hr]
  | finalize id observed completion hr => simp [Statement.writes, StageRow.id_of_isAt hr]
  | reopen id observed status now hr => simp [Statement.writes, StageRow.id_of_isAt hr]

theorem writes_statement (stage : Stage) (change : StageChange) (now : Instant) (id : String) :
    (change.statement stage now).writes id = (stage.id == id) := by
  cases change <;> rfl

theorem onStage_of_not_writes {s : Statement} {row : StageRow} (h : s.writes row.id = false) :
    s.onStage row = row := by
  apply onStage_keeps (P := fun after => after = row) rfl
  intro after hwrites
  rw [hwrites.writes] at h
  cases h

theorem writesStage_of_writes {s : Statement} {id : String} (h : s.writes id = true) :
    s.writesStage = true := by
  cases s with
  | activateStage | finalizeStage | reopenStage => rfl
  | _ => cases h

theorem writes_of_not_writesStage {s : Statement} (h : s.writesStage = false) (id : String) :
    s.writes id = false := by
  cases hwrites : s.writes id with
  | false => rfl
  | true =>
    rw [writesStage_of_writes hwrites] at h
    cases h

/-- The statement is the write that is planned for a stage as one read met it, with the statuses
that another met. -/
def PlannedOn (clock : Instant → Prop) (look read : Pool.Entry Store) (s : Statement) : Prop :=
  ∃ row stage change now, look.statement = .findStage row.id ∧
    look.before.stage? row.id = some row ∧ row.read = .ok stage ∧
    read.statement = .topLevelStatuses row.id ∧
    StageChange.plan? stage (.of stage.policy (read.before.view row.id).answer) = some change ∧
    clock now ∧ s = change.statement stage now

end Statement

def Pool.EndsPlanned (clock : Instant → Prop) (seen : List (Pool.Entry Store)) (s : Statement) :
    Prop :=
  ∃ pre look read, seen = pre ++ [look, read] ∧ s.PlannedOn clock look read

/-- After what it has seen, the call writes a stage only as planned on its last two reads. -/
def Call.PlansWrites {α : Type} (clock : Instant → Prop) :
    List (Pool.Entry Store) → Call α → Prop
  | _, .done _ => True
  | _, .again => True
  | seen, .clock next => ∀ t, clock t → (next t).PlansWrites clock seen
  | seen, .ask s next =>
    (s.writesStage = true → Pool.EndsPlanned clock seen s) ∧
      ∀ i st, (next (Store.engine s st).1).PlansWrites clock (seen ++ [⟨i, s, st⟩])

namespace Call

variable {α β : Type} {clock : Instant → Prop} {seen es : List (Pool.Entry Store)}

theorem plansWrites_bind {c : Call α} {f : α → Call β} (hc : c.PlansWrites clock seen)
    (hf : ∀ a seen, (f a).PlansWrites clock seen) : (c.bind f).PlansWrites clock seen := by
  induction c generalizing seen with
  | done a => exact hf a seen
  | ask s next ih => exact ⟨hc.1, fun i st => ih _ (hc.2 i st)⟩
  | clock next ih => exact fun t ht => ih t (hc t ht)
  | again => trivial

theorem plansWrites_of_asks {c : Call α} (hc : c.Asks clock (·.writesStage = false)) :
    c.PlansWrites clock seen := by
  induction c generalizing seen with
  | done a => trivial
  | ask s next ih =>
    refine ⟨fun hwrites => ?_, fun i st => ih _ (hc.2 _)⟩
    rw [hc.1] at hwrites
    cases hwrites
  | clock next ih => exact fun t ht => ih t (hc t ht)
  | again => trivial

/-- Along its course a call goes on planning, also where it starts over. -/
theorem Course.plansWrites {whole c rest : Call α}
    (h : Course Store.engine clock whole c es rest) (hc : c.PlansWrites clock seen)
    (hwhole : ∀ seen, whole.PlansWrites clock seen) : rest.PlansWrites clock (seen ++ es) := by
  induction h generalizing seen with
  | stop => rwa [List.append_nil]
  | @ask s next i st es rest _ ih =>
    rw [← List.singleton_append, ← List.append_assoc]
    exact ih (hc.2 i st)
  | clock hnow _ ih => exact ih (hc _ hnow)
  | again _ ih => exact ih (hwhole seen)

end Call

namespace Service

variable {α β : Type} {clock : Instant → Prop} {seen : List (Pool.Entry Store)}

def PlansWrites (clock : Instant → Prop) (seen : List (Pool.Entry Store)) (x : Service α) : Prop :=
  Call.PlansWrites clock seen x.run

theorem plansWrites_bind {x : Service α} {f : α → Service β} (hx : x.PlansWrites clock seen)
    (hf : ∀ a seen, (f a).PlansWrites clock seen) : (x >>= f).PlansWrites clock seen := by
  apply Call.plansWrites_bind hx
  intro r seen
  cases r with
  | ok a => exact hf a seen
  | error e => trivial

theorem plansWrites_ask_bind {s : Statement} {f : s.Answer → Service β}
    (hs : s.writesStage = false) (hf : ∀ i st,
      (settle (Store.engine s st).1 >>= f).PlansWrites clock (seen ++ [⟨i, s, st⟩])) :
    PlansWrites clock seen (bind (α := no_index s.Answer) (ask s) f) := by
  refine ⟨fun hwrites => ?_, hf⟩
  rw [hs] at hwrites
  cases hwrites

theorem plansWrites_settle_bind {r : Except Failure α} {f : α → Service β}
    (hf : ∀ a, r = .ok a → (f a).PlansWrites clock seen) :
    (settle r >>= f).PlansWrites clock seen := by
  cases r with
  | ok a => exact hf a rfl
  | error e => trivial

theorem plansWrites_of_asks {x : Service α} (hx : x.Asks clock (·.writesStage = false)) :
    x.PlansWrites clock seen := Call.plansWrites_of_asks hx

end Service

open Service

variable {clock : Instant → Prop} {seen : List (Pool.Entry Store)}

namespace Stages

theorem plansWrites_get_bind {β : Type} {id : String} {f : Stage → Service β}
    (hf : ∀ i st row stage, Store.stage? st id = some row → row.read = .ok stage →
      (f stage).PlansWrites clock (seen ++ [⟨i, .findStage id, st⟩])) :
    (get id >>= f).PlansWrites clock seen := by
  simp only [get, Rows.stage?, Rows.readOne, bind_assoc]
  refine plansWrites_ask_bind rfl fun i st => plansWrites_settle_bind fun row hrow => ?_
  obtain rfl : st.stage? id = row := Except.ok.inj hrow
  refine plansWrites_settle_bind fun found hfound => ?_
  cases hstage : st.stage? id with
  | none =>
    rw [hstage] at hfound
    cases hfound
    trivial
  | some row =>
    rw [hstage] at hfound
    obtain ⟨stage, rfl, hread⟩ := of_mapM_some hfound
    exact hf i st row stage hstage hread

theorem plansWrites_get (id : String) : (get id).PlansWrites clock seen := by
  rw [← bind_pure (get id)]
  exact plansWrites_get_bind fun _ _ _ _ _ _ => trivial

theorem plansWrites_write {stage : Stage} {change : StageChange}
    (h : ∀ now, clock now → Pool.EndsPlanned clock seen (change.statement stage now)) :
    (write stage change).PlansWrites clock seen := by
  intro now hnow
  have hplanned := h now hnow
  cases change with
  | activate | reopen | finalize => exact ⟨fun _ => hplanned, fun _ _ => trivial⟩

theorem plansWrites_recomputeWithin (id : String) (attempts : Nat) :
    (recomputeWithin id attempts).PlansWrites clock seen := by
  induction attempts generalizing seen with
  | zero => exact plansWrites_get id
  | succ attempts ih =>
    refine plansWrites_get_bind fun i st row stage hrow hread => ?_
    refine plansWrites_ask_bind rfl fun j st' => plansWrites_settle_bind fun statuses hanswer => ?_
    obtain rfl : (st'.view id).answer = statuses := Except.ok.inj hanswer
    cases hplan : StageChange.plan? stage (.of stage.policy (st'.view id).answer) with
    | none => trivial
    | some change =>
      obtain rfl : row.id = id := (Store.stage?_some hrow).2
      refine plansWrites_bind (plansWrites_write fun now hnow => ?_) fun rows seen => ?_
      · exact ⟨seen, _, _, List.append_assoc .., row, stage, change, now, rfl, hrow, hread, rfl,
          hplan, hnow, rfl⟩
      · split
        · exact plansWrites_get row.id
        · exact ih

theorem plansWrites_recompute (id : String) : (recompute id).PlansWrites clock seen :=
  plansWrites_recomputeWithin id attempts

end Stages

namespace Executions

theorem plansWrites_recomputeUnless (isSubAgent : Bool) (stageId : String) {α : Type} (a : α) :
    PlansWrites clock seen (do
      if !isSubAgent then
        let _ ← Stages.recompute stageId
      return a) := by
  cases isSubAgent with
  | true => trivial
  | false => exact plansWrites_bind (Stages.plansWrites_recompute stageId) fun _ _ => trivial

theorem leavesStages_checkParent (stageId : String) (parentId : Option String) :
    (checkParent stageId parentId).Asks clock (·.writesStage = false) := by
  cases parentId with
  | none => exact asks_pure _
  | some id =>
    simp only [checkParent, Rows.execution?, Rows.readOne, bind_assoc, asks_ask_bind,
      asks_settle_bind]
    refine ⟨rfl, fun _ parent _ => ?_⟩
    cases parent with
    | none => exact asks_throw _
    | some parent =>
      simp only
      split <;> trivial

theorem plansWrites_create (request : ExecutionRequest) (freshId : String) :
    (create request freshId).PlansWrites clock seen := by
  refine plansWrites_settle_bind fun _ _ => ?_
  refine Stages.plansWrites_get_bind fun _ _ _ stage _ _ => ?_
  split
  · trivial
  · refine plansWrites_bind (plansWrites_of_asks (leavesStages_checkParent _ _)) fun _ _ => ?_
    simp only [Rows.createExecution, bind_assoc]
    refine plansWrites_ask_bind rfl fun _ _ => plansWrites_settle_bind fun _ _ => ?_
    exact plansWrites_recomputeUnless _ _ _

theorem leavesStages_setStatus (id : String) (status : StageStatus) (message : Option String) :
    (setStatus id status message).Asks clock (·.writesStage = false) := by
  simp only [setStatus, Rows.move?, Rows.readOne, bind_assoc, asks_clock_bind, asks_ask_bind,
    asks_settle_bind]
  refine fun t _ => ⟨rfl, fun _ execution _ => ?_⟩
  cases execution <;> simp

theorem plansWrites_transition (id : String) (status : StageStatus) (message : Option String) :
    (transition id status message).PlansWrites clock seen := by
  refine plansWrites_bind (plansWrites_of_asks (leavesStages_setStatus _ _ _)) fun _ _ => ?_
  exact plansWrites_bind (Stages.plansWrites_recompute _) fun _ _ => trivial

theorem plansWrites_delete (id : String) : (delete id).PlansWrites clock seen := by
  simp only [delete, Rows.execution?, Rows.readOne, bind_assoc]
  refine plansWrites_ask_bind rfl fun _ _ => plansWrites_settle_bind fun _ _ => ?_
  refine plansWrites_settle_bind fun execution _ => ?_
  cases execution with
  | none => trivial
  | some execution =>
    refine plansWrites_ask_bind rfl fun _ _ => plansWrites_settle_bind fun rows _ => ?_
    split
    · trivial
    · exact plansWrites_recomputeUnless _ _ _

end Executions

/-! ### Calls that leave stages alone -/

namespace Sessions

theorem leavesStages_get (id : String) : (get id).Asks clock (·.writesStage = false) := by
  simp only [get, Rows.session?, Rows.readOne, bind_assoc, asks_ask_bind, asks_settle_bind]
  refine ⟨rfl, fun _ s _ => ?_⟩
  cases s <;> simp

theorem leavesStages_status (id : String) : (status id).Asks clock (·.writesStage = false) := by
  simp only [status, Rows.sessionStatus?, asks_ask_bind]
  refine ⟨rfl, fun s => ?_⟩
  cases s <;> simp

theorem leavesStages_heartbeat (id : String) :
    (heartbeat id).Asks clock (·.writesStage = false) := by
  simp only [heartbeat, Rows.touch?, asks_clock_bind, asks_ask_bind]
  refine fun t _ => ⟨rfl, fun s => ?_⟩
  cases s with
  | none => exact leavesStages_status id
  | some s => exact asks_pure s

theorem leavesStages_updateProgress (id : String) (stageIndex : Int) (stageId : String) :
    (updateProgress id stageIndex stageId).Asks clock (·.writesStage = false) := by
  simp only [updateProgress, Rows.advance, asks_clock_bind, asks_ask_bind]
  refine fun t _ => ⟨rfl, fun rows => ?_⟩
  split
  · exact asks_pure _
  · exact asks_bind (leavesStages_status id) fun _ => asks_throw _

theorem leavesStages_setTerminal (id : String) (outcome : Outcome) :
    (setTerminal id outcome).Asks clock (·.writesStage = false) := by
  unfold setTerminal
  split
  · exact asks_throw _
  · simp only [Rows.endSession, asks_clock_bind, asks_ask_bind]
    refine fun t _ => ⟨rfl, fun rows => ?_⟩
    split
    · simpa only [bind_assoc] using asks_bind (leavesStages_status id) (by simp)
    · exact leavesStages_get id

theorem leavesStages_requestCancel (id : String) :
    (requestCancel id).Asks clock (·.writesStage = false) := by
  simp only [requestCancel, Rows.markCancelling, asks_ask_bind]
  refine ⟨rfl, fun rows => ?_⟩
  split
  · exact asks_pure _
  · exact asks_bind (leavesStages_status id) fun _ => asks_throw _

theorem leavesStages_claimNext (worker : String) :
    (claimNext worker).Asks clock (·.writesStage = false) := by
  unfold claimNext
  split
  · exact asks_throw _
  · simp only [Rows.oldestPending?, asks_ask_bind]
    refine ⟨rfl, fun candidate => ?_⟩
    cases candidate with
    | none => exact asks_pure _
    | some candidate =>
      simp only [Rows.claim, asks_clock_bind, asks_ask_bind]
      refine fun t _ => ⟨rfl, fun rows => ?_⟩
      split
      · exact asks_again
      · simp only [Rows.session?, Rows.readOne, bind_assoc, asks_ask_bind, asks_settle_bind]
        refine ⟨rfl, fun _ s _ => ?_⟩
        cases s <;> simp

end Sessions

namespace Orphans

theorem leavesStages_find (timeout : Nat) : (find timeout).Asks clock (·.writesStage = false) := by
  simp only [find, Rows.stale, Rows.readAll, asks_clock_bind, asks_settle_bind, asks_ask_bind,
    asks_settle, implies_true, and_true]
  exact fun _ _ _ _ => rfl

theorem leavesStages_recover (observed : Session) (action : OrphanAction) :
    (recover observed action).Asks clock (·.writesStage = false) := by
  simp only [recover, Rows.recover, asks_clock_bind]
  intro t _
  cases action with
  | report => exact asks_pure _
  | fail | requeue => exact (asks_ask_bind _ _).mpr ⟨rfl, fun _ => asks_pure _⟩

theorem leavesStages_recoverEach (action : OrphanAction) (orphans : List Session) :
    (recoverEach action orphans).Asks clock (·.writesStage = false) := by
  induction orphans with
  | nil => exact asks_pure _
  | cons observed rest ih =>
    refine asks_bind (asks_attempt (leavesStages_recover observed action)) fun _ => ?_
    exact asks_bind ih fun _ => asks_pure _

end Orphans

namespace Retention

theorem leavesStages_deleteSessions (days : Nat) :
    (deleteSessions days).Asks clock (·.writesStage = false) := by
  unfold deleteSessions
  split
  · exact asks_throw _
  · simp only [Rows.deleteExpired, asks_clock_bind, asks_settle_bind, asks_ask]
    exact fun _ _ _ _ => rfl

theorem leavesStages_purgeEvents (age : Nat) :
    (purgeEvents age).Asks clock (·.writesStage = false) := by
  simp only [purgeEvents, Rows.purge, asks_clock_bind, asks_settle_bind, asks_ask]
  exact fun _ _ _ _ => rfl

theorem leavesStages_sweep (policy : Policy) :
    (sweep policy).Asks clock (·.writesStage = false) := by
  refine asks_bind (asks_attempt (leavesStages_deleteSessions _)) fun _ => ?_
  refine asks_bind (asks_attempt (leavesStages_purgeEvents _)) fun _ => ?_
  exact asks_bind (asks_settle _) fun _ => asks_bind (asks_settle _) fun _ => asks_pure _

end Retention

/-- Whatever a request has seen before, it writes stages only as planned on what it read last. -/
theorem Request.plansWrites (r : Request) : r.replying.PlansWrites clock seen := by
  have hreply {α : Type} {x : Service α} {reply : α → Reply} {seen : List (Pool.Entry Store)}
      (hx : x.PlansWrites clock seen) :
      (x >>= fun a => pure (reply a)).PlansWrites clock seen :=
        plansWrites_bind hx fun _ _ => trivial
  cases r with
  | submit submission freshId =>
    refine hreply (plansWrites_of_asks ?_)
    simp only [Sessions.submit, Rows.createSession, asks_settle_bind, asks_clock_bind,
      asks_ask_bind]
    exact fun _ _ _ _ => ⟨rfl, fun _ => asks_pure _⟩
  | get id => exact hreply (plansWrites_of_asks (Sessions.leavesStages_get id))
  | claim worker => exact hreply (plansWrites_of_asks (Sessions.leavesStages_claimNext worker))
  | heartbeat id => exact hreply (plansWrites_of_asks (Sessions.leavesStages_heartbeat id))
  | progress id stageIndex stageId =>
    exact hreply (plansWrites_of_asks (Sessions.leavesStages_updateProgress id stageIndex stageId))
  | finish id outcome =>
    exact hreply (plansWrites_of_asks (Sessions.leavesStages_setTerminal id outcome))
  | cancel id => exact hreply (plansWrites_of_asks (Sessions.leavesStages_requestCancel id))
  | findOrphans timeout => exact hreply (plansWrites_of_asks (Orphans.leavesStages_find timeout))
  | recover observed action =>
    exact hreply (plansWrites_of_asks (Orphans.leavesStages_recover observed action))
  | scan timeout action =>
    refine hreply (plansWrites_of_asks (asks_bind (Orphans.leavesStages_find timeout) fun _ => ?_))
    exact asks_bind (Orphans.leavesStages_recoverEach action _) fun _ => asks_pure _
  | publish sessionId channel payload =>
    refine hreply (plansWrites_of_asks ?_)
    simp only [Sessions.publish, Rows.createEvent, asks_settle_bind, asks_clock_bind, asks_ask_bind]
    exact fun _ _ _ _ => ⟨rfl, fun _ => asks_pure _⟩
  | createStage request freshId =>
    refine hreply (plansWrites_of_asks ?_)
    simp only [Stages.create, Rows.sessionStatus?, asks_settle_bind, asks_ask_bind]
    refine fun _ _ => ⟨rfl, fun status => ?_⟩
    cases status with
    | none => exact asks_throw _
    | some _ => exact (asks_ask_bind _ _).mpr ⟨rfl, fun _ => asks_pure _⟩
  | createExecution request freshId => exact hreply (Executions.plansWrites_create request freshId)
  | setStatus id status message =>
    exact hreply (plansWrites_of_asks (Executions.leavesStages_setStatus id status message))
  | transition id status message =>
    exact plansWrites_bind (Executions.plansWrites_transition id status message) fun _ _ => trivial
  | delete id => exact hreply (Executions.plansWrites_delete id)
  | recompute id => exact hreply (Stages.plansWrites_recompute id)
  | deleteSessions days =>
    exact hreply (plansWrites_of_asks (Retention.leavesStages_deleteSessions days))
  | purgeEvents age => exact hreply (plansWrites_of_asks (Retention.leavesStages_purgeEvents age))
  | sweep policy => exact hreply (plansWrites_of_asks (Retention.leavesStages_sweep policy))

namespace Pool

variable {requests : List Request} {schedule : List (Nat × Instant)} {st : Store}

/-- In every run, a write of a stage is planned on the two statements that were carried out last for
its call, at a reading that the clock showed to the call. -/
theorem endsPlanned_of_log {first rest : List (Entry Store)} {e : Entry Store}
    (hlog : log Store.engine schedule (Request.replies requests) st = first ++ e :: rest)
    (hwrites : e.statement.writesStage = true) :
    EndsPlanned (fun now => (e.caller, now) ∈ schedule) (own e.caller first) e.statement := by
  have he : e ∈ log Store.engine schedule (Request.replies requests) st := by
    rw [hlog]
    exact List.mem_append_right _ List.mem_cons_self
  obtain ⟨r, hr, _⟩ := askedBy_of_mem_log he
  obtain ⟨next, hcourse⟩ := course_of_log hlog hr
  have hplans : Call.PlansWrites _ ([] ++ own e.caller first) (.ask e.statement next) :=
    hcourse.plansWrites (Request.plansWrites r) fun _ => Request.plansWrites r
  exact hplans.1 hwrites

end Pool
end AlertDesk
