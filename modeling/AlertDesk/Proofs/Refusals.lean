import AlertDesk.Proofs.Alone
import AlertDesk.Proofs.SessionCalls
import AlertDesk.Proofs.Retries

/-!
Refusals. A call that the store did not fail either succeeds or is refused, for a reason that its
answer tells. Most calls write first and look at rows afterwards, but what they look at then is a
row that their write has found or one that such a row points to, and these are there: so a call is
refused only while it has changed nothing.
-/
namespace AlertDesk

section
variable {α : Type} {st after : Store} {answer : Except Failure α} {e : Failure}

def refusal? : Except Failure α → Option Failure.Kind
  | .ok _ => none
  | .error e => if e.isRetryable then none else some e.kind

def Refused (st : Store) (why : Option Failure.Kind) (answer : Except Failure α) (after : Store) :
    Prop := refusal? answer = why ∧ (why ≠ none → after = st)

def Unharmed (st : Store) (answer : Except Failure α) (after : Store) : Prop :=
  refusal? answer ≠ none → after = st

def missing? {ρ : Type} (row : Option ρ) : Option Failure.Kind :=
  if row.isSome then none else some .notFound

theorem refusal?_of_retryable (h : e.isRetryable = true) :
    refusal? (.error e : Except Failure α) = none := by simp [refusal?, h]

theorem refusal?_of_not_retryable (h : e.isRetryable = false) :
    refusal? (.error e : Except Failure α) = some e.kind := by simp [refusal?, h]

theorem refusal?_eq_some_iff {kind : Failure.Kind} (hkind : kind.isRetryable = false) :
    refusal? answer = some kind ↔ FailsWith kind answer := by
  constructor
  · intro h
    cases answer with
    | ok a => cases h
    | error e =>
      simp only [refusal?, Option.ite_none_left_eq_some, Option.some.injEq] at h
      exact ⟨e, rfl, h.2⟩
  · intro h
    obtain ⟨e, rfl, rfl⟩ := h
    exact refusal?_of_not_retryable hkind

theorem Refused.unharmed {why : Option Failure.Kind} (h : Refused st why answer after) :
    Unharmed st answer after := by
  intro hrefused
  rw [h.1] at hrefused
  exact h.2 hrefused

theorem refused_of_none (h : refusal? answer = none) : Refused st none answer after :=
  ⟨h, fun hne => absurd rfl hne⟩

theorem unharmed_of_none (h : refusal? answer = none) : Unharmed st answer after :=
  (refused_of_none h).unharmed

theorem unharmed_same (st : Store) (answer : Except Failure α) : Unharmed st answer st :=
  fun _ => rfl

theorem refused_notFound (st : Store) (entity : Entity) (id : String) :
    Refused st (some .notFound) (.error (.notFound entity id) : Except Failure α) st :=
  ⟨rfl, fun _ => rfl⟩

end

namespace Service

variable {α β : Type} {st : Store} {why : Option Failure.Kind} {x : Service α}

/-- Whether a call is refused does not depend on what it makes of its answer. -/
theorem Yields.refused_map (h : x.Yields st (Refused st why)) (g : α → β) :
    (x >>= fun a => pure (g a)).Yields st (Refused st why) :=
  h.bind (fun _ _ hok => hok) fun _ _ herror => herror

theorem Yields.unharmed_map (h : x.Yields st (Unharmed st)) (g : α → β) :
    (x >>= fun a => pure (g a)).Yields st (Unharmed st) :=
  h.bind (fun _ _ _ => unharmed_of_none rfl) fun _ _ herror => herror

end Service

open Service

variable {β : Type} {st : Store}

/-! ### Stages -/

namespace Stages

variable {id : String} {should : Except Failure β → Store → Prop}

theorem yields_get_bind {f : Stage → Service β}
    (hmissing : st.stage? id = none → should (.error (.notFound .stage id)) st)
    (hfailed : ∀ row e, st.stage? id = some row → e.isRetryable = true → should (.error e) st)
    (hok : ∀ row stage, st.stage? id = some row → row.read = .ok stage →
      (f stage).Yields st should) :
    (get id >>= f).Yields st should := by
  simp only [get, Rows.stage?, bind_assoc]
  refine (yields_ask_of_ok (a := st.stage? id) rfl).mpr ?_
  exact yields_readOne_bind hmissing
    (fun row e hrow hread => hfailed row e hrow (StageRow.read_error hread)) hok

/-- Whatever a write finds, the stages that there were are there after it. -/
theorem yields_write_bind {f : Nat → Service β} {stage : Stage} {change : StageChange}
    (hstage : (st.stage? id).isSome = true)
    (hf : ∀ rows after, (after.stage? id).isSome = true → (f rows).Yields after should) :
    (write stage change >>= f).Yields st should := by
  simp only [write, bind_assoc]
  rw [yields_clock_bind]
  intro now
  have hafter := Statement.isSome_stage?_engine (change.statement stage now) hstage
  cases change with
  | activate => exact hf _ _ hafter
  | reopen status => exact hf _ _ hafter
  | finalize status message => exact hf _ _ hafter

/-- A look at a stage that there is can only fail for the store. -/
theorem yields_get (hstage : (st.stage? id).isSome = true) :
    (get id).Yields st fun answer _ => refusal? answer = none := by
  rw [← bind_pure (get id)]
  refine yields_get_bind (fun hnone => ?_) (fun _ _ _ he => refusal?_of_retryable he)
    fun _ _ _ _ => rfl
  rw [hnone] at hstage
  cases hstage

/-- So can its recompute, however often its writes miss. -/
theorem yields_recomputeWithin (attempts : Nat) (hstage : (st.stage? id).isSome = true) :
    (recomputeWithin id attempts).Yields st fun answer _ => refusal? answer = none := by
  induction attempts generalizing st with
  | zero => exact yields_get hstage
  | succ attempts ih =>
    refine yields_get_bind (fun hnone => ?_) (fun _ _ _ he => refusal?_of_retryable he)
      fun row stage _ _ => ?_
    · rw [hnone] at hstage
      cases hstage
    · refine (yields_ask_of_ok (Statement.engine_topLevelStatuses id st)).mpr ?_
      cases StageChange.plan? stage (.of stage.policy (st.view id).answer) with
      | none => rfl
      | some change =>
        refine yields_write_bind hstage fun rows after hafter => ?_
        split
        · exact yields_get hafter
        · exact ih hafter

theorem yields_recompute (id : String) :
    (recompute id).Yields st (Refused st (missing? (st.stage? id))) := by
  cases hrow : st.stage? id with
  | some row =>
    have hstage : (st.stage? id).isSome = true := by rw [hrow]; rfl
    exact (yields_recomputeWithin attempts hstage).imp fun _ _ => refused_of_none
  | none =>
    refine yields_get_bind (fun _ => refused_notFound st _ _) (fun row _ hsome => ?_)
      fun row _ hsome => ?_
    · rw [hrow] at hsome
      cases hsome
    · rw [hrow] at hsome
      cases hsome

/-- What is left of a call when only a stage that there is remains to be recomputed, if at all. -/
theorem yields_recomputeUnless {isSubAgent : Bool} {id : String} (h : (st.stage? id).isSome = true)
    (b : β) : Yields (do
      if !isSubAgent then
        let _ ← recompute id
      return b) st fun answer _ => refusal? answer = none := by
  cases isSubAgent with
  | true => rfl
  | false =>
    exact (yields_recomputeWithin attempts h).bind (fun _ _ _ => rfl) fun _ _ herror => herror

theorem yields_create (request : StageRequest) (freshId : String) :
    (create request freshId).Yields st (Unharmed st) := by
  unfold create
  refine yields_settle_bind (fun _ _ => ?_) fun e _ => unharmed_same st _
  refine (yields_ask_of_ok rfl).mpr ?_
  cases (st.session? request.sessionId).map (·.status) with
  | none => exact unharmed_same st _
  | some _ =>
    simp only [Rows.createStage]
    rw [yields_ask_bind]
    simp only [Store.engine, Statement.exec]
    cases st.insertStage (request.stage freshId).row with
    | error v => exact unharmed_same st _
    | ok after => exact unharmed_of_none rfl

end Stages

/-! ### Executions -/

namespace Executions

variable {id : String} {should : Except Failure β → Store → Prop}

theorem yields_checkParent_bind {stageId : String} {parentId : Option String} {f : Unit → Service β}
    (herror : ∀ e, should (.error e) st) (hok : (f ()).Yields st should) :
    (checkParent stageId parentId >>= f).Yields st should := by
  cases parentId with
  | none => exact hok
  | some id =>
    simp only [checkParent, Rows.execution?, bind_assoc]
    refine (yields_ask_of_ok (a := st.execution? id) rfl).mpr ?_
    refine yields_readOne_bind (fun _ => herror _) (fun _ e _ _ => herror e) fun _ parent _ _ => ?_
    simp only
    split
    · exact hok
    · exact herror _

/-- Once the execution is in, so is its stage. -/
theorem yields_create (request : ExecutionRequest) (freshId : String) :
    (create request freshId).Yields st (Unharmed st) := by
  unfold create
  refine yields_settle_bind (fun _ _ => ?_) fun e _ => unharmed_same st _
  refine Stages.yields_get_bind (fun _ => unharmed_same st _) (fun _ _ _ _ => unharmed_same st _)
    fun row stage _ _ => ?_
  split
  · exact unharmed_same st _
  · refine yields_checkParent_bind (fun _ => unharmed_same st _) ?_
    simp only [Rows.createExecution, bind_assoc]
    rw [yields_ask_bind]
    cases hinsert : st.insertExecution (request.execution freshId).row with
    | error v =>
      simp only [Store.engine, Statement.exec, hinsert]
      exact unharmed_same st _
    | ok after =>
      obtain ⟨hadmits, hafter⟩ := Store.insertExecution_ok hinsert
      simp only [Store.admitsExecution, Bool.and_eq_true] at hadmits
      have hstage : (after.stage? (request.execution freshId).stageId).isSome = true := by
        rw [hafter]
        exact hadmits.1.1.2
      simp only [Store.engine, Statement.exec, hinsert, Except.map, settle_ok, pure_bind]
      exact (Stages.yields_recomputeUnless hstage _).imp fun _ _ => unharmed_of_none

/-- A move answers with the execution that it has moved, if that can be read. -/
theorem yields_setStatus_bind {status : StageStatus} {message : Option String}
    {f : Execution → Service β}
    (hmissing : st.execution? id = none → should (.error (.notFound .execution id)) st)
    (hfailed : ∀ row e after, st.execution? id = some row → e.isRetryable = true →
      should (.error e) after)
    (hok : ∀ row execution s, st.execution? id = some row → execution.stageId = row.stageId →
      (f execution).Yields (Store.engine s st).2 should) :
    (setStatus id status message >>= f).Yields st should := by
  simp only [setStatus, Rows.move?, bind_assoc]
  rw [yields_clock_bind]
  intro now
  refine (yields_ask_of_ok
    (a := (st.execution? id).map (ExecutionRow.moved status message (.ofInstant now))) rfl).mpr ?_
  refine yields_readOne_bind (fun hnone => ?_) (fun after e hafter hread => ?_)
    fun after execution hafter hread => ?_
  · rw [Option.map_eq_none_iff] at hnone
    rw [Store.changeWhere_eq_self (List.find?_eq_none.mp hnone)]
    exact hmissing hnone
  · obtain ⟨row, hrow, _⟩ := Option.map_eq_some_iff.mp hafter
    exact hfailed row e _ hrow (ExecutionRow.read_error hread)
  · obtain ⟨row, hrow, rfl⟩ := Option.map_eq_some_iff.mp hafter
    have hstage : execution.stageId = row.stageId := (ExecutionRow.read_ok hread).2.1
    exact hok row execution (.moveExecution id status message (.ofInstant now)) hrow hstage

theorem yields_setStatus (id : String) (status : StageStatus) (message : Option String) :
    (setStatus id status message).Yields st (Refused st (missing? (st.execution? id))) := by
  rw [← bind_pure (setStatus id status message)]
  refine yields_setStatus_bind (fun hnone => ?_) (fun row e after hrow he => ?_)
    fun row execution s hrow _ => ?_
  · rw [hnone]
    exact refused_notFound st _ _
  · rw [hrow]
    exact refused_of_none (refusal?_of_retryable he)
  · rw [hrow]
    exact refused_of_none rfl

/-- The stage of an execution is there, and stays. -/
theorem isSome_stage? (hst : st.Housed) {row : ExecutionRow} (hrow : st.execution? id = some row)
    (s : Statement) : ((Store.engine s st).2.stage? row.stageId).isSome = true :=
  Statement.isSome_stage?_engine s (hst row (Store.execution?_some hrow).1)

theorem yields_transition (hst : st.Housed) (id : String) (status : StageStatus)
    (message : Option String) :
    (transition id status message).Yields st (Refused st (missing? (st.execution? id))) := by
  refine yields_setStatus_bind (fun hnone => ?_) (fun row e after hrow he => ?_)
    fun row execution s hrow hstage => ?_
  · rw [hnone]
    exact refused_notFound st _ _
  · rw [hrow]
    exact refused_of_none (refusal?_of_retryable he)
  · rw [hrow]
    have hthere := isSome_stage? hst hrow s
    rw [← hstage] at hthere
    exact (Stages.yields_recomputeWithin Stages.attempts hthere).bind
      (fun _ _ _ => refused_of_none rfl) fun e after herror => refused_of_none herror

theorem yields_delete (hst : st.Housed) (id : String) :
    (delete id).Yields st (Refused st (missing? (st.execution? id))) := by
  simp only [delete, Rows.execution?, bind_assoc]
  refine (yields_ask_of_ok (a := st.execution? id) rfl).mpr ?_
  refine yields_readOne_bind (fun hnone => ?_) (fun row e hrow hread => ?_)
    fun row execution hrow hread => ?_
  · rw [hnone]
    exact refused_notFound st _ _
  · rw [hrow]
    exact refused_of_none (refusal?_of_retryable (ExecutionRow.read_error hread))
  · have hone : Store.engine (.removeExecution id) st =
        (.ok (1 : Nat), (Store.engine (.removeExecution id) st).2) := by
      simp only [Store.engine, Statement.exec, Store.removeExecution, hrow]
    have hthere := isSome_stage? hst hrow (.removeExecution id)
    rw [← (ExecutionRow.read_ok hread).2.1] at hthere
    rw [hrow]
    refine (yields_ask_of_ok hone).mpr ?_
    exact (Stages.yields_recomputeUnless hthere ()).imp fun _ _ => refused_of_none

end Executions

/-! ### Sessions -/

theorem SessionStatus.isLive_eq_false_iff {s : SessionStatus} :
    s.isLive = false ↔ s ≠ .inProgress ∧ s ≠ .cancelling := by cases s <;> simp [isLive]

namespace Sessions

theorem yields_submit (submission : Submission) (freshId : String) :
    (submit submission freshId).Yields st (Unharmed st) := by
  unfold submit
  refine yields_settle_bind (fun _ _ => ?_) fun e _ => unharmed_same st _
  rw [yields_clock_bind]
  intro now
  simp only [Rows.createSession]
  rw [yields_ask_bind]
  simp only [Store.engine, Statement.exec]
  cases st.insertSession (submission.session freshId now).row with
  | error v => exact unharmed_same st _
  | ok after => exact unharmed_of_none rfl

theorem yields_publish (sessionId : Option String) (channel : String) (payload : Json) :
    (publish sessionId channel payload).Yields st (Unharmed st) := by
  simp only [publish, Rows.createEvent]
  rw [yields_clock_bind]
  intro now
  refine yields_settle_bind (fun _ _ => ?_) fun e _ => unharmed_same st _
  exact (yields_ask_of_ok rfl).mpr (unharmed_of_none rfl)

/-- Nobody can take the candidate away, so the claim finds it and is not begun again. -/
theorem yields_claimNext (hst : st.Keyed) (worker : String) :
    (claimNext worker).Yields st (Unharmed st) := by
  unfold claimNext
  split
  · exact unharmed_same st _
  · refine (yields_ask_of_ok rfl).mpr ?_
    cases hfirst : SessionRow.first? (st.sessions.filter (·.isClaimable)) with
    | none => exact unharmed_same st _
    | some r =>
      obtain ⟨hmem, hclaimable⟩ := List.mem_filter.mp (SessionRow.first?_spec hfirst).1
      have hone : (st.sessions.countP fun x => x.id == r.id && x.isClaimable) = 1 :=
        (Store.countP_session hst r.id _).mpr (List.any_eq_true.mpr ⟨r, hmem, by simp [hclaimable]⟩)
      simp only [Option.map_some, Rows.claim]
      rw [yields_clock_bind]
      intro now
      have hthere := Store.session?_engine_of_some (.claimSession r.id worker (.ofInstant now))
        (Store.session?_of_mem hst hmem)
      have hclaimed : Store.engine (.claimSession r.id worker (.ofInstant now)) st =
          (.ok (1 : Nat), (Store.engine (.claimSession r.id worker (.ofInstant now)) st).2) := by
        simp only [Store.engine, Statement.exec, Store.changeSessions, hone]
      refine (yields_ask_of_ok hclaimed).mpr ?_
      simp only [bne_self_eq_false, Bool.false_eq_true, if_false, Rows.session?, bind_assoc]
      refine (yields_ask_of_ok (a := Store.session? _ r.id) rfl).mpr ?_
      refine yields_readOne_bind (fun hnone => ?_) (fun _ e _ hread => ?_) fun _ _ _ _ => ?_
      · rw [hthere] at hnone
        cases hnone
      · exact unharmed_of_none (refusal?_of_retryable (SessionRow.read_error hread))
      · exact unharmed_of_none rfl

end Sessions

namespace Request

variable {id : String} {r : Request}

/-- Why a request for one session is refused: it is missing, or it stands where the request is not
made for it. -/
def refusedFor (id : String) (st : Store) (r : Request) : Option Failure.Kind :=
  match st.session? id with
  | none => some .notFound
  | some row => if r.accepts row.status then none else refusal? (r.refusal id row.status)

theorem refusedFor_eq_notFound_iff :
    r.refusedFor id st = some .notFound ↔ st.session? id = none := by
  rw [refusedFor]
  cases st.session? id with
  | none => simp
  | some row =>
    simp only [reduceCtorEq, iff_false]
    split
    · simp
    · cases r <;>
        simp [refusal, refusal?, Failure.kind, Failure.isRetryable, Failure.Kind.isRetryable]

theorem refusedFor_eq_some_iff {kind : Failure.Kind} (hkind : kind ≠ .notFound)
    (hrefusal : ∀ s, refusal? (r.refusal id s) = some kind) : r.refusedFor id st = some kind ↔
      ∃ row, st.session? id = some row ∧ r.accepts row.status = false := by
  rw [refusedFor]
  cases st.session? id with
  | none => simp [hkind.symm]
  | some row =>
    cases haccepts : r.accepts row.status with
    | true => simp [haccepts]
    | false => simp [haccepts, hrefusal]

theorem yields_next (hid : r.Handles id) {mid : Store}
    {should : Except Failure Reply → Store → Prop} : (r.next id st).Yields mid should ↔
      should (r.answer id (r.reached? id st) (mid.session? id)) mid := by
  rw [next]
  cases hreached : r.reached? id st with
  | none =>
    rw [onMiss_eq]
    rfl
  | some row =>
    cases r with
    | finish id' outcome =>
      obtain rfl : id' = id := hid
      change Yields ((finish id' outcome).onHit id' row) mid should ↔ _
      rw [onHit_finish_eq]
      rfl
    | _ => rfl

/-- The look after the write shows the row that the write has met. -/
theorem refused_answer (hst : st.Keyed) {clock : Instant → Prop} {w : Statement}
    (hw : r.Writes clock id w) : Refused st (r.refusedFor id st)
      (r.answer id (r.reached? id st) ((Store.engine w st).2.session? id))
      (Store.engine w st).2 := by
  cases hreached : r.reached? id st with
  | none =>
    rw [engine_eq_self hst hw hreached]
    refine ⟨?_, fun _ => rfl⟩
    cases hrow : st.session? id with
    | none =>
      rw [refusedFor, hrow]
      rfl
    | some row =>
      rw [refusedFor, hrow]
      simp only [accepts_eq_false hreached hrow, Bool.false_eq_true, if_false]
      rfl
  | some row =>
    obtain ⟨hrow, haccepts⟩ := reached?_eq_some.mp hreached
    have hwhy : r.refusedFor id st = none := by simp [refusedFor, hrow, haccepts]
    rw [hwhy, Store.session?_engine_of_some w hrow]
    refine refused_of_none ?_
    cases r with
    | finish id' outcome =>
      cases hread : (w.onSession row).read with
      | ok s =>
        rw [answer, Option.elim_some, hread]
        rfl
      | error e =>
        rw [answer, Option.elim_some, hread]
        exact refusal?_of_retryable (SessionRow.read_error hread)
    | _ => rfl

/-- A request to end a session in a status in which sessions end comes to its write. -/
theorem replying_finish_ne {outcome : Outcome} (hterminal : outcome.status.isTerminal = true)
    (e : Failure) : (finish id outcome).replying ≠ throw e := by
  intro h
  have hquiet : (finish id outcome).replying.AsksOnly fun _ => False := by
    rw [h]
    exact trivial
  simp only [replying, Sessions.setTerminal, hterminal, Bool.not_true, Bool.false_eq_true, if_false,
    bind_assoc] at hquiet
  exact (hquiet ⟨0⟩).1

theorem yields_handled (hid : r.Handles id) (hst : st.Keyed)
    (hterminal : ∀ id outcome, r = .finish id outcome → outcome.status.isTerminal = true) :
    r.replying.Yields st (Refused st (r.refusedFor id st)) := by
  cases opens hid with
  | refused outcome hr hthrow =>
    rw [hr] at hthrow
    exact absurd hthrow (replying_finish_ne (hterminal id outcome hr) _)
  | writes w k hask hw hk =>
    rw [hask, yields_ask_bind, hk st hst, yields_next hid]
    exact refused_answer hst (hw fun _ => True)
  | dated w k hask hw hk =>
    rw [hask, yields_clock_bind]
    intro now
    rw [yields_ask_bind, hk now st hst, yields_next hid]
    exact refused_answer hst (hw (fun _ => True) now trivial)

/-! ### All of them -/

/-- The request asks for one thing to be done. The others look at the store or keep it in order. -/
def isOrder : Request → Bool
  | .get _ | .findOrphans _ | .recover _ _ | .scan _ _ | .deleteSessions _ | .purgeEvents _
  | .sweep _ => false
  | _ => true

/-- The row that the request names by its id and cannot do without. A request to end a session in a
status in which sessions do not end is refused before the session matters. -/
def names? : Request → Option (Entity × String)
  | .heartbeat id | .progress id _ _ | .cancel id => some (.session, id)
  | .finish id outcome => if outcome.status.isTerminal then some (.session, id) else none
  | .setStatus id _ _ | .transition id _ _ | .delete id => some (.execution, id)
  | .recompute id => some (.stage, id)
  | _ => none

end Request

def Store.has (st : Store) : Entity → String → Bool
  | .session, id => (st.session? id).isSome
  | .stage, id => (st.stage? id).isSome
  | .execution, id => (st.execution? id).isSome

namespace Request

def whyRefused (st : Store) (r : Request) : Entity × String → Option Failure.Kind
  | (.session, id) => r.refusedFor id st
  | (.stage, id) => missing? (st.stage? id)
  | (.execution, id) => missing? (st.execution? id)

variable {r : Request} {named : Entity × String}

theorem yields_named (hst : st.Keyed) (hhoused : st.Housed) (hnamed : r.names? = some named) :
    r.replying.Yields st (Refused st (r.whyRefused st named)) := by
  cases r with
  | heartbeat id =>
    cases hnamed
    exact yields_handled rfl hst fun _ _ h => by cases h
  | progress id stageIndex stageId =>
    cases hnamed
    exact yields_handled rfl hst fun _ _ h => by cases h
  | cancel id =>
    cases hnamed
    exact yields_handled rfl hst fun _ _ h => by cases h
  | finish id outcome =>
    simp only [names?, Option.ite_none_right_eq_some, Option.some.injEq] at hnamed
    obtain ⟨hterminal, rfl⟩ := hnamed
    refine yields_handled rfl hst fun _ _ h => ?_
    cases h
    exact hterminal
  | setStatus id status message =>
    cases hnamed
    exact (Executions.yields_setStatus id status message).refused_map _
  | transition id status message =>
    cases hnamed
    exact (Executions.yields_transition hhoused id status message).refused_map _
  | delete id =>
    cases hnamed
    exact (Executions.yields_delete hhoused id).refused_map _
  | recompute id =>
    cases hnamed
    exact (Stages.yields_recompute id).refused_map _
  | _ => cases hnamed

theorem yields_order (hst : st.Keyed) (hhoused : st.Housed) (hr : r.isOrder = true) :
    r.replying.Yields st (Unharmed st) := by
  cases hnamed : r.names? with
  | some named => exact (yields_named hst hhoused hnamed).imp fun _ _ => Refused.unharmed
  | none =>
    cases r with
    | submit submission freshId => exact (Sessions.yields_submit _ _).unharmed_map _
    | claim worker => exact (Sessions.yields_claimNext hst _).unharmed_map _
    | publish sessionId channel payload => exact (Sessions.yields_publish _ _ _).unharmed_map _
    | createStage request freshId => exact (Stages.yields_create _ _).unharmed_map _
    | createExecution request freshId => exact (Executions.yields_create _ _).unharmed_map _
    | finish id outcome =>
      simp only [names?, ite_eq_right_iff, reduceCtorEq, imp_false, Bool.not_eq_true] at hnamed
      simp only [replying, Sessions.setTerminal, hnamed]
      exact unharmed_same st _
    | heartbeat | progress | cancel | setStatus | transition | delete | recompute => cases hnamed
    | get | findOrphans | recover | scan | deleteSessions | purgeEvents | sweep => cases hr

theorem whyRefused_eq_notFound_iff :
    r.whyRefused st named = some .notFound ↔ st.has named.1 named.2 = false := by
  obtain ⟨entity, id⟩ := named
  cases entity with
  | session =>
    rw [whyRefused, refusedFor_eq_notFound_iff]
    simp [Store.has]
  | stage => simp [whyRefused, missing?, Store.has]
  | execution => simp [whyRefused, missing?, Store.has]

/-- A request made alone, whatever the store and the clock, comes to an answer. If it is refused,
the store is as it was. If it names a row, it is not found exactly when there is no such row; and a
request to stop a session, to note its progress or to end it is turned down for its status exactly
when the session is there and stands otherwise. -/
theorem orders_refused_exactly {clock : Instant → Prop} {st : Store} (hst : st.Reached clock)
    {r : Request} (hr : r.isOrder = true) (readings : Nat → Instant) :
    ∃ answer after, r.replying.alone readings st = (some answer, after) ∧
      (∀ e, answer = .error e → e.isRetryable = false → after = st) ∧
      (∀ entity id, r.names? = some (entity, id) →
        (FailsWith .notFound answer ↔ st.has entity id = false)) ∧
      (∀ id, r = .cancel id → (FailsWith .notCancellable answer ↔
        ∃ row, st.session? id = some row ∧ row.status ≠ .inProgress)) ∧
      (∀ id stageIndex stageId, r = .progress id stageIndex stageId →
        (FailsWith .invalidTransition answer ↔
          ∃ row, st.session? id = some row ∧ row.status ≠ .inProgress)) ∧
      ∀ id outcome, r = .finish id outcome → outcome.status.isTerminal = true →
        (FailsWith .invalidTransition answer ↔ ∃ row, st.session? id = some row ∧
          row.status ≠ .inProgress ∧ row.status ≠ .cancelling) := by
  obtain ⟨answer, after, halone, hunharmed⟩ :=
    (yields_order hst.keyed hst.housed hr).alone readings
  have hwhy {entity : Entity} {id : String} (hnamed : r.names? = some (entity, id)) :
      refusal? answer = r.whyRefused st (entity, id) :=
    ((yields_named hst.keyed hst.housed hnamed).of_alone halone).1
  refine ⟨answer, after, halone, fun e he hretry => ?_, fun entity id hnamed => ?_,
    fun id hid => ?_, fun id stageIndex stageId hid => ?_, fun id outcome hid hterminal => ?_⟩
  · apply hunharmed
    rw [he, refusal?_of_not_retryable hretry]
    simp
  · rw [← refusal?_eq_some_iff rfl, hwhy hnamed]
    exact whyRefused_eq_notFound_iff
  · subst hid
    rw [← refusal?_eq_some_iff rfl, hwhy rfl, whyRefused,
      refusedFor_eq_some_iff (by simp) fun _ => rfl]
    simp [accepts]
  · subst hid
    rw [← refusal?_eq_some_iff rfl, hwhy rfl, whyRefused,
      refusedFor_eq_some_iff (by simp) fun _ => rfl]
    simp [accepts]
  · subst hid
    have hnamed : (finish id outcome).names? = some (.session, id) := if_pos hterminal
    rw [← refusal?_eq_some_iff rfl, hwhy hnamed, whyRefused,
      refusedFor_eq_some_iff (by simp) fun _ => rfl]
    simp [accepts, SessionStatus.isLive_eq_false_iff]

/-- Nobody has claimed the session, so it cannot be asked to stop. -/
theorem waiting_session_refuses_cancel :
    ∃ answer, (cancel "s").replying.alone (fun _ => ⟨0⟩) (OneExecution.store .active) =
      (some answer, OneExecution.store .active) ∧ FailsWith .notCancellable answer := by
  have hreached : (OneExecution.store .active).Reached fun _ => True :=
    OneExecution.reached_store .active trivial
  obtain ⟨answer, after, halone, hsame, _, hcancel, _⟩ :=
    orders_refused_exactly hreached (r := .cancel "s") rfl fun _ => ⟨0⟩
  have hwaits : ((OneExecution.store .active).session? "s").map (·.status) = some .pending := by
    decide +kernel
  obtain ⟨row, hrow, hstatus⟩ := Option.map_eq_some_iff.mp hwaits
  obtain ⟨e, he, hkind⟩ := (hcancel "s" rfl).mpr ⟨row, hrow, by simp [hstatus]⟩
  have hretry : e.isRetryable = false := by rw [Failure.isRetryable, hkind]; rfl
  rw [hsame e he hretry] at halone
  exact ⟨answer, halone, e, he, hkind⟩

end Request
end AlertDesk
