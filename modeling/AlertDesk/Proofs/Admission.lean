import AlertDesk.Proofs.RecomputeAlone
import AlertDesk.Proofs.Refusals

/-!
Which executions are created. A request is granted exactly when it is in order, its stage and its
parent are there and fit together, and its index is free among its siblings; otherwise it is refused
for the first of these conditions that fails, and leaves the store as it was.
-/
namespace AlertDesk

def firstBroken : List (Bool × Failure) → Option Failure
  | [] => none
  | (holds, failure) :: rest => if holds then firstBroken rest else some failure

theorem firstBroken_append (first rest : List (Bool × Failure)) :
    firstBroken (first ++ rest) = (firstBroken first).or (firstBroken rest) := by
  induction first with
  | nil => rfl
  | cons condition first ih =>
    obtain ⟨holds, failure⟩ := condition
    rw [List.cons_append, firstBroken, firstBroken]
    cases holds with
    | true => exact ih
    | false => rfl

theorem firstBroken_eq_none_iff {conditions : List (Bool × Failure)} :
    firstBroken conditions = none ↔ ∀ condition ∈ conditions, condition.1 = true := by
  induction conditions with
  | nil => simp [firstBroken]
  | cons condition conditions ih =>
    obtain ⟨holds, failure⟩ := condition
    rw [firstBroken, List.forall_mem_cons]
    cases holds with
    | true => simpa using ih
    | false => simp

theorem mem_of_firstBroken {conditions : List (Bool × Failure)} {e : Failure}
    (h : firstBroken conditions = some e) : (false, e) ∈ conditions := by
  induction conditions with
  | nil => cases h
  | cons condition conditions ih =>
    obtain ⟨holds, failure⟩ := condition
    rw [firstBroken] at h
    cases holds with
    | true => exact List.mem_cons_of_mem _ (ih h)
    | false =>
      cases h
      exact List.mem_cons_self

/-- Rules on the fields of an input are such conditions. -/
theorem checkAll_eq (rules : List (Bool × String × Invalid)) : checkAll rules =
    match firstBroken (rules.map fun rule => (rule.1, .validation rule.2.1 rule.2.2)) with
    | some failure => .error failure
    | none => .ok () := by
  induction rules with
  | nil => rfl
  | cons rule rules ih =>
    obtain ⟨holds, field, invalid⟩ := rule
    cases holds with
    | true => exact ih
    | false => rfl

namespace ExecutionRequest

variable {st : Store} {r : ExecutionRequest}

def inOrder (r : ExecutionRequest) : List (Bool × Failure) := [
  (!Text.isBlank r.stageId, .validation "stage_id" .required),
  (!Text.isBlank r.sessionId, .validation "session_id" .required),
  (!Text.isBlank r.agentName, .validation "agent_name" .required),
  (!Text.isBlank r.llmBackend, .validation "llm_backend" .required),
  (decide (1 ≤ r.agentIndex), .validation "agent_index" .lessThanOne),
  (r.parentId.isNone || r.task.any (!Text.isBlank ·), .validation "task" .subAgentWithoutTask),
  (r.parentId.isSome || r.task.isNone, .validation "task" .taskWithoutParent)]

def onStage (st : Store) (r : ExecutionRequest) : List (Bool × Failure) := [
  ((st.stage? r.stageId).isSome, .notFound .stage r.stageId),
  ((st.stage? r.stageId).all (·.sessionId == r.sessionId), .validation "session_id" .foreignStage)]

def underParent (st : Store) (r : ExecutionRequest) : List (Bool × Failure) :=
  match r.parentId with
  | none => []
  | some p => [
    ((st.execution? p).isSome, .validation "parent_execution_id" (.unknownParent p)),
    ((st.execution? p).all (·.stageId == r.stageId),
      .validation "parent_execution_id" .foreignParent)]

/-- The executions that must not have its index. -/
def siblings (st : Store) (r : ExecutionRequest) : List ExecutionRow :=
  match r.parentId with
  | none => st.executions.filter (·.isTopLevelOf r.stageId)
  | some p => st.executions.filter (·.parentId == some p)

def amongSiblings (st : Store) (r : ExecutionRequest) : List (Bool × Failure) := [
  (!(r.siblings st).any (·.agentIndex == r.agentIndex),
    .store (.violation (if r.parentId.isSome then .subAgentIndex else .topLevelIndex)))]

def refusal? (st : Store) (r : ExecutionRequest) : Option Failure :=
  firstBroken (r.inOrder ++ r.onStage st ++ r.underParent st ++ r.amongSiblings st)

structure Admissible (st : Store) (r : ExecutionRequest) : Prop where
  stageId : Text.isBlank r.stageId = false
  sessionId : Text.isBlank r.sessionId = false
  agentName : Text.isBlank r.agentName = false
  llmBackend : Text.isBlank r.llmBackend = false
  agentIndex : 1 ≤ r.agentIndex
  task : if r.parentId.isSome then ∃ task, r.task = some task ∧ Text.isBlank task = false
    else r.task = none
  stage : ∃ row, st.stage? r.stageId = some row ∧ row.sessionId = r.sessionId
  parent : ∀ p, r.parentId = some p → ∃ row, st.execution? p = some row ∧ row.stageId = r.stageId
  index : ∀ e ∈ r.siblings st, e.agentIndex ≠ r.agentIndex

theorem inOrder_iff : firstBroken r.inOrder = none ↔
    Text.isBlank r.stageId = false ∧ Text.isBlank r.sessionId = false ∧
      Text.isBlank r.agentName = false ∧ Text.isBlank r.llmBackend = false ∧ 1 ≤ r.agentIndex ∧
      if r.parentId.isSome then ∃ task, r.task = some task ∧ Text.isBlank task = false
      else r.task = none := by
  rw [firstBroken_eq_none_iff]
  simp only [inOrder, List.forall_mem_cons, List.not_mem_nil, false_implies, implies_true, and_true,
    Bool.not_eq_true', decide_eq_true_eq]
  refine and_congr_right fun _ => and_congr_right fun _ => and_congr_right fun _ =>
    and_congr_right fun _ => and_congr_right fun _ => ?_
  cases r.parentId with
  | none => simp
  | some p => simp [Option.any_eq_true]

theorem onStage_iff : firstBroken (r.onStage st) = none ↔
    ∃ row, st.stage? r.stageId = some row ∧ row.sessionId = r.sessionId := by
  rw [firstBroken_eq_none_iff, onStage]
  cases st.stage? r.stageId with
  | none => simp
  | some row => simp

theorem underParent_iff : firstBroken (r.underParent st) = none ↔ ∀ p, r.parentId = some p →
    ∃ row, st.execution? p = some row ∧ row.stageId = r.stageId := by
  rw [firstBroken_eq_none_iff, underParent]
  cases r.parentId with
  | none => simp
  | some p => cases hrow : st.execution? p <;> simp [hrow]

theorem amongSiblings_iff : firstBroken (r.amongSiblings st) = none ↔
    ∀ e ∈ r.siblings st, e.agentIndex ≠ r.agentIndex := by
  rw [firstBroken_eq_none_iff, amongSiblings]
  simp

theorem refusal?_eq_none_iff : r.refusal? st = none ↔ r.Admissible st := by
  rw [refusal?, firstBroken_append, firstBroken_append, firstBroken_append, Option.or_eq_none_iff,
    Option.or_eq_none_iff, Option.or_eq_none_iff, inOrder_iff, onStage_iff, underParent_iff,
    amongSiblings_iff]
  constructor
  · intro h
    obtain ⟨⟨⟨⟨hstageId, hsessionId, hname, hbackend, hindex, htask⟩, hstage⟩, hparent⟩, hfree⟩ := h
    exact ⟨hstageId, hsessionId, hname, hbackend, hindex, htask, hstage, hparent, hfree⟩
  · intro h
    exact ⟨⟨⟨⟨h.stageId, h.sessionId, h.agentName, h.llmBackend, h.agentIndex, h.task⟩, h.stage⟩,
      h.parent⟩, h.index⟩

/-- No failure of the store is among the conditions. -/
theorem refusal?_not_retryable {e : Failure} (h : r.refusal? st = some e) :
    e.isRetryable = false := by
  have hmem := mem_of_firstBroken h
  simp only [List.mem_append] at hmem
  rcases hmem with ((horder | hstage) | hparent) | hindex
  · simp only [inOrder, List.mem_cons, List.not_mem_nil, or_false, Prod.mk.injEq] at horder
    rcases horder with ⟨_, rfl⟩ | ⟨_, rfl⟩ | ⟨_, rfl⟩ | ⟨_, rfl⟩ | ⟨_, rfl⟩ | ⟨_, rfl⟩ | ⟨_, rfl⟩
    all_goals rfl
  · simp only [onStage, List.mem_cons, List.not_mem_nil, or_false, Prod.mk.injEq] at hstage
    rcases hstage with ⟨_, rfl⟩ | ⟨_, rfl⟩
    all_goals rfl
  · cases hp : r.parentId with
    | none => simp [underParent, hp] at hparent
    | some p =>
      simp only [underParent, hp, List.mem_cons, List.not_mem_nil, or_false,
        Prod.mk.injEq] at hparent
      rcases hparent with ⟨_, rfl⟩ | ⟨_, rfl⟩
      all_goals rfl
  · simp only [amongSiblings, List.mem_singleton, Prod.mk.injEq] at hindex
    rw [hindex.2]
    split
    · rfl
    · rfl

/-- The execution has the columns that the request gives it and an id that nothing had before; it
waits to be started, and has no times and no error. -/
structure Fulfilled {τ : Type} (r : ExecutionRequest) (freshId : String) (e : ExecutionOf τ) :
    Prop where
  id : e.id = freshId
  stageId : e.stageId = r.stageId
  sessionId : e.sessionId = r.sessionId
  agentName : e.agentName = r.agentName
  agentIndex : e.agentIndex = r.agentIndex
  parentId : e.parentId = r.parentId
  task : e.task = r.task
  llmBackend : e.llmBackend = r.llmBackend
  llmProvider : e.llmProvider = r.llmProvider
  status : e.status = .pending
  startedAt : e.startedAt = none
  completedAt : e.completedAt = none
  durationMs : e.durationMs = none
  errorMessage : e.errorMessage = none

theorem fulfilled_execution (r : ExecutionRequest) (freshId : String) :
    r.Fulfilled freshId (r.execution freshId) := by
  constructor <;> rfl

/-- To store an execution changes its times alone. -/
theorem Fulfilled.map {τ υ : Type} {e : ExecutionOf τ} {freshId : String}
    (h : r.Fulfilled freshId e) (f : τ → υ) : r.Fulfilled freshId (e.map f) where
  id := h.id
  stageId := h.stageId
  sessionId := h.sessionId
  agentName := h.agentName
  agentIndex := h.agentIndex
  parentId := h.parentId
  task := h.task
  llmBackend := h.llmBackend
  llmProvider := h.llmProvider
  status := h.status
  startedAt := by rw [ExecutionOf.map, h.startedAt, Option.map_none]
  completedAt := by rw [ExecutionOf.map, h.completedAt, Option.map_none]
  durationMs := h.durationMs
  errorMessage := h.errorMessage

theorem check_eq : r.check =
    match firstBroken r.inOrder with
    | some failure => .error failure
    | none => .ok () := checkAll_eq _

/-- A row for the request competes for its index with the siblings of the request. -/
theorem indexTaken_row (freshId : String) : st.indexTaken (r.execution freshId).row =
    (r.siblings st).any (·.agentIndex == r.agentIndex) := by
  have hparent : (r.execution freshId).row.parentId = r.parentId := rfl
  rw [Store.indexTaken, siblings]
  cases hp : r.parentId with
  | none =>
    rw [List.any_filter]
    refine List.any_congr rfl fun e => ?_
    rw [Store.sameScope, hparent, hp, ExecutionRow.isTopLevelOf]
    cases e.parentId <;> simp [ExecutionRequest.execution, Execution.row, ExecutionOf.map]
  | some p =>
    rw [List.any_filter]
    refine List.any_congr rfl fun e => ?_
    rw [Store.sameScope, hparent, hp]
    cases e.parentId <;> simp [ExecutionRequest.execution, Execution.row, ExecutionOf.map]

end ExecutionRequest

def Store.grown (st : Store) (new : ExecutionRow) : Store :=
  { st with executions := st.executions ++ [new] }

open Service

namespace Stages

variable {β : Type} {st : Store} {id : String} {readings : Nat → Instant}

theorem alone_get_bind_of_none {f : Stage → Service β} (hnone : st.stage? id = none) :
    (get id >>= f).alone readings st = (some (.error (.notFound .stage id)), st) := by
  simp only [get, Rows.stage?, Rows.readOne, bind_assoc]
  rw [alone_ask_bind]
  change ((settle (.ok (st.stage? id)) >>= _).alone readings st) = _
  rw [hnone]
  rfl

end Stages

namespace Executions

variable {β : Type} {st : Store} {r : ExecutionRequest} {freshId : String}
  {readings : Nat → Instant} {P : Option (Except Failure β) × Store → Prop}

/-- The parent that is named is wrong, or cannot be read, or the call goes on. -/
theorem alone_checkParent_bind (st : Store) (r : ExecutionRequest) (f : Unit → Service β)
    (readings : Nat → Instant) :
    (∃ e, firstBroken (r.underParent st) = some e ∧
      (checkParent r.stageId r.parentId >>= f).alone readings st = (some (.error e), st)) ∨
    (∃ e, e.isRetryable = true ∧ ¬ st.Legible ∧
      (checkParent r.stageId r.parentId >>= f).alone readings st = (some (.error e), st)) ∨
    (firstBroken (r.underParent st) = none ∧
      (checkParent r.stageId r.parentId >>= f).alone readings st = (f ()).alone readings st) := by
  rw [ExecutionRequest.underParent]
  cases r.parentId with
  | none => exact .inr (.inr ⟨rfl, rfl⟩)
  | some p =>
    simp only [checkParent, Rows.execution?, Rows.readOne, bind_assoc]
    rw [alone_ask_bind,
      show (Store.engine (.findExecution p) st).1 = .ok (st.execution? p) from rfl, settle_ok,
      pure_bind]
    cases hrow : st.execution? p with
    | none => exact .inl ⟨_, rfl, rfl⟩
    | some row =>
      cases hread : row.read with
      | error e =>
        have hillegible : ¬ st.Legible := fun hlegible => by
          have hreadable := hlegible.executions row (Store.execution?_some hrow).1
          rw [ExecutionRow.read_eq_ok hreadable] at hread
          cases hread
        rw [mapM_some_error hread]
        exact .inr (.inl ⟨e, ExecutionRow.read_error hread, hillegible, rfl⟩)
      | ok parent =>
        have hstage : parent.stageId = row.stageId := (ExecutionRow.read_ok hread).2.1
        rw [mapM_some_ok hread, settle_ok, pure_bind]
        simp only [hstage, firstBroken, Option.all_some, Option.isSome_some, if_true]
        by_cases hsame : (row.stageId == r.stageId) = true
        · rw [if_pos hsame, if_pos hsame]
          exact .inr (.inr ⟨rfl, rfl⟩)
        · rw [if_neg hsame, if_neg hsame]
          exact .inl ⟨_, rfl, rfl⟩

/-- What the store makes of the execution, once its stage and its parent have been looked at. -/
theorem engine_insert (hst : st.Keyed) (hfresh : st.execution? freshId = none)
    (hstage : firstBroken (r.onStage st) = none) (hparent : firstBroken (r.underParent st) = none) :
    Store.engine (.insertExecution (r.execution freshId).row) st =
      match firstBroken (r.amongSiblings st) with
      | some e => (.error e, st)
      | none => (.ok (), st.grown (r.execution freshId).row) := by
  obtain ⟨row, hrow, hsession⟩ := ExecutionRequest.onStage_iff.mp hstage
  have howner : (st.session? r.sessionId).isNone = false := by
    have hsome := hst.owners row (Store.stage?_some hrow).1
    rwa [hsession, ← Option.isNone_eq_false_iff] at hsome
  have hlinked : (r.parentId.any fun p => p != freshId && (st.execution? p).isNone) = false := by
    cases hp : r.parentId with
    | none => rfl
    | some p =>
      obtain ⟨parent, hfound, _⟩ := ExecutionRequest.underParent_iff.mp hparent p hp
      simp [hfound]
  have hinsert : st.insertExecution (r.execution freshId).row =
      if st.indexTaken (r.execution freshId).row then
        .error (if r.parentId.isSome then .subAgentIndex else .topLevelIndex)
      else .ok (st.grown (r.execution freshId).row) := by
    have hid : (st.execution? (r.execution freshId).row.id).isSome = false := by
      rw [show (r.execution freshId).row.id = freshId from rfl, hfresh]
      rfl
    have hstage' : (st.stage? (r.execution freshId).row.stageId).isNone = false := by
      rw [show (r.execution freshId).row.stageId = r.stageId from rfl, hrow]
      rfl
    have howner' : (st.session? (r.execution freshId).row.sessionId).isNone = false := howner
    have hlinked' : ((r.execution freshId).row.parentId.any fun p =>
        p != (r.execution freshId).row.id && (st.execution? p).isNone) = false := hlinked
    rw [Store.insertExecution, hid, hstage', howner', hlinked']
    rfl
  rw [ExecutionRequest.indexTaken_row] at hinsert
  simp only [Store.engine, Statement.exec, hinsert, ExecutionRequest.amongSiblings, firstBroken]
  cases (r.siblings st).any (·.agentIndex == r.agentIndex) with
  | true => rfl
  | false => rfl

def finish (execution : Execution) : Service Execution := do
  if !execution.isSubAgent then
    let _ ← Stages.recompute execution.stageId
  return execution

/-- What happens once the stage has been found to be the one of the session. -/
theorem alone_insertion (hst : st.Keyed) (hfresh : st.execution? freshId = none)
    (hstage : firstBroken (r.onStage st) = none) (readings : Nat → Instant) :
    let insertion : Service Execution := do
      checkParent r.stageId r.parentId
      finish (← Rows.createExecution (r.execution freshId))
    let broken := firstBroken (r.underParent st ++ r.amongSiblings st)
    (∃ e, broken = some e ∧ insertion.alone readings st = (some (.error e), st)) ∨
    (∃ e, e.isRetryable = true ∧ ¬ st.Legible ∧
      insertion.alone readings st = (some (.error e), st)) ∨
    (broken = none ∧ insertion.alone readings st =
      (finish (r.execution freshId)).alone readings (st.grown (r.execution freshId).row)) := by
  simp only [firstBroken_append]
  rcases alone_checkParent_bind st r _ readings with
    ⟨e, he, halone⟩ | ⟨e, he, hillegible, halone⟩ | ⟨hparent, halone⟩
  · rw [he]
    exact .inl ⟨e, rfl, halone⟩
  · exact .inr (.inl ⟨e, he, hillegible, halone⟩)
  · rw [halone, hparent, Option.none_or, Rows.createExecution, bind_assoc, alone_ask_bind,
      engine_insert hst hfresh hstage hparent]
    cases firstBroken (r.amongSiblings st) with
    | some e => exact .inl ⟨e, rfl, rfl⟩
    | none => exact .inr (.inr ⟨rfl, rfl⟩)

/-- The call is refused for the first condition that fails, or it cannot read a row that it needs,
or the execution is in. -/
theorem alone_create (hst : st.Keyed) (hfresh : st.execution? freshId = none)
    (readings : Nat → Instant) :
    (∃ e, r.refusal? st = some e ∧ (create r freshId).alone readings st = (some (.error e), st)) ∨
    (∃ e, e.isRetryable = true ∧ ¬ st.Legible ∧
      (create r freshId).alone readings st = (some (.error e), st)) ∨
    (r.refusal? st = none ∧ (∃ row, st.stage? r.stageId = some row ∧ row.Readable) ∧
      (create r freshId).alone readings st =
        (finish (r.execution freshId)).alone readings (st.grown (r.execution freshId).row)) := by
  simp only [ExecutionRequest.refusal?, firstBroken_append]
  rw [create, ExecutionRequest.check_eq]
  cases horder : firstBroken r.inOrder with
  | some e => exact .inl ⟨e, rfl, rfl⟩
  | none =>
    simp only [settle_ok, pure_bind, Option.none_or]
    cases hrow : st.stage? r.stageId with
    | none =>
      have hstage : firstBroken (r.onStage st) = some (.notFound .stage r.stageId) := by
        rw [ExecutionRequest.onStage, hrow]
        rfl
      rw [hstage, Stages.alone_get_bind_of_none hrow]
      exact .inl ⟨_, rfl, rfl⟩
    | some row =>
      rw [Stages.alone_get_bind hrow]
      cases hread : row.read with
      | error e =>
        have hillegible : ¬ st.Legible := fun hlegible => by
          rw [StageRow.read_eq_ok (hlegible.stages row (Store.stage?_some hrow).1)] at hread
          cases hread
        exact .inr (.inl ⟨e, StageRow.read_error hread, hillegible, rfl⟩)
      | ok stage =>
        obtain ⟨hid, _, _, _, hsession⟩ := StageRow.read_ok hread
        rw [settle_ok, pure_bind, hsession, hid, (Store.stage?_some hrow).2]
        by_cases hsame : row.sessionId = r.sessionId
        · have hstage : firstBroken (r.onStage st) = none :=
            ExecutionRequest.onStage_iff.mpr ⟨row, hrow, hsame⟩
          simp only [hsame, bne_self_eq_false, Bool.false_eq_true, if_false, hstage, Option.none_or]
          rw [← firstBroken_append]
          refine (alone_insertion hst hfresh hstage readings).imp_right (Or.imp_right ?_)
          rintro ⟨hbroken, halone⟩
          exact ⟨hbroken, ⟨row, rfl, (StageRow.read_eq_map hread).1⟩, halone⟩
        · have hstage : firstBroken (r.onStage st) =
              some (.validation "session_id" .foreignStage) := by
            simp [ExecutionRequest.onStage, hrow, firstBroken, hsame]
          have hforeign : (row.sessionId != r.sessionId) = true := bne_iff_ne.mpr hsame
          rw [if_pos hforeign, hstage]
          exact .inl ⟨_, rfl, rfl⟩

theorem alone_finish_of_parent {p : String} (hparent : r.parentId = some p) (st : Store) :
    (finish (r.execution freshId)).alone readings st = (some (.ok (r.execution freshId)), st) := by
  have hsub : (r.execution freshId).isSubAgent = true := by
    rw [ExecutionOf.isSubAgent, ExecutionRequest.execution, hparent, Option.isSome_some]
  rw [finish, hsub]
  rfl

theorem alone_finish_of_topLevel (hparent : r.parentId = none) (st : Store) :
    (finish (r.execution freshId)).alone readings st =
      (((Stages.recompute r.stageId).alone readings st).1.map (·.map fun _ => r.execution freshId),
        ((Stages.recompute r.stageId).alone readings st).2) := by
  have hsub : (r.execution freshId).isSubAgent = false := by
    rw [ExecutionOf.isSubAgent, ExecutionRequest.execution, hparent, Option.isSome_none]
  rw [finish, hsub, ← alone_bind_pure]
  rfl

end Executions

namespace Store

variable {st : Store} {request : ExecutionRequest} {freshId : String} {new : ExecutionRow}

theorem Keyed.grown (h : st.Keyed) (hnew : st.execution? new.id = none) : (st.grown new).Keyed where
  sessions := h.sessions
  stages := h.stages
  owners := h.owners
  executions := by
    have hkept : ((st.executions.map id ++ [new]).map (·.id)).Nodup :=
      nodup_changed h.executions (fun _ => rfl) (.inr ⟨_, rfl, hnew⟩)
    rwa [List.map_id] at hkept

/-- A new top-level execution is one of its stage, and is pending. -/
theorem statuses_grown (hnew : request.Fulfilled freshId new) (hparent : request.parentId = none) :
    ((st.grown new).view request.stageId).statuses =
      (st.view request.stageId).statuses ++ [.pending] := by
  have htop : new.isTopLevelOf request.stageId = true :=
    ExecutionRow.isTopLevelOf_iff.mpr ⟨hnew.stageId, hnew.parentId.trans hparent⟩
  simp only [StageView.statuses, view, grown, List.filter_append, List.filter_singleton, htop,
    List.map_append, cond_true, List.map_cons, List.map_nil, hnew.status]

theorem agrees_of_settled {id : String} {row : StageRow} {stage : Stage}
    (hrow : st.stage? id = some row) (hread : row.read = .ok stage)
    (hsettled : row.Settled (st.view id).statuses) (hne : (st.view id).statuses ≠ []) :
    row.AgreesWith (st.view id).executions := by
  have hsome : (st.view id).executions ≠ [] := by simpa [StageView.statuses] using hne
  have hplan := hsettled stage hread
  rw [← StageView.of_answer] at hplan
  exact (StageView.inLine_iff hrow hsome).mp ((StageView.plan?_eq_none_iff hrow hread).mp hplan)

end Store

namespace Executions

variable {st : Store} {request : ExecutionRequest} {freshId : String} {new : ExecutionRow}
  {execution : Execution}

/-- What becomes of the store when the request is granted. The execution is answered and stored as
it was requested. A sub-agent is all that comes; after a top-level execution its stage is
recomputed, and opened again if it was terminal. -/
structure Granted (st : Store) (request : ExecutionRequest) (freshId : String)
    (readings : Nat → Instant) (execution : Execution) (new : ExecutionRow) (after : Store) :
    Prop where
  answered : request.Fulfilled freshId execution
  stored : request.Fulfilled freshId new
  subAgent : request.parentId ≠ none → after = st.grown new
  topLevel : request.parentId = none → ∃ row row', st.stage? request.stageId = some row ∧
    (Stages.recompute request.stageId).alone readings (st.grown new) = (some row'.read, after) ∧
    after = (st.grown new).withStage row' ∧
    row'.AgreesWith (after.view request.stageId).executions ∧
    (row.status.isTerminal = true →
      row'.status =
        (if .active ∈ (st.view request.stageId).statuses then .active else .pending) ∧
      row'.completedAt = none ∧ row'.durationMs = none ∧ row'.errorMessage = none)

theorem granted_of_parent {p : String} (hanswered : request.Fulfilled freshId execution)
    (hstored : request.Fulfilled freshId new) (hparent : request.parentId = some p)
    (readings : Nat → Instant) :
    Granted st request freshId readings execution new (st.grown new) where
  answered := hanswered
  stored := hstored
  subAgent _ := rfl
  topLevel hnone := by
    rw [hparent] at hnone
    cases hnone

/-- A stage that has been recomputed after a pending execution came. -/
theorem granted_of_topLevel (hst : st.Keyed) (hfresh : st.execution? freshId = none)
    (hanswered : request.Fulfilled freshId execution) (hstored : request.Fulfilled freshId new)
    (hparent : request.parentId = none) {row : StageRow} {stage : Stage}
    (hrow : st.stage? request.stageId = some row) (hreadable : row.Readable)
    {readings : Nat → Instant} {after : Store}
    (halone : (Stages.recompute request.stageId).alone readings (st.grown new) =
      (some (.ok stage), after)) : Granted st request freshId readings execution new after where
  answered := hanswered
  stored := hstored
  subAgent hsome := absurd hparent hsome
  topLevel _ := by
    have hkeyed : (st.grown new).Keyed := hst.grown (hstored.id ▸ hfresh)
    have hrow' : (st.grown new).stage? request.stageId = some row := hrow
    rw [Stages.alone_recompute_eq hkeyed hrow'] at halone ⊢
    rw [Store.statuses_grown hstored hparent] at halone ⊢
    obtain ⟨hread, rfl⟩ := Prod.mk.inj halone
    have hid : (row.recomputed ((st.view request.stageId).statuses ++ [.pending]) (readings 0)).id =
        request.stageId := StageRow.id_recomputed.trans (Store.stage?_some hrow).2
    have hrunning : ∃ s ∈ (st.view request.stageId).statuses ++ [.pending], s.isTerminal = false :=
      ⟨.pending, by simp, rfl⟩
    refine ⟨row, _, hrow, rfl, rfl, ?_, fun hterminal => ?_⟩
    · have hsettled := StageRow.recomputed_settled
        ((st.view request.stageId).statuses ++ [.pending]) (readings 0) row
      have hne : ((st.grown new).view request.stageId).statuses ≠ [] := by
        rw [Store.statuses_grown hstored hparent]
        simp
      rw [← Store.statuses_grown hstored hparent] at hsettled hid hread ⊢
      exact Store.agrees_of_settled (Store.stage?_withStage hrow' hid) (Option.some.inj hread)
        hsettled hne
    · obtain ⟨hactive, hpending, hcleared⟩ := StageRow.recomputed_of_some_running hreadable hrunning
      refine ⟨?_, hcleared hterminal⟩
      split
      · next hmem => exact hactive (by simp [hmem])
      · next hnone =>
        have hleft := hpending (by simp [hnone])
        rwa [if_pos hterminal] at hleft

/-- Once the execution is in, the request is granted, unless the stage cannot be read any more. -/
theorem finish_grants {row : StageRow} (hst : st.Keyed) (hfresh : st.execution? freshId = none)
    (hrow : st.stage? request.stageId = some row) (hreadable : row.Readable)
    (readings : Nat → Instant) :
    ∃ answer after, (finish (request.execution freshId)).alone readings
        (st.grown (request.execution freshId).row) = (some answer, after) ∧
      ((∃ e, answer = .error e ∧ e.isRetryable = true) ∧ ¬ (readings 0).Storable ∨
        ∃ execution new, answer = .ok execution ∧
          Granted st request freshId readings execution new after) := by
  have hanswered := request.fulfilled_execution freshId
  have hstored : request.Fulfilled freshId (request.execution freshId).row := hanswered.map _
  cases hparent : request.parentId with
  | some p =>
    have hgranted : Granted st request freshId readings _ _ _ :=
      granted_of_parent hanswered hstored hparent readings
    exact ⟨_, _, alone_finish_of_parent hparent _, .inr ⟨_, _, rfl, hgranted⟩⟩
  | none =>
    have hkeyed : (st.grown (request.execution freshId).row).Keyed := hst.grown hfresh
    have hrow' : (st.grown (request.execution freshId).row).stage? request.stageId = some row :=
      hrow
    have hrecompute := Stages.alone_recompute_eq hkeyed hrow' readings
    rw [alone_finish_of_topLevel hparent, hrecompute]
    cases hread : (row.recomputed
        ((st.grown (request.execution freshId).row).view request.stageId).statuses
        (readings 0)).read with
    | error e =>
      refine ⟨_, _, rfl, .inl ⟨⟨e, rfl, StageRow.read_error hread⟩, fun hnow => ?_⟩⟩
      rw [StageRow.read_eq_ok (hreadable.recomputed hnow)] at hread
      cases hread
    | ok stage =>
      rw [hread] at hrecompute
      have hgranted := granted_of_topLevel hst hfresh hanswered hstored hparent hrow hreadable
        hrecompute
      exact ⟨_, _, rfl, .inr ⟨_, _, rfl, hgranted⟩⟩

/-- Made alone on a store that requests have left behind, a request for an execution with a fresh id
is granted exactly when it is admissible, unless the store fails it, as it never does where the
clock keeps to the years that have four digits. Otherwise it is refused for the first condition that
fails, and leaves the store as it was. Granted, it adds the one pending row that it asks for; and if
that is top-level, it leaves the stage as a recompute then does: in agreement with its executions,
and opened again with nothing left of its end if it was terminal. -/
theorem granted_exactly {clock : Instant → Prop} {st : Store} (hst : st.Reached clock)
    (request : ExecutionRequest) {freshId : String} (hfresh : st.execution? freshId = none)
    (readings : Nat → Instant) :
    ∃ answer after, (create request freshId).alone readings st = (some answer, after) ∧
      ((∃ e, answer = .error e ∧ e.isRetryable = true) ∨
        (request.Admissible st ∧ ∃ execution new, answer = .ok execution ∧
          Granted st request freshId readings execution new after) ∨
        ∃ e, answer = .error e ∧ ¬ request.Admissible st ∧ request.refusal? st = some e ∧
          after = st) ∧
      ((∀ t, clock t → t.Storable) → (readings 0).Storable →
        ∀ e, answer = .error e → e.isRetryable = false) := by
  rcases alone_create (r := request) hst.keyed hfresh readings with
    ⟨e, he, halone⟩ | ⟨e, he, hillegible, halone⟩ | ⟨hnone, ⟨row, hrow, hreadable⟩, halone⟩
  · have hnot : ¬ request.Admissible st := fun hadmissible => by
      rw [ExecutionRequest.refusal?_eq_none_iff.mpr hadmissible] at he
      cases he
    refine ⟨.error e, st, halone, .inr (.inr ⟨e, rfl, hnot, he, rfl⟩), fun _ _ e' he' => ?_⟩
    cases he'
    exact ExecutionRequest.refusal?_not_retryable he
  · exact ⟨.error e, st, halone, .inl ⟨e, rfl, he⟩,
      fun hclock => absurd (hst.legible hclock) hillegible⟩
  · have hadmissible := ExecutionRequest.refusal?_eq_none_iff.mp hnone
    obtain ⟨answer, after, hfinish, ⟨⟨e, rfl, he⟩, hlate⟩ | ⟨execution, new, rfl, hgranted⟩⟩ :=
      finish_grants hst.keyed hfresh hrow hreadable readings
    · exact ⟨_, _, halone.trans hfinish, .inl ⟨e, rfl, he⟩, fun _ hnow => absurd hnow hlate⟩
    · refine ⟨_, _, halone.trans hfinish, .inr (.inl ⟨hadmissible, _, _, rfl, hgranted⟩),
        fun _ _ e he => ?_⟩
      cases he

open OneExecution in
/-- A stage that has been completed is opened again by one more agent, which waits there as it was
asked for. -/
theorem second_agent_granted : ∃ row row' execution new after,
    (store .completed).stage? "st" = some row ∧ row.status = .completed ∧
    (create (agent 2) "f").alone (fun _ => ⟨5⟩) (store .completed) =
      (some (.ok execution), after) ∧
    (agent 2).Fulfilled "f" execution ∧ (agent 2).Fulfilled "f" new ∧
    after = ((store .completed).grown new).withStage row' ∧ row'.status = .pending ∧
    row'.completedAt = none ∧ row'.durationMs = none := by
  have hstage : ((store .completed).stage? "st").map (·.status) = some .completed := by
    decide +kernel
  have hstatuses : ((store .completed).view "st").statuses = [.completed] := by decide +kernel
  have hfresh : (store .completed).execution? "f" = none := by decide +kernel
  have hnone : (agent 2).refusal? (store .completed) = none := by decide +kernel
  obtain ⟨row, hrow, hstatus⟩ := Option.map_eq_some_iff.mp hstage
  obtain ⟨answer, after, halone, hcases, hstored⟩ :=
    granted_exactly (reached_store .completed (by decide : Instant.Storable ⟨0⟩)) (agent 2) hfresh
      fun _ => ⟨5⟩
  have hnever := hstored (fun _ ht => ht) (by decide)
  rcases hcases with ⟨e, he, hretryable⟩ | ⟨_, execution, new, rfl, hgranted⟩ | ⟨e, _, _, he, _⟩
  · rw [hnever e he] at hretryable
    cases hretryable
  · obtain ⟨row₀, row', hrow', _, hafter, _, hopen⟩ := hgranted.topLevel rfl
    obtain rfl : row = row₀ := Option.some.inj (hrow.symm.trans hrow')
    have hleft := hopen (by rw [hstatus]; rfl)
    rw [show (agent 2).stageId = "st" from rfl, hstatuses] at hleft
    exact ⟨row, row', execution, new, after, hrow, hstatus, halone, hgranted.answered,
      hgranted.stored, hafter, hleft.1, hleft.2.1, hleft.2.2.1⟩
  · rw [hnone] at he
    cases he

end Executions
end AlertDesk
