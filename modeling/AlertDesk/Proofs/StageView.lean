import AlertDesk.Proofs.Effects
import AlertDesk.Proofs.Verdicts

/-!
A stage as its verdict sees it: its row and its top-level executions. Statements on executions
leave the row as it is, the others leave the executions.
-/
namespace AlertDesk

/-- A stage, if there is one, and the executions that are top-level in it. -/
structure StageView where
  stage : Option StageRow
  executions : List ExecutionRow
deriving DecidableEq

/-- The stage is terminal exactly when all of these executions are, then with the status and the
message of the verdict on them, and active whenever one of them is. -/
structure StageRow.AgreesWith (row : StageRow) (executions : List ExecutionRow) : Prop where
  terminal : row.status.isTerminal = true ↔ ∀ e ∈ executions, e.status.isTerminal = true
  verdict : ∀ status message,
    Verdict.of row.policy (executions.map (·.status)) = .finished status message →
      row.status = status ∧ row.errorMessage = message
  active : ∀ e ∈ executions, e.status = .active → row.status = .active

def Store.view (st : Store) (id : String) : StageView :=
  ⟨st.stage? id, st.executions.filter (·.isTopLevelOf id)⟩

/-- An id that some execution has is found, under an execution that has it. -/
theorem Store.execution?_of_mem {st : Store} {id : String} {r : ExecutionRow}
    (hr : r ∈ st.executions) (hid : r.id = id) :
    ∃ e, st.execution? id = some e ∧ e ∈ st.executions ∧ e.id = id := by
  obtain ⟨e, he⟩ : ∃ e, st.execution? id = some e := by
    rw [← Option.isSome_iff_exists, Store.execution?, List.find?_isSome]
    exact ⟨r, hr, by simpa using hid⟩
  exact ⟨e, he, execution?_some he⟩

namespace Verdict

/-- The order of the executions does not matter. -/
theorem of_perm {statuses statuses' : List StageStatus} (h : statuses.Perm statuses')
    (policy : SuccessPolicy) : of policy statuses = of policy statuses' :=
  of_congr (fun _ => h.mem_iff) policy

end Verdict

namespace StageView

def statuses (v : StageView) : List StageStatus := v.executions.map (·.status)

def inLine (v : StageView) : Bool :=
  v.stage.all fun row => (Verdict.of row.policy v.statuses).admits row.status row.errorMessage

theorem inLine_iff {st : Store} {id : String} {row : StageRow} (hrow : st.stage? id = some row)
    (hsome : (st.view id).executions ≠ []) :
    (st.view id).inLine = true ↔ row.AgreesWith (st.view id).executions := by
  have hline : (st.view id).inLine =
      (Verdict.of row.policy (st.view id).statuses).admits row.status row.errorMessage := by
    simp only [inLine, Store.view, hrow, Option.all_some]
  have hne : (st.view id).statuses ≠ [] := by simpa [statuses] using hsome
  rw [hline, Verdict.admits_of_iff hne]
  constructor
  · intro h
    obtain ⟨hterminal, hverdict, hactive⟩ := h
    exact ⟨by simpa [statuses] using hterminal, hverdict, by simpa [statuses] using hactive⟩
  · intro h
    obtain ⟨hterminal, hverdict, hactive⟩ := h
    exact ⟨by simpa [statuses] using hterminal, hverdict, by simpa [statuses] using hactive⟩

def after (v : StageView) (s : Statement) : StageView := { v with stage := v.stage.map s.onStage }

def answer (v : StageView) : List StageStatus := (ExecutionRow.byIndex v.executions).map (·.status)

theorem answer_perm (v : StageView) : v.answer.Perm v.statuses :=
  (List.mergeSort_perm _ _).map _

theorem of_answer (v : StageView) (policy : SuccessPolicy) :
    Verdict.of policy v.answer = Verdict.of policy v.statuses :=
  Verdict.of_perm v.answer_perm policy

end StageView

theorem ExecutionRow.isTopLevelOf_iff {r : ExecutionRow} {id : String} :
    r.isTopLevelOf id = true ↔ r.stageId = id ∧ r.parentId = none := by
  simp only [isTopLevelOf, Bool.and_eq_true, beq_iff_eq, Option.isNone_iff_eq_none]

namespace Statement

def movesExecutions : Statement → Bool
  | .insertExecution _ | .moveExecution _ _ _ _ | .removeExecution _ => true
  | _ => false

theorem stage?_engine {s : Statement} {st : Store} (hs : s.newStages st = []) (id : String) :
    (Store.engine s st).2.stage? id = (st.stage? id).map s.onStage := by
  simp only [Store.stage?, engine_stages, hs, List.append_nil, List.find?_map, Function.comp_def,
    id_onStage]

/-- A statement on anything else leaves the executions. -/
theorem executions_of_not_moves {s : Statement} (hs : s.movesExecutions = false) (st : Store) :
    (Store.engine s st).2.executions = st.executions := by
  cases s with
  | insertExecution | moveExecution | removeExecution => cases hs
  | _ =>
    rw [engine_executions, untouched_executions (fun _ => rfl) (fun _ => rfl)]
    exact List.append_nil _

theorem view_of_not_moves {s : Statement} {st : Store} (hs : s.movesExecutions = false)
    (hnew : s.newStages st = []) (id : String) :
    (Store.engine s st).2.view id = (st.view id).after s := by
  simp only [Store.view, StageView.after, stage?_engine hnew, executions_of_not_moves hs]

/-- A statement on executions leaves the stages. -/
theorem stage?_of_moves {s : Statement} {st : Store} (hs : s.movesExecutions = true) (id : String) :
    (Store.engine s st).2.stage? id = st.stage? id := by
  cases s with
  | insertExecution | moveExecution | removeExecution =>
    rw [stage?_engine rfl]
    exact congrFun Option.map_id _
  | _ => cases hs

theorem engine_topLevelStatuses (id : String) (st : Store) :
    Store.engine (.topLevelStatuses id) st = (.ok (st.view id).answer, st) := rfl

/-! ### What changes the executions of a view -/

/-- An insertion that changes the view is of a top-level execution, and is not refused. -/
theorem insertExecution_of_view_ne {st : Store} {row : ExecutionRow} {id : String}
    (h : (Store.engine (.insertExecution row) st).2.view id ≠ st.view id) :
    Store.engine (.insertExecution row) st =
      (.ok (), { st with executions := st.executions ++ [row] }) ∧
      row.isTopLevelOf id = true := by
  cases hinsert : st.insertExecution row with
  | error v =>
    rw [engine_insertExecution, Store.insertExecution_error hinsert] at h
    exact absurd rfl h
  | ok st' =>
    obtain ⟨hadmits, rfl⟩ := Store.insertExecution_ok hinsert
    refine ⟨by simp only [Store.engine, exec, hinsert]; rfl, ?_⟩
    by_contra hother
    apply h
    rw [engine_insertExecution, if_pos hadmits]
    simp [Store.view, Store.stage?, hother]

/-- A move that changes the view is of a top-level execution. -/
theorem moveExecution_of_view_ne {st : Store} {id executionId : String} {status : StageStatus}
    {message : Option String} {now : Stamp}
    (h : (Store.engine (.moveExecution executionId status message now) st).2.view id ≠ st.view id) :
    ∃ r ∈ st.executions, r.id = executionId ∧ r.isTopLevelOf id = true := by
  by_contra hnone
  push Not at hnone
  apply h
  have hsame : ((Store.changeWhere (·.id == executionId) (ExecutionRow.moved status message now)
      st.executions).filter (·.isTopLevelOf id)) = st.executions.filter (·.isTopLevelOf id) := by
    have htop (r : ExecutionRow) : (if r.id == executionId then r.moved status message now
        else r).isTopLevelOf id = r.isTopLevelOf id := by split <;> rfl
    simp only [Store.changeWhere, List.filter_map, Function.comp_def, htop]
    refine (List.map_congr_left fun r hr => ?_).trans (List.map_id' _)
    obtain ⟨hmem, hr⟩ := List.mem_filter.mp hr
    have hid : r.id ≠ executionId := fun hid => hnone r hmem hid hr
    simp [hid]
  exact congrArg (StageView.mk (st.stage? id)) hsame

theorem isUnder_topLevel {rows : List ExecutionRow} {root : String} {r : ExecutionRow}
    (hparent : r.parentId = none) (steps : Nat) :
    Store.isUnder rows root steps r = (r.id == root) := by
  cases steps with
  | zero => rfl
  | succ steps => simp [Store.isUnder, hparent]

/-- A removal that changes the view is of a top-level execution: what goes with it is not
top-level. -/
theorem removeExecution_of_view_ne {st : Store} {id executionId : String}
    (h : (Store.engine (.removeExecution executionId) st).2.view id ≠ st.view id) :
    ∃ r ∈ st.executions, r.id = executionId ∧ r.isTopLevelOf id = true := by
  by_contra hnone
  push Not at hnone
  apply h
  have hsame : ((st.executions.filter (spares st (.removeExecution executionId))).filter
      (·.isTopLevelOf id)) = st.executions.filter (·.isTopLevelOf id) := by
    rw [List.filter_filter]
    refine List.filter_congr fun r hr => ?_
    cases htop : r.isTopLevelOf id with
    | false => rfl
    | true =>
      have hparent : r.parentId = none := (ExecutionRow.isTopLevelOf_iff.mp htop).2
      have hid : r.id ≠ executionId := fun hid => hnone r hr hid htop
      simp [spares, isUnder_topLevel hparent, hid]
  have hnew : newExecutions st (.removeExecution executionId) = [] := rfl
  have hon : onExecution (.removeExecution executionId) = fun r => r := rfl
  have hrows := engine_executions (.removeExecution executionId) st
  rw [hnew, hon, List.map_id', List.append_nil] at hrows
  have hstage : (Store.engine (.removeExecution executionId) st).2.stage? id = st.stage? id :=
    stage?_of_moves rfl id
  simp only [Store.view, hstage, hrows, hsame]

end Statement

/-- The engine, in a form that evaluates where the executions of a stage stand in order. -/
def Store.orderedEngine : Engine Store := fun s st =>
  match s with
  | .topLevelStatuses id =>
    if (st.view id).executions.Pairwise fun a b => decide (a.agentIndex ≤ b.agentIndex) = true then
      (.ok (st.view id).statuses, st)
    else Store.engine (.topLevelStatuses id) st
  | s => Store.engine s st

theorem Store.engine_eq_ordered : Store.engine = Store.orderedEngine := by
  funext s st
  cases s with
  | topLevelStatuses id =>
    simp only [Store.orderedEngine]
    split
    · next hordered =>
      rw [Statement.engine_topLevelStatuses, StageView.answer, ExecutionRow.byIndex,
        List.mergeSort_of_pairwise hordered]
      rfl
    · rfl
  | _ => rfl

end AlertDesk
