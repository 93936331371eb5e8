import AlertDesk.Proofs.StageView

/-!
Stores that differ in their sub-agents at most. Statements on stages and on top-level executions
answer the same in both and leave stores that again differ in sub-agents at most; a statement on a
sub-agent leaves a store that differs from the one before in sub-agents at most.
-/
namespace AlertDesk

namespace Store

def topLevel (st : Store) : List ExecutionRow := st.executions.filter (·.parentId.isNone)

/-- The stores differ in sub-agents at most, as far as sessions, stages and executions go. -/
structure AgreesAbove (st₁ st₂ : Store) : Prop where
  sessions : st₁.sessions = st₂.sessions
  stages : st₁.stages = st₂.stages
  topLevel : st₁.topLevel = st₂.topLevel

variable {st st₁ st₂ : Store}

theorem AgreesAbove.refl (st : Store) : st.AgreesAbove st := ⟨rfl, rfl, rfl⟩

theorem view_executions_eq (st : Store) (id : String) :
    (st.view id).executions = st.topLevel.filter (·.stageId == id) :=
  (List.filter_filter ..).symm

theorem AgreesAbove.view (h : st₁.AgreesAbove st₂) (id : String) : st₁.view id = st₂.view id := by
  have hexecutions : (st₁.view id).executions = (st₂.view id).executions := by
    rw [view_executions_eq, view_executions_eq, h.topLevel]
  have hstage : st₁.stage? id = st₂.stage? id := by rw [stage?, stage?, h.stages]
  exact congrArg₂ StageView.mk hstage hexecutions

def HasTop (st : Store) (e : ExecutionRow) : Prop :=
  st.execution? e.id = some e ∧ e.parentId = none

theorem hasTop_of_mem (hst : (st.executions.map (·.id)).Nodup) {e : ExecutionRow}
    (he : e ∈ st.topLevel) : st.HasTop e := by
  obtain ⟨hmem, hparent⟩ := List.mem_filter.mp he
  exact ⟨find?_key hst hmem rfl, Option.isNone_iff_eq_none.mp hparent⟩

end Store

/-! ### Statements -/

namespace Statement

structure Alike (s : Statement) (st₁ st₂ : Store) : Prop where
  answer : (Store.engine s st₁).1 = (Store.engine s st₂).1
  agrees : (Store.engine s st₁).2.AgreesAbove (Store.engine s st₂).2

def tendsStage : Statement → Bool
  | .findStage _ | .topLevelStatuses _ | .activateStage _ _ | .finalizeStage _ _ _
  | .reopenStage _ _ _ _ => true
  | _ => false

variable {st st₁ st₂ : Store} {e : ExecutionRow}

theorem alike_of_tendsStage {s : Statement} (hs : s.tendsStage = true) (h : st₁.AgreesAbove st₂) :
    s.Alike st₁ st₂ := by
  have hstages (guard : StageRow → Bool) (change : StageRow → StageRow) :
      Store.changeWhere guard change st₁.stages = Store.changeWhere guard change st₂.stages := by
    rw [h.stages]
  have hcount (guard : StageRow → Bool) : st₁.stages.countP guard = st₂.stages.countP guard := by
    rw [h.stages]
  cases s with
  | findStage id =>
    have hstage : st₁.stage? id = st₂.stage? id := congrArg StageView.stage (h.view id)
    exact ⟨congrArg Except.ok hstage, h⟩
  | topLevelStatuses id =>
    have hanswer : (st₁.view id).answer = (st₂.view id).answer := by rw [h.view]
    exact ⟨congrArg Except.ok hanswer, h⟩
  | activateStage | finalizeStage | reopenStage =>
    exact ⟨congrArg Except.ok (hcount _), h.sessions, hstages _ _, h.topLevel⟩
  | _ => cases hs

/-! ### Statements on top-level executions -/

theorem topLevel_insertExecution (st : Store) (row : ExecutionRow) :
    ({ st with executions := st.executions ++ [row] } : Store).topLevel =
      st.topLevel ++ [row].filter (·.parentId.isNone) :=
  List.filter_append ..

theorem indexTaken_topLevel {row : ExecutionRow} (hrow : row.parentId = none) :
    st.indexTaken row = st.topLevel.any fun r =>
      r.stageId == row.stageId && r.agentIndex == row.agentIndex := by
  rw [Store.indexTaken, Store.topLevel, List.any_filter]
  congr 1
  funext r
  cases hparent : r.parentId with
  | none => simp [Store.sameScope, hparent, hrow]
  | some p => simp [Store.sameScope, hparent, hrow]

theorem alike_insertExecution {row : ExecutionRow} (hrow : row.parentId = none)
    (h₁ : st₁.execution? row.id = none) (h₂ : st₂.execution? row.id = none)
    (h : st₁.AgreesAbove st₂) : (insertExecution row).Alike st₁ st₂ := by
  have hindex : st₁.indexTaken row = st₂.indexTaken row := by
    rw [indexTaken_topLevel hrow, indexTaken_topLevel hrow, h.topLevel]
  have hstage : st₁.stage? row.stageId = st₂.stage? row.stageId := by
    rw [Store.stage?, Store.stage?, h.stages]
  have hsession : st₁.session? row.sessionId = st₂.session? row.sessionId := by
    rw [Store.session?, Store.session?, h.sessions]
  have hways : (∃ v, st₁.insertExecution row = .error v ∧ st₂.insertExecution row = .error v) ∨
      st₁.insertExecution row = .ok { st₁ with executions := st₁.executions ++ [row] } ∧
        st₂.insertExecution row = .ok { st₂ with executions := st₂.executions ++ [row] } := by
    simp only [Store.insertExecution, hindex, h₁, h₂, hstage, hsession, hrow, Option.any_none]
    split
    · exact .inl ⟨_, rfl, rfl⟩
    · split
      · exact .inl ⟨_, rfl, rfl⟩
      · split
        · exact .inl ⟨_, rfl, rfl⟩
        · exact .inr ⟨rfl, rfl⟩
  rcases hways with ⟨v, hv₁, hv₂⟩ | ⟨hok₁, hok₂⟩
  · have hrefused {st : Store} (hst : st.insertExecution row = .error v) :
        Store.engine (.insertExecution row) st = (.error (.store (.violation v)), st) := by
      simp only [Store.engine, exec, hst]
      rfl
    exact ⟨by rw [hrefused hv₁, hrefused hv₂], by rwa [hrefused hv₁, hrefused hv₂]⟩
  · have hkept {st : Store}
        (hst : st.insertExecution row = .ok { st with executions := st.executions ++ [row] }) :
        Store.engine (.insertExecution row) st =
          (.ok (), { st with executions := st.executions ++ [row] }) := by
      simp only [Store.engine, exec, hst]
      rfl
    refine ⟨by rw [hkept hok₁, hkept hok₂], ?_⟩
    rw [hkept hok₁, hkept hok₂]
    refine ⟨h.sessions, h.stages, ?_⟩
    rw [topLevel_insertExecution, topLevel_insertExecution, h.topLevel]

theorem topLevel_moveExecution (st : Store) (id : String) (status : StageStatus)
    (message : Option String) (now : Stamp) :
    (Store.engine (.moveExecution id status message now) st).2.topLevel =
      Store.changeWhere (·.id == id) (ExecutionRow.moved status message now) st.topLevel := by
  have hparent (r : ExecutionRow) : ((if r.id == id then r.moved status message now
      else r).parentId).isNone = r.parentId.isNone := by split <;> rfl
  change (Store.changeWhere (·.id == id) (ExecutionRow.moved status message now)
    st.executions).filter (·.parentId.isNone) = _
  simp only [Store.changeWhere, List.filter_map, Function.comp_def, hparent]
  rfl

theorem alike_moveExecution (h₁ : st₁.HasTop e) (h₂ : st₂.HasTop e) (h : st₁.AgreesAbove st₂)
    (status : StageStatus) (message : Option String) (now : Stamp) :
    (moveExecution e.id status message now).Alike st₁ st₂ where
  answer := by
    have hanswer (st : Store) (hst : st.HasTop e) :
        (Store.engine (moveExecution e.id status message now) st).1 =
          .ok (some (e.moved status message now)) := by
      change Except.ok ((st.execution? e.id).map (ExecutionRow.moved status message now)) = _
      rw [hst.1]
      rfl
    rw [hanswer st₁ h₁, hanswer st₂ h₂]
  agrees := ⟨h.sessions, h.stages, by
    rw [topLevel_moveExecution, topLevel_moveExecution, h.topLevel]⟩

/-- What is removed below an execution is not top-level. -/
theorem topLevel_removeExecution {row : ExecutionRow} {id : String}
    (hrow : st.execution? id = some row) :
    (Store.engine (.removeExecution id) st).2.topLevel = st.topLevel.filter (·.id != id) := by
  have hexecutions : (Store.engine (.removeExecution id) st).2.executions =
      st.executions.filter fun r => !Store.isUnder st.executions id st.executions.length r := by
    simp only [Store.engine, exec, Store.removeExecution, hrow]
  rw [Store.topLevel, hexecutions, Store.topLevel, List.filter_filter, List.filter_filter]
  refine List.filter_congr fun r _ => ?_
  cases hparent : r.parentId with
  | none => simp [isUnder_topLevel hparent, bne, Bool.and_comm]
  | some p => simp

theorem alike_removeExecution (h₁ : st₁.HasTop e) (h₂ : st₂.HasTop e) (h : st₁.AgreesAbove st₂) :
    (removeExecution e.id).Alike st₁ st₂ where
  answer := by
    have hanswer (st : Store) (hst : st.HasTop e) :
        (Store.engine (removeExecution e.id) st).1 = .ok (1 : Nat) := by
      simp only [Store.engine, exec, Store.removeExecution, hst.1]
    rw [hanswer st₁ h₁, hanswer st₂ h₂]
  agrees := by
    refine ⟨?_, ?_, ?_⟩
    · simp only [Store.engine, exec, Store.removeExecution, h₁.1, h₂.1, h.sessions]
    · simp only [Store.engine, exec, Store.removeExecution, h₁.1, h₂.1, h.stages]
    · rw [topLevel_removeExecution h₁.1, topLevel_removeExecution h₂.1, h.topLevel]

/-! ### Statements on sub-agents -/

theorem agrees_insertExecution (st : Store) {row : ExecutionRow}
    (hrow : row.parentId.isSome = true) :
    st.AgreesAbove (Store.engine (.insertExecution row) st).2 := by
  rw [engine_insertExecution]
  split
  · refine ⟨rfl, rfl, ?_⟩
    have hnone : ([row].filter fun r => r.parentId.isNone) = [] := by
      simpa [Option.isSome_iff_ne_none] using hrow
    rw [topLevel_insertExecution, hnone, List.append_nil]
  · exact .refl st

/-- The execution is a sub-agent, and no top-level one has its id. -/
theorem ne_of_topLevel (hst : (st.executions.map (·.id)).Nodup) (he : e ∈ st.executions)
    (hparent : e.parentId.isSome = true) : ∀ r ∈ st.topLevel, r.id ≠ e.id := by
  intro r hr hid
  have htop := Store.hasTop_of_mem hst hr
  have hfound : st.execution? r.id = some e := Store.find?_key hst he hid.symm
  rw [htop.1] at hfound
  cases hfound
  rw [htop.2] at hparent
  cases hparent

theorem agrees_moveExecution (hst : (st.executions.map (·.id)).Nodup) (he : e ∈ st.executions)
    (hparent : e.parentId.isSome = true) (status : StageStatus) (message : Option String)
    (now : Stamp) :
    st.AgreesAbove (Store.engine (.moveExecution e.id status message now) st).2 := by
  refine ⟨rfl, rfl, ?_⟩
  rw [topLevel_moveExecution, Store.changeWhere_eq_self]
  intro r hr
  simpa using ne_of_topLevel hst he hparent r hr

theorem agrees_removeExecution (hst : (st.executions.map (·.id)).Nodup) (he : e ∈ st.executions)
    (hparent : e.parentId.isSome = true) :
    st.AgreesAbove (Store.engine (.removeExecution e.id) st).2 := by
  have hfound : st.execution? e.id = some e := Store.find?_key hst he rfl
  refine ⟨?_, ?_, ?_⟩
  · simp only [Store.engine, exec, Store.removeExecution, hfound]
  · simp only [Store.engine, exec, Store.removeExecution, hfound]
  · rw [topLevel_removeExecution hfound, List.filter_eq_self.mpr]
    intro r hr
    simpa using ne_of_topLevel hst he hparent r hr

end Statement

end AlertDesk
