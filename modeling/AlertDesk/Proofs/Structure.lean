import AlertDesk.Proofs.Forest
import AlertDesk.Proofs.Soundness
import AlertDesk.Proofs.StageView

/-!
How sessions, stages and executions belong together. The store refuses taken indexes and missing
owners, and what is written once is never written again. So each statement keeps the rules, as long
as an execution is inserted only where it fits: into a stage of its session, and into the stage of
its parent.
-/
namespace AlertDesk

structure StageRow.Continues (r before : StageRow) : Prop where
  id : r.id = before.id
  sessionId : r.sessionId = before.sessionId
  stageIndex : r.stageIndex = before.stageIndex

structure ExecutionRow.Continues (r before : ExecutionRow) : Prop where
  id : r.id = before.id
  stageId : r.stageId = before.stageId
  sessionId : r.sessionId = before.sessionId
  agentIndex : r.agentIndex = before.agentIndex
  parentId : r.parentId = before.parentId
  task : r.task = before.task

theorem ExecutionRow.Continues.trans {r mid before : ExecutionRow} (h : r.Continues mid)
    (h' : mid.Continues before) : r.Continues before where
  id := h.id.trans h'.id
  stageId := h.stageId.trans h'.stageId
  sessionId := h.sessionId.trans h'.sessionId
  agentIndex := h.agentIndex.trans h'.agentIndex
  parentId := h.parentId.trans h'.parentId
  task := h.task.trans h'.task

namespace Statement

theorem continues_onStage (s : Statement) (r : StageRow) : (s.onStage r).Continues r := by
  apply onStage_keeps (P := fun after => after.Continues r) ⟨rfl, rfl, rfl⟩
  intro after hwrites
  cases hwrites <;> exact ⟨rfl, rfl, rfl⟩

theorem continues_onExecution (s : Statement) (r : ExecutionRow) :
    (s.onExecution r).Continues r := by
  cases s with
  | moveExecution =>
    simp only [onExecution]
    split <;> exact ⟨rfl, rfl, rfl, rfl, rfl, rfl⟩
  | _ => exact ⟨rfl, rfl, rfl, rfl, rfl, rfl⟩

variable {clock : Instant → Prop} {r : Request}

theorem stageIndex_of_askedBy {row : StageRow} (hs : (insertStage row).AskedBy clock r) :
    0 ≤ row.stageIndex := by
  obtain ⟨request, freshId, _, hcheck, rfl⟩ := hs
  rw [StageRequest.check, checkAll_eq_ok_iff] at hcheck
  simp only [List.forall_mem_cons, decide_eq_true_eq] at hcheck
  exact hcheck.2.2.1

theorem rules_of_askedBy {row : ExecutionRow} (hs : (insertExecution row).AskedBy clock r) :
    1 ≤ row.agentIndex ∧ (row.parentId.isSome = true ↔ row.task.isSome = true) ∧
      ∀ t ∈ row.task, Text.isBlank t = false := by
  obtain ⟨request, freshId, _, hcheck, rfl⟩ := hs
  rw [ExecutionRequest.check, checkAll_eq_ok_iff] at hcheck
  simp only [List.forall_mem_cons, decide_eq_true_eq] at hcheck
  obtain ⟨_, _, _, _, hindex, hparent, htask, _⟩ := hcheck
  refine ⟨hindex, ?_⟩
  change (request.parentId.isSome = true ↔ request.task.isSome = true) ∧
    ∀ t ∈ request.task, Text.isBlank t = false
  cases hp : request.parentId with
  | none =>
    have hnone : request.task = none := by simpa [hp] using htask
    simp [hnone]
  | some p =>
    obtain ⟨t, ht, hblank⟩ : ∃ t, request.task = some t ∧ Text.isBlank t = false := by
      simpa [hp, Option.any_eq_true] using hparent
    simp [ht, hblank]

end Statement

namespace Store

theorem sameScope_congr {a a' b b' : ExecutionRow} (ha : a'.Continues a) (hb : b'.Continues b) :
    sameScope a' b' = sameScope a b := by
  simp only [sameScope, ha.stageId, ha.parentId, hb.stageId, hb.parentId]

structure Structured (st : Store) : Prop where
  stageIndex : ∀ s ∈ st.stages, 0 ≤ s.stageIndex
  stageIndexes : ∀ id, ((st.stages.filter (·.sessionId == id)).map (·.stageIndex)).Nodup
  session : ∀ s ∈ st.stages, (st.session? s.sessionId).isSome = true
  stage : ∀ e ∈ st.executions, ∃ s, st.stage? e.stageId = some s ∧ s.sessionId = e.sessionId
  agentIndex : ∀ e ∈ st.executions, 1 ≤ e.agentIndex
  topLevelIndexes : ∀ id, ((st.executions.filter (·.isTopLevelOf id)).map (·.agentIndex)).Nodup
  subAgentIndexes : ∀ id,
    ((st.executions.filter (·.parentId == some id)).map (·.agentIndex)).Nodup
  parent : ∀ e ∈ st.executions, ∀ p, e.parentId = some p →
    ∃ parent, st.execution? p = some parent ∧ parent.stageId = e.stageId
  ancestor : ∀ e ∈ st.executions, ∃ steps top, ancestor? st.executions steps e = some top ∧
    top ∈ st.executions ∧ top.parentId = none ∧ top.stageId = e.stageId
  task : ∀ e ∈ st.executions,
    (e.parentId.isSome = true ↔ e.task.isSome = true) ∧ ∀ t ∈ e.task, Text.isBlank t = false

/-- What each statement keeps of these rules; executions stand in the order of their creation. -/
structure Grown (st : Store) : Prop where
  keyed : st.Keyed
  stageIndex : ∀ s ∈ st.stages, 0 ≤ s.stageIndex
  stageIndexes : st.stages.Pairwise fun a b =>
    a.sessionId = b.sessionId → a.stageIndex ≠ b.stageIndex
  stage : ∀ e ∈ st.executions, ∃ s, st.stage? e.stageId = some s ∧ s.sessionId = e.sessionId
  agentIndex : ∀ e ∈ st.executions, 1 ≤ e.agentIndex
  agentIndexes : st.executions.Pairwise fun a b =>
    sameScope a b = true → a.agentIndex ≠ b.agentIndex
  forest : ParentsFirst st.executions
  task : ∀ e ∈ st.executions,
    (e.parentId.isSome = true ↔ e.task.isSome = true) ∧ ∀ t ∈ e.task, Text.isBlank t = false

theorem Grown.empty : Grown {} where
  keyed := by constructor <;> simp
  stageIndex := by simp
  stageIndexes := .nil
  stage := by simp
  agentIndex := by simp
  agentIndexes := .nil
  forest := by simp [ParentsFirst]
  task := by simp

theorem Grown.structured {st : Store} (h : st.Grown) : st.Structured where
  stageIndex := h.stageIndex
  stageIndexes id := by
    rw [List.Nodup, List.pairwise_map, List.pairwise_filter]
    refine h.stageIndexes.imp fun hindex ha hb => hindex ?_
    rw [beq_iff_eq.mp ha, beq_iff_eq.mp hb]
  session := h.keyed.owners
  stage := h.stage
  agentIndex := h.agentIndex
  topLevelIndexes id := by
    rw [List.Nodup, List.pairwise_map, List.pairwise_filter]
    refine h.agentIndexes.imp fun hindex ha hb => hindex ?_
    obtain ⟨hstage, hparent⟩ := ExecutionRow.isTopLevelOf_iff.mp ha
    obtain ⟨hstage', hparent'⟩ := ExecutionRow.isTopLevelOf_iff.mp hb
    simp [sameScope, hparent, hparent', hstage, hstage']
  subAgentIndexes id := by
    rw [List.Nodup, List.pairwise_map, List.pairwise_filter]
    refine h.agentIndexes.imp fun hindex ha hb => hindex ?_
    simp [sameScope, beq_iff_eq.mp ha, beq_iff_eq.mp hb]
  parent e he p hp := by
    obtain ⟨before, after, hrows⟩ := List.append_of_mem he
    obtain ⟨parent, hparent, hid, hstage⟩ := h.forest before e after hrows p hp
    refine ⟨parent, ?_, hstage⟩
    exact find?_key h.keyed.executions (by rw [hrows]; exact List.mem_append_left _ hparent) hid
  ancestor e he := by
    obtain ⟨before, after, hrows⟩ := List.append_of_mem he
    exact h.forest.ancestor? h.keyed.executions hrows
  task := h.task

/-- An execution belongs where the row says: its stage is of its session, and its parent in its
stage. -/
def Fits (st : Store) (row : ExecutionRow) : Prop :=
  (∃ s, st.stage? row.stageId = some s ∧ s.sessionId = row.sessionId) ∧
    ∀ p, row.parentId = some p → ∃ parent ∈ st.executions, parent.id = p ∧
      parent.stageId = row.stageId

section
variable {st : Store} {s : Statement} {clock : Instant → Prop} {r : Request}

/-- A stage was there before the statement, or the statement inserts it. -/
theorem mem_stages_engine {row : StageRow} (h : row ∈ (engine s st).2.stages) :
    (∃ before ∈ st.stages, row.Continues before) ∨
      s = .insertStage row ∧ st.admitsStage row = true := by
  rw [Statement.engine_stages] at h
  rcases List.mem_append.mp h with hold | hnew
  · obtain ⟨before, hbefore, rfl⟩ := List.mem_map.mp hold
    exact .inl ⟨before, hbefore, Statement.continues_onStage s before⟩
  · exact .inr (Statement.of_mem_newStages hnew)

theorem mem_executions_engine {row : ExecutionRow} (h : row ∈ (engine s st).2.executions) :
    (∃ before ∈ st.executions, row.Continues before) ∨
      s = .insertExecution row ∧ st.admitsExecution row = true := by
  rw [Statement.engine_executions] at h
  rcases List.mem_append.mp h with hold | hnew
  · obtain ⟨before, hbefore, rfl⟩ := List.mem_map.mp hold
    exact .inl ⟨before, (List.mem_filter.mp hbefore).1, Statement.continues_onExecution s before⟩
  · exact .inr (Statement.of_mem_newExecutions hnew)

/-- A relation between rows in their order lasts, if changes keep it and a new row fits in. -/
theorem pairwise_changed {ρ : Type} {R : ρ → ρ → Prop} {rows new : List ρ} {change : ρ → ρ}
    (h : rows.Pairwise R) (hchange : ∀ a b, R a b → R (change a) (change b))
    (hnew : new = [] ∨ ∃ row, new = [row] ∧ ∀ r ∈ rows, R (change r) row) :
    (rows.map change ++ new).Pairwise R := by
  have hchanged : (rows.map change).Pairwise R := List.pairwise_map.mpr (h.imp (hchange _ _))
  rcases hnew with rfl | ⟨row, rfl, hfits⟩
  · rwa [List.append_nil]
  · refine List.pairwise_append.mpr ⟨hchanged, List.pairwise_singleton R row, ?_⟩
    intro r hr last hlast
    rw [List.mem_singleton.mp hlast]
    obtain ⟨before, hbefore, rfl⟩ := List.mem_map.mp hr
    exact hfits before hbefore

/-- What a statement leaves of a forest is a forest. -/
theorem ParentsFirst.spared (h : ParentsFirst st.executions)
    (hids : (st.executions.map (·.id)).Nodup) (s : Statement) :
    ParentsFirst (st.executions.filter (s.spares st)) := by
  have hall (hspares : ∀ r, s.spares st r = true) :
      ParentsFirst (st.executions.filter (s.spares st)) := by
    rwa [List.filter_eq_self.mpr fun r _ => hspares r]
  cases s with
  | removeExecution id =>
    cases hfound : st.execution? id with
    | none => exact hall fun r => by rw [Statement.spares, hfound]; rfl
    | some e =>
      have hspares : Statement.spares st (.removeExecution id) =
          fun r => !isUnder st.executions id st.executions.length r := by
        funext r
        rw [Statement.spares, hfound]
        rfl
      rw [hspares]
      exact h.removed hids id
  | _ => exact hall fun _ => rfl

theorem ParentsFirst.engine (h : ParentsFirst st.executions)
    (hids : (st.executions.map (·.id)).Nodup)
    (hnew : ∀ row, s = .insertExecution row → st.admitsExecution row = true → st.Fits row) :
    ParentsFirst (Store.engine s st).2.executions := by
  rw [Statement.engine_executions]
  rcases Statement.newExecutions_cases s st with hnil | ⟨row, rfl, hrow, hadmits⟩
  · rw [hnil, List.append_nil]
    refine (h.spared hids s).map fun r => ?_
    have hsame := Statement.continues_onExecution s r
    exact ⟨hsame.id, hsame.stageId, hsame.parentId⟩
  · rw [hrow, Statement.untouched_executions (fun _ => rfl) (fun _ => rfl)]
    exact h.append (hnew row rfl hadmits).2

theorem Grown.stageIndexes_engine (h : st.Grown) (s : Statement) :
    (Store.engine s st).2.stages.Pairwise fun a b =>
      a.sessionId = b.sessionId → a.stageIndex ≠ b.stageIndex := by
  rw [Statement.engine_stages]
  refine pairwise_changed h.stageIndexes (fun a b hindex => ?_) ?_
  · have ha := Statement.continues_onStage s a
    have hb := Statement.continues_onStage s b
    rwa [ha.sessionId, ha.stageIndex, hb.sessionId, hb.stageIndex]
  · rcases Statement.newStages_cases s st with hnil | ⟨row, rfl, hrow, hadmits⟩
    · exact .inl hnil
    · refine .inr ⟨row, hrow, fun before hbefore hsession hindex => ?_⟩
      simp only [admitsStage, Bool.and_eq_true, Bool.not_eq_true', List.any_eq_false] at hadmits
      exact hadmits.1.1 before hbefore ⟨beq_iff_eq.mpr hsession, beq_iff_eq.mpr hindex⟩

theorem Grown.agentIndexes_engine (h : st.Grown) (s : Statement) :
    (Store.engine s st).2.executions.Pairwise fun a b =>
      sameScope a b = true → a.agentIndex ≠ b.agentIndex := by
  rw [Statement.engine_executions]
  refine pairwise_changed (h.agentIndexes.filter _) (fun a b hindex => ?_) ?_
  · have ha := Statement.continues_onExecution s a
    have hb := Statement.continues_onExecution s b
    rwa [sameScope_congr ha hb, ha.agentIndex, hb.agentIndex]
  · rcases Statement.newExecutions_cases s st with hnil | ⟨row, rfl, hrow, hadmits⟩
    · exact .inl hnil
    · refine .inr ⟨row, hrow, fun before hbefore hscope hindex => ?_⟩
      simp only [admitsExecution, indexTaken, Bool.and_eq_true, Bool.not_eq_true',
        List.any_eq_false] at hadmits
      have hmem : before ∈ st.executions := (List.mem_filter.mp hbefore).1
      exact hadmits.1.1.1.1 before hmem ⟨hscope, beq_iff_eq.mpr hindex⟩

theorem Grown.engine (h : st.Grown) (hs : s.AskedBy clock r)
    (hnew : ∀ row, s = .insertExecution row → st.admitsExecution row = true → st.Fits row) :
    (Store.engine s st).2.Grown where
  keyed := Statement.keyed_engine h.keyed s
  stageIndex row hrow := by
    rcases mem_stages_engine hrow with ⟨before, hbefore, hsame⟩ | ⟨rfl, _⟩
    · rw [hsame.stageIndex]
      exact h.stageIndex before hbefore
    · exact Statement.stageIndex_of_askedBy hs
  stageIndexes := h.stageIndexes_engine s
  stage row hrow := by
    rcases mem_executions_engine hrow with ⟨before, hbefore, hsame⟩ | ⟨rfl, hadmits⟩
    · obtain ⟨stage, hstage, hsession⟩ := h.stage before hbefore
      rw [hsame.stageId, hsame.sessionId]
      refine ⟨_, stage?_engine_of_some s hstage, ?_⟩
      rwa [Statement.sessionId_onStage]
    · obtain ⟨stage, hstage, hsession⟩ := (hnew row rfl hadmits).1
      refine ⟨_, stage?_engine_of_some _ hstage, ?_⟩
      rwa [Statement.sessionId_onStage]
  agentIndex row hrow := by
    rcases mem_executions_engine hrow with ⟨before, hbefore, hsame⟩ | ⟨rfl, _⟩
    · rw [hsame.agentIndex]
      exact h.agentIndex before hbefore
    · exact (Statement.rules_of_askedBy hs).1
  agentIndexes := h.agentIndexes_engine s
  forest := h.forest.engine h.keyed.executions hnew
  task row hrow := by
    rcases mem_executions_engine hrow with ⟨before, hbefore, hsame⟩ | ⟨rfl, _⟩
    · rw [hsame.parentId, hsame.task]
      exact h.task before hbefore
    · exact (Statement.rules_of_askedBy hs).2

end
end Store
end AlertDesk
