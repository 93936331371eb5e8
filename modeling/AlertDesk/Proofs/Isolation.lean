import AlertDesk.Proofs.Alone
import AlertDesk.Proofs.Replies
import AlertDesk.Proofs.Settling
import AlertDesk.Proofs.SubAgents

/-!
Sub-agents are out of sight. Calls on a stage and its top-level executions cannot tell two stores
apart that differ in their sub-agents, whatever the sub-agents are and do. So what is done to the
sub-agents themselves leaves stages and top-level executions as they are.
-/
namespace AlertDesk

/-! ### Calls made alone -/

namespace Call

variable {α β σ : Type} {engine : Engine σ}

theorem alone_agrees {c : Call α} (hc : c.AsksOnly (·.tendsStage = true))
    (readings : Nat → Instant) {st₁ st₂ : Store} (h : st₁.AgreesAbove st₂) :
    ∃ a, (c.alone Store.engine readings st₁).1 = some a ∧
      (c.alone Store.engine readings st₂).1 = some a ∧
      (c.alone Store.engine readings st₁).2.AgreesAbove (c.alone Store.engine readings st₂).2 := by
  induction c generalizing readings st₁ st₂ with
  | done a => exact ⟨a, rfl, rfl, h⟩
  | ask s next ih =>
    have hs := Statement.alike_of_tendsStage hc.1 h
    simp only [alone, ← hs.answer]
    exact ih _ (hc.2 _) readings hs.agrees
  | clock next ih => exact ih _ (hc _) _ h
  | again => exact hc.elim

end Call

namespace Service

variable {α β : Type} {st st₁ st₂ : Store}

/-- Made alone in either store, the call answers the same and leaves stores that agree. -/
def Alike (x : Service α) (st₁ st₂ : Store) : Prop :=
  ∀ readings, ∃ a, (x.alone readings st₁).1 = some a ∧ (x.alone readings st₂).1 = some a ∧
    (x.alone readings st₁).2.AgreesAbove (x.alone readings st₂).2

theorem alike_pure (a : α) (h : st₁.AgreesAbove st₂) : (pure a : Service α).Alike st₁ st₂ :=
  fun _ => ⟨_, rfl, rfl, h⟩

theorem alike_throw (e : Failure) (h : st₁.AgreesAbove st₂) : (throw e : Service α).Alike st₁ st₂ :=
  fun _ => ⟨_, rfl, rfl, h⟩

theorem alike_clock_bind {f : Instant → Service β} (hf : ∀ now, (f now).Alike st₁ st₂) :
    (Service.clock >>= f).Alike st₁ st₂ := fun readings => hf (readings 0) fun n => readings (n + 1)

theorem alike_ask_bind {s : Statement} {f : s.Answer → Service β} (hs : s.Alike st₁ st₂)
    (hf : (settle (Store.engine s st₁).1 >>= f).Alike (Store.engine s st₁).2
      (Store.engine s st₂).2) :
    Alike (bind (α := no_index s.Answer) (ask s) f) st₁ st₂ := by
  intro readings
  simp only [alone_ask_bind, ← hs.answer]
  exact hf readings

theorem alike_settle_bind {r : Except Failure α} {f : α → Service β} (h : st₁.AgreesAbove st₂)
    (hf : ∀ a, r = .ok a → (f a).Alike st₁ st₂) : (settle r >>= f).Alike st₁ st₂ := by
  cases r with
  | ok a => exact hf a rfl
  | error e => exact alike_throw e h

/-- What only looks at a stage and writes it cannot tell the stores apart. -/
theorem alike_of_asksOnly {x : Service α} (hx : x.AsksOnly (·.tendsStage = true))
    (h : st₁.AgreesAbove st₂) : x.Alike st₁ st₂ :=
  fun readings => Call.alone_agrees hx readings h

theorem Alike.bind_pure {x : Service α} (h : x.Alike st₁ st₂) (g : α → β) :
    (x >>= fun a => pure (g a)).Alike st₁ st₂ := by
  intro readings
  obtain ⟨a, h₁, h₂, hagrees⟩ := h readings
  simp only [alone_bind_pure, h₁, h₂]
  exact ⟨_, rfl, rfl, hagrees⟩

end Service

open Service

namespace Stages

variable {β : Type}

theorem asksOnly_get_bind (id : String) {f : Stage → Service β}
    (hf : ∀ stage, (f stage).AsksOnly (·.tendsStage = true)) :
    (get id >>= f).AsksOnly (·.tendsStage = true) := by
  simp only [get, Rows.stage?, Rows.readOne, bind_assoc]
  refine asksOnly_ask_bind rfl fun row => asksOnly_settle_bind fun stage => ?_
  cases stage with
  | none => trivial
  | some stage => exact hf stage

theorem asksOnly_write (stage : Stage) (change : StageChange) :
    (write stage change).AsksOnly (·.tendsStage = true) := by
  intro now
  cases change with
  | activate | reopen | finalize => exact ⟨rfl, fun _ => trivial⟩

theorem asksOnly_recomputeWithin (id : String) (attempts : Nat) :
    (recomputeWithin id attempts).AsksOnly (·.tendsStage = true) := by
  have hget : (get id).AsksOnly (·.tendsStage = true) := by
    rw [← bind_pure (get id)]
    exact asksOnly_get_bind id fun _ => trivial
  induction attempts with
  | zero => exact hget
  | succ attempts ih =>
    refine asksOnly_get_bind id fun stage => asksOnly_ask_bind rfl fun statuses => ?_
    cases StageChange.plan? stage (.of stage.policy statuses) with
    | none => trivial
    | some change =>
      refine asksOnly_bind (asksOnly_write stage change) fun rows => ?_
      split
      · exact hget
      · exact ih

theorem asksOnly_recompute (id : String) : (recompute id).AsksOnly (·.tendsStage = true) :=
  asksOnly_recomputeWithin id attempts

end Stages

/-! ### Calls on top-level executions -/

namespace Executions

variable {st st₁ st₂ : Store} {e : ExecutionRow}

theorem asksOnly_recomputeUnless (isSubAgent : Bool) (stageId : String) {α : Type} (a : α) :
    AsksOnly (·.tendsStage = true) (do
      if !isSubAgent then
        let _ ← Stages.recompute stageId
      return a) := by
  cases isSubAgent with
  | true => trivial
  | false => exact asksOnly_bind (Stages.asksOnly_recompute stageId) fun _ => trivial

theorem alike_create {request : ExecutionRequest} {freshId : String}
    (hrequest : request.parentId = none) (h₁ : st₁.execution? freshId = none)
    (h₂ : st₂.execution? freshId = none) (h : st₁.AgreesAbove st₂) :
    (create request freshId).Alike st₁ st₂ := by
  refine alike_settle_bind h fun _ _ => ?_
  simp only [Stages.get, Rows.stage?, Rows.readOne, bind_assoc]
  refine alike_ask_bind (Statement.alike_of_tendsStage rfl h) (alike_settle_bind h fun row _ => ?_)
  refine alike_settle_bind h fun stage _ => ?_
  cases stage with
  | none => exact alike_throw _ h
  | some stage =>
    change Service.Alike (if stage.sessionId != request.sessionId then _ else _) st₁ st₂
    split
    · exact alike_throw _ h
    · simp only [hrequest, checkParent, Rows.createExecution, pure_bind, bind_assoc]
      have hs : (Statement.insertExecution (request.execution freshId).row).Alike st₁ st₂ :=
        Statement.alike_insertExecution hrequest h₁ h₂ h
      refine alike_ask_bind hs (alike_of_asksOnly (asksOnly_settle_bind fun _ => ?_) hs.agrees)
      exact asksOnly_recomputeUnless _ _ _

theorem alike_setStatus (h₁ : st₁.HasTop e) (h₂ : st₂.HasTop e) (h : st₁.AgreesAbove st₂)
    (status : StageStatus) (message : Option String) :
    (setStatus e.id status message).Alike st₁ st₂ := by
  simp only [setStatus, Rows.move?, Rows.readOne, bind_assoc]
  refine alike_clock_bind fun now => ?_
  have hs := Statement.alike_moveExecution h₁ h₂ h status message (.ofInstant now)
  refine alike_ask_bind hs (alike_settle_bind hs.agrees fun row _ => ?_)
  refine alike_settle_bind hs.agrees fun execution _ => ?_
  cases execution with
  | none => exact alike_throw _ hs.agrees
  | some execution => exact alike_pure _ hs.agrees

theorem alike_transition (h₁ : st₁.HasTop e) (h₂ : st₂.HasTop e) (h : st₁.AgreesAbove st₂)
    (status : StageStatus) (message : Option String) :
    (transition e.id status message).Alike st₁ st₂ := by
  simp only [transition, setStatus, Rows.move?, Rows.readOne, bind_assoc]
  refine alike_clock_bind fun now => ?_
  have hs := Statement.alike_moveExecution h₁ h₂ h status message (.ofInstant now)
  refine alike_ask_bind hs (alike_of_asksOnly (asksOnly_settle_bind fun row => ?_) hs.agrees)
  refine asksOnly_settle_bind fun execution => ?_
  refine asksOnly_bind (by cases execution <;> trivial) fun execution => ?_
  exact asksOnly_bind (Stages.asksOnly_recompute _) fun _ => trivial

theorem alike_delete (h₁ : st₁.HasTop e) (h₂ : st₂.HasTop e) (h : st₁.AgreesAbove st₂) :
    (delete e.id).Alike st₁ st₂ := by
  simp only [delete, Rows.execution?, Rows.readOne, bind_assoc]
  have hfind : (Statement.findExecution e.id).Alike st₁ st₂ :=
    ⟨congrArg Except.ok (h₁.1.trans h₂.1.symm), h⟩
  refine alike_ask_bind hfind (alike_settle_bind h fun row _ => ?_)
  refine alike_settle_bind h fun execution _ => ?_
  cases execution with
  | none => exact alike_throw _ h
  | some execution =>
    have hs := Statement.alike_removeExecution h₁ h₂ h
    refine alike_ask_bind hs (alike_of_asksOnly (asksOnly_settle_bind fun rows => ?_) hs.agrees)
    split
    · trivial
    · exact asksOnly_recomputeUnless _ _ _

end Executions

/-! ### Calls on sub-agents -/

namespace Service

variable {α β : Type} {above st : Store}

def Spares (x : Service α) (above st : Store) : Prop :=
  ∀ readings, ∃ a, (x.alone readings st).1 = some a ∧ above.AgreesAbove (x.alone readings st).2

theorem spares_pure (a : α) (h : above.AgreesAbove st) : (pure a : Service α).Spares above st :=
  fun _ => ⟨_, rfl, h⟩

theorem spares_throw (e : Failure) (h : above.AgreesAbove st) :
    (throw e : Service α).Spares above st := fun _ => ⟨_, rfl, h⟩

theorem spares_clock_bind {f : Instant → Service β} (hf : ∀ now, (f now).Spares above st) :
    (Service.clock >>= f).Spares above st :=
  fun readings => hf (readings 0) fun n => readings (n + 1)

theorem spares_ask_bind {s : Statement} {f : s.Answer → Service β}
    (hf : (settle (Store.engine s st).1 >>= f).Spares above (Store.engine s st).2) :
    Spares (bind (α := no_index s.Answer) (ask s) f) above st := hf

theorem spares_settle_bind {r : Except Failure α} {f : α → Service β} (h : above.AgreesAbove st)
    (hf : ∀ a, r = .ok a → (f a).Spares above st) : (settle r >>= f).Spares above st := by
  cases r with
  | ok a => exact hf a rfl
  | error e => exact spares_throw e h

theorem Spares.bind_pure {x : Service α} (h : x.Spares above st) (g : α → β) :
    (x >>= fun a => pure (g a)).Spares above st := by
  intro readings
  obtain ⟨a, ha, hagrees⟩ := h readings
  simp only [alone_bind_pure, ha]
  exact ⟨_, rfl, hagrees⟩

end Service

namespace Stages

variable {st st' : Store} {id : String}

/-- A stage that need not be recomputed in one store need not be in the other. -/
theorem spares_recompute (hidle : ∀ readings, ((recompute id).alone readings st).2 = st)
    (h : st.AgreesAbove st') : (recompute id).Spares st st' := by
  intro readings
  obtain ⟨a, _, ha, hagrees⟩ := alike_of_asksOnly (asksOnly_recompute id) h readings
  rw [hidle] at hagrees
  exact ⟨a, ha, hagrees⟩

/-- A stage that is in line need not be recomputed. -/
theorem alone_recompute (hline : (st.view id).inLine = true) (readings : Nat → Instant) :
    ((recompute id).alone readings st).2 = st := by
  rw [recompute, attempts, recomputeWithin]
  simp only [get, Rows.stage?, Rows.readOne, bind_assoc]
  rw [alone_ask_bind]
  change ((settle (.ok (st.stage? id)) >>= _).alone readings st).2 = st
  rw [settle_ok, pure_bind]
  cases hrow : st.stage? id with
  | none => rfl
  | some row =>
    cases hread : row.read with
    | error e =>
      rw [mapM_some_error hread]
      rfl
    | ok stage =>
      have hplan := (StageView.plan?_eq_none_iff (v := st.view id) hrow hread).mpr hline
      rw [mapM_some_ok hread, settle_ok, pure_bind, pure_bind, Rows.topLevelStatuses,
        alone_ask_bind]
      change ((settle (.ok (st.view id).answer) >>= _).alone readings st).2 = st
      rw [settle_ok, pure_bind, hplan]
      rfl

end Stages

namespace Executions

variable {st : Store} {e : ExecutionRow}

theorem spares_create {request : ExecutionRequest} (freshId : String)
    (hrequest : request.parentId.isSome = true) (st : Store) :
    (create request freshId).Spares st st := by
  have h : st.AgreesAbove st := .refl st
  refine spares_settle_bind h fun _ _ => ?_
  simp only [Stages.get, Rows.stage?, Rows.readOne, bind_assoc]
  refine spares_ask_bind (spares_settle_bind h fun row _ => spares_settle_bind h fun stage _ => ?_)
  cases stage with
  | none => exact spares_throw _ h
  | some stage =>
    change Service.Spares (if stage.sessionId != request.sessionId then _ else _) st st
    split
    · exact spares_throw _ h
    · obtain ⟨parentId, hparent⟩ := Option.isSome_iff_exists.mp hrequest
      simp only [hparent, checkParent, Rows.createExecution, Rows.execution?, Rows.readOne,
        bind_assoc]
      refine spares_ask_bind (spares_settle_bind h fun row _ =>
        spares_settle_bind h fun parent _ => ?_)
      cases parent with
      | none => exact spares_throw _ h
      | some parent =>
        by_cases hstage : (parent.stageId == stage.id) = true
        · simp only [hstage, if_true, pure_bind]
          have hinserted : st.AgreesAbove
              (Store.engine (.insertExecution (request.execution freshId).row) st).2 :=
            Statement.agrees_insertExecution st hrequest
          refine spares_ask_bind (spares_settle_bind hinserted fun _ _ => ?_)
          have hsub : (request.execution freshId).isSubAgent = true := hrequest
          rw [hsub]
          exact spares_pure _ hinserted
        · simp only [hstage, Bool.false_eq_true, if_false, throw_bind]
          exact spares_throw _ h

theorem spares_setStatus (hst : (st.executions.map (·.id)).Nodup) (he : e ∈ st.executions)
    (hparent : e.parentId.isSome = true) (status : StageStatus) (message : Option String) :
    (setStatus e.id status message).Spares st st := by
  simp only [setStatus, Rows.move?, Rows.readOne, bind_assoc]
  refine spares_clock_bind fun now => spares_ask_bind ?_
  have h := Statement.agrees_moveExecution hst he hparent status message (.ofInstant now)
  refine spares_settle_bind h fun row _ => spares_settle_bind h fun execution _ => ?_
  cases execution with
  | none => exact spares_throw _ h
  | some execution => exact spares_pure _ h

theorem spares_transition (hst : (st.executions.map (·.id)).Nodup) (he : e ∈ st.executions)
    (hparent : e.parentId.isSome = true)
    (hidle : ∀ readings, ((Stages.recompute e.stageId).alone readings st).2 = st)
    (status : StageStatus) (message : Option String) :
    (transition e.id status message).Spares st st := by
  simp only [transition, setStatus, Rows.move?, Rows.readOne, bind_assoc]
  refine spares_clock_bind fun now => spares_ask_bind ?_
  have h := Statement.agrees_moveExecution hst he hparent status message (.ofInstant now)
  have hmoved : (Store.engine (.moveExecution e.id status message (.ofInstant now)) st).1 =
      .ok (some (e.moved status message (.ofInstant now))) := by
    change Except.ok ((st.execution? e.id).map _) = _
    rw [Store.execution?, Store.find?_key hst he rfl]
    rfl
  rw [hmoved, settle_ok, pure_bind]
  refine spares_settle_bind h fun found hfound => ?_
  obtain ⟨execution, rfl, hread⟩ := of_mapM_some hfound
  have hsame : execution.stageId = e.stageId := (ExecutionRow.read_ok hread).2.1
  simp only [pure_bind, hsame]
  exact (Stages.spares_recompute hidle h).bind_pure _

theorem spares_delete (hst : (st.executions.map (·.id)).Nodup) (he : e ∈ st.executions)
    (hparent : e.parentId.isSome = true) : (delete e.id).Spares st st := by
  have h : st.AgreesAbove st := .refl st
  have hfound : st.execution? e.id = some e := Store.find?_key hst he rfl
  have hremoved := Statement.agrees_removeExecution hst he hparent
  simp only [delete, Rows.execution?, Rows.readOne, bind_assoc]
  refine spares_ask_bind ?_
  change Service.Spares (settle (.ok (st.execution? e.id)) >>= _) st st
  rw [hfound, settle_ok, pure_bind]
  refine spares_settle_bind h fun found hrow => ?_
  obtain ⟨execution, rfl, hread⟩ := of_mapM_some hrow
  have hsub : execution.isSubAgent = true := by
    rw [ExecutionOf.isSubAgent, (ExecutionRow.read_ok hread).2.2]
    exact hparent
  refine spares_ask_bind (spares_settle_bind hremoved fun rows _ => ?_)
  split
  · exact spares_throw _ hremoved
  · rw [hsub]
    exact spares_pure _ hremoved

end Executions

/-! ### Requests -/

namespace Request

/-- The request is for a stage, or for a top-level execution, which is there or comes under an id
that is new. -/
def WorksAbove (st : Store) : Request → Prop
  | .recompute _ => True
  | .createExecution request freshId =>
    request.parentId = none ∧ st.execution? freshId = none
  | .setStatus id _ _ | .transition id _ _ | .delete id => ∃ e ∈ st.topLevel, e.id = id
  | _ => False

/-- The request is for a sub-agent of this stage, which is there or comes. -/
def WorksBelow (st : Store) (stageId : String) : Request → Prop
  | .createExecution request _ => request.stageId = stageId ∧ request.parentId.isSome = true
  | .setStatus id _ _ | .transition id _ _ | .delete id =>
    ∃ e ∈ st.executions, e.id = id ∧ e.stageId = stageId ∧ e.parentId.isSome = true
  | _ => False

/-- A request that is made alone for a stage or a top-level execution cannot tell two stores apart
that differ in sub-agents at most and in which ids of executions are distinct: it answers the same
and leaves stores that differ in sub-agents at most. And in a store that requests leave behind,
while a stage need not be recomputed, a request for one of its sub-agents changes no stage and no
top-level execution. -/
theorem sub_agents_isolated :
    (∀ st₁ st₂ : Store, (st₁.executions.map (·.id)).Nodup → (st₂.executions.map (·.id)).Nodup →
      st₁.AgreesAbove st₂ → ∀ r : Request, r.WorksAbove st₁ → r.WorksAbove st₂ →
        r.replying.Alike st₁ st₂) ∧
    ∀ st : Store, st.Reached (fun _ => True) → ∀ stageId,
      (∀ readings, ((Stages.recompute stageId).alone readings st).2 = st) →
      ∀ r : Request, r.WorksBelow st stageId → r.replying.Spares st st := by
  constructor
  · intro st₁ st₂ hst₁ hst₂ h r h₁ h₂
    have htop {id : String} (hid : ∃ e ∈ st₁.topLevel, e.id = id) :
        ∃ e, e.id = id ∧ st₁.HasTop e ∧ st₂.HasTop e := by
      obtain ⟨e, he, rfl⟩ := hid
      exact ⟨e, rfl, Store.hasTop_of_mem hst₁ he, Store.hasTop_of_mem hst₂ (h.topLevel ▸ he)⟩
    cases r with
    | recompute id => exact (alike_of_asksOnly (Stages.asksOnly_recompute id) h).bind_pure _
    | createExecution request freshId =>
      exact (Executions.alike_create h₁.1 h₁.2 h₂.2 h).bind_pure _
    | setStatus id status message =>
      obtain ⟨e, rfl, htop₁, htop₂⟩ := htop h₁
      exact (Executions.alike_setStatus htop₁ htop₂ h status message).bind_pure _
    | transition id status message =>
      obtain ⟨e, rfl, htop₁, htop₂⟩ := htop h₁
      exact (Executions.alike_transition htop₁ htop₂ h status message).bind_pure _
    | delete id =>
      obtain ⟨e, rfl, htop₁, htop₂⟩ := htop h₁
      exact (Executions.alike_delete htop₁ htop₂ h).bind_pure _
    | _ => exact h₁.elim
  · intro st hst stageId hidle r hr
    have hnodup := hst.keyed.executions
    cases r with
    | createExecution request freshId =>
      exact (Executions.spares_create freshId hr.2 st).bind_pure _
    | setStatus id status message =>
      obtain ⟨e, he, rfl, _, hparent⟩ := hr
      exact (Executions.spares_setStatus hnodup he hparent status message).bind_pure _
    | transition id status message =>
      obtain ⟨e, he, rfl, rfl, hparent⟩ := hr
      exact (Executions.spares_transition hnodup he hparent hidle status message).bind_pure _
    | delete id =>
      obtain ⟨e, he, rfl, _, hparent⟩ := hr
      exact (Executions.spares_delete hnodup he hparent).bind_pure _
    | _ => exact hr.elim

section
open OneExecution

def helper : ExecutionRequest :=
  { agent 1 with parentId := some "e", task := some "look up the mount point" }

def nestedRequests : List Request := requests .active ++ [.createExecution helper "sub"]

def nestedTurns : List (Nat × Instant) :=
  turns 0 3 ++ turns 1 3 ++ turns 2 8 ++ turns 3 9 ++ turns 4 8

def nested : Store := (Pool.run Store.orderedEngine nestedTurns (pool nestedRequests) {}).2

/-- Whether the agent has a sub-agent cannot be told when it is moved, and the stage stays active
when the sub-agent fails. -/
theorem helper_isolated :
    (transition "e" .completed none).replying.Alike (store .active) nested ∧
      (transition "sub" .failed none).replying.Spares nested nested := by
  have hagrees : (store .active).AgreesAbove nested := by
    constructor <;> decide +kernel
  have hreached : nested.Reached fun _ => True :=
    ⟨nestedRequests, nestedTurns, fun _ _ => trivial, by rw [Store.engine_eq_ordered]; rfl⟩
  have hline : (nested.view "st").inLine = true := by decide +kernel
  have htop : ∃ e ∈ (store .active).topLevel, e.id = "e" := by decide +kernel
  have htop' : ∃ e ∈ nested.topLevel, e.id = "e" := by decide +kernel
  have hsub : ∃ e ∈ nested.executions, e.id = "sub" ∧ e.stageId = "st" ∧
      e.parentId.isSome = true := by decide +kernel
  constructor
  · exact sub_agents_isolated.1 (store .active) nested (by decide +kernel) (by decide +kernel)
      hagrees (.transition "e" .completed none) htop htop'
  · exact sub_agents_isolated.2 nested hreached "st" (Stages.alone_recompute hline)
      (.transition "sub" .failed none) hsub

end
end Request
end AlertDesk
