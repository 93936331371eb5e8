import AlertDesk.Proofs.Soundness
import AlertDesk.Proofs.StageView

/-!
Recomputing a stage. What is planned for a stage that was read is written while the stage stands
as it was read; so a recompute that nobody disturbs brings its stage in line at the first attempt.
-/
namespace AlertDesk

/-- Run from this view, and left alone, the call brings the stage in line or fails for the store. -/
inductive Call.Brings {α : Type} (id : String) (v : StageView) : Call (Except Failure α) → Prop
  | inLine (c : Call (Except Failure α)) (h : v.inLine = true) : Brings id v c
  | failed (e : Failure) (h : e.isRetryable = true) : Brings id v (.done (.error e))
  | findStage (next : Except Failure (Option StageRow) → Call (Except Failure α))
      (h : Brings id v (next (.ok v.stage))) : Brings id v (.ask (.findStage id) next)
  | statuses (next : Except Failure (List StageStatus) → Call (Except Failure α))
      (h : Brings id v (next (.ok v.answer))) : Brings id v (.ask (.topLevelStatuses id) next)
  | write (s : Statement) (next : Except Failure s.Answer → Call (Except Failure α))
      (hs : s.movesExecutions = false) (hnew : ∀ st, s.newStages st = [])
      (h : (v.after s).inLine = true) : Brings id v (.ask s next)
  | clock (next : Instant → Call (Except Failure α)) (h : ∀ t, Brings id v (next t)) :
      Brings id v (.clock next)

theorem Call.brings_bind {α β : Type} {id : String} {v : StageView} {c : Call (Except Failure α)}
    (hc : c.Brings id v) (f : α → Service β) : (c.bind (ExceptT.bindCont f)).Brings id v := by
  induction hc with
  | inLine c h => exact .inLine _ h
  | failed e h => exact .failed e h
  | findStage next h ih => exact .findStage _ ih
  | statuses next h ih => exact .statuses _ ih
  | write s next hs hnew h => exact .write s _ hs hnew h
  | clock next h ih => exact .clock _ ih

namespace Service

variable {α β : Type} {id : String} {v : StageView}

def Brings (id : String) (v : StageView) (x : Service α) : Prop := Call.Brings id v x.run

theorem brings_bind {x : Service α} (hx : x.Brings id v) (f : α → Service β) :
    (x >>= f).Brings id v := Call.brings_bind hx f

end Service

/-! ### Recomputing a stage -/

theorem StageChange.movesExecutions_statement (change : StageChange) (stage : Stage)
    (now : Instant) :
    (change.statement stage now).movesExecutions = false := by cases change <;> rfl

theorem StageChange.newStages_statement (change : StageChange) (stage : Stage) (now : Instant)
    (st : Store) : (change.statement stage now).newStages st = [] := by cases change <;> rfl

/-- A planned change finds the stage as it was read, and leaves the status and the message it was
planned for. -/
theorem StageChange.onStage_statement {row : StageRow} {stage : Stage} {verdict : Verdict}
    {change : StageChange} (hread : row.read = .ok stage)
    (hplan : StageChange.plan? stage verdict = some change) (now : Instant) :
    (((change.statement stage now).onStage row).status,
      ((change.statement stage now).onStage row).errorMessage) = change.outcome stage.errorMessage ∧
    ((change.statement stage now).onStage row).policy = row.policy := by
  obtain ⟨hid, hstatus, hmessage, _⟩ := StageRow.read_ok hread
  have hat : row.isAt stage.id stage.status = true := by
    simp [StageRow.isAt, hid, hstatus]
  cases change with
  | activate =>
    rw [StageChange.of_activate hplan] at hat
    simp only [statement, Statement.onStage, hat, if_true]
    exact ⟨by rw [hmessage]; rfl, rfl⟩
  | reopen status =>
    simp only [statement, Statement.onStage, hat, if_true]
    exact ⟨rfl, rfl⟩
  | finalize status message =>
    simp only [statement, Statement.onStage, hat, if_true]
    exact ⟨rfl, rfl⟩

theorem StageView.inLine_after {v : StageView} {row : StageRow} {stage : Stage}
    {change : StageChange} (hrow : v.stage = some row) (hread : row.read = .ok stage)
    (hplan : StageChange.plan? stage (.of stage.policy v.answer) = some change) (now : Instant) :
    (v.after (change.statement stage now)).inLine = true := by
  obtain ⟨houtcome, hpolicy⟩ := StageChange.onStage_statement hread hplan now
  obtain ⟨hstatus, hmessage⟩ := Prod.mk.inj houtcome
  have hadmits := StageChange.admits_outcome hplan
  rw [(StageRow.read_ok hread).2.2.2.1, v.of_answer] at hadmits
  simp only [StageView.inLine, StageView.after, hrow, Option.map_some, Option.all_some, hpolicy,
    hstatus, hmessage]
  exact hadmits

/-- Nothing is planned exactly for a stage that is in line. -/
theorem StageView.plan?_eq_none_iff {v : StageView} {row : StageRow} {stage : Stage}
    (hrow : v.stage = some row) (hread : row.read = .ok stage) :
    StageChange.plan? stage (.of stage.policy v.answer) = none ↔ v.inLine = true := by
  obtain ⟨_, hstatus, hmessage, hpolicy, _⟩ := StageRow.read_ok hread
  rw [StageChange.plan?_eq_none_iff, hpolicy, v.of_answer, hstatus, hmessage]
  simp only [StageView.inLine, hrow, Option.all_some]

open Service

theorem Stages.brings_get_bind {β : Type} {id : String} {v : StageView} {f : Stage → Service β}
    (hf : ∀ row stage, v.stage = some row → row.read = .ok stage → (f stage).Brings id v) :
    (Stages.get id >>= f).Brings id v := by
  simp only [Stages.get, Rows.stage?, Rows.readOne, bind_assoc]
  refine .findStage _ ?_
  cases hrow : v.stage with
  | none => exact .inLine _ (by simp [StageView.inLine, hrow])
  | some row =>
    change Service.Brings id v (settle (Option.mapM StageRow.read (some row)) >>= _)
    cases hread : row.read with
    | error e =>
      rw [mapM_some_error hread, settle_error, throw_bind]
      exact .failed e (StageRow.read_error hread)
    | ok stage =>
      rw [mapM_some_ok hread, settle_ok, pure_bind]
      exact hf row stage hrow hread

theorem Stages.brings_statuses_bind {β : Type} {id : String} {v : StageView}
    {f : List StageStatus → Service β} (hf : (f v.answer).Brings id v) :
    (Rows.topLevelStatuses id >>= f).Brings id v := .statuses _ hf

theorem Stages.brings_write {id : String} {v : StageView} {stage : Stage} {change : StageChange}
    (h : ∀ now, (v.after (change.statement stage now)).inLine = true) :
    (Stages.write stage change).Brings id v := by
  refine .clock _ fun now => ?_
  cases change with
  | activate => exact .write _ _ rfl (fun _ => rfl) (h now)
  | reopen status => exact .write _ _ rfl (fun _ => rfl) (h now)
  | finalize status message => exact .write _ _ rfl (fun _ => rfl) (h now)

/-- One attempt is enough for a recompute that is left alone. -/
theorem Stages.brings_recompute (id : String) (v : StageView) :
    (Stages.recompute id).Brings id v := by
  refine brings_get_bind fun row stage hrow hread => ?_
  refine brings_statuses_bind ?_
  cases hplan : StageChange.plan? stage (.of stage.policy v.answer) with
  | none => exact .inLine _ ((StageView.plan?_eq_none_iff hrow hread).mp hplan)
  | some change =>
    exact brings_bind (brings_write (StageView.inLine_after hrow hread hplan)) _

/-! ### One stage with one execution -/

namespace OneExecution

def turns (i n : Nat) : List (Nat × Instant) := List.replicate n (i, ⟨0⟩)

def agent (index : Int) : ExecutionRequest :=
  { stageId := "st", sessionId := "s", agentName := "reader", agentIndex := index
    llmBackend := "native" }

def requests (status : StageStatus) : List Request := [
  .submit
    { id := some "s", alertData := "disk full", alertType := "disk", chainId := "default" } "",
  .createStage
    { sessionId := "s", stageName := "triage", stageIndex := 0, expectedAgentCount := 1 } "st",
  .createExecution (agent 1) "e",
  .transition "e" status none]

def store (status : StageStatus) : Store :=
  (Pool.run Store.orderedEngine (turns 0 3 ++ turns 1 3 ++ turns 2 8 ++ turns 3 9)
    (Request.pool (requests status)) {}).2

theorem reached_store (status : StageStatus) {clock : Instant → Prop} (hclock : clock ⟨0⟩) :
    (store status).Reached clock := by
  refine ⟨requests status, turns 0 3 ++ turns 1 3 ++ turns 2 8 ++ turns 3 9, fun x hx => ?_, ?_⟩
  · simp only [turns, List.mem_append, List.mem_replicate] at hx
    obtain ((⟨_, rfl⟩ | ⟨_, rfl⟩) | ⟨_, rfl⟩) | ⟨_, rfl⟩ := hx <;> exact hclock
  · rw [Store.engine_eq_ordered]
    rfl

end OneExecution
end AlertDesk
