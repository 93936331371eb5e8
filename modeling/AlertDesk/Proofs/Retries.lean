import AlertDesk.Proofs.Settling

/-!
Calls that change one execution and bring its stage in line afterwards, broken off at some
statement and then repeated. A repetition finds its execution changed already; where it takes this
for an error it does not come to the stage, and the stage stays as the first attempt left it.
-/
namespace AlertDesk

open Service

/-! ### The change of a row -/

namespace Request

/-- The request changes one execution, or adds or removes it, and may have to recompute its stage
then. -/
def changesExecution : Request → Bool
  | .createExecution request _ => request.parentId.isNone
  | .transition _ _ _ | .delete _ => true
  | _ => false

inductive Makes (st : Store) : Request → Statement → Option String → Prop
  | create {request : ExecutionRequest} {freshId : String} {row : StageRow}
      (hcheck : request.check = .ok ()) (hrow : st.stage? request.stageId = some row)
      (hsession : row.sessionId = request.sessionId)
      (hadmits : st.admitsExecution (request.execution freshId).row = true) :
      Makes st (.createExecution request freshId)
        (.insertExecution (request.execution freshId).row) (some request.stageId)
  | move {id : String} {status : StageStatus} {message : Option String} {row : ExecutionRow}
      {now : Instant} (hrow : st.execution? id = some row) (hnow : now.Storable) :
      Makes st (.transition id status message)
        (.moveExecution id status message (.ofInstant now)) (some row.stageId)
  | remove {id : String} {row : ExecutionRow} (hrow : st.execution? id = some row) :
      Makes st (.delete id) (.removeExecution id)
        (if row.isSubAgent then none else some row.stageId)

inductive Leaves (r : Request) (st : Store) : Store → Prop
  | same (hnone : ∀ s owed, ¬ r.Makes st s owed) : Leaves r st st
  | changed {s : Statement} {owed : Option String} {st' : Store} (hmakes : r.Makes st s owed)
      (hsettles : (Store.engine s st).2.Settles owed st') : Leaves r st st'

inductive MayLeave (r : Request) (st : Store) : Store → Prop
  | same : MayLeave r st st
  | made {s : Statement} {owed : Option String} (hmakes : r.Makes st s owed) :
      MayLeave r st (Store.engine s st).2
  | settled {s : Statement} {owed : Option String} {st' : Store} (hmakes : r.Makes st s owed)
      (hsettles : (Store.engine s st).2.Settles owed st') : MayLeave r st st'

/-- The execution stays, so that a repetition finds it. -/
def changesInPlace : Request → Bool
  | .transition _ _ _ => true
  | _ => false

variable {r : Request} {st st' : Store} {s : Statement} {owed : Option String}

theorem Makes.askedBy (h : r.Makes st s owed) : s.AskedBy Instant.Storable r := by
  cases h with
  | create hcheck => exact ⟨_, _, rfl, hcheck, rfl⟩
  | move hrow hnow => exact ⟨⟨_, hnow, rfl⟩, .inr rfl⟩
  | remove => rfl

theorem Makes.unique {s' : Statement} {owed' : Option String} (h : r.Makes st s owed)
    (h' : r.Makes st s' owed') (hr : r.changesInPlace = false) : s' = s ∧ owed' = owed := by
  cases h with
  | create =>
    cases h'
    exact ⟨rfl, rfl⟩
  | move => cases hr
  | remove hrow =>
    cases h' with
    | remove hrow' =>
      rw [hrow] at hrow'
      cases hrow'
      exact ⟨rfl, rfl⟩

theorem leaves_iff_of_none (hnone : ∀ s owed, ¬ r.Makes st s owed) :
    r.Leaves st st' ↔ st' = st := by
  constructor
  · intro h
    cases h with
    | same => rfl
    | changed hmakes => exact absurd hmakes (hnone _ _)
  · intro hsame
    rw [hsame]
    exact .same hnone

theorem leaves_iff_of_makes (hmakes : r.Makes st s owed) (hr : r.changesInPlace = false) :
    r.Leaves st st' ↔ (Store.engine s st).2.Settles owed st' := by
  constructor
  · intro h
    cases h with
    | same hnone => exact absurd hmakes (hnone _ _)
    | changed hmakes' hsettles =>
      obtain ⟨rfl, rfl⟩ := hmakes.unique hmakes' hr
      exact hsettles
  · exact .changed hmakes

theorem attempts_of_none {α : Type} {x : Service α} {cuts : Store → Prop}
    (hx : x.Attempts st (· = st) cuts) (hnone : ∀ s owed, ¬ r.Makes st s owed) :
    x.Attempts st (r.Leaves st) cuts :=
  hx.imp (fun _ => (leaves_iff_of_none hnone).symm) fun _ h => h

theorem attempts_of_makes {α : Type} {x : Service α} {cuts : Store → Prop} {mid : Store}
    (hmakes : r.Makes st s owed) (hr : r.changesInPlace = false)
    (hx : x.Attempts mid ((Store.engine s st).2.Settles owed) cuts) :
    x.Attempts mid (r.Leaves st) cuts :=
  hx.imp (fun _ => (leaves_iff_of_makes hmakes hr).symm) fun _ h => h

/-- What is left to do after the change of the row is to recompute its stage. -/
theorem attempts_recompute {id : String} {α : Type} {f : Stage → Service α}
    (hf : ∀ stage, ∃ b, f stage = pure b) (hst : st.Sound) (hmakes : r.Makes st s (some id)) :
    (Stages.recompute id >>= f).Attempts (Store.engine s st).2
      ((Store.engine s st).2.Settles (some id)) (r.MayLeave st) := by
  refine (Stages.attempts_recompute_bind hf (hst.engine hmakes.askedBy)).imp (fun _ => Iff.rfl) ?_
  intro st' hst'
  rcases hst' with rfl | hsettles
  · exact .made hmakes
  · exact .settled hmakes hsettles

end Request

/-- A top-level execution in a stage of an existing session is refused as a duplicate only. -/
theorem Store.isDuplicate_of_insertExecution {st : Store} {row : ExecutionRow} {v : Violation}
    (hparent : row.parentId = none) (hstage : (st.stage? row.stageId).isSome = true)
    (hsession : (st.session? row.sessionId).isSome = true)
    (h : st.insertExecution row = .error v) : v.isDuplicate = true := by
  unfold insertExecution at h
  split at h
  · cases h
    split <;> rfl
  · split at h
    · cases h
      rfl
    · simp [Option.isNone_eq_false_iff.mpr hstage, Option.isNone_eq_false_iff.mpr hsession,
        hparent] at h

theorem checkAll_error {rules : List (Bool × String × Invalid)} {e : Failure}
    (h : checkAll rules = .error e) : e.isRetryable = false := by
  unfold checkAll at h
  split at h
  · cases h
    rfl
  · cases h

/-- A repeated move finds nothing left to change. -/
theorem ExecutionRow.moved_moved (status : StageStatus) (message : Option String)
    (now later : Stamp) (row : ExecutionRow) :
    (row.moved status message now).moved status message later =
      row.moved status message now := by
  have hends : ((row.moved status message now).completedAt.isNone && status.isTerminal) =
      false := by
    simp only [moved]
    cases status.isTerminal <;> cases row.completedAt <;> rfl
  have hstart : (if status == .active then (row.moved status message now).startedAt.or (some later)
      else (row.moved status message now).startedAt) =
        (row.moved status message now).startedAt := by
    simp only [moved]
    cases status == .active <;> cases row.startedAt <;> rfl
  have hmessage : message.or (row.moved status message now).errorMessage =
      (row.moved status message now).errorMessage := by
    simp only [moved]
    cases message <;> rfl
  rw [moved.eq_def status message later]
  simp only [hends, hstart, hmessage, Bool.false_eq_true, if_false]
  split <;> rfl

namespace Executions

variable {st : Store}

/-- A creation that has passed all checks: the row is inserted and the stage recomputed. -/
theorem attempts_insert {request : ExecutionRequest} {row : StageRow} (freshId : String)
    (hcheck : request.check = .ok ()) (hrow : st.stage? request.stageId = some row)
    (hsession : row.sessionId = request.sessionId) (hparent : request.parentId = none)
    (hst : st.Sound) :
    Attempts (do
      let execution ← Rows.createExecution (request.execution freshId)
      let _ ← (do
        if !execution.isSubAgent then
          let _ ← Stages.recompute execution.stageId
        return execution : Service Execution)
      return ()) st
      ((Request.createExecution request freshId).Leaves st)
      ((Request.createExecution request freshId).MayLeave st) := by
  simp only [Rows.createExecution, bind_assoc]
  cases hinsert : st.insertExecution (request.execution freshId).row with
  | error v =>
    have howner := hst.keyed.owners row (List.mem_of_find?_eq_some hrow)
    rw [hsession] at howner
    have hduplicate : v.isDuplicate = true :=
      Store.isDuplicate_of_insertExecution hparent (Option.isSome_of_eq_some hrow) howner hinsert
    have hengine : Store.engine (.insertExecution (request.execution freshId).row) st =
        (.error (.store (.violation v)), st) := by
      simp only [Store.engine, Statement.exec, hinsert]
      rfl
    refine Request.attempts_of_none (attempts_refused hengine ?_ .same) ?_
    · simp [Failure.isRetryable, Failure.kind, hduplicate, Failure.Kind.isRetryable]
    · intro s owed hmakes
      cases hmakes with
      | create _ _ _ hadmits =>
        rw [Store.insertExecution_error hinsert] at hadmits
        cases hadmits
  | ok inserted =>
    have hmakes : (Request.createExecution request freshId).Makes st
        (.insertExecution (request.execution freshId).row) (some request.stageId) :=
      .create hcheck hrow hsession (Store.insertExecution_ok hinsert).1
    have hengine : Store.engine (.insertExecution (request.execution freshId).row) st =
        (.ok (), (Store.engine (.insertExecution (request.execution freshId).row) st).2) := by
      simp only [Store.engine, Statement.exec, hinsert]
      rfl
    refine attempts_ask hengine ?_ .same (.made hmakes)
    have hsub : (request.execution freshId).isSubAgent = false := by
      simp [ExecutionOf.isSubAgent, ExecutionRequest.execution, hparent]
    simp only [hsub, Bool.not_false, if_true, bind_assoc, pure_bind]
    exact Request.attempts_of_makes hmakes rfl
      (Request.attempts_recompute (fun _ => ⟨(), rfl⟩) hst hmakes)

theorem attempts_create {request : ExecutionRequest} (freshId : String)
    (hparent : request.parentId = none) (hst : st.Sound) :
    (Request.createExecution request freshId).service.Attempts st
      ((Request.createExecution request freshId).Leaves st)
      ((Request.createExecution request freshId).MayLeave st) := by
  simp only [Request.service, create, bind_assoc]
  cases hcheck : request.check with
  | error e =>
    rw [settle_error, throw_bind]
    refine Request.attempts_of_none (attempts_throw (checkAll_error hcheck)) fun s owed hmakes => ?_
    cases hmakes with
    | create hok =>
      rw [hcheck] at hok
      cases hok
  | ok _ =>
    rw [settle_ok, pure_bind]
    cases hrow : st.stage? request.stageId with
    | none =>
      refine Request.attempts_of_none (Stages.attempts_get_missing hrow .same)
        fun s owed hmakes => ?_
      cases hmakes with
      | create _ hrow' =>
        rw [hrow] at hrow'
        cases hrow'
    | some row =>
      refine Stages.attempts_get_bind hrow (hst.stage hrow) ?_ .same
      change Attempts (bind (if row.sessionId != request.sessionId then _ else _) _) _ _ _
      split
      · next hforeign =>
        refine Request.attempts_of_none (attempts_throw rfl) fun s owed hmakes => ?_
        cases hmakes with
        | create _ hrow' hsession =>
          rw [hrow] at hrow'
          cases hrow'
          simp [hsession] at hforeign
      · next hown =>
        have hsession : row.sessionId = request.sessionId := by simpa using hown
        have hinsert := attempts_insert freshId hcheck hrow hsession hparent hst
        simp only [hparent, checkParent, pure_bind, bind_assoc] at hinsert ⊢
        exact hinsert

/-- Nothing to move: the statement finds no execution and the call is refused. -/
theorem attempts_transition_missing {id : String} (status : StageStatus) (message : Option String)
    (hrow : st.execution? id = none) :
    (Request.transition id status message).service.Attempts st
      ((Request.transition id status message).Leaves st)
      ((Request.transition id status message).MayLeave st) := by
  simp only [Request.service, transition, setStatus, Rows.move?, Rows.readOne, bind_assoc]
  have hnone : ∀ s owed, ¬ (Request.transition id status message).Makes st s owed := by
    intro s owed hmakes
    cases hmakes with
    | move hrow' =>
      rw [hrow] at hrow'
      cases hrow'
  refine Request.attempts_of_none ((attempts_clock (fun _ st' => st' = st) fun now hnow => ?_).imp
    (fun st' => ⟨?_, ?_⟩) fun _ h => h) hnone
  · have hengine : Store.engine (.moveExecution id status message (.ofInstant now)) st =
        (.ok none, st) := by
      simp only [Store.engine, Statement.exec, hrow, Option.map_none,
        Store.changeWhere_eq_self (List.find?_eq_none.mp hrow)]
    refine attempts_ask hengine ?_ .same .same
    exact attempts_throw rfl
  · intro h
    obtain ⟨_, _, hsame⟩ := h
    exact hsame
  · intro hsame
    exact ⟨⟨0⟩, by decide, hsame⟩

/-- The execution is moved at the reading of the clock, and its stage recomputed. -/
theorem attempts_transition_moved {id : String} {row : ExecutionRow} (status : StageStatus)
    (message : Option String) (hst : st.Sound) (hrow : st.execution? id = some row) :
    (Request.transition id status message).service.Attempts st
      ((Request.transition id status message).Leaves st)
      ((Request.transition id status message).MayLeave st) := by
  simp only [Request.service, transition, setStatus, Rows.move?, Rows.readOne, bind_assoc]
  refine (attempts_clock (fun now st' =>
    (Store.engine (.moveExecution id status message (.ofInstant now)) st).2.Settles
      (some row.stageId) st') fun now hnow => ?_).imp (fun st' => ⟨?_, ?_⟩) fun _ h => h
  · have hmakes : (Request.transition id status message).Makes st
        (.moveExecution id status message (.ofInstant now)) (some row.stageId) := .move hrow hnow
    have hengine : Store.engine (.moveExecution id status message (.ofInstant now)) st =
        (.ok (some (row.moved status message (.ofInstant now))),
          (Store.engine (.moveExecution id status message (.ofInstant now)) st).2) := by
      simp only [Store.engine, Statement.exec, hrow, Option.map_some]
    refine attempts_ask hengine ?_ .same (.made hmakes)
    have hreadable : (row.moved status message (.ofInstant now)).Readable :=
      (hst.legible.executions row (List.mem_of_find?_eq_some hrow)).moved (fun _ h => h) status
        message ⟨now, hnow, rfl⟩
    rw [mapM_some_ok (ExecutionRow.read_eq_ok hreadable), settle_ok, pure_bind]
    simp only [pure_bind]
    exact Request.attempts_recompute (fun _ => ⟨(), rfl⟩) hst hmakes
  · intro h
    obtain ⟨now, hnow, hsettles⟩ := h
    exact .changed (.move hrow hnow) hsettles
  · intro h
    cases h with
    | same hnone => exact absurd (.move hrow (by decide : Instant.Storable ⟨0⟩)) (hnone _ _)
    | changed hmakes hsettles =>
      cases hmakes with
      | move hrow' hnow =>
        rw [hrow] at hrow'
        cases hrow'
        exact ⟨_, hnow, hsettles⟩

theorem attempts_transition (id : String) (status : StageStatus) (message : Option String)
    (hst : st.Sound) :
    (Request.transition id status message).service.Attempts st
      ((Request.transition id status message).Leaves st)
      ((Request.transition id status message).MayLeave st) := by
  cases hrow : st.execution? id with
  | none => exact attempts_transition_missing status message hrow
  | some row => exact attempts_transition_moved status message hst hrow

theorem attempts_delete (id : String) (hst : st.Sound) :
    (Request.delete id).service.Attempts st ((Request.delete id).Leaves st)
      ((Request.delete id).MayLeave st) := by
  simp only [Request.service, delete, Rows.execution?, Rows.readOne, bind_assoc]
  cases hrow : st.execution? id with
  | none =>
    refine Request.attempts_of_none (attempts_ask (a := none) (by rw [← hrow]; rfl)
      (attempts_throw rfl) .same .same) fun s owed hmakes => ?_
    cases hmakes with
    | remove hrow' =>
      rw [hrow] at hrow'
      cases hrow'
  | some row =>
    have hmakes : (Request.delete id).Makes st (.removeExecution id)
        (if row.isSubAgent then none else some row.stageId) := .remove hrow
    have hengine : Store.engine (.removeExecution id) st =
        (.ok (1 : Nat), (Store.engine (.removeExecution id) st).2) := by
      simp only [Store.engine, Statement.exec, Store.removeExecution, hrow]
    refine Request.attempts_of_makes hmakes rfl
      (attempts_ask (a := some row) (by rw [← hrow]; rfl) ?_ .same .same)
    rw [mapM_some_ok (hst.execution hrow), settle_ok, pure_bind]
    refine attempts_ask hengine ?_ .same (.made hmakes)
    change Attempts (if (!row.isSubAgent) = true then _ else _) _ _ _
    cases hsub : row.isSubAgent with
    | true =>
      refine (attempts_pure ()).imp (fun st' => ⟨?_, ?_⟩) fun _ h => h
      · intro hsame
        rw [hsame]
        exact .nothing _
      · intro hsettles
        cases hsettles
        rfl
    | false =>
      simp only [hsub, Bool.false_eq_true, if_false] at hmakes
      exact Request.attempts_recompute (fun _ => ⟨(), rfl⟩) hst hmakes

end Executions

namespace Request

variable {r : Request} {st st' : Store} {s : Statement} {owed : Option String}

/-- Every attempt at a change of an execution, by what it leaves. -/
theorem attempts (hr : r.changesExecution = true) (hst : st.Sound) :
    r.service.Attempts st (r.Leaves st) (r.MayLeave st) := by
  cases r with
  | createExecution request freshId =>
    exact Executions.attempts_create freshId (Option.isNone_iff_eq_none.mp hr) hst
  | transition id status message => exact Executions.attempts_transition id status message hst
  | delete id => exact Executions.attempts_delete id hst
  | _ => cases hr

/-! ### Repetitions -/

def again (freshId : String) : Request → Request
  | .createExecution request _ => .createExecution request freshId
  | r => r

def owes? (st : Store) : Request → Option String
  | .createExecution request _ => some request.stageId
  | .transition id _ _ => (st.execution? id).map (·.stageId)
  | .delete id => (st.execution? id).bind fun row =>
    if row.isSubAgent then none else some row.stageId
  | _ => none

theorem Makes.owes?_eq (h : r.Makes st s owed) : r.owes? st = owed := by
  cases h with
  | create => rfl
  | move hrow => simp [owes?, hrow]
  | remove hrow => simp [owes?, hrow]

theorem owes?_again (r : Request) (freshId : String) (st : Store) :
    (r.again freshId).owes? st = r.owes? st := by cases r <;> rfl

theorem changesExecution_again (r : Request) (freshId : String) :
    (r.again freshId).changesExecution = r.changesExecution := by cases r <;> rfl

/-- A row that was changed in place is found by a repetition, and changed no further. -/
theorem Makes.again_inPlace {cut : Store} (h : r.Makes st s owed) (hplace : r.changesInPlace = true)
    (freshId : String) (hcut : cut.executions = (Store.engine s st).2.executions) :
    (∃ s' owed', (r.again freshId).Makes cut s' owed') ∧
    ∀ s' owed', (r.again freshId).Makes cut s' owed' →
      owed' = owed ∧ (Store.engine s' cut).2 = cut := by
  cases h with
  | create => cases hplace
  | remove => cases hplace
  | @move id status message row now hrow hnow =>
    have hrows : cut.executions =
        Store.changeWhere (·.id == id) (ExecutionRow.moved status message (.ofInstant now))
          st.executions := hcut
    have hkeeps (r : ExecutionRow) : ((r.moved status message (.ofInstant now)).id == id) =
        (r.id == id) := rfl
    have hfound : cut.execution? id = some (row.moved status message (.ofInstant now)) := by
      rw [Store.execution?] at hrow ⊢
      rw [hrows, Store.find?_changeWhere hkeeps, hrow, Option.map_some]
    refine ⟨⟨_, _, .move hfound hnow⟩, fun s' owed' h' => ?_⟩
    cases h' with
    | @move _ _ _ row' later hrow' hlater =>
      constructor
      · rw [hfound] at hrow'
        cases hrow'
        rfl
      · have hsame : Store.changeWhere (·.id == id)
            (ExecutionRow.moved status message (.ofInstant later)) cut.executions =
              cut.executions := by
          rw [hrows]
          exact Store.changeWhere_changeWhere hkeeps
            (ExecutionRow.moved_moved status message _ _) st.executions
        simp only [Store.engine, Statement.exec, hsame]

/-- A row that was added or taken away is not changed by a repetition. -/
theorem Makes.not_again {cut : Store} (h : r.Makes st s owed) (hr : r.changesExecution = true)
    (hplace : r.changesInPlace = false) (freshId : String)
    (hcut : cut.executions = (Store.engine s st).2.executions) (s' : Statement)
    (owed' : Option String) : ¬ (r.again freshId).Makes cut s' owed' := by
  intro h'
  cases h with
  | move => cases hplace
  | @create request id row hcheck hrow hsession hadmits =>
    cases h' with
    | create _ _ _ hadmits' =>
      rw [Statement.engine_executions, Statement.untouched_executions (fun _ => rfl) (fun _ => rfl),
        Statement.newExecutions, if_pos hadmits] at hcut
      have hparent : request.parentId = none := Option.isNone_iff_eq_none.mp hr
      have htaken : cut.indexTaken (request.execution freshId).row = true := by
        rw [Store.indexTaken, hcut, List.any_append]
        simp [Store.sameScope, ExecutionRequest.execution, Execution.row, ExecutionOf.map, hparent]
      simp [Store.admitsExecution, htaken] at hadmits'
  | @remove id row hrow =>
    cases h' with
    | @remove _ row' hrow' =>
      obtain ⟨hmem, hid⟩ := Store.execution?_some hrow'
      rw [hcut, Statement.engine_executions] at hmem
      simp only [Statement.newExecutions, List.append_nil] at hmem
      obtain ⟨before, hbefore, rfl⟩ := List.mem_map.mp hmem
      have hspared := (List.mem_filter.mp hbefore).2
      have hbeforeId : before.id = id := hid
      have hunder (steps : Nat) : Store.isUnder st.executions id steps before = true := by
        cases steps <;> simp [Store.isUnder, hbeforeId]
      simp [Statement.spares, hrow, hunder] at hspared

theorem Makes.executions_ne (h : r.Makes st s owed) (hplace : r.changesInPlace = false) :
    (Store.engine s st).2.executions ≠ st.executions := by
  cases h with
  | move => cases hplace
  | create _ _ _ hadmits =>
    rw [Statement.engine_executions, Statement.untouched_executions (fun _ => rfl) (fun _ => rfl),
      Statement.newExecutions, if_pos hadmits]
    simp
  | @remove id row hrow =>
    intro hsame
    have hfound : (Store.engine (.removeExecution id) st).2.execution? id = some row := by
      rw [Store.execution?, hsame]
      exact hrow
    exact (Makes.remove hrow).not_again rfl rfl "" rfl _ _ (.remove hfound)

theorem exists_leaves (hst : st.Sound) (r : Request) : ∃ st', r.Leaves st st' := by
  by_cases hmakes : ∃ s owed, r.Makes st s owed
  · obtain ⟨s, owed, hmakes⟩ := hmakes
    obtain ⟨st', hsettles⟩ := Store.Settles.exists_settles (hst.engine hmakes.askedBy) owed
    exact ⟨st', .changed hmakes hsettles⟩
  · push Not at hmakes
    exact ⟨st, .same hmakes⟩

theorem again_self (r : Request) : ∃ freshId, r.again freshId = r := by
  cases r with
  | createExecution request freshId => exact ⟨freshId, rfl⟩
  | _ => exact ⟨"", rfl⟩

/-- An undisturbed attempt that changes the executions leaves the stage in line. -/
theorem Leaves.inLine (h : r.Leaves st st') (hchanged : st'.executions ≠ st.executions)
    {id : String} (hid : r.owes? st = some id) : (st'.view id).inLine = true := by
  cases h with
  | same => exact absurd rfl hchanged
  | changed hmakes hsettles =>
    rw [hmakes.owes?_eq] at hid
    subst hid
    exact hsettles.inLine_view

/-- Once the row is changed, a repetition leaves everything as it is, or recomputes the stage. -/
theorem Leaves.of_makes {cut final : Store} {freshId : String} (h : r.Makes st s owed)
    (hr : r.changesExecution = true) (hcut : cut.executions = (Store.engine s st).2.executions)
    (hleaves : (r.again freshId).Leaves cut final) :
    (r.changesInPlace = false ∧ final = cut) ∨
    (r.changesInPlace = true ∧ cut.Settles owed final) := by
  cases hplace : r.changesInPlace with
  | false =>
    exact .inl ⟨rfl, (leaves_iff_of_none (h.not_again hr hplace freshId hcut)).mp hleaves⟩
  | true =>
    obtain ⟨⟨s', owed', hmakes'⟩, hagain⟩ := h.again_inPlace hplace freshId hcut
    refine .inr ⟨rfl, ?_⟩
    cases hleaves with
    | same hnone => exact absurd hmakes' (hnone _ _)
    | changed hmakes hsettles =>
      obtain ⟨rfl, hsame⟩ := hagain _ _ hmakes
      rwa [hsame] at hsettles

/-- The store is one that the request leaves, under some id for what it creates, when it is left
alone. -/
def Completes (r : Request) (st st' : Store) : Prop :=
  ∃ (freshId : String) (answer : Except Failure Unit),
    (r.again freshId).service.Returns Instant.Storable st answer st'

theorem completes_iff (hr : r.changesExecution = true) (hst : st.Sound) :
    r.Completes st st' ↔ ∃ freshId, (r.again freshId).Leaves st st' := by
  have hattempts (freshId : String) := attempts ((changesExecution_again r freshId).trans hr) hst
  constructor
  · intro h
    obtain ⟨freshId, answer, hreturns⟩ := h
    exact ⟨freshId, ((hattempts freshId).returns hreturns).1⟩
  · intro h
    obtain ⟨freshId, hleaves⟩ := h
    obtain ⟨answer, hreturns⟩ := (hattempts freshId).ends hleaves
    exact ⟨freshId, answer, hreturns⟩

theorem Completes.inLine (h : r.Completes st st') (hr : r.changesExecution = true) (hst : st.Sound)
    (hchanged : st'.executions ≠ st.executions) {id : String} (hid : r.owes? st = some id) :
    (st'.view id).inLine = true := by
  obtain ⟨freshId, hleaves⟩ := (completes_iff hr hst).mp h
  exact hleaves.inLine hchanged ((owes?_again r freshId st).trans hid)

theorem completes_of_makes (hr : r.changesExecution = true) (hst : st.Sound)
    (h : r.Makes st s owed) (hsettles : (Store.engine s st).2.Settles owed st') :
    r.Completes st st' := by
  obtain ⟨freshId, hself⟩ := again_self r
  refine (completes_iff hr hst).mpr ⟨freshId, ?_⟩
  rw [hself]
  exact .changed h hsettles

/-- An attempt that added the row or took it away has left what it has to exactly if it owes
nothing to the stage any more. -/
theorem completes_cut_iff {cut : Store} (hr : r.changesExecution = true) (hst : st.Sound)
    (h : r.Makes st s owed) (hplace : r.changesInPlace = false)
    (hcut : cut = (Store.engine s st).2 ∨ (Store.engine s st).2.Settles owed cut) :
    r.Completes st cut ↔ ∀ id, r.owes? st = some id → (cut.view id).inLine = true := by
  have hchanged : cut.executions ≠ st.executions := by
    have hne := h.executions_ne hplace
    rcases hcut with rfl | hsettles
    · exact hne
    · rwa [hsettles.executions]
  constructor
  · intro hcompletes id hid
    exact hcompletes.inLine hr hst hchanged hid
  · intro hline
    refine completes_of_makes hr hst h ?_
    rcases hcut with rfl | hsettles
    · cases owed with
      | none => exact .nothing _
      | some id => exact .inLine (hline id h.owes?_eq)
    · exact hsettles

/-- What a repetition leaves of an attempt that had changed the row. -/
theorem completes_repeated_of_makes {cut final : Store} {freshId : String}
    (hr : r.changesExecution = true) (hst : st.Sound) (h : r.Makes st s owed)
    (hcut : cut = (Store.engine s st).2 ∨ (Store.engine s st).2.Settles owed cut)
    (hleaves : (r.again freshId).Leaves cut final) :
    (r.Completes st final ↔
      r.changesInPlace = true ∨ cut.executions = st.executions ∨
        ∀ id, r.owes? st = some id → (cut.view id).inLine = true) ∧
    ∀ id, r.owes? st = some id → ((final.view id).inLine = true ↔ r.Completes st final) := by
  have hrows : cut.executions = (Store.engine s st).2.executions := by
    rcases hcut with rfl | hsettles
    · rfl
    · exact hsettles.executions
  rcases hleaves.of_makes h hr hrows with ⟨hplace, rfl⟩ | ⟨hplace, hsettled⟩
  · -- The repetition was refused, and what is left is what the first attempt left.
    have hchanged : final.executions ≠ st.executions := by
      rw [hrows]
      exact h.executions_ne hplace
    rw [completes_cut_iff hr hst h hplace hcut]
    constructor
    · simp [hplace, hchanged]
    · intro id hid
      simp [hid]
  · have hcompletes : r.Completes st final := by
      refine completes_of_makes hr hst h ?_
      rcases hcut with rfl | hsettles
      · exact hsettled
      · rwa [hsettles.trans hsettled]
    refine ⟨iff_of_true hcompletes (.inl hplace), fun id hid => ?_⟩
    rw [h.owes?_eq] at hid
    subst hid
    exact iff_of_true hsettled.inLine_view hcompletes

/-- A call that changes an execution is broken off and then repeated, with a new id for what it
creates. The repetition comes to an answer, and to none that asks for one more. What it leaves is
what the call would have left had it not been broken off, at some readings of the clock, exactly
if the call finds its execution again, or had not changed it yet, or left the stage in line when
it was broken off. Where the execution was changed, it is the same to say that the stage is in
line in the end. -/
theorem completes_repeated_iff (start : Store) (hstart : start.Reached Instant.Storable)
    (r : Request) (hr : r.changesExecution = true) (failure : Failure)
    (answer : Except Failure Unit) (cut : Store)
    (hcut : r.service.BreaksOff Instant.Storable failure start answer cut) (freshId : String) :
    answer = .error failure ∧
    (∃ answer final, (r.again freshId).service.Returns Instant.Storable cut answer final) ∧
    ∀ answer final, (r.again freshId).service.Returns Instant.Storable cut answer final →
      (∀ e, answer = .error e → e.isRetryable = false) ∧
      (r.Completes start final ↔
        r.changesInPlace = true ∨ cut.executions = start.executions ∨
          ∀ id, r.owes? start = some id → (cut.view id).inLine = true) ∧
      (cut.executions ≠ start.executions → ∀ id, r.owes? start = some id →
        ((final.view id).inLine = true ↔ r.Completes start final)) := by
  obtain ⟨hanswer, hmay⟩ := (attempts hr hstart.sound).breaksOff hcut
  have hsound : cut.Sound :=
    Call.BreaksOff.keeps hcut (Request.asks r) (fun _ _ hs hst => hst.engine hs) hstart.sound
  have hattempts := attempts ((changesExecution_again r freshId).trans hr) hsound
  refine ⟨hanswer, ?_, fun answer final hreturns => ?_⟩
  · obtain ⟨final, hleaves⟩ := exists_leaves hsound (r.again freshId)
    obtain ⟨answer, hreturns⟩ := hattempts.ends hleaves
    exact ⟨answer, final, hreturns⟩
  · obtain ⟨hleaves, hfinal⟩ := hattempts.returns hreturns
    refine ⟨hfinal, ?_⟩
    cases hmay with
    | same =>
      refine ⟨iff_of_true ⟨freshId, answer, hreturns⟩ (.inr (.inl rfl)), fun hchanged => ?_⟩
      exact absurd rfl hchanged
    | made hmakes =>
      obtain ⟨hiff, hline⟩ := completes_repeated_of_makes hr hstart.sound hmakes (.inl rfl) hleaves
      exact ⟨hiff, fun _ => hline⟩
    | settled hmakes hsettles =>
      obtain ⟨hiff, hline⟩ :=
        completes_repeated_of_makes hr hstart.sound hmakes (.inr hsettles) hleaves
      exact ⟨hiff, fun _ => hline⟩

/-- A move that took effect without being answered is repeated. -/
theorem transition_repeated : ∃ cut answer final,
    (Request.transition "e" .completed none).service.BreaksOff Instant.Storable
      (.timeout .setExecutionStatus 5000) (OneExecution.store .active)
      (.error (.timeout .setExecutionStatus 5000)) cut ∧
    (Request.transition "e" .completed none).service.Returns Instant.Storable cut answer final ∧
    (Request.transition "e" .completed none).Completes (OneExecution.store .active) final := by
  have hzero : Instant.Storable ⟨0⟩ := by decide
  have hcut : (Request.transition "e" .completed none).service.BreaksOff Instant.Storable
      (.timeout .setExecutionStatus 5000) (OneExecution.store .active)
      (.error (.timeout .setExecutionStatus 5000))
      (Store.engine (.moveExecution "e" .completed none (.ofInstant ⟨0⟩))
        (OneExecution.store .active)).2 := .clock hzero (.kept (.done _ _))
  obtain ⟨_, ⟨answer, final, hreturns⟩, hall⟩ := completes_repeated_iff (OneExecution.store .active)
    (OneExecution.reached_store .active hzero) (.transition "e" .completed none) rfl _ _ _ hcut ""
  exact ⟨_, answer, final, hcut, hreturns, (hall answer final hreturns).2.1.mpr (.inl rfl)⟩

/-- An execution was added to a completed stage without an answer. A repetition is told that it is
there already, and the stage stays completed. -/
theorem creation_not_completed :
    ¬ ∀ (start : Store), start.Reached Instant.Storable → ∀ r : Request,
      r.changesExecution = true → ∀ failure : Failure, failure.isRetryable = true →
      ∀ (answer : Except Failure Unit) (cut : Store),
      r.service.BreaksOff Instant.Storable failure start answer cut →
      ∀ (freshId : String) (answer : Except Failure Unit) (final : Store),
      (r.again freshId).service.Returns Instant.Storable cut answer final →
      (∀ e, answer = .error e → e.isRetryable = false) → r.Completes start final := by
  intro hclaim
  have hreached := OneExecution.reached_store .completed (show Instant.Storable ⟨0⟩ by decide)
  let cut := (Store.engine (.insertExecution ((OneExecution.agent 2).execution "f").row)
    (OneExecution.store .completed)).2
  have hcut : (Request.createExecution (OneExecution.agent 2) "f").service.BreaksOff
      Instant.Storable
      (.timeout .createExecution 5000) (OneExecution.store .completed)
      (.error (.timeout .createExecution 5000)) cut := .later (.kept (.done _ _))
  have hagain : (Request.createExecution (OneExecution.agent 2) "g").service.Returns
      Instant.Storable
      cut (.error (.store (.violation .topLevelIndex))) cut := .ask (.ask (.done _ _))
  have hfinal (e : Failure)
      (he : (.error (.store (.violation .topLevelIndex)) : Except Failure Unit) = .error e) :
      e.isRetryable = false := by
    cases he
    rfl
  have hcompletes := hclaim _ hreached _ rfl _ rfl _ _ hcut "g" _ _ hagain hfinal
  have hline : (cut.view "st").inLine = true :=
    hcompletes.inLine rfl hreached.sound (by decide +kernel) rfl
  have hstale : (cut.view "st").inLine = false := by decide +kernel
  rw [hstale] at hline
  cases hline

end Request
end AlertDesk
