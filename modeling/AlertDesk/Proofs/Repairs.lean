import AlertDesk.Proofs.Recomputing

/-!
Calls that repair what they change. After each change to the top-level executions of a stage, what
is left of the call that made it brings the stage in line.
-/
namespace AlertDesk

open Service

def ExecutionRow.place (r : ExecutionRow) : String × String × Option String :=
  (r.id, r.stageId, r.parentId)

def Store.PlacedIn (places : List (String × String × Option String)) (st : Store) : Prop :=
  ∀ r ∈ st.executions, r.place ∈ places

/-- Executions of one id are in one place, now and at any other time. -/
theorem Store.PlacedIn.unique {places : List (String × String × Option String)}
    {st st' : Store} (h : st.PlacedIn places) (h' : st'.PlacedIn places)
    (hplaces : (places.map (·.1)).Nodup) {r r' : ExecutionRow} (hr : r ∈ st.executions)
    (hr' : r' ∈ st'.executions) (hid : r.id = r'.id) :
    r.stageId = r'.stageId ∧ r.parentId = r'.parentId := by
  have hplace := List.inj_on_of_nodup_map hplaces (h r hr) (h' r' hr') hid
  simp only [ExecutionRow.place, Prod.mk.injEq] at hplace
  exact hplace.2

/-- Wherever the call changes the executions of the view, what is left of it brings the stage in
line. -/
def Call.Repairs {α : Type} (id : String) (places : List (String × String × Option String)) :
    Call (Except Failure α) → Prop
  | .done _ => True
  | .again => True
  | .clock next => ∀ t, (next t).Repairs id places
  | .ask s next => ∀ st : Store, st.PlacedIn places →
      (s.movesExecutions = true → (Store.engine s st).2.view id ≠ st.view id →
        Call.Brings id ((Store.engine s st).2.view id) (next (Store.engine s st).1)) ∧
      (next (Store.engine s st).1).Repairs id places

namespace Service

variable {α β : Type} {id : String} {places : List (String × String × Option String)}

def Repairs (id : String) (places : List (String × String × Option String)) (x : Service α) :
    Prop :=
  Call.Repairs id places x.run

def OnlyLooks (x : Service α) : Prop :=
  x.Asks (fun _ => True) (fun s => s.movesExecutions = false)

theorem repairs_of_onlyLooks {x : Service α} (hx : x.OnlyLooks) : x.Repairs id places := by
  unfold OnlyLooks Asks at hx
  unfold Repairs
  generalize x.run = c at hx
  induction c with
  | done r => trivial
  | ask s next ih =>
    intro st _
    refine ⟨fun hmoves => ?_, ih _ (hx.2 _)⟩
    rw [hx.1] at hmoves
    cases hmoves
  | clock next ih => exact fun t => ih t (hx t trivial)
  | again => trivial

theorem repairs_bind {x : Service α} {f : α → Service β} (hx : x.Repairs id places)
    (hf : ∀ a, (f a).Repairs id places) : (x >>= f).Repairs id places := by
  unfold Repairs at hx hf ⊢
  change Call.Repairs id places (x.run.bind (ExceptT.bindCont f))
  generalize x.run = c at hx
  induction c with
  | done r =>
    cases r with
    | error e => trivial
    | ok a => exact hf a
  | ask s next ih =>
    intro st hst
    obtain ⟨hchange, hrest⟩ := hx st hst
    exact ⟨fun hmoves hview => Call.brings_bind (hchange hmoves hview) f, ih _ hrest⟩
  | clock next ih => exact fun t => ih t (hx t)
  | again => trivial

theorem repairs_clock_bind {f : Instant → Service β} (hf : ∀ t, (f t).Repairs id places) :
    (Service.clock >>= f).Repairs id places := hf

theorem repairs_ask_bind {s : Statement} {f : s.Answer → Service β}
    (hf : ∀ st a, Store.PlacedIn places st → (Store.engine s st).1 = .ok a →
      (f a).Repairs id places)
    (hchange : s.movesExecutions = true → ∀ st, Store.PlacedIn places st →
      (Store.engine s st).2.view id ≠ st.view id →
      ∃ a, (Store.engine s st).1 = .ok a ∧ (f a).Brings id ((Store.engine s st).2.view id)) :
    Repairs id places (bind (α := no_index s.Answer) (ask s) f) := by
  intro st hst
  constructor
  · intro hmoves hview
    obtain ⟨a, ha, hbrings⟩ := hchange hmoves st hst hview
    change Call.Brings id _ (Call.bind (.done (Store.engine s st).1) (ExceptT.bindCont f))
    rw [ha]
    exact hbrings
  · change Call.Repairs id places (Call.bind (.done (Store.engine s st).1) (ExceptT.bindCont f))
    cases ha : (Store.engine s st).1 with
    | error e => trivial
    | ok a => exact hf st a hst ha

end Service

def Request.movesExecutions : Request → Bool
  | .createExecution _ _ | .setStatus _ _ _ | .transition _ _ _ | .delete _ => true
  | _ => false

theorem Statement.not_moves_of_askedBy {clock : Instant → Prop} {r : Request} {s : Statement}
    (hr : r.movesExecutions = false) (hs : s.AskedBy clock r) : s.movesExecutions = false := by
  cases s with
  | insertExecution row =>
    obtain ⟨_, _, rfl, _⟩ := hs
    cases hr
  | moveExecution id status message now =>
    obtain ⟨_, rfl | rfl⟩ := hs <;> cases hr
  | removeExecution id =>
    cases hs
    cases hr
  | _ => rfl

theorem Service.repairs_of_asks {α : Type} {x : Service α} {r : Request}
    (hr : r.movesExecutions = false)
    (hx : x.Asks (fun _ => True) (Statement.AskedBy (fun _ => True) r)) (id : String)
    (places : List (String × String × Option String)) : x.Repairs id places :=
  repairs_of_onlyLooks (Call.Asks.mono hx fun _ hs => Statement.not_moves_of_askedBy hr hs)

namespace Executions

variable {id : String} {places : List (String × String × Option String)}

theorem repairs_recomputeUnless (isSubAgent : Bool) (stageId : String) {α : Type} (a : α) :
    Repairs id places (do
      if !isSubAgent then
        let _ ← Stages.recompute stageId
      return a) :=
  repairs_of_asks (r := .recompute stageId) rfl (asks_recomputeUnless isSubAgent stageId a)
    id places

theorem brings_recomputeUnless {v : StageView} {isSubAgent : Bool} (hsub : isSubAgent = false)
    {stageId : String} (hstage : stageId = id) {α : Type} (a : α) :
    Brings id v (do
      if !isSubAgent then
        let _ ← Stages.recompute stageId
      return a) := by
  subst hsub hstage
  exact brings_bind (Stages.brings_recompute stageId v) _

theorem repairs_create (request : ExecutionRequest) (freshId : String) :
    (create request freshId).Repairs id places := by
  refine repairs_bind trivial fun _ => ?_
  refine repairs_bind (repairs_of_asks (r := .recompute id) rfl (Stages.asks_get _) id places)
    fun stage => ?_
  split
  · trivial
  · refine repairs_bind (repairs_of_asks (r := .recompute id) rfl (asks_checkParent _ _) id places)
      fun _ => ?_
    simp only [Rows.createExecution, bind_assoc]
    refine repairs_ask_bind (fun _ _ _ _ => repairs_recomputeUnless _ _ _) fun _ st _ hview => ?_
    obtain ⟨hengine, htop⟩ := Statement.insertExecution_of_view_ne hview
    obtain ⟨hstage, hparent⟩ := ExecutionRow.isTopLevelOf_iff.mp htop
    refine ⟨(), by rw [hengine], ?_⟩
    refine brings_recomputeUnless ?_ hstage _
    exact Option.isSome_eq_false_iff.mpr (Option.isNone_iff_eq_none.mpr hparent)

theorem repairs_transition (executionId : String) (status : StageStatus) (message : Option String)
    (hplaces : (places.map (·.1)).Nodup) :
    (transition executionId status message).Repairs id places := by
  simp only [transition, setStatus, Rows.move?, Rows.readOne, bind_assoc]
  refine repairs_clock_bind fun now => ?_
  refine repairs_ask_bind (fun st row _ _ => ?_) fun _ st hst hview => ?_
  · refine repairs_bind trivial fun execution => ?_
    refine repairs_bind (by cases execution <;> trivial) fun execution => ?_
    exact repairs_bind
      (repairs_of_asks (r := .recompute id) rfl (Stages.asks_recompute _) id places)
      fun _ => trivial
  · obtain ⟨r, hr, hid, htop⟩ := Statement.moveExecution_of_view_ne hview
    obtain ⟨e, he, hmem, heid⟩ := Store.execution?_of_mem hr hid
    have hplace := hst.unique hst hplaces hmem hr (heid.trans hid.symm)
    refine ⟨some (e.moved status message (.ofInstant now)), ?_, ?_⟩
    · simp only [Store.engine, Statement.exec, he, Option.map_some]
    · have htop := ExecutionRow.isTopLevelOf_iff.mp htop
      cases hread : (e.moved status message (.ofInstant now)).read with
      | error f =>
        rw [mapM_some_error hread, settle_error, throw_bind]
        exact .failed f (ExecutionRow.read_error hread)
      | ok execution =>
        rw [mapM_some_ok hread, settle_ok, pure_bind, pure_bind]
        have hstage : execution.stageId = id :=
          (ExecutionRow.read_ok hread).2.1.trans (hplace.1.trans htop.1)
        rw [hstage]
        exact brings_bind (Stages.brings_recompute id _) _

theorem repairs_delete (executionId : String) (hplaces : (places.map (·.1)).Nodup) :
    (delete executionId).Repairs id places := by
  simp only [delete, Rows.execution?, Rows.readOne, bind_assoc]
  refine repairs_ask_bind (fun st row hst hrow => ?_) (by rintro ⟨⟩)
  have hfound : st.execution? executionId = row := Except.ok.inj hrow
  cases row with
  | none => trivial
  | some e =>
    cases hread : e.read with
    | error f =>
      rw [mapM_some_error hread, settle_error, throw_bind]
      trivial
    | ok execution =>
      rw [mapM_some_ok hread, settle_ok, pure_bind]
      obtain ⟨_, hstage, hparent⟩ := ExecutionRow.read_ok hread
      refine repairs_ask_bind (fun _ rows _ _ => ?_) fun _ st' hst' hview => ?_
      · split
        · trivial
        · exact repairs_recomputeUnless _ _ _
      · obtain ⟨r, hr, hid, htop⟩ := Statement.removeExecution_of_view_ne hview
        obtain ⟨e', he', _⟩ := Store.execution?_of_mem hr hid
        obtain ⟨hmem, heid⟩ := Store.execution?_some hfound
        have hplace := hst.unique hst' hplaces hmem hr (heid.trans hid.symm)
        have htop := ExecutionRow.isTopLevelOf_iff.mp htop
        refine ⟨(1 : Nat), ?_, ?_⟩
        · simp only [Store.engine, Statement.exec, Store.removeExecution, he']
        · refine brings_recomputeUnless ?_ (hstage.trans (hplace.1.trans htop.1)) _
          rw [ExecutionOf.isSubAgent, hparent, hplace.2, htop.2]
          rfl

end Executions

/-! ### Requests -/

namespace Request

def worksOnExecutions : Request → Bool
  | .createExecution _ _ | .transition _ _ _ | .delete _ | .recompute _ => true
  | _ => false

def freshId? : Request → Option String
  | .createExecution _ freshId => some freshId
  | _ => none

def place? : Request → Option (String × String × Option String)
  | .createExecution request freshId => some (freshId, request.stageId, request.parentId)
  | _ => none

def Fresh (requests : List Request) (st : Store) : Prop :=
  (requests.filterMap freshId?).Nodup ∧ ∀ id ∈ requests.filterMap freshId?, st.execution? id = none

def places (requests : List Request) (st : Store) : List (String × String × Option String) :=
  st.executions.map (·.place) ++ requests.filterMap place?

theorem nodup_places {requests : List Request} {st : Store} (hfresh : Fresh requests st)
    (hids : (st.executions.map (·.id)).Nodup) : ((places requests st).map (·.1)).Nodup := by
  have hfirst : (st.executions.map (·.place)).map (·.1) = st.executions.map (·.id) := by
    rw [List.map_map]
    rfl
  have hsecond : (requests.filterMap place?).map (·.1) = requests.filterMap freshId? := by
    rw [List.map_filterMap]
    congr 1
    funext r
    cases r <;> rfl
  rw [places, List.map_append, hfirst, hsecond, List.nodup_append]
  refine ⟨hids, hfresh.1, ?_⟩
  intro id hid new hnew hsame
  subst hsame
  obtain ⟨r, hr, hrid⟩ := List.mem_map.mp hid
  obtain ⟨e, he, _⟩ := Store.execution?_of_mem hr hrid
  rw [hfresh.2 id hnew] at he
  cases he

theorem repairs {id : String} {places : List (String × String × Option String)} {r : Request}
    (hr : r.worksOnExecutions = true) (hplaces : (places.map (·.1)).Nodup) :
    r.call.Repairs id places := by
  cases r with
  | createExecution request freshId =>
    exact repairs_bind (Executions.repairs_create request freshId) fun _ => trivial
  | transition executionId status message =>
    exact repairs_bind (Executions.repairs_transition executionId status message hplaces)
      fun _ => trivial
  | delete executionId => exact Executions.repairs_delete executionId hplaces
  | recompute stageId =>
    exact repairs_of_asks (r := .recompute stageId) rfl (Request.asks _) id places
  | _ => cases hr

end Request
end AlertDesk
