import AlertDesk.Proofs.Isolation
import AlertDesk.Proofs.Repairs
import AlertDesk.Proofs.Structure

/-!
Executions are created where they belong. What the store does not check, the call checks before:
that the stage is one of the session, and the parent one of the stage. Between such a check and the
insertion stages stay where they are, and a parent may go but not come back elsewhere. So executions
form a forest within each stage, whatever is created and removed at the same time.
-/
namespace AlertDesk

open Service

/-! ### What a call checks -/

section
variable {β : Type} {clock : Instant → Prop} {es : List (Pool.Entry Store)} {s : Statement}

theorem Stages.comesTo_get_bind {id : String} {f : Stage → Service β}
    (h : (get id >>= f).ComesTo clock es s) (hs : s ≠ .findStage id) :
    ∃ i st row stage rest, es = ⟨i, .findStage id, st⟩ :: rest ∧ st.stage? id = some row ∧
      row.read = .ok stage ∧ (f stage).ComesTo clock rest s := by
  simp only [get, Rows.stage?, Rows.readOne, bind_assoc] at h
  rcases comesTo_ask_bind.mp h with ⟨_, hfirst⟩ | ⟨i, st, rest, hes, hrest⟩
  · exact absurd hfirst hs
  · obtain ⟨found, hfound, hrest⟩ := comesTo_settle_bind.mp hrest
    obtain ⟨seen, hseen, hrest⟩ := comesTo_settle_bind.mp hrest
    have hanswer : st.stage? id = found := Except.ok.inj hfound
    cases found with
    | none =>
      cases hseen
      exact absurd hrest comesTo_throw
    | some row =>
      obtain ⟨stage, rfl, hread⟩ := of_mapM_some hseen
      exact ⟨i, st, row, stage, rest, hes, hanswer, hread, hrest⟩

namespace Executions

theorem comesTo_checkParent_bind {stageId p : String} {f : Unit → Service β}
    (h : (checkParent stageId (some p) >>= f).ComesTo clock es s) (hs : s ≠ .findExecution p) :
    ∃ i st parent rest, es = ⟨i, .findExecution p, st⟩ :: rest ∧
      st.execution? p = some parent ∧ parent.stageId = stageId ∧
      (f ()).ComesTo clock rest s := by
  simp only [checkParent, Rows.execution?, Rows.readOne, bind_assoc] at h
  rcases comesTo_ask_bind.mp h with ⟨_, hfirst⟩ | ⟨i, st, rest, hes, hrest⟩
  · exact absurd hfirst hs
  · obtain ⟨found, hfound, hrest⟩ := comesTo_settle_bind.mp hrest
    obtain ⟨seen, hseen, hrest⟩ := comesTo_settle_bind.mp hrest
    have hanswer : st.execution? p = found := Except.ok.inj hfound
    cases found with
    | none =>
      cases hseen
      exact absurd hrest comesTo_throw
    | some parent =>
      obtain ⟨execution, rfl, hread⟩ := of_mapM_some hseen
      have hsame : execution.stageId = parent.stageId := (ExecutionRow.read_ok hread).2.1
      simp only [hsame] at hrest
      by_cases hstage : parent.stageId = stageId
      · simp only [hstage, beq_self_eq_true, if_true, pure_bind] at hrest
        exact ⟨i, st, parent, rest, hes, hanswer, hstage, hrest⟩
      · simp only [beq_iff_eq, if_neg hstage, throw_bind, comesTo_throw] at hrest

variable {request : ExecutionRequest} {freshId : String} {row : ExecutionRow}

/-- A call inserts once at most. -/
theorem comesTo_createExecution_bind {e : Execution} {f : Execution → Service β}
    (hf : ∀ e, (f e).AsksOnly (·.tendsStage = true))
    (h : (Rows.createExecution e >>= fun execution => (do
      if !execution.isSubAgent then
        let _ ← Stages.recompute execution.stageId
      return execution) >>= f).ComesTo clock es (.insertExecution row)) : es = [] := by
  simp only [Rows.createExecution, bind_assoc, pure_bind] at h
  rcases comesTo_ask_bind.mp h with ⟨hnil, _⟩ | ⟨i, st, rest, _, hrest⟩
  · exact hnil
  · obtain ⟨_, _, hrest⟩ := comesTo_settle_bind.mp hrest
    have htends := (asksOnly_bind (asksOnly_recomputeUnless e.isSubAgent e.stageId e) hf).comesTo
      hrest
    cases htends

/-- These statements saw the stage of the session, and the parent in the stage, and were reads. -/
structure Checked (request : ExecutionRequest) (es : List (Pool.Entry Store)) : Prop where
  stage : ∃ look ∈ es, look.statement = .findStage request.stageId ∧
    ∃ stage, look.before.stage? request.stageId = some stage ∧
      stage.sessionId = request.sessionId
  parent : ∀ p, request.parentId = some p → ∃ look ∈ es, look.statement = .findExecution p ∧
    ∃ parent, look.before.execution? p = some parent ∧ parent.stageId = request.stageId
  reads : ∀ look ∈ es, ∀ row, look.statement ≠ .insertExecution row

/-- An insertion comes after the checks, and is the only one. -/
theorem checked_of_comesTo
    (h : (Request.createExecution request freshId).replying.ComesTo clock es
      (.insertExecution row)) : Checked request es := by
  simp only [Request.replying, create, bind_assoc] at h
  obtain ⟨_, _, h⟩ := comesTo_settle_bind.mp h
  obtain ⟨i, st, stageRow, stage, rest, rfl, hfound, hread, hrest⟩ :=
    Stages.comesTo_get_bind h (by simp)
  obtain ⟨hid, _, _, _, hsession⟩ := StageRow.read_ok hread
  have hstageId : stage.id = request.stageId := hid.trans (Store.stage?_some hfound).2
  by_cases hsame : stage.sessionId = request.sessionId
  · simp only [hsame, bne_self_eq_false, Bool.false_eq_true, if_false, hstageId,
      bind_assoc] at hrest
    have hsession : stageRow.sessionId = request.sessionId := hsession.symm.trans hsame
    have hlook : ∃ look ∈ (⟨i, .findStage request.stageId, st⟩ :: rest : List (Pool.Entry Store)),
        look.statement = .findStage request.stageId ∧
          ∃ stage, look.before.stage? request.stageId = some stage ∧
            stage.sessionId = request.sessionId :=
      ⟨_, List.mem_cons_self, rfl, stageRow, hfound, hsession⟩
    cases hparent : request.parentId with
    | none =>
      rw [hparent, checkParent, pure_bind] at hrest
      cases comesTo_createExecution_bind (fun e => asksOnly_pure (Reply.execution e)) hrest
      exact ⟨hlook, by simp [hparent], by simp⟩
    | some p =>
      rw [hparent] at hrest
      obtain ⟨j, st', parent, later, rfl, hthere, hstage, hrest⟩ :=
        comesTo_checkParent_bind hrest (by simp)
      cases comesTo_createExecution_bind (fun e => asksOnly_pure (Reply.execution e)) hrest
      refine ⟨hlook, fun q hq => ?_, by simp⟩
      cases hparent.symm.trans hq
      exact ⟨⟨j, .findExecution p, st'⟩, by simp, rfl, parent, hthere, hstage⟩
  · have hforeign : (stage.sessionId != request.sessionId) = true := by simpa using hsame
    rw [if_pos hforeign] at hrest
    exact absurd hrest comesTo_throw

end Executions
end

/-! ### Runs -/

/-- Only one of the requests creates an execution under this id. -/
theorem Request.index_unique {requests : List Request}
    (hfresh : (requests.filterMap Request.freshId?).Nodup) {i j : Nat} {r r' : Request}
    {id : String} (hi : requests[i]? = some r) (hj : requests[j]? = some r')
    (hr : r.freshId? = some id) (hr' : r'.freshId? = some id) : i = j := by
  have hpairs := List.pairwise_iff_getElem.mp (List.pairwise_filterMap.mp hfresh)
  obtain ⟨hleft, rfl⟩ := List.getElem?_eq_some_iff.mp hi
  obtain ⟨hright, rfl⟩ := List.getElem?_eq_some_iff.mp hj
  rcases Nat.lt_trichotomy i j with hlt | heq | hlt
  · exact absurd rfl (hpairs i j hleft hright hlt id hr id hr')
  · exact heq
  · exact absurd rfl (hpairs j i hright hleft hlt id hr' id hr)

namespace Pool

section
variable {requests : List Request} {schedule : List (Nat × Instant)} {st st' : Store}
  {es : List (Entry Store)}

/-- A stage stays with its session. -/
theorem stage?_chain (hchain : Chain Store.engine st es st') {id sessionId : String}
    (h : ∃ s, st.stage? id = some s ∧ s.sessionId = sessionId) :
    ∃ s, st'.stage? id = some s ∧ s.sessionId = sessionId := by
  refine chain_keeps hchain
    (I := fun st => ∃ s, st.stage? id = some s ∧ s.sessionId = sessionId) (fun e _ h => ?_) h
  obtain ⟨s, hs, hsession⟩ := h
  refine ⟨_, Store.stage?_engine_of_some e.statement hs, ?_⟩
  rwa [Statement.sessionId_onStage]

/-- Each execution that is there has been inserted. -/
theorem inserted_of_mem (hchain : Chain Store.engine {} es st) {r : ExecutionRow}
    (hr : r ∈ st.executions) :
    ∃ e ∈ es, ∃ row, e.statement = .insertExecution row ∧ r.Continues row := by
  refine chain_keeps hchain (I := fun st => ∀ r ∈ st.executions, ∃ e ∈ es, ∃ row,
    e.statement = .insertExecution row ∧ r.Continues row) (fun e he h r hr => ?_) ?_ r hr
  · rcases Store.mem_executions_engine hr with ⟨before, hbefore, hsame⟩ | ⟨hs, _⟩
    · obtain ⟨made, hmade, row, hs, hrow⟩ := h before hbefore
      exact ⟨made, hmade, row, hs, hsame.trans hrow⟩
    · exact ⟨e, he, r, hs, rfl, rfl, rfl, rfl, rfl, rfl⟩
  · simp

/-- Where ids are fresh, executions of one id come from one call and are created alike. -/
theorem insertion_unique (hfresh : (requests.filterMap Request.freshId?).Nodup)
    {e e' : Entry Store} {row row' : ExecutionRow}
    (he : e ∈ log Store.engine schedule (Request.replies requests) st)
    (he' : e' ∈ log Store.engine schedule (Request.replies requests) st)
    (hs : e.statement = .insertExecution row) (hs' : e'.statement = .insertExecution row')
    (hid : row.id = row'.id) : e.caller = e'.caller ∧ row = row' := by
  obtain ⟨r, hr, hasked⟩ := askedBy_of_mem_log he
  obtain ⟨r', hr', hasked'⟩ := askedBy_of_mem_log he'
  rw [hs] at hasked
  rw [hs'] at hasked'
  obtain ⟨request, freshId, rfl, _, rfl⟩ := hasked
  obtain ⟨request', freshId', rfl, _, rfl⟩ := hasked'
  obtain rfl : freshId = freshId' := hid
  have hcaller : e.caller = e'.caller := Request.index_unique hfresh hr hr' rfl rfl
  rw [hcaller, hr'] at hr
  cases hr
  exact ⟨hcaller, rfl⟩

/-- Where ids are fresh, executions of one id are in one stage, also at different times. -/
theorem stageId_unique (hfresh : (requests.filterMap Request.freshId?).Nodup)
    {es' : List (Entry Store)}
    (hes : ∀ e ∈ es, e ∈ log Store.engine schedule (Request.replies requests) {})
    (hes' : ∀ e ∈ es', e ∈ log Store.engine schedule (Request.replies requests) {})
    (hchain : Chain Store.engine {} es st) (hchain' : Chain Store.engine {} es' st')
    {r r' : ExecutionRow} (hr : r ∈ st.executions) (hr' : r' ∈ st'.executions)
    (hid : r.id = r'.id) : r.stageId = r'.stageId := by
  obtain ⟨made, hmade, row, hs, hsame⟩ := inserted_of_mem hchain hr
  obtain ⟨made', hmade', row', hs', hsame'⟩ := inserted_of_mem hchain' hr'
  have hids : row.id = row'.id := hsame.id.symm.trans (hid.trans hsame'.id)
  have hrow := (insertion_unique hfresh (hes made hmade) (hes' made' hmade') hs hs' hids).2
  rw [hsame.stageId, hsame'.stageId, hrow]

/-- An earlier statement of a call splits what lies before this one: the first part led to it, and
the second from it to here. -/
theorem chain_own {first rest : List (Entry Store)} {e look : Entry Store}
    (hchain : Chain Store.engine st (first ++ e :: rest) st') (hlook : look ∈ own e.caller first) :
    ∃ before between, first = before ++ look :: between ∧
      Chain Store.engine st before look.before ∧
      Chain Store.engine (Store.engine look.statement look.before).2 between e.before := by
  obtain ⟨before, between, rfl⟩ := List.append_of_mem (List.mem_filter.mp hlook).1
  obtain ⟨_, hfirst, rfl, _⟩ := chain_append.mp hchain
  obtain ⟨_, hbefore, rfl, hbetween⟩ := chain_append.mp hfirst
  exact ⟨before, between, rfl, hbefore, hbetween⟩

section
variable {first rest : List (Entry Store)} {e look : Entry Store} {row parent : ExecutionRow}
  {p : String} (hfresh : (requests.filterMap Request.freshId?).Nodup)
  (hlog : log Store.engine schedule (Request.replies requests) {} = first ++ e :: rest)
include hfresh hlog

/-- A parent that a call has found, and that is there when it inserts, is still in the stage. -/
theorem parent_stays (hadmits : e.before.admitsExecution row = true) (hp : row.parentId = some p)
    (hother : p ≠ row.id) (hlook : look ∈ own e.caller first)
    (hfound : look.before.execution? p = some parent) :
    ∃ now ∈ e.before.executions, now.id = p ∧ now.stageId = parent.stageId := by
  have hchain := chain_log Store.engine schedule (Request.replies requests) {}
  rw [hlog] at hchain
  have hlogged (x : Entry Store) (hx : x ∈ first) :
      x ∈ log Store.engine schedule (Request.replies requests) {} := by
    rw [hlog]
    exact List.mem_append_left _ hx
  simp only [Store.admitsExecution, hp, Option.all_some, Bool.and_eq_true, Bool.or_eq_true,
    beq_iff_eq] at hadmits
  obtain ⟨now, hnow⟩ := Option.isSome_iff_exists.mp (hadmits.2.resolve_left hother)
  obtain ⟨hthere, hnowId⟩ := Store.execution?_some hnow
  obtain ⟨hmem, hid⟩ := Store.execution?_some hfound
  obtain ⟨before, between, rfl, hbefore, _⟩ := chain_own hchain hlook
  obtain ⟨_, hfirst, rfl, _⟩ := chain_append.mp hchain
  exact ⟨now, hthere, hnowId, stageId_unique hfresh hlogged
    (fun x hx => hlogged x (List.mem_append_left _ hx)) hfirst hbefore hthere hmem
    (hnowId.trans hid.symm)⟩

variable (hs : e.statement = .insertExecution row)
include hs

/-- A call that has inserted nothing before has found its parent under another id than its own. -/
theorem parent_ne_id (hreads : ∀ x ∈ own e.caller first, ∀ row, x.statement ≠ .insertExecution row)
    (hlook : look ∈ own e.caller first) (hfound : look.before.execution? p = some parent) :
    p ≠ row.id := by
  have hchain := chain_log Store.engine schedule (Request.replies requests) {}
  rw [hlog] at hchain
  obtain ⟨before, between, rfl, hbefore, _⟩ := chain_own hchain hlook
  obtain ⟨hmem, hid⟩ := Store.execution?_some hfound
  intro hown
  obtain ⟨made, hmade, new, hnew, hsame⟩ := inserted_of_mem hbefore hmem
  have hfirst : made ∈ before ++ look :: between := List.mem_append_left _ hmade
  have hlogged : made ∈ log Store.engine schedule (Request.replies requests) {} := by
    rw [hlog]
    exact List.mem_append_left _ hfirst
  have he : e ∈ log Store.engine schedule (Request.replies requests) {} := by simp [hlog]
  have hids : new.id = row.id := hsame.id.symm.trans (hid.trans hown)
  have hcaller := (insertion_unique hfresh hlogged he hnew hs hids).1
  exact hreads made (List.mem_filter.mpr ⟨hfirst, beq_iff_eq.mpr hcaller⟩) new hnew

/-- What a call checked still holds when it inserts. -/
theorem fits_inserted (hadmits : e.before.admitsExecution row = true) : e.before.Fits row := by
  have he : e ∈ log Store.engine schedule (Request.replies requests) {} := by simp [hlog]
  obtain ⟨r, hr, hasked⟩ := askedBy_of_mem_log he
  have hcomes := comesTo_of_log hlog hr
  rw [hs] at hasked hcomes
  obtain ⟨request, freshId, rfl, _, hrow⟩ := hasked
  obtain ⟨hstage, hparent, hreads⟩ := Executions.checked_of_comesTo hcomes
  have hchain := chain_log Store.engine schedule (Request.replies requests) {}
  rw [hlog] at hchain
  constructor
  · obtain ⟨look, hlook, hfind, hfound⟩ := hstage
    obtain ⟨_, _, _, _, hbetween⟩ := chain_own hchain hlook
    rw [hfind] at hbetween
    rw [hrow]
    exact stage?_chain hbetween hfound
  · intro p hp
    have hasked : request.parentId = some p := by rwa [hrow] at hp
    obtain ⟨look, hlook, _, parent, hfound, hplace⟩ := hparent p hasked
    have hother := parent_ne_id hfresh hlog hs hreads hlook hfound
    obtain ⟨now, hthere, hid, hstage⟩ :=
      parent_stays hfresh hlog hadmits hp hother hlook hfound
    refine ⟨now, hthere, hid, ?_⟩
    calc now.stageId = parent.stageId := hstage
      _ = request.stageId := hplace
      _ = row.stageId := by rw [hrow]; rfl

end
end

/-- However calls overlap, stages and executions belong together, if each execution is created under
an id of its own. -/
theorem stages_and_executions_structured (requests : List Request)
    (schedule : List (Nat × Instant)) (hfresh : (requests.filterMap Request.freshId?).Nodup) :
    (run Store.engine schedule (Request.pool requests) {}).2.Structured := by
  rw [store_replies]
  refine Store.Grown.structured (chain_keeps (chain_log Store.engine schedule _ {})
    (I := Store.Grown) (fun e he h => ?_) ?_)
  · obtain ⟨r, _, hasked⟩ := askedBy_of_mem_log he
    obtain ⟨first, rest, hlog⟩ := List.append_of_mem he
    exact h.engine hasked fun row hs hadmits => fits_inserted hfresh hlog hs hadmits
  · exact .empty

open OneExecution

/-- The agent asks for help, its helper too, and so on; then the second helper is removed while one
more is asked for on its behalf. -/
def helping : List Request := requests .active ++ [
  .createExecution Request.helper "sub",
  .createExecution { Request.helper with parentId := some "sub" } "deep",
  .createExecution { Request.helper with parentId := some "deep" } "deeper",
  .delete "deep",
  .createExecution { Request.helper with parentId := some "deep", agentIndex := 2 } "late"]

def helpingTurns : List (Nat × Instant) :=
  turns 0 3 ++ turns 1 3 ++ turns 2 8 ++ turns 3 9 ++ turns 4 8 ++ turns 5 8 ++ turns 6 8 ++
    turns 8 2 ++ turns 7 8 ++ turns 8 6

/-- A removed helper takes its own along, and none comes after it. -/
theorem helpers_structured : (helping.filterMap Request.freshId?).Nodup ∧
    (run Store.engine helpingTurns (Request.pool helping) {}).2.Structured ∧
    (run Store.engine (helpingTurns.take 49) (Request.pool helping) {}).2.executions.map (·.id) =
      ["e", "sub", "deep", "deeper"] ∧
    (run Store.engine helpingTurns (Request.pool helping) {}).2.executions.map (·.id) =
      ["e", "sub"] := by
  have hfresh : (helping.filterMap Request.freshId?).Nodup := by decide +kernel
  refine ⟨hfresh, stages_and_executions_structured helping helpingTurns hfresh, ?_, ?_⟩
  · rw [Store.engine_eq_ordered]
    decide +kernel
  · rw [Store.engine_eq_ordered]
    decide +kernel

end Pool
end AlertDesk
