import AlertDesk.Proofs.Planning
import AlertDesk.Proofs.Retries
import AlertDesk.Proofs.Standing

/-!
Sequential histories of the calls that keep stages recomputed. Each call leaves each stage as it
is, opens it, or has brought it in line with its executions; so a stage stands as the statuses of
its executions after each call of the history have it, and the last ones of them do not always
say how.
-/
namespace AlertDesk

open Service

/-! ### Tended stores -/

/-- A stage that there is not has no executions. -/
theorem Store.Housed.view {st : Store} (h : st.Housed) {id : String} (hnone : st.stage? id = none) :
    st.view id = ⟨none, []⟩ := by
  have hempty : st.executions.filter (·.isTopLevelOf id) = [] := by
    rw [List.filter_eq_nil_iff]
    intro e he htop
    have hstage := h e he
    rw [(ExecutionRow.isTopLevelOf_iff.mp htop).1, hnone] at hstage
    cases hstage
  rw [Store.view, hnone, hempty]

/-- Stores that calls leave behind which keep the stages recomputed. -/
structure Store.Tended (st : Store) : Prop where
  sound : st.Sound
  housed : st.Housed
  inLine : ∀ id, (st.view id).inLine = true

theorem Store.Tended.of_reached {st : Store} (h : st.Reached Instant.Storable)
    (hnone : st.stages = []) : st.Tended where
  sound := h.sound
  housed := h.housed
  inLine id := by simp [StageView.inLine, Store.view, Store.stage?, hnone]

/-! ### What a call makes of a stage -/

namespace StageView

inductive Opens (v : StageView) : StageView → Prop
  | same : v.Opens v
  | new (row : StageRow) (hnone : v.stage = none) (hstatus : row.status = .pending) :
      v.Opens ⟨some row, []⟩

structure Settles (v v' : StageView) (row row' : StageRow) : Prop where
  before : v.stage = some row
  after : v'.stage = some row'
  policy : row'.policy = row.policy
  status : row'.status = (Verdict.of row.policy v'.statuses).settle row.status

inductive Next (v v' : StageView) : Prop
  | opens (h : v.Opens v')
  | settles (row row' : StageRow) (h : v.Settles v' row row') (hline : v'.inLine = true)

theorem Opens.inLine {v v' : StageView} (h : v.Opens v') (hline : v.inLine = true) :
    v'.inLine = true := by
  cases h with
  | same => exact hline
  | new row => rfl

theorem Next.inLine {v v' : StageView} (h : v.Next v') (hline : v.inLine = true) :
    v'.inLine = true := by
  cases h with
  | opens h => exact h.inLine hline
  | settles row row' h hline => exact hline

end StageView

theorem Request.Makes.movesExecutions {r : Request} {st : Store} {s : Statement}
    {owed : Option String} (h : r.Makes st s owed) : s.movesExecutions = true := by
  cases h <;> rfl

/-- The change of an execution is seen by the stage that is recomputed after it, and by no other. -/
theorem Request.Makes.view_of_ne {r : Request} {st : Store} {s : Statement} {owed : Option String}
    {id : String} (h : r.Makes st s owed) (hst : st.Keyed) (hid : owed ≠ some id) :
    (Store.engine s st).2.view id = st.view id := by
  have hfound {executionId : String} {row e : ExecutionRow}
      (hrow : st.execution? executionId = some row) (he : e ∈ st.executions)
      (heid : e.id = executionId) : e = row := by
    have hsame := Store.find?_key hst.executions he heid
    rw [← Store.execution?, hrow] at hsame
    exact (Option.some.inj hsame).symm
  by_contra hview
  apply hid
  cases h with
  | create hcheck hrow hsession hadmits =>
    have htop := (Statement.insertExecution_of_view_ne hview).2
    exact congrArg some (ExecutionRow.isTopLevelOf_iff.mp htop).1
  | move hrow hnow =>
    obtain ⟨e, he, heid, htop⟩ := Statement.moveExecution_of_view_ne hview
    rw [hfound hrow he heid] at htop
    exact congrArg some (ExecutionRow.isTopLevelOf_iff.mp htop).1
  | remove hrow =>
    obtain ⟨e, he, heid, htop⟩ := Statement.removeExecution_of_view_ne hview
    rw [hfound hrow he heid, ExecutionRow.isTopLevelOf_iff] at htop
    rw [ExecutionOf.isSubAgent, htop.2, htop.1]
    rfl

namespace Store.Settles

variable {id : String} {owed : Option String} {st st' : Store}

/-- No other stage is written. -/
theorem view_of_ne (h : Settles owed st st') (hid : owed ≠ some id) : st'.view id = st.view id := by
  cases h with
  | nothing => rfl
  | inLine => rfl
  | @written stageId _ row stage change now hrow hread hplan hnow =>
    by_contra hview
    have hwrites :=
      Statement.writes_of_view_ne (StageChange.newStages_statement change stage now st)
      (StageChange.movesExecutions_statement change stage now) hview
    rw [Statement.writes_statement, beq_iff_eq, (StageRow.read_ok hread).1] at hwrites
    exact hid (congrArg some ((Store.stage?_some hrow).2.symm.trans hwrites))

/-- The stage is left as the verdict on its executions has it. -/
theorem settles_view (h : Settles (some id) st st') {row : StageRow}
    (hrow : st.stage? id = some row) :
    ∃ row', (st.view id).Settles (st'.view id) row row' := by
  have hstatuses : (st'.view id).statuses = (st.view id).statuses := by
    rw [StageView.statuses, view, h.executions]
    rfl
  cases h with
  | inLine hline =>
    refine ⟨row, hrow, hrow, rfl, ?_⟩
    simp only [StageView.inLine, view, hrow, Option.all_some] at hline
    exact (Verdict.settle_of_admits hline).symm
  | @written _ _ row₀ stage change now hrow₀ hread hplan hnow =>
    rw [hrow] at hrow₀
    cases hrow₀
    obtain ⟨houtcome, hpolicy⟩ := StageChange.onStage_statement hread hplan now
    obtain ⟨_, hstatus, _, hsame, _⟩ := StageRow.read_ok hread
    refine ⟨(change.statement stage now).onStage row, hrow, ?_, hpolicy, ?_⟩
    · change (Store.engine (change.statement stage now) st).2.stage? id = _
      rw [Statement.stage?_engine (change.newStages_statement stage now st), hrow]
      rfl
    · have hleft : ((change.statement stage now).onStage row).status =
          (change.outcome stage.errorMessage).1 := congrArg Prod.fst houtcome
      rw [hstatuses, hleft, StageChange.settle_of_plan hplan, hstatus, hsame, StageView.of_answer]

end Store.Settles

/-- A change of an execution and the recompute after it. -/
theorem Request.Leaves.next {r : Request} {st st' : Store} (h : r.Leaves st st') (hst : st.Tended)
    (id : String) : (st.view id).Next (st'.view id) := by
  cases h with
  | same => exact .opens .same
  | @changed s owed _ hmakes hsettles =>
    have hstage : (Store.engine s st).2.stage? id = st.stage? id :=
      Statement.stage?_of_moves hmakes.movesExecutions id
    by_cases hid : owed = some id
    · subst hid
      cases hrow : st.stage? id with
      | some row =>
        obtain ⟨row', hview⟩ := hsettles.settles_view (hstage.trans hrow)
        exact .settles row row' ⟨hrow, hview.after, hview.policy, hview.status⟩ hsettles.inLine_view
      | none =>
        have hmid := (Statement.housed_engine hst.housed s).view (hstage.trans hrow)
        have hline : ((Store.engine s st).2.view id).inLine = true := by
          rw [hmid]
          rfl
        rw [hsettles.eq_of_inLine hline, hmid, hst.housed.view hrow]
        exact .opens .same
    · rw [hsettles.view_of_ne hid, hmakes.view_of_ne hst.sound.keyed hid]
      exact .opens .same

/-! ### Calls that recompute nothing -/

def Statement.OpensOnly (s : Statement) : Prop :=
  (∀ st id, (Store.engine s st).2.view id = st.view id) ∨
    ∃ row, s = .insertStage row ∧ row.status = .pending

theorem Store.opens_insertStage {st : Store} (hst : st.Housed) {row : StageRow}
    (hstatus : row.status = .pending) (id : String) :
    (st.view id).Opens ((engine (.insertStage row) st).2.view id) := by
  rw [Statement.engine_insertStage]
  by_cases hadmits : st.admitsStage row = true
  · rw [if_pos hadmits]
    by_cases hid : row.id = id
    · subst hid
      simp only [admitsStage, Bool.and_eq_true, Option.isNone_iff_eq_none] at hadmits
      have hnone : st.stage? row.id = none := hadmits.1.2
      have hview := hst.view hnone
      have hafter : Store.view { st with stages := st.stages ++ [row] } row.id =
        ⟨some row, []⟩ := by
        rw [stage?] at hnone
        rw [Store.view, StageView.mk.injEq] at hview
        rw [Store.view, hview.2, stage?, List.find?_append, hnone]
        simp
      rw [hafter]
      exact .new row hnone hstatus
    · have hsame : Store.view { st with stages := st.stages ++ [row] } id = st.view id := by
        simp [Store.view, stage?, List.find?_append, hid]
      rw [hsame]
      exact .same
  · rw [if_neg hadmits]
    exact .same

/-- A call whose statements do no more than that. -/
theorem Call.Returns.opens {α : Type} {clock : Instant → Prop} {c : Call α} {st st' : Store} {a : α}
    (h : c.Returns Store.engine clock st a st') (hc : c.Asks clock Statement.OpensOnly)
    (hst : st.Housed) (id : String) : (st.view id).Opens (st'.view id) := by
  have hboth := h.keeps hc (I := fun mid => mid.Housed ∧ (st.view id).Opens (mid.view id)) ?_
    ⟨hst, .same⟩
  · exact hboth.2
  · intro s mid hs hmid
    obtain ⟨hhoused, hopens⟩ := hmid
    refine ⟨Statement.housed_engine hhoused s, ?_⟩
    rcases hs with hkeeps | ⟨row, rfl, hstatus⟩
    · rwa [hkeeps]
    · have hnext := Store.opens_insertStage hhoused hstatus id
      generalize mid.view id = v at hopens hnext
      generalize (Store.engine (.insertStage row) mid).2.view id = v' at hnext
      -- A stage that has just been opened is not opened once more.
      cases hnext with
      | same => exact hopens
      | new row hnone hstatus =>
        cases hopens with
        | same => exact .new row hnone hstatus
        | new row' => cases hnone

theorem Stages.opensOnly_create (clock : Instant → Prop) (request : StageRequest)
    (freshId : String) : (Stages.create request freshId).Asks clock Statement.OpensOnly := by
  simp only [Stages.create, Rows.sessionStatus?, asks_settle_bind, asks_ask_bind]
  refine fun _ _ => ⟨.inl fun _ _ => rfl, fun status => ?_⟩
  cases status with
  | none => simp
  | some _ =>
    simp only [Rows.createStage, asks_ask_bind, asks_pure, implies_true, and_true]
    exact .inr ⟨_, rfl, rfl⟩

/-- A sub-agent is inserted without a recompute. -/
theorem Executions.opensOnly_create (clock : Instant → Prop) {request : ExecutionRequest}
    (freshId : String) (hparent : request.parentId.isSome = true) :
    (Executions.create request freshId).Asks clock Statement.OpensOnly := by
  simp only [Executions.create, asks_settle_bind, Stages.get, Rows.stage?, Rows.readOne, bind_assoc,
    asks_ask_bind]
  refine fun _ _ => ⟨.inl fun _ _ => rfl, fun _ row _ => ?_⟩
  cases row with
  | none => simp
  | some stage =>
    simp only [pure_bind]
    split
    · simp
    · refine asks_bind ?_ fun _ => ?_
      · cases hid : request.parentId with
        | none => simp [checkParent]
        | some id =>
          simp only [checkParent, Rows.execution?, Rows.readOne, bind_assoc, asks_ask_bind,
            asks_settle_bind]
          refine ⟨.inl fun _ _ => rfl, fun _ parent _ => ?_⟩
          cases parent with
          | none => simp
          | some parent =>
            simp only
            split <;> simp
      · have hsub : (request.execution freshId).isSubAgent = true := hparent
        simp only [Rows.createExecution, bind_assoc, asks_ask_bind, pure_bind, hsub]
        refine ⟨.inl fun st id => ?_, fun _ => by simp⟩
        by_contra hview
        have htop := (Statement.insertExecution_of_view_ne hview).2
        have hnone : request.parentId = none := (ExecutionRow.isTopLevelOf_iff.mp htop).2
        rw [hnone] at hparent
        cases hparent

/-! ### Histories -/

namespace Request

def keepsStages : Request → Bool
  | .createStage _ _ | .createExecution _ _ | .transition _ _ _ | .delete _ | .recompute _ => true
  | _ => false

variable {r : Request} {st st' : Store} {answer : Except Failure Unit}

theorem next_of_returns (hr : r.keepsStages = true) (hst : st.Tended)
    (h : r.service.Returns Instant.Storable st answer st') (id : String) :
    (st.view id).Next (st'.view id) := by
  by_cases hchanges : r.changesExecution = true
  · exact ((attempts hchanges hst.sound).returns h).1.next hst id
  · cases r with
    | createStage request freshId =>
      have hasks := asks_bind (f := fun _ => pure ())
        (Stages.opensOnly_create Instant.Storable request freshId) (by simp)
      exact .opens (Call.Returns.opens h hasks hst.housed id)
    | createExecution request freshId =>
      have hparent : request.parentId.isSome = true := by
        simpa [changesExecution, Option.isSome_iff_ne_none] using hchanges
      have hasks := asks_bind (f := fun _ => pure ())
        (Executions.opensOnly_create Instant.Storable freshId hparent) (by simp)
      exact .opens (Call.Returns.opens h hasks hst.housed id)
    | recompute stageId =>
      have hsettles : st.Settles (some stageId) st' :=
        ((Stages.attempts_recompute_bind (fun _ => ⟨(), rfl⟩) hst.sound).returns h).1
      rw [hsettles.eq_of_inLine (hst.inLine stageId)]
      exact .opens .same
    | transition | delete => exact absurd rfl hchanges
    | _ => cases hr

theorem tended_of_returns (hr : r.keepsStages = true) (hst : st.Tended)
    (h : r.service.Returns Instant.Storable st answer st') : st'.Tended where
  sound := Call.Returns.keeps h (Request.asks r) (fun _ _ hs hst => hst.engine hs) hst.sound
  housed :=
    Call.Returns.keeps h (Request.asks r) (fun s _ _ hst => Statement.housed_engine hst s)
      hst.housed
  inLine id := (next_of_returns hr hst h id).inLine (hst.inLine id)

end Request

namespace StageView

/-- The stage stands by this trace; one that is still to come will be pending. -/
def StandsBy (v : StageView) (trace : StageTrace) : Prop :=
  match v.stage with
  | some row => row.status = StageTrace.standing row.policy trace
  | none => ∀ policy, StageTrace.standing policy trace = .pending

variable {v v' : StageView} {trace : StageTrace}

/-- A stage that was in line and is as it was stands as before. -/
theorem StandsBy.same (h : v.StandsBy trace) (hline : v.inLine = true)
    (hnone : v.stage = none → v.statuses = []) : v.StandsBy (v.statuses :: trace) := by
  cases hstage : v.stage with
  | some row =>
    simp only [StandsBy, inLine, hstage, Option.all_some] at h hline ⊢
    rw [StageTrace.standing_cons, ← h, Verdict.settle_of_admits hline]
  | none =>
    simp only [StandsBy, hstage, hnone hstage, StageTrace.standing_nil_cons] at h ⊢
    exact h

theorem StandsBy.next (h : v.StandsBy trace) (hline : v.inLine = true)
    (hnone : v.stage = none → v.statuses = []) (hnext : v.Next v') :
    v'.StandsBy (v'.statuses :: trace) := by
  cases hnext with
  | opens hopens =>
    cases hopens with
    | same => exact h.same hline hnone
    | new row hstage hstatus =>
      simp only [StandsBy, hstage] at h
      change row.status = StageTrace.standing row.policy ([] :: trace)
      rw [StageTrace.standing_nil_cons, hstatus, h]
  | settles row row' hsettles =>
    simp only [StandsBy, hsettles.before] at h
    simp only [StandsBy, hsettles.after]
    rw [StageTrace.standing_cons, hsettles.policy, ← h, hsettles.status]

end StageView

namespace Store

/-- The stores that successive calls have left before this one, from a store without stages on, the
last one first. -/
inductive History : List Store → Store → Prop
  | start {st : Store} (hst : st.Reached Instant.Storable) (hnone : st.stages = []) : History [] st
  | call {past : List Store} {st st' : Store} {r : Request} {answer : Except Failure Unit}
      (h : History past st) (hr : r.keepsStages = true)
      (hreturns : r.service.Returns Instant.Storable st answer st') : History (st :: past) st'

def trace (id : String) (past : List Store) : StageTrace := past.map fun st => (st.view id).statuses

variable {past past' : List Store} {st st' : Store}

theorem History.tended (h : History past st) : st.Tended := by
  induction h with
  | start hst hnone => exact .of_reached hst hnone
  | call _ hr hreturns ih => exact Request.tended_of_returns hr ih hreturns

/-- Every stage stands by its trace. -/
theorem History.standsBy (h : History past st) (id : String) :
    (st.view id).StandsBy (trace id (st :: past)) := by
  have hnone {st : Store} (hst : st.Tended) (hstage : (st.view id).stage = none) :
      (st.view id).statuses = [] := by
    rw [hst.housed.view hstage]
    rfl
  induction h with
  | @start st hst hempty =>
    have htended := Tended.of_reached hst hempty
    have hstands : (st.view id).StandsBy [] := by
      simp only [StageView.StandsBy, view, stage?, hempty, List.find?_nil]
      exact fun _ => rfl
    exact hstands.same (htended.inLine id) (hnone htended)
  | call h hr hreturns ih =>
    exact ih.next (h.tended.inLine id) (hnone h.tended)
      (Request.next_of_returns hr h.tended hreturns id)

/-- Two histories that leave two stages with the same policy and the same top-level executions, up
to their order. The stages have one status if an execution is active, or if there are executions
and all have ended. If there are executions, but none active and some pending, they have one status
if both or neither of them were active when that was decided last; and if there are none, if the
stages stood alike before. In no other case do they have one status. -/
theorem stage_statuses_agree_iff (h : History past st) (h' : History past' st') {id id' : String}
    {row row' : StageRow} (hrow : st.stage? id = some row) (hrow' : st'.stage? id' = some row')
    (hpolicy : row.policy = row'.policy)
    (hperm : (st.view id).statuses.Perm (st'.view id').statuses) :
    row.status = row'.status ↔
      StageTrace.decides (st.view id).statuses = true ∨
      ((st.view id).statuses ≠ [] ∧
        StageTrace.wasActive (trace id past) = StageTrace.wasActive (trace id' past')) ∨
      ((st.view id).statuses = [] ∧ StageTrace.standing row.policy (trace id past) =
        StageTrace.standing row.policy (trace id' past')) := by
  have hstands := h.standsBy id
  have hstands' := h'.standsBy id'
  simp only [StageView.StandsBy, view, hrow] at hstands
  simp only [StageView.StandsBy, view, hrow'] at hstands'
  rw [hstands, hstands', ← hpolicy]
  exact StageTrace.standing_eq_iff hperm _ _

end Store

/-! ### One stage with two executions -/

namespace OneExecution

def handedIn : Store :=
  (Pool.run Store.orderedEngine (turns 0 3) (Request.pool (requests .active)) {}).2

def follow? : List Request → Option (List Store × Store)
  | [] => some ([], handedIn)
  | r :: earlier => do
    let (past, st) ← follow? earlier
    let (answer, st') := r.call.pass Store.orderedEngine ⟨0⟩ st
    answer.map fun _ => (st :: past, st')

theorem history_of_follow? {calls : List Request} (hcalls : ∀ r ∈ calls, r.keepsStages = true)
    {past : List Store} {st : Store} (h : follow? calls = some (past, st)) :
    Store.History past st := by
  have hzero : Instant.Storable ⟨0⟩ := by decide
  induction calls generalizing past st with
  | nil =>
    cases h
    refine .start ⟨requests .active, turns 0 3, fun x hx => ?_, ?_⟩ (by decide +kernel)
    · rw [List.eq_of_mem_replicate hx]
      exact hzero
    · rw [Store.engine_eq_ordered]
      rfl
  | cons r earlier ih =>
    simp only [follow?, Option.bind_eq_bind, Option.bind_eq_some_iff, Option.map_eq_some_iff] at h
    obtain ⟨⟨past', mid⟩, hearlier, answer, hanswer, hend⟩ := h
    cases hend
    have hpass : r.call.pass Store.engine ⟨0⟩ mid =
        (some answer, (r.call.pass Store.orderedEngine ⟨0⟩ mid).2) := by
      rw [← hanswer, Store.engine_eq_ordered]
    have hreturns : r.service.Returns Instant.Storable mid answer _ :=
      (Call.pass_eq_some_iff.mp hpass).mono fun t ht => ht ▸ hzero
    exact .call (ih (fun r hr => hcalls r (List.mem_cons_of_mem _ hr)) hearlier)
      (hcalls r List.mem_cons_self) hreturns

def moved (statuses : List StageStatus) : List Request :=
  statuses.map (Request.transition "e" · none) ++
    [.createExecution (agent 2) "f", .createExecution (agent 1) "e",
      .createStage
        { sessionId := "s", stageName := "triage", stageIndex := 0, expectedAgentCount := 1 } "st"]

def left (statuses : List StageStatus) : List Store × Store :=
  (follow? (moved statuses)).getD ([], handedIn)

theorem history_left (statuses : List StageStatus)
    (hdone : (follow? (moved statuses)).isSome = true) :
    Store.History (left statuses).1 (left statuses).2 := by
  obtain ⟨⟨past, st⟩, hfollow⟩ := Option.isSome_iff_exists.mp hdone
  have hleft : left statuses = (past, st) := by rw [left, hfollow, Option.getD_some]
  rw [hleft]
  refine history_of_follow? (fun r hr => ?_) hfollow
  rcases List.mem_append.mp hr with hmove | hmade
  · obtain ⟨_, _, rfl⟩ := List.mem_map.mp hmove
    rfl
  · simp only [List.mem_cons, List.not_mem_nil, or_false] at hmade
    rcases hmade with rfl | rfl | rfl <;> rfl

end OneExecution

namespace Store

section
open OneExecution

/-- An active execution makes its stage active, whether or not it was completed before. -/
theorem reopened_stage_agrees : ∃ row row',
    (left [.active]).2.stage? "st" = some row ∧
    (left [.active, .completed]).2.stage? "st" = some row' ∧ row.status = row'.status := by
  have hrows : (((left [.active]).2.stage? "st").any fun row =>
      ((left [.active, .completed]).2.stage? "st").any fun row' => row.policy == row'.policy) =
        true := by decide +kernel
  simp only [Option.any_eq_true, beq_iff_eq] at hrows
  obtain ⟨row, hrow, row', hrow', hpolicy⟩ := hrows
  have hsame : ((left [.active]).2.view "st").statuses =
      ((left [.active, .completed]).2.view "st").statuses := by decide +kernel
  refine ⟨row, row', hrow, hrow', (stage_statuses_agree_iff
    (history_left [.active] (by decide +kernel))
    (history_left [.active, .completed] (by decide +kernel)) hrow hrow' hpolicy
    (.of_eq hsame)).mpr (.inl ?_)⟩
  decide +kernel

/-- A stage is active or pending, by whether its completed execution was active before. -/
theorem stage_statuses_disagree :
    ¬ ∀ (past past' : List Store) (st st' : Store), History past st → History past' st' →
      ∀ (id id' : String) (row row' : StageRow), st.stage? id = some row →
        st'.stage? id' = some row' → row.policy = row'.policy →
        (st.view id).statuses.Perm (st'.view id').statuses → row.status = row'.status := by
  intro hclaim
  have hrows : (((left [.completed, .active]).2.stage? "st").any fun row =>
      ((left [.completed]).2.stage? "st").any fun row' =>
        row.policy == row'.policy && row.status != row'.status) = true := by decide +kernel
  simp only [Option.any_eq_true, Bool.and_eq_true, beq_iff_eq, bne_iff_ne] at hrows
  obtain ⟨row, hrow, row', hrow', hpolicy, hstatus⟩ := hrows
  have hsame : ((left [.completed, .active]).2.view "st").statuses =
      ((left [.completed]).2.view "st").statuses := by decide +kernel
  exact hstatus (hclaim _ _ _ _ (history_left [.completed, .active] (by decide +kernel))
    (history_left [.completed] (by decide +kernel)) "st" "st" row row' hrow hrow' hpolicy
    (.of_eq hsame))

end
end Store
end AlertDesk
