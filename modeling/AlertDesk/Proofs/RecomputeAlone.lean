import AlertDesk.Proofs.Settling
import AlertDesk.Proofs.StageRows

/-!
A recompute that is made alone. What it makes of its stage is a function of the row, of the statuses
of the top-level executions and of the first reading of the clock, and a second recompute finds
nothing left to do.
-/
namespace AlertDesk

/-! ### The row of a recomputed stage -/

namespace StageRow

/-- The stage as a recompute leaves it that reads these statuses and then, where it has to, the
clock. -/
def recomputed (statuses : List StageStatus) (now : Instant) (row : StageRow) : StageRow :=
  match row.read with
  | .error _ => row
  | .ok stage =>
    match StageChange.plan? stage (.of stage.policy statuses) with
    | none => row
    | some change => (change.statement stage now).onStage row

/-- Where the row can be read, nothing is planned for it on these statuses. -/
def Settled (statuses : List StageStatus) (row : StageRow) : Prop :=
  ∀ stage, row.read = .ok stage → StageChange.plan? stage (.of stage.policy statuses) = none

variable {row : StageRow} {statuses : List StageStatus} {now : Instant}

/-- Nothing is to be done, or a change is written that was planned for the row. -/
theorem recomputed_cases (statuses : List StageStatus) (now : Instant) (row : StageRow) :
    (row.recomputed statuses now = row ∧ row.Settled statuses) ∨
    ∃ stage change, row.read = .ok stage ∧
      StageChange.plan? stage (.of stage.policy statuses) = some change ∧
      row.recomputed statuses now = (change.statement stage now).onStage row := by
  unfold recomputed
  cases hread : row.read with
  | error e => exact .inl ⟨rfl, by simp [Settled, hread]⟩
  | ok stage =>
    simp only
    cases hplan : StageChange.plan? stage (.of stage.policy statuses) with
    | none => exact .inl ⟨rfl, by simpa [Settled, hread] using hplan⟩
    | some change => exact .inr ⟨stage, change, rfl, hplan, rfl⟩

theorem id_recomputed : (row.recomputed statuses now).id = row.id := by
  rcases recomputed_cases statuses now row with ⟨hsame, _⟩ | ⟨stage, change, _, _, hwritten⟩
  · rw [hsame]
  · rw [hwritten, Statement.id_onStage]

/-- A statement leaves all of a stage but its status, its times, its duration and its message. -/
theorem onStage_eq (s : Statement) (row : StageRow) : s.onStage row =
    { row with
      status := (s.onStage row).status
      startedAt := (s.onStage row).startedAt
      completedAt := (s.onStage row).completedAt
      durationMs := (s.onStage row).durationMs
      errorMessage := (s.onStage row).errorMessage } := by
  apply Statement.onStage_keeps (P := fun after => after =
    { row with
      status := after.status
      startedAt := after.startedAt
      completedAt := after.completedAt
      durationMs := after.durationMs
      errorMessage := after.errorMessage }) rfl
  intro after hwrites
  cases hwrites <;> rfl

/-- So does a recompute. -/
theorem recomputed_eq (statuses : List StageStatus) (now : Instant) (row : StageRow) :
    row.recomputed statuses now =
      { row with
        status := (row.recomputed statuses now).status
        startedAt := (row.recomputed statuses now).startedAt
        completedAt := (row.recomputed statuses now).completedAt
        durationMs := (row.recomputed statuses now).durationMs
        errorMessage := (row.recomputed statuses now).errorMessage } := by
  rcases recomputed_cases statuses now row with ⟨hsame, _⟩ | ⟨stage, change, _, _, hwritten⟩
  · rw [hsame]
  · rw [hwritten]
    exact onStage_eq _ row

/-- The change that was planned for a row leaves nothing to be planned for it. -/
theorem plan?_onStage {stage after : Stage} {change : StageChange} (hread : row.read = .ok stage)
    (hplan : StageChange.plan? stage (.of stage.policy statuses) = some change)
    (hafter : ((change.statement stage now).onStage row).read = .ok after) :
    StageChange.plan? after (.of after.policy statuses) = none := by
  obtain ⟨houtcome, hpolicy⟩ := StageChange.onStage_statement hread hplan now
  obtain ⟨hstatus, hmessage⟩ := Prod.mk.inj houtcome
  obtain ⟨_, hstatus', hmessage', hpolicy', _⟩ := read_ok hafter
  have hadmits := StageChange.admits_outcome hplan
  rw [StageChange.plan?_eq_none_iff, hpolicy', hpolicy, hstatus', hstatus, hmessage', hmessage]
  rwa [(read_ok hread).2.2.2.1] at hadmits

theorem recomputed_settled (statuses : List StageStatus) (now : Instant) (row : StageRow) :
    (row.recomputed statuses now).Settled statuses := by
  rcases recomputed_cases statuses now row with
    ⟨hsame, hnone⟩ | ⟨stage, change, hread, hplan, hwritten⟩
  · rwa [hsame]
  · intro after hafter
    rw [hwritten] at hafter
    exact plan?_onStage hread hplan hafter

/-- A recompute leaves a settled row as it is. -/
theorem Settled.recomputed (h : row.Settled statuses) (now : Instant) :
    row.recomputed statuses now = row := by
  rcases recomputed_cases statuses now row with ⟨hsame, _⟩ | ⟨stage, change, hread, hplan, _⟩
  · exact hsame
  · rw [h stage hread] at hplan
    cases hplan

theorem recomputed_nil : row.recomputed [] now = row := by
  rcases recomputed_cases [] now row with ⟨hsame, _⟩ | ⟨stage, change, _, hplan, _⟩
  · exact hsame
  · cases hplan

/-- A stage that is still running is opened again if it was terminal, and is started if it was
pending and an execution is active. -/
theorem recomputed_of_running {stage : Stage} {anyActive : Bool} (hread : row.read = .ok stage)
    (hof : Verdict.of row.policy statuses = .running anyActive) :
    row.recomputed statuses now =
      if row.status.isTerminal then
        row.reopened (if anyActive then .active else .pending) (.ofInstant now)
      else if anyActive && row.status == .pending then row.activated (.ofInstant now)
      else row := by
  obtain ⟨hid, hstatus, _, hpolicy, _⟩ := read_ok hread
  simp only [recomputed, hread, hpolicy, hof, StageChange.plan?, hstatus]
  by_cases hterminal : row.status.isTerminal = true
  · simp [hterminal, StageChange.statement, Statement.onStage, isAt, hid, hstatus]
  · by_cases hpending : (anyActive && row.status == .pending) = true
    · have hat : row.isAt row.id .pending = true := by
        rw [Bool.and_eq_true] at hpending
        rw [isAt, beq_self_eq_true, Bool.true_and, hpending.2]
      simp [hterminal, hpending, StageChange.statement, Statement.onStage, hid, hat]
    · simp [hterminal, hpending]

/-- A stage whose executions have all ended has the status and the message of the verdict on
them. -/
theorem recomputed_of_finished {stage : Stage} {status : StageStatus} {message : Option String}
    (hread : row.read = .ok stage)
    (hof : Verdict.of row.policy statuses = .finished status message) :
    (row.recomputed statuses now).status = status ∧
      (row.recomputed statuses now).errorMessage = message := by
  obtain ⟨hid, hstatus, hmessage, hpolicy, _⟩ := read_ok hread
  simp only [recomputed, hread, hpolicy, hof, StageChange.plan?, hstatus, hmessage]
  by_cases hsame : (row.status == status && row.errorMessage == message) = true
  · rw [if_pos hsame]
    rwa [Bool.and_eq_true, beq_iff_eq, beq_iff_eq] at hsame
  · rw [if_neg hsame]
    simp [StageChange.statement, Statement.onStage, isAt, hid, hstatus, finalized]

/-- While an execution is not terminal the stage is not left terminal, and with nothing of its
end. -/
theorem recomputed_of_some_running (hrow : row.Readable)
    (hrun : ∃ s ∈ statuses, s.isTerminal = false) :
    (.active ∈ statuses → (row.recomputed statuses now).status = .active) ∧
    (.active ∉ statuses →
      if row.status.isTerminal then (row.recomputed statuses now).status = .pending
      else row.recomputed statuses now = row) ∧
    (row.status.isTerminal = true → (row.recomputed statuses now).completedAt = none ∧
      (row.recomputed statuses now).durationMs = none ∧
      (row.recomputed statuses now).errorMessage = none) := by
  have hne : statuses ≠ [] := by
    obtain ⟨s, hs, _⟩ := hrun
    exact List.ne_nil_of_mem hs
  have hof : Verdict.of row.policy statuses = .running (statuses.contains .active) := by
    rcases Verdict.of_cases row.policy hne with ⟨_, hof⟩ | ⟨hall, _⟩
    · exact hof
    · obtain ⟨s, hs, hterminal⟩ := hrun
      rw [hall s hs] at hterminal
      cases hterminal
  rw [recomputed_of_running (read_eq_ok hrow) hof]
  refine ⟨fun hactive => ?_, fun hnone => ?_, fun hterminal => ?_⟩
  · have hcontains : statuses.contains .active = true := by simpa using hactive
    simp only [hcontains, if_true, Bool.true_and]
    cases hstatus : row.status <;> simp [StageStatus.isTerminal, reopened, activated, hstatus]
  · have hcontains : statuses.contains .active = false := by simpa using hnone
    simp only [hcontains, Bool.false_and, Bool.false_eq_true, if_false]
    split
    · rfl
    · rfl
  · rw [if_pos hterminal]
    exact ⟨rfl, rfl, rfl⟩

/-- Once all executions are terminal the stage has the status and the message of the verdict. -/
theorem recomputed_of_all_terminal (hrow : row.Readable) (hne : statuses ≠ [])
    (hall : ∀ s ∈ statuses, s.isTerminal = true) : Verdict.of row.policy statuses =
      .finished (row.recomputed statuses now).status
        (row.recomputed statuses now).errorMessage := by
  rcases Verdict.of_cases row.policy hne with ⟨⟨s, hs, hterminal⟩, _⟩ | ⟨_, status, message, hof, _⟩
  · rw [hall s hs] at hterminal
    cases hterminal
  · have hleft : (row.recomputed statuses now).status = status ∧
        (row.recomputed statuses now).errorMessage = message :=
      recomputed_of_finished (read_eq_ok hrow) hof
    rw [hleft.1, hleft.2]
    exact hof

/-- A readable stage is left readable where the clock can be stored. -/
theorem Readable.recomputed (h : row.Readable) (hnow : now.Storable) :
    (row.recomputed statuses now).Readable := by
  rcases recomputed_cases statuses now row with ⟨hsame, _⟩ | ⟨stage, change, _, hplan, hwritten⟩
  · rwa [hsame]
  · rw [hwritten]
    have hasked : (change.statement stage now).AskedBy Instant.Storable (.recompute row.id) :=
      StageChange.askedBy_statement hplan hnow _
    exact h.onStage (fun _ ht => ht) hasked

end StageRow

/-! ### The store after a recompute -/

namespace Store

variable {st : Store} {id : String} {row row' : StageRow}

def withStage (st : Store) (row : StageRow) : Store :=
  { st with stages := changeWhere (·.id == row.id) (fun _ => row) st.stages }

theorem Keyed.stage?_of_mem (h : st.Keyed) {r : StageRow} (hr : r ∈ st.stages) :
    st.stage? r.id = some r := find?_key h.stages hr rfl

/-- What a map makes of the stages, where it changes no other than this one. -/
theorem Keyed.map_stages (h : st.Keyed) (hrow : st.stage? id = some row) {f : StageRow → StageRow}
    (hid : (f row).id = row.id) (hothers : ∀ r, r.id ≠ row.id → f r = r) :
    st.stages.map f = (st.withStage (f row)).stages := by
  refine List.map_congr_left fun r hr => ?_
  by_cases hsame : r.id = row.id
  · have hfound := h.stage?_of_mem hr
    rw [hsame, (stage?_some hrow).2, hrow] at hfound
    cases hfound
    simp [hid]
  · simp [hid, hsame, hothers r hsame]

theorem Keyed.withStage_self (h : st.Keyed) (hrow : st.stage? id = some row) :
    st.withStage row = st := by
  have hstages := h.map_stages hrow (f := fun r => r) rfl fun _ _ => rfl
  rw [List.map_id'] at hstages
  rw [withStage, show changeWhere (·.id == row.id) (fun _ => row) st.stages = st.stages from
    hstages.symm]

theorem stage?_withStage (hrow : st.stage? id = some row) (hid : row'.id = id) :
    (st.withStage row').stage? id = some row' := by
  subst hid
  simp only [stage?, withStage] at hrow ⊢
  generalize st.stages = rows at hrow ⊢
  induction rows with
  | nil => cases hrow
  | cons r rows ih =>
    rw [changeWhere, List.map_cons]
    cases hr : r.id == row'.id with
    | true =>
      rw [if_pos rfl]
      exact List.find?_cons_of_pos (beq_self_eq_true row'.id)
    | false =>
      rw [List.find?_cons, hr] at hrow
      rw [if_neg Bool.false_ne_true, List.find?_cons, hr]
      exact ih hrow

end Store

/-- A planned change is written into the one row that it was planned for. -/
theorem StageChange.engine_statement {st : Store} {id : String} {row : StageRow} {stage : Stage}
    {change : StageChange} (h : st.Keyed) (hrow : st.stage? id = some row) (hid : stage.id = row.id)
    (now : Instant) : (Store.engine (change.statement stage now) st).2 =
      st.withStage ((change.statement stage now).onStage row) := by
  have hstages := h.map_stages hrow (Statement.id_onStage (change.statement stage now) row)
    fun r hr => Statement.onStage_of_not_writes <| by
      rw [Statement.writes_statement, hid, beq_eq_false_iff_ne]
      exact hr.symm
  have hstore : (Store.engine (change.statement stage now) st).2 =
      { st with stages := st.stages.map (change.statement stage now).onStage } := by
    cases change <;> rfl
  rw [hstore, hstages]
  rfl

open Service

namespace Stages

variable {β : Type} {st : Store} {id : String} {row : StageRow} {readings : Nat → Instant}

theorem alone_get_bind {f : Stage → Service β} (hrow : st.stage? id = some row) :
    (get id >>= f).alone readings st = (settle row.read >>= f).alone readings st := by
  simp only [get, Rows.stage?, Rows.readOne, bind_assoc]
  rw [alone_ask_bind]
  change ((settle (.ok (st.stage? id)) >>= _).alone readings st) = _
  rw [hrow, settle_ok, pure_bind]
  cases hread : row.read with
  | error e =>
    rw [mapM_some_error hread]
    rfl
  | ok stage =>
    rw [mapM_some_ok hread, settle_ok, settle_ok, pure_bind, pure_bind]

theorem alone_get (hrow : st.stage? id = some row) :
    (get id).alone readings st = (some row.read, st) := by
  rw [← bind_pure (get id), alone_get_bind hrow, bind_pure]
  rfl

/-- A write that was planned for the stage finds it. -/
theorem alone_write_bind {f : Nat → Service β} {stage : Stage} {change : StageChange}
    {verdict : Verdict} (hst : st.Keyed) (hrow : st.stage? id = some row)
    (hread : row.read = .ok stage) (hplan : StageChange.plan? stage verdict = some change) :
    (write stage change >>= f).alone readings st =
      (f 1).alone (fun n => readings (n + 1))
        (st.withStage ((change.statement stage (readings 0)).onStage row)) := by
  obtain ⟨hid, hstatus, _⟩ := StageRow.read_ok hread
  have hcount := hst.countP_isAt hrow
  rw [← hid, ← hstatus] at hcount
  rw [← StageChange.engine_statement hst hrow hid]
  simp only [write, bind_assoc]
  rw [alone_clock_bind, ← hcount]
  cases change with
  | activate =>
    rw [StageChange.of_activate hplan]
    rfl
  | reopen status => rfl
  | finalize status message => rfl

/-- A recompute that is made alone leaves the stage recomputed, and answers what the row then
says. -/
theorem alone_recompute_eq (hst : st.Keyed) (hrow : st.stage? id = some row)
    (readings : Nat → Instant) : (recompute id).alone readings st =
      (some (row.recomputed (st.view id).statuses (readings 0)).read,
        st.withStage (row.recomputed (st.view id).statuses (readings 0))) := by
  rw [recompute, attempts, recomputeWithin, alone_get_bind hrow]
  unfold StageRow.recomputed
  cases hread : row.read with
  | error e =>
    simp only [hread, hst.withStage_self hrow]
    rfl
  | ok stage =>
    rw [settle_ok, pure_bind, Rows.topLevelStatuses, alone_ask_bind]
    change (settle (.ok (st.view id).answer) >>= _).alone readings st = _
    rw [settle_ok, pure_bind, StageView.of_answer]
    simp only
    cases hplan : StageChange.plan? stage (.of stage.policy (st.view id).statuses) with
    | none =>
      simp only [hread, hst.withStage_self hrow]
      rfl
    | some change =>
      have hid : ((change.statement stage (readings 0)).onStage row).id = id :=
        (Statement.id_onStage _ row).trans (Store.stage?_some hrow).2
      rw [alone_write_bind hst hrow hread hplan]
      exact alone_get (Store.stage?_withStage hrow hid)

end Stages

namespace Store

variable {st : Store} {id : String} {row : StageRow}

theorem Keyed.withStage (h : st.Keyed) (hrow : st.stage? id = some row) (now : Instant) :
    (st.withStage (row.recomputed (st.view id).statuses now)).Keyed := by
  rcases StageRow.recomputed_cases (st.view id).statuses now row with
    ⟨hsame, _⟩ | ⟨stage, change, hread, _, hwritten⟩
  · rwa [hsame, h.withStage_self hrow]
  · rw [hwritten, ← StageChange.engine_statement h hrow (StageRow.read_ok hread).1]
    exact Statement.keyed_engine h _

end Store

/-- What a recompute makes of the row of its stage, where the store was `st` before it: of the
columns only the status, the times, the duration and the message may change, and a recompute of what
it leaves changes nothing. A row that can be read is left as the verdict has it: while executions
are `running` none of its end is left, and once they have all ended it ends as they did. -/
structure Store.Recomputes (st : Store) (id : String) (row row' : StageRow) : Prop where
  columns : row' = { row with
    status := row'.status
    startedAt := row'.startedAt
    completedAt := row'.completedAt
    durationMs := row'.durationMs
    errorMessage := row'.errorMessage }
  again : ∀ readings, (Stages.recompute id).alone readings (st.withStage row') =
    (some row'.read, st.withStage row')
  empty : (st.view id).statuses = [] → row' = row
  running : row.Readable → (∃ s ∈ (st.view id).statuses, s.isTerminal = false) →
    (.active ∈ (st.view id).statuses → row'.status = .active) ∧
    (.active ∉ (st.view id).statuses →
      if row.status.isTerminal then row'.status = .pending else row' = row) ∧
    (row.status.isTerminal = true →
      row'.completedAt = none ∧ row'.durationMs = none ∧ row'.errorMessage = none)
  ended : row.Readable → (st.view id).statuses ≠ [] →
    (∀ s ∈ (st.view id).statuses, s.isTerminal = true) →
    Verdict.of row.policy (st.view id).statuses = .finished row'.status row'.errorMessage

/-- Made alone on a store that requests have left behind, a recompute replaces the row of its stage,
of which only the status, the times, the duration and the message may be other than before, and
answers with the row as it then is; made again, it changes nothing and answers the same. A stage
without executions stays as it is. A stage whose row can be read is left as the verdict on its
executions has it: while one of them is not terminal it is active if one of them is active, else it
is pending if it was terminal before and as it was if not, and nothing is left of an end that it
had; once they are all terminal it has the status and the message of the verdict. -/
theorem Store.Reached.recompute_alone {clock : Instant → Prop} {st : Store} (hst : st.Reached clock)
    {id : String} {row : StageRow} (hrow : st.stage? id = some row) (readings : Nat → Instant) :
    ∃ row', (Stages.recompute id).alone readings st = (some row'.read, st.withStage row') ∧
      st.Recomputes id row row' ∧
      ((∀ t, clock t → t.Storable) → row.Readable ∧
        ((readings 0).Storable → row'.read = .ok (row'.map Stamp.named))) := by
  have hid : (row.recomputed (st.view id).statuses (readings 0)).id = id :=
    StageRow.id_recomputed.trans (stage?_some hrow).2
  refine ⟨row.recomputed (st.view id).statuses (readings 0),
    Stages.alone_recompute_eq hst.keyed hrow readings, ?_, fun hclock => ?_⟩
  · refine ⟨StageRow.recomputed_eq _ (readings 0) row, fun readings' => ?_, fun hnil => ?_,
      StageRow.recomputed_of_some_running, StageRow.recomputed_of_all_terminal⟩
    · have hrow' := stage?_withStage hrow hid
      have hkeyed := hst.keyed.withStage hrow (readings 0)
      have hagain := Stages.alone_recompute_eq hkeyed hrow' readings'
      have hstatuses : ((st.withStage
          (row.recomputed (st.view id).statuses (readings 0))).view id).statuses =
          (st.view id).statuses := rfl
      have hsettled := StageRow.recomputed_settled (st.view id).statuses (readings 0) row
      rwa [hstatuses, hsettled.recomputed, hkeyed.withStage_self hrow'] at hagain
    · rw [hnil]
      exact StageRow.recomputed_nil
  · have hreadable := (hst.legible hclock).stages row (stage?_some hrow).1
    exact ⟨hreadable, fun hnow => StageRow.read_eq_ok (hreadable.recomputed hnow)⟩

/-! An execution is active and its stage does not know. -/

namespace Lagging

open OneExecution (turns agent)

def requests : List Request := [
  .submit
    { id := some "s", alertData := "disk full", alertType := "disk", chainId := "default" } "",
  .createStage
    { sessionId := "s", stageName := "triage", stageIndex := 0, expectedAgentCount := 1 } "st",
  .createExecution (agent 1) "e",
  .setStatus "e" .active none]

def schedule : List (Nat × Instant) := turns 0 3 ++ turns 1 3 ++ turns 2 8 ++ turns 3 3

def store : Store := (Pool.run Store.orderedEngine schedule (Request.pool requests) {}).2

theorem reached_store : store.Reached Instant.Storable := by
  refine ⟨requests, schedule, by decide, ?_⟩
  rw [Store.engine_eq_ordered]
  rfl

end Lagging

open Lagging in
theorem Store.Reached.recompute_alone_lagging : ∃ row row', store.stage? "st" = some row ∧
    row.status = .pending ∧ row'.status = .active ∧
    (Stages.recompute "st").alone (fun _ => ⟨5⟩) store = (some row'.read, store.withStage row') ∧
    row'.read = .ok (row'.map Stamp.named) ∧
    (Stages.recompute "st").alone (fun _ => ⟨7⟩) (store.withStage row') =
      (some row'.read, store.withStage row') := by
  have hstage : (store.stage? "st").map (·.status) = some .pending := by decide +kernel
  have hstatuses : (store.view "st").statuses = [.active] := by decide +kernel
  obtain ⟨row, hrow, hstatus⟩ := Option.map_eq_some_iff.mp hstage
  obtain ⟨row', halone, hrecomputes, hlegible⟩ :=
    Lagging.reached_store.recompute_alone hrow fun _ => ⟨5⟩
  obtain ⟨hreadable, hread⟩ := hlegible fun _ ht => ht
  have hrunning := hrecomputes.running hreadable
  rw [hstatuses] at hrunning
  obtain ⟨hactive, _⟩ := hrunning ⟨.active, by simp, rfl⟩
  exact ⟨row, row', hrow, hstatus, hactive (by simp), halone, hread (by decide),
    hrecomputes.again _⟩

end AlertDesk
