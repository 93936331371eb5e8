import AlertDesk.Proofs.Isolation
import AlertDesk.Proofs.JulianScale
import AlertDesk.Proofs.ReadBack
import AlertDesk.Proofs.Refusals

/-!
What the calls on one execution leave in its row. The row is told by the history of the calls alone:
the last status, the last message, the time of the first start and that of the first end. How long
it took is told as well, as long as both times have their place on the Julian day scale.
-/
namespace AlertDesk

theorem Statement.executions_of_tendsStage {s : Statement} (hs : s.tendsStage = true) (st : Store) :
    (Store.engine s st).2.executions = st.executions := by
  cases s with
  | findStage | topLevelStatuses | activateStage | finalizeStage | reopenStage => rfl
  | _ => cases hs

namespace Executions

open Service

structure Report where
  status : StageStatus
  message : Option String
  now : Instant

namespace Report

def start? (reports : List Report) : Option Instant :=
  (reports.find? (·.status == .active)).map (·.now)

def finish? (reports : List Report) : Option Instant :=
  (reports.find? (·.status.isTerminal)).map (·.now)

/-- Both times, where the first start came before the first end. -/
def span? (reports : List Report) : Option (Instant × Instant) := do
  let start ← start? (reports.takeWhile (!·.status.isTerminal))
  let finish ← finish? reports
  return (start, finish)

variable {reports : List Report} {report : Report}

theorem start?_concat : start? (reports ++ [report]) =
    (start? reports).or (if report.status == .active then some report.now else none) := by
  rw [start?, start?, List.find?_append, List.find?_singleton, Option.map_or]
  cases report.status == .active <;> rfl

theorem finish?_concat : finish? (reports ++ [report]) =
    (finish? reports).or (if report.status.isTerminal then some report.now else none) := by
  rw [finish?, finish?, List.find?_append, List.find?_singleton, Option.map_or]
  cases report.status.isTerminal <;> rfl

theorem finish?_eq_none : finish? reports = none ↔ ∀ r ∈ reports, r.status.isTerminal = false := by
  simp [finish?]

theorem span?_of_finish?_none (h : finish? reports = none) : span? reports = none := by
  rw [span?, h]
  cases start? _ <;> rfl

/-- What comes after the first end does not change the span. -/
theorem span?_append (rest : List Report) (h : (finish? reports).isSome = true) :
    span? (reports ++ rest) = span? reports := by
  have hbefore : (reports ++ rest).takeWhile (!·.status.isTerminal) =
      reports.takeWhile (!·.status.isTerminal) := by
    rw [List.takeWhile_append, if_neg]
    intro hlength
    have hall := List.all_takeWhile (p := (!·.status.isTerminal)) (l := reports)
    rw [(List.takeWhile_prefix _).eq_of_length hlength, List.all_eq_true] at hall
    have hnone : finish? reports = none := finish?_eq_none.mpr fun r hr => by simpa using hall r hr
    rw [hnone] at h
    cases h
  have hfinish : finish? (reports ++ rest) = finish? reports := by
    obtain ⟨finish, hfinish⟩ := Option.isSome_iff_exists.mp h
    obtain ⟨r, hr, rfl⟩ := Option.map_eq_some_iff.mp hfinish
    rw [finish?, List.find?_append, hr]
    exact hfinish.symm
  rw [span?, hbefore, hfinish, span?]

theorem span?_concat : span? (reports ++ [report]) =
    if (finish? reports).isNone && report.status.isTerminal
      then (start? reports).map (·, report.now) else span? reports := by
  cases hfinish : finish? reports with
  | some finish => exact span?_append [report] (by rw [hfinish]; rfl)
  | none =>
    have hbefore : (reports ++ [report]).takeWhile (!·.status.isTerminal) =
        reports ++ [report].takeWhile (!·.status.isTerminal) :=
      List.takeWhile_append_of_pos fun r hr => by simp [finish?_eq_none.mp hfinish r hr]
    rw [span?, hbefore, finish?_concat, hfinish, Option.none_or]
    cases hterminal : report.status.isTerminal with
    | true => simp [hterminal]; cases start? reports <;> rfl
    | false =>
      rw [span?_of_finish?_none hfinish]
      simp

end Report

/-! ### Calls one after the other -/

/-- These are the calls made on the execution from one store to the other, in this order. Whatever
happens between them leaves the execution as it is. -/
inductive Reported (id : String) (st : Store) : List Report → Store → Prop
  | nothing : Reported id st [] st
  | call {reports : List Report} {mid : Store} (h : Reported id st reports mid) (report : Report) :
      Reported id st (reports ++ [report])
        ((setStatus id report.status report.message).alone (fun _ => report.now) mid).2
  | meanwhile {reports : List Report} {mid after : Store} (h : Reported id st reports mid)
      (hsame : after.execution? id = mid.execution? id) : Reported id st reports after

theorem Reported.append {id : String} {st mid after : Store} {first rest : List Report}
    (hfirst : Reported id st first mid) (hrest : Reported id mid rest after) :
    Reported id st (first ++ rest) after := by
  induction hrest with
  | nothing => rwa [List.append_nil]
  | call h report ih =>
    rw [← List.append_assoc]
    exact ih.call report
  | meanwhile h hsame ih => exact ih.meanwhile hsame

/-- A call moves the execution that is there, whatever it answers. -/
theorem execution?_setStatus (id : String) (report : Report) (st : Store) :
    ((setStatus id report.status report.message).alone (fun _ => report.now) st).2.execution? id =
      (st.execution? id).map
        (ExecutionRow.moved report.status report.message (.ofInstant report.now)) := by
  generalize hchange : ExecutionRow.moved report.status report.message (.ofInstant report.now) =
    change
  have hstore : ((setStatus id report.status report.message).alone (fun _ => report.now) st).2 =
      { st with executions := Store.changeWhere (·.id == id) change st.executions } := by
    simp only [setStatus, Rows.move?, Rows.readOne, bind_assoc]
    rw [alone_clock_bind, alone_ask_bind]
    simp only [Store.engine, Statement.exec, hchange, settle_ok, pure_bind]
    cases ((st.execution? id).map change).mapM ExecutionRow.read with
    | error e => rfl
    | ok execution => cases execution <;> rfl
  have hfound : (Store.changeWhere (·.id == id) change st.executions).find? (·.id == id) =
      (st.executions.find? (·.id == id)).map change :=
    Store.find?_changeWhere (fun r => by rw [← hchange]; rfl) st.executions
  rw [hstore]
  exact hfound

def Report.book (reports : List Report) (row : ExecutionRow) : ExecutionRow :=
  { row with
    status := (reports.getLast?.map (·.status)).getD row.status
    errorMessage := (reports.filterMap (·.message)).getLast?
    startedAt := (start? reports).map Stamp.ofInstant
    completedAt := (finish? reports).map Stamp.ofInstant
    durationMs := (span? reports).bind fun (start, finish) =>
      JulianDay.between? (.ofInstant start) (.ofInstant finish) }

theorem Report.book_concat (reports : List Report) (report : Report) (row : ExecutionRow) :
    (book reports row).moved report.status report.message (.ofInstant report.now) =
      book (reports ++ [report]) row := by
  have hmessage : report.message.or (reports.filterMap (·.message)).getLast? =
      ((reports ++ [report]).filterMap (·.message)).getLast? := by
    rw [List.filterMap_append, List.getLast?_append]
    cases hreport : report.message <;> simp [hreport]
  have hstart : (if report.status == .active then
        ((start? reports).map Stamp.ofInstant).or (some (.ofInstant report.now))
      else (start? reports).map Stamp.ofInstant) =
      (start? (reports ++ [report])).map Stamp.ofInstant := by
    rw [start?_concat]
    cases report.status == .active <;> cases start? reports <;> rfl
  have hfinish : (if ((finish? reports).map Stamp.ofInstant).isNone && report.status.isTerminal then
        some (.ofInstant report.now)
      else (finish? reports).map Stamp.ofInstant) =
      (finish? (reports ++ [report])).map Stamp.ofInstant := by
    rw [finish?_concat]
    cases report.status.isTerminal <;> cases finish? reports <;> rfl
  simp only [ExecutionRow.moved, book, hmessage, hstart, hfinish, span?_concat]
  congr 1
  · simp
  · cases hended : finish? reports with
    | some finish => cases start? reports <;> simp
    | none =>
      rw [span?_of_finish?_none hended]
      cases report.status.isTerminal <;> cases start? reports <;> simp

/-! ### Created executions -/

def Created (request : ExecutionRequest) (freshId : String) (answer : Except Failure Execution)
    (after : Store) : Prop :=
  ∀ e, answer = .ok e → e = request.execution freshId ∧ after.execution? freshId = some e.row

variable {st : Store} {request : ExecutionRequest} {freshId : String}

theorem created_error (e : Failure) : Created request freshId (.error e) st := by
  intro execution h
  cases h

/-- The recompute of the stage leaves the execution. -/
theorem yields_recomputeUnless_created
    (hstage : (st.stage? (request.execution freshId).stageId).isSome = true)
    (hfound : st.execution? freshId = some (request.execution freshId).row) :
    Yields (do
      if !(request.execution freshId).isSubAgent then
        let _ ← Stages.recompute (request.execution freshId).stageId
      return request.execution freshId) st (Created request freshId) := by
  have hcreated (after : Store)
      (h : after.execution? freshId = some (request.execution freshId).row) :
      Created request freshId (.ok (request.execution freshId)) after := by
    intro e he
    cases he
    exact ⟨rfl, h⟩
  cases (request.execution freshId).isSubAgent with
  | true => exact hcreated st hfound
  | false =>
    refine ((Stages.yields_recomputeWithin Stages.attempts hstage).keeps
      (I := fun st => st.execution? freshId = some (request.execution freshId).row)
      (Stages.asksOnly_recompute _) (fun s st hs h => ?_) hfound).bind (fun _ after h => ?_)
      fun e _ _ => created_error e
    · rw [Store.execution?, Statement.executions_of_tendsStage hs]
      exact h
    · exact hcreated after h.2

theorem yields_created (request : ExecutionRequest) (freshId : String) (st : Store) :
    (create request freshId).Yields st (Created request freshId) := by
  unfold create
  refine yields_settle_bind (fun _ _ => ?_) fun e _ => created_error e
  refine Stages.yields_get_bind (fun _ => created_error _) (fun _ e _ _ => created_error e)
    fun row stage _ _ => ?_
  split
  · exact created_error _
  · refine yields_checkParent_bind created_error ?_
    simp only [Rows.createExecution, bind_assoc]
    rw [yields_ask_bind]
    cases hinsert : st.insertExecution (request.execution freshId).row with
    | error v =>
      simp only [Store.engine, Statement.exec, hinsert]
      exact created_error _
    | ok after =>
      have hengine : Store.engine (.insertExecution (request.execution freshId).row) st =
          (.ok (), after) := by
        simp only [Store.engine, Statement.exec, hinsert]
        rfl
      have hfound := Store.execution?_of_insertExecution hengine
      obtain ⟨hadmits, hafter⟩ := Store.insertExecution_ok hinsert
      simp only [Store.admitsExecution, Bool.and_eq_true] at hadmits
      have hstage : (after.stage? (request.execution freshId).stageId).isSome = true := by
        rw [hafter]
        exact hadmits.1.1.2
      rw [hengine]
      exact yields_recomputeUnless_created hstage hfound

theorem book_of_reported {id : String} {st after : Store} {row : ExecutionRow}
    {reports : List Report} (h : Reported id st reports after) (hrow : st.execution? id = some row)
    (hnew : Report.book [] row = row) : after.execution? id = some (Report.book reports row) := by
  induction h with
  | nothing => rw [hnew, hrow]
  | call _ report ih => rw [execution?_setStatus, ih, Option.map_some, Report.book_concat]
  | meanwhile _ hsame ih => rw [hsame, ih]

/-- The row of an execution is told by what was reported on it since it was created: it has the last
status, the last message, the time of the first start and that of the first end, and is else as it
was created. It says how long the execution took exactly if the first start came before the first
end, in all histories but those where one of these two times is off the Julian day scale; and once
there is an end, that does not change any more. -/
theorem row_told_by_reports {st created after : Store} {request : ExecutionRequest}
    {freshId : String} {e : Execution} {readings : Nat → Instant} {reports : List Report}
    (hcreate : (create request freshId).alone readings st = (some (.ok e), created))
    (hreports : Reported freshId created reports after) :
    e = request.execution freshId ∧ ∃ row, after.execution? freshId = some row ∧
      row = { e.row with
        status := (reports.getLast?.map (·.status)).getD .pending
        errorMessage := (reports.filterMap (·.message)).getLast?
        startedAt := (Report.start? reports).map Stamp.ofInstant
        completedAt := (Report.finish? reports).map Stamp.ofInstant
        durationMs := (Report.span? reports).bind fun (start, finish) =>
          JulianDay.between? (.ofInstant start) (.ofInstant finish) } ∧
      ((row.durationMs.isSome = true ↔ (Report.span? reports).isSome = true) ↔
        ∀ start finish, Report.span? reports = some (start, finish) →
          JulianDay.Covers start ∧ JulianDay.Covers finish) ∧
      ((Report.finish? reports).isSome = true → ∀ rest later, Reported freshId after rest later →
        ∃ row', later.execution? freshId = some row' ∧ row'.durationMs = row.durationMs) := by
  obtain ⟨rfl, hrow⟩ := (yields_created request freshId st).of_alone hcreate e rfl
  refine ⟨rfl, _, book_of_reported hreports hrow rfl, rfl, ?_, fun hfinish rest later hrest => ?_⟩
  · simp only [Report.book]
    cases hspan : Report.span? reports with
    | none => simp
    | some span =>
      obtain ⟨start, finish⟩ := span
      have hknown := JulianDay.isSome_between?_ofInstant start finish
      simp only [Option.bind_some]
      constructor
      · intro hset start' finish' hsame
        cases hsame
        exact hknown.mp (hset.mpr rfl)
      · intro hcovers
        exact iff_of_true (hknown.mpr (hcovers start finish rfl)) rfl
  · refine ⟨_, book_of_reported (hreports.append hrest) hrow rfl, ?_⟩
    simp only [Report.book, Report.span?_append rest hfinish]

/-! An execution that fails after it had completed, and one that runs at the very end of the scale.
-/

namespace Timed

open OneExecution (turns)

def agent : ExecutionRequest := OneExecution.agent 1

def opened : Store :=
  (Pool.run Store.orderedEngine (turns 0 3 ++ turns 1 3)
    (Request.pool (OneExecution.requests .active)) {}).2

theorem exists_created : ∃ e created,
    (create agent "e").alone (fun _ => ⟨0⟩) opened = (some (.ok e), created) := by
  have hmade : ((create agent "e").alone (fun _ => ⟨0⟩) opened).1.any (·.isOk) = true := by
    unfold alone
    rw [Store.engine_eq_ordered]
    decide +kernel
  obtain ⟨answer, created, halone, _⟩ :=
    (yields_created agent "e" opened).alone fun _ => ⟨0⟩
  rw [halone] at hmade
  cases answer with
  | error e => cases hmade
  | ok e => exact ⟨e, created, halone⟩

def late : List Report := [
  ⟨.active, none, ⟨0⟩⟩,
  ⟨.completed, none, ⟨1500000000⟩⟩,
  ⟨.failed, some "no such disk", ⟨10000000000⟩⟩]

/-- The last half millisecond of the year 9999. -/
def lastMoment : Instant := ⟨253402300799999600000⟩

def atTheEnd : List Report := [⟨.active, none, lastMoment⟩, ⟨.completed, none, lastMoment⟩]

end Timed

open Timed in
theorem row_told_by_reports_late_failure : ∃ e created after row,
    (create agent "e").alone (fun _ => ⟨0⟩) opened = (some (.ok e), created) ∧
    Reported "e" created late after ∧ after.execution? "e" = some row ∧ row.status = .failed ∧
    row.errorMessage = some "no such disk" ∧ row.startedAt = some (.ofInstant ⟨0⟩) ∧
    row.completedAt = some (.ofInstant ⟨1500000000⟩) ∧ row.durationMs = some 1500 := by
  obtain ⟨e, created, hcreate⟩ := exists_created
  have hreports : Reported "e" created late _ := ((Reported.nothing.call _).call _).call _
  obtain ⟨_, row, hrow, hfields, _⟩ := row_told_by_reports hcreate hreports
  have hduration : JulianDay.between? (.ofInstant ⟨0⟩) (.ofInstant ⟨1500000000⟩) = some 1500 := by
    decide +kernel
  have hspan : Report.span? late = some (⟨0⟩, ⟨1500000000⟩) := by decide
  simp only [hspan, Option.bind_some, hduration] at hfields
  exact ⟨e, created, _, row, hcreate, hreports, hrow, congrArg (·.status) hfields,
    congrArg (·.errorMessage) hfields, congrArg (·.startedAt) hfields,
    congrArg (·.completedAt) hfields, congrArg (·.durationMs) hfields⟩

open Timed in
theorem duration_missing_at_the_end : ∃ e created after row,
    (create agent "e").alone (fun _ => ⟨0⟩) opened = (some (.ok e), created) ∧
    Reported "e" created atTheEnd after ∧ after.execution? "e" = some row ∧
    (Report.span? atTheEnd).isSome = true ∧ row.startedAt.isSome = true ∧
    row.completedAt.isSome = true ∧ row.durationMs = none := by
  obtain ⟨e, created, hcreate⟩ := exists_created
  have hreports : Reported "e" created atTheEnd _ := (Reported.nothing.call _).call _
  obtain ⟨rfl, hcreated⟩ := (yields_created agent "e" opened).of_alone hcreate e rfl
  have hduration : JulianDay.between? (.ofInstant lastMoment) (.ofInstant lastMoment) = none := by
    decide +kernel
  exact ⟨_, created, _, _, hcreate, hreports, book_of_reported hreports hcreated rfl, rfl, rfl, rfl,
    hduration⟩

end Executions
end AlertDesk
