import AlertDesk.Proofs.Creation
import AlertDesk.Proofs.Durations

/-!
When executions start and end. Each of the two times of an execution is kept from the first call
that set it, whichever came first; so an execution that was told to have ended before it was active
ends before it starts, and is said to have taken no time. In all other histories the end is not
before the start as long as the calls are carried out in the order of their readings of the clock,
which they are if they are made one after the other under a clock that does not go back.
-/
namespace AlertDesk

namespace Executions.Report

/-! ### The two times of a history -/

variable {reports before after : List Report} {start finish : Instant}

def InOrder (reports : List Report) : Prop := reports.Pairwise (·.now ≤ ·.now)

theorem start?_append :
    start? (before ++ after) = (start? before).or (start? after) := by
  rw [start?, List.find?_append, Option.map_or]
  rfl

theorem exists_of_start? (h : start? reports = some start) : ∃ r ∈ reports, r.now = start := by
  obtain ⟨r, hr, hnow⟩ := Option.map_eq_some_iff.mp h
  exact ⟨r, List.mem_of_find?_eq_some hr, hnow⟩

/-- The first end parts a history. What comes before it says whether the execution had started. -/
theorem split_at_finish (h : finish? reports = some finish) : ∃ before r after,
    reports = before ++ r :: after ∧ r.now = finish ∧
      span? reports = (start? before).map (·, finish) := by
  have hfinish := h
  obtain ⟨r, hr, rfl⟩ := Option.map_eq_some_iff.mp h
  obtain ⟨hterminal, before, after, rfl, hbefore⟩ := List.find?_eq_some_iff_append.mp hr
  refine ⟨before, r, after, rfl, rfl, ?_⟩
  have hpart : (before ++ r :: after).takeWhile (!·.status.isTerminal) = before := by
    rw [List.takeWhile_append_of_pos hbefore, List.takeWhile_cons_of_neg (by simpa using hterminal),
      List.append_nil]
  rw [span?, hpart, hfinish]
  cases start? before <;> rfl

/-- An execution that has both times started before it ended or was told to have ended first. -/
theorem span?_cases (hstart : start? reports = some start)
    (hfinish : finish? reports = some finish) :
    (span? reports = some (start, finish) ∧ (InOrder reports → start ≤ finish)) ∨
      (span? reports = none ∧ (InOrder reports → finish ≤ start)) := by
  obtain ⟨before, r, after, rfl, rfl, hspan⟩ := split_at_finish hfinish
  rw [start?_append] at hstart
  rw [hspan]
  cases hfirst : start? before with
  | some first =>
    rw [hfirst, Option.some_or] at hstart
    cases hstart
    refine .inl ⟨rfl, fun horder => ?_⟩
    obtain ⟨s, hs, rfl⟩ := exists_of_start? hfirst
    exact (List.pairwise_append.mp horder).2.2 s hs r List.mem_cons_self
  | none =>
    rw [hfirst, Option.none_or] at hstart
    refine .inr ⟨rfl, fun horder => ?_⟩
    -- Nothing started the execution before its end, so the start is found there or later.
    obtain ⟨s, hs, rfl⟩ := exists_of_start? hstart
    rcases List.mem_cons.mp hs with rfl | hs
    · exact Int.le_refl _
    · exact List.rel_of_pairwise_cons (List.pairwise_append.mp horder).2.1 hs

end Executions.Report

/-! ### The history of an execution in a run -/

def Statement.moves (id : String) : Statement → Bool
  | .moveExecution moved _ _ _ => moved == id
  | _ => false

theorem Statement.onExecution_of_not_moves {s : Statement} {r : ExecutionRow}
    (h : s.moves r.id = false) : s.onExecution r = r := by
  cases s with
  | moveExecution moved =>
    have hother : moved ≠ r.id := beq_eq_false_iff_ne.mp h
    exact if_neg (by simpa using hother.symm)
  | _ => rfl

namespace Executions

open Service

def Report.statement (id : String) (report : Report) : Statement :=
  .moveExecution id report.status report.message (.ofInstant report.now)

/-- These reports were carried out on the execution since it was inserted, in this order, each with
a reading of the clock by its call. -/
def Told (schedule : List (Nat × Instant)) (log : List (Pool.Entry Store)) (row : ExecutionRow)
    (reports : List Report) : Prop :=
  ∃ first insert rest, log = first ++ insert :: rest ∧ insert.statement = .insertExecution row ∧
    List.Forall₂ (fun e report => e.statement = report.statement row.id ∧
        (e.caller, report.now) ∈ schedule)
      (rest.filter (·.statement.moves row.id)) reports

section
variable {schedule : List (Nat × Instant)} {log : List (Pool.Entry Store)} {row : ExecutionRow}
  {reports : List Report} {e : Pool.Entry Store}

theorem told_of_insert (hs : e.statement = .insertExecution row) :
    Told schedule (log ++ [e]) row [] :=
  ⟨log, e, [], rfl, hs, .nil⟩

theorem Told.meanwhile (h : Told schedule log row reports) (hs : e.statement.moves row.id = false) :
    Told schedule (log ++ [e]) row reports := by
  obtain ⟨first, insert, rest, rfl, hinsert, hreports⟩ := h
  refine ⟨first, insert, rest ++ [e], by simp, hinsert, ?_⟩
  rwa [List.filter_append, List.filter_cons_of_neg (by simp [hs]), List.filter_nil, List.append_nil]

theorem Told.concat (h : Told schedule log row reports) {report : Report}
    (hs : e.statement = report.statement row.id) (hnow : (e.caller, report.now) ∈ schedule) :
    Told schedule (log ++ [e]) row (reports ++ [report]) := by
  obtain ⟨first, insert, rest, rfl, hinsert, hreports⟩ := h
  have hmoves : [e].filter (·.statement.moves row.id) = [e] := by
    simp [hs, Report.statement, Statement.moves]
  refine ⟨first, insert, rest ++ [e], by simp, hinsert, ?_⟩
  rw [List.filter_append, hmoves]
  exact List.rel_append hreports (.cons ⟨hs, hnow⟩ .nil)

end

/-- A statement of a run takes the history of an execution on to the next store. -/
theorem told_engine {schedule : List (Nat × Instant)} {log : List (Pool.Entry Store)}
    {e : Pool.Entry Store} {request : Request}
    (hasked : e.statement.AskedBy (fun now => (e.caller, now) ∈ schedule) request)
    (h : ∀ r ∈ e.before.executions, ∃ row reports, Told schedule log row reports ∧
      r = Report.book reports row) :
    ∀ r ∈ (Store.engine e.statement e.before).2.executions, ∃ row reports,
      Told schedule (log ++ [e]) row reports ∧ r = Report.book reports row := by
  intro r hr
  rw [Statement.engine_executions] at hr
  rcases List.mem_append.mp hr with hold | hnew
  · -- The execution was there; the statement is the next report on it, or leaves it.
    obtain ⟨met, hmet, rfl⟩ := List.mem_map.mp hold
    obtain ⟨row, reports, htold, hbook⟩ := h met (List.mem_of_mem_filter hmet)
    have hid : met.id = row.id := by rw [hbook]; rfl
    cases hmoves : e.statement.moves met.id with
    | false =>
      rw [Statement.onExecution_of_not_moves hmoves]
      exact ⟨row, reports, htold.meanwhile (hid ▸ hmoves), hbook⟩
    | true =>
      obtain ⟨i, s, st⟩ := e
      cases s with
      | moveExecution moved status message stamp =>
        obtain ⟨⟨now, hnow, rfl⟩, _⟩ := hasked
        obtain rfl : moved = met.id := beq_iff_eq.mp hmoves
        refine ⟨row, reports ++ [⟨status, message, now⟩], htold.concat ?_ hnow, ?_⟩
        · simp only [Report.statement, hid]
        · simp only [Statement.onExecution, beq_self_eq_true, if_true]
          rw [← Report.book_concat, ← hbook]
      | _ => cases hmoves
  · obtain ⟨hs, _⟩ := Statement.of_mem_newExecutions hnew
    rw [hs] at hasked
    obtain ⟨asked, freshId, _, _, hrow⟩ := hasked
    exact ⟨r, [], told_of_insert hs, by rw [hrow]; rfl⟩

/-! ### A call reports once -/

section
variable {β : Type} {clock : Instant → Prop} {es : List (Pool.Entry Store)} {s : Statement}
  {id : String} {status : StageStatus} {message : Option String}

/-- All that follows on the report works on the stage. -/
theorem comesTo_setStatus_bind {f : Execution → Service β}
    (hf : ∀ e, (f e).AsksOnly (·.tendsStage = true)) (hs : s.tendsStage = false)
    (h : (setStatus id status message >>= f).ComesTo clock es s) : es = [] := by
  simp only [setStatus, Rows.move?, Rows.readOne, bind_assoc] at h
  obtain ⟨now, _, h⟩ := comesTo_clock_bind.mp h
  rcases comesTo_ask_bind.mp h with ⟨hnil, _⟩ | ⟨i, st, rest, _, hrest⟩
  · exact hnil
  · obtain ⟨found, _, hrest⟩ := comesTo_settle_bind.mp hrest
    obtain ⟨seen, _, hrest⟩ := comesTo_settle_bind.mp hrest
    cases seen with
    | none => exact absurd hrest comesTo_throw
    | some execution =>
      have htends := (hf execution).comesTo hrest
      rw [hs] at htends
      cases htends

theorem nil_of_comesTo_move {request : Request} (hasked : s.AskedBy clock request)
    (hmoves : s.moves id = true) (h : request.replying.ComesTo clock es s) : es = [] := by
  cases s with
  | moveExecution moved status message now =>
    obtain ⟨_, rfl | rfl⟩ := hasked
    · exact comesTo_setStatus_bind (fun _ => asksOnly_pure _) rfl h
    · simp only [Request.replying, transition, bind_assoc] at h
      refine comesTo_setStatus_bind (fun e => ?_) rfl h
      exact asksOnly_bind (Stages.asksOnly_recompute e.stageId) fun _ => asksOnly_pure _
  | _ => cases hmoves

end

end Executions

namespace Pool

open Executions

variable {requests : List Request} {schedule : List (Nat × Instant)}

/-- However calls overlap, each execution is as it was inserted and then reported on. -/
theorem exists_told {r : ExecutionRow}
    (hr : r ∈ (run Store.engine schedule (Request.replies requests) {}).2.executions) :
    ∃ row reports, Told schedule (log Store.engine schedule (Request.replies requests) {}) row
      reports ∧ r = Report.book reports row := by
  refine chain_induction (chain_log Store.engine schedule (Request.replies requests) {})
    (motive := fun log st => ∀ r ∈ st.executions, ∃ row reports, Told schedule log row reports ∧
      r = Report.book reports row) (by simp) (fun first e rest hlog h => ?_) r hr
  obtain ⟨request, _, hasked⟩ := askedBy_of_mem_log (e := e) (by rw [hlog]; simp)
  exact told_engine hasked h

/-! ### Calls one after the other -/

/-- Where calls are made one after the other, a later call does not read an earlier time. -/
theorem readings_le (horder : OneByOne schedule) (hclock : schedule.Pairwise (·.2 ≤ ·.2))
    {x y : Nat × Instant} (hx : x ∈ schedule) (hy : y ∈ schedule) (hlt : x.1 < y.1) :
    x.2 ≤ y.2 := by
  have hforth : schedule.Pairwise fun a b => a.1 < b.1 → a.2 ≤ b.2 :=
    hclock.imp fun {a b} htime (_ : a.1 < b.1) => htime
  have hback : schedule.Pairwise fun a b => b.1 < a.1 → b.2 ≤ a.2 :=
    horder.imp fun hle hlt => absurd hlt (Nat.not_lt.mpr hle)
  exact hforth.forall_of_forall_of_flip (fun _ _ h => absurd h (Nat.lt_irrefl _)) hback hx hy hlt

/-- A call reports once, with the first statement that it asks. -/
theorem caller_ne_of_moves {first rest : List (Entry Store)} {e e' : Entry Store} {id : String}
    (hlog : log Store.engine schedule (Request.replies requests) {} = first ++ e' :: rest)
    (he : e ∈ first) (hmoves : e'.statement.moves id = true) : e.caller ≠ e'.caller := by
  obtain ⟨request, hrequest, hasked⟩ := askedBy_of_mem_log (e := e') (by rw [hlog]; simp)
  have hcomes := comesTo_of_log hlog hrequest
  intro hsame
  have hmine : e ∈ own e'.caller first := List.mem_filter.mpr ⟨he, beq_iff_eq.mpr hsame⟩
  rw [nil_of_comesTo_move hasked hmoves hcomes] at hmine
  cases hmine

/-- The calls that report on an execution do so in their order. -/
theorem callers_lt (requests : List Request) (horder : OneByOne schedule) (id : String) :
    ((log Store.engine schedule (Request.replies requests) {}).filter
      (·.statement.moves id)).Pairwise (·.caller < ·.caller) := by
  rw [List.pairwise_iff_forall_sublist]
  intro e e' hpair
  have hmoves' : e'.statement.moves id = true :=
    (List.mem_filter.mp (hpair.subset (by simp))).2
  have hlogged := hpair.trans List.filter_sublist
  have hle : e.caller ≤ e'.caller := by
    have hcallers := (hlogged.map (·.caller)).trans (callers_sublist Store.engine schedule _ {})
    exact List.rel_of_pairwise_cons
      ((List.pairwise_map.mpr horder).sublist hcallers) (List.mem_singleton_self e'.caller)
  -- Of two reports the later is the first statement of its call, so the earlier is not of that
  -- call.
  obtain ⟨first, later, hlog, he, hlater⟩ := List.cons_sublist_iff.mp hlogged
  obtain ⟨between, rest, rfl⟩ := List.append_of_mem (hlater.subset (List.mem_singleton_self e'))
  rw [← List.append_assoc] at hlog
  have hne := caller_ne_of_moves hlog (List.mem_append_left _ he) hmoves'
  omega

/-- Calls that are made one after the other report in the order of the times that they read. -/
theorem inOrder_of_told (horder : OneByOne schedule) (hclock : schedule.Pairwise (·.2 ≤ ·.2))
    {row : ExecutionRow} {reports : List Report}
    (h : Told schedule (log Store.engine schedule (Request.replies requests) {}) row reports) :
    Report.InOrder reports := by
  obtain ⟨first, insert, rest, hlog, _, hreports⟩ := h
  have hcallers := callers_lt requests horder row.id
  have hrest : rest.Sublist (log Store.engine schedule (Request.replies requests) {}) := by
    rw [hlog]
    exact (List.sublist_cons_self insert rest).trans (List.sublist_append_right first _)
  replace hcallers := hcallers.sublist (hrest.filter (·.statement.moves row.id))
  exact pairwise_of_forall₂ hreports hcallers fun e report e' report' h h' hlt =>
    readings_le horder hclock h.2 h'.2 hlt

end Pool

namespace Executions

open JulianDay Pool

/-- However calls overlap, the times of an execution are told by what was reported on it since it
was inserted. If it was active before it ended, it took the milliseconds from the start to the end,
each rounded, as long as the Julian day scale covers both; if it was told to have ended first, it
took no time that is known. Under a clock that does not go back, calls that are made one after the
other report in order; and where the reports are in order, the start is not after the end in the
first case, and not before it in the second. -/
theorem times_told_by_reports (requests : List Request) {schedule : List (Nat × Instant)}
    (hclock : schedule.Pairwise (·.2 ≤ ·.2)) :
    ∀ r ∈ (run Store.engine schedule (Request.pool requests) {}).2.executions, ∃ row reports,
      Told schedule (log Store.engine schedule (Request.pool requests) {}) row reports ∧
      r.id = row.id ∧
      (OneByOne schedule → Report.InOrder reports) ∧
      r.startedAt = (Report.start? reports).map Stamp.ofInstant ∧
      r.completedAt = (Report.finish? reports).map Stamp.ofInstant ∧
      ∀ start finish, Report.start? reports = some start → Report.finish? reports = some finish →
        (Report.span? reports = some (start, finish) ∧
          (Report.InOrder reports → start ≤ finish) ∧
          (Covers start → Covers finish →
            r.durationMs = some (nearestMillis finish - nearestMillis start))) ∨
        (Report.span? reports = none ∧ (Report.InOrder reports → finish ≤ start) ∧
          r.durationMs = none) := by
  intro r hr
  rw [store_replies] at hr
  rw [log_replies]
  obtain ⟨row, reports, htold, rfl⟩ := exists_told hr
  refine ⟨row, reports, htold, rfl, fun horder => inOrder_of_told horder hclock htold, rfl, rfl,
    fun start finish hstart hfinish => ?_⟩
  rcases Report.span?_cases hstart hfinish with ⟨hspan, horder⟩ | ⟨hspan, horder⟩
  · refine .inl ⟨hspan, horder, fun hsince htill => ?_⟩
    simp only [Report.book, hspan, Option.bind_some]
    exact between?_ofInstant hsince htill
  · refine .inr ⟨hspan, horder, ?_⟩
    simp only [Report.book, hspan, Option.bind_none]

end Executions

/-! An execution is reported on in turn: it is active and then completed, or it is cancelled and
only then active. At last two calls overlap: the one that ends the execution reads the clock first
and reports last. -/

namespace Reporting

open Reopening (steps)

def requests (first last : StageStatus) : List Request :=
  OneExecution.requests first ++ [.setStatus "e" last none]

def created : List (Nat × Instant) := steps 0 3 ⟨0⟩ ++ steps 1 3 ⟨0⟩ ++ steps 2 8 ⟨0⟩

def inTurn : List (Nat × Instant) := created ++ steps 3 9 ⟨1000000000⟩ ++ steps 4 2 ⟨2500000000⟩

def overlapping : List (Nat × Instant) :=
  created ++ steps 3 1 ⟨1000000000⟩ ++ steps 4 2 ⟨2500000000⟩ ++ steps 3 8 ⟨2500000000⟩

def times (first last : StageStatus) (schedule : List (Nat × Instant)) :
    List (Option Stamp × Option Stamp × Option Int) :=
  (Pool.run Store.engine schedule (Request.pool (requests first last)) {}).2.executions.map
    fun r => (r.startedAt, r.completedAt, r.durationMs)

theorem times_inTurn : times .active .completed inTurn =
    [(some (.ofInstant ⟨1000000000⟩), some (.ofInstant ⟨2500000000⟩), some 1500)] := by
  rw [times, Store.engine_eq_ordered]
  decide +kernel

end Reporting

namespace Executions

open Reporting

theorem times_told_by_reports_inTurn : inTurn.Pairwise (·.2 ≤ ·.2) ∧ Pool.OneByOne inTurn ∧
    ∃ r ∈
      (Pool.run Store.engine inTurn (Request.pool (requests .active .completed)) {}).2.executions,
      ∃ start finish, r.startedAt = some (.ofInstant start) ∧
        r.completedAt = some (.ofInstant finish) ∧ start ≤ finish ∧ r.durationMs = some 1500 := by
  have hclock : inTurn.Pairwise (·.2 ≤ ·.2) := by decide
  have horder : Pool.OneByOne inTurn := by
    unfold Pool.OneByOne
    decide
  obtain ⟨r, hexecutions, hfields⟩ := List.map_eq_singleton_iff.mp times_inTurn
  have hr := List.mem_singleton_self r
  rw [← hexecutions] at hr
  obtain ⟨hstart, hends⟩ := Prod.mk.inj hfields
  obtain ⟨hfinish, hduration⟩ := Prod.mk.inj hends
  obtain ⟨row, reports, htold, _, hinOrder, hstart', hfinish', hcases⟩ :=
    times_told_by_reports (requests .active .completed) hclock r hr
  obtain ⟨start, hfirst, hsince⟩ := Option.map_eq_some_iff.mp (hstart'.symm.trans hstart)
  obtain ⟨finish, hlast, htill⟩ := Option.map_eq_some_iff.mp (hfinish'.symm.trans hfinish)
  refine ⟨hclock, horder, r, hr, start, finish, by rw [hstart, hsince], by rw [hfinish, htill], ?_,
    hduration⟩
  rcases hcases start finish hfirst hlast with ⟨_, hle, _⟩ | ⟨_, _, hnone⟩
  · exact hle (hinOrder horder)
  · rw [hnone] at hduration
    cases hduration

/-- The execution starts after it has ended: if it is active only then, it took no time that is
known, and if the calls overlap, it took less than none. -/
theorem started_after_completed : inTurn.Pairwise (·.2 ≤ ·.2) ∧ overlapping.Pairwise (·.2 ≤ ·.2) ∧
    times .cancelled .active inTurn =
      [(some (.ofInstant ⟨2500000000⟩), some (.ofInstant ⟨1000000000⟩), none)] ∧
    times .completed .active overlapping =
      [(some (.ofInstant ⟨2500000000⟩), some (.ofInstant ⟨1000000000⟩), some (-1500))] := by
  refine ⟨by decide, by decide, ?_, ?_⟩
  · rw [times, Store.engine_eq_ordered]
    decide +kernel
  · rw [times, Store.engine_eq_ordered]
    decide +kernel

end Executions
end AlertDesk
