import AlertDesk.Proofs.PlannedWrites
import AlertDesk.Proofs.ReadBack

/-!
What the row of a stage says. Beside its status a stage keeps its times, how long it took, and a
message. The times and the message fit the status in every store that requests leave behind, however
they are interleaved. How long it took fits the times where the calls are made one after the other:
a call that writes then finds the stage as it has read it.
-/
namespace AlertDesk

def StageStatus.message? (policy : SuccessPolicy) : StageStatus → Option String
  | .failed => some (Verdict.failureMessage policy)
  | .timedOut => some Verdict.allTimedOut
  | .cancelled => some Verdict.allCancelled
  | .pending | .active | .completed => none

theorem StageStatus.message?_of_not_isTerminal {status : StageStatus}
    (h : status.isTerminal = false) (policy : SuccessPolicy) : status.message? policy = none := by
  cases status with
  | pending | active => rfl
  | _ => cases h

/-- A verdict has the message of its status. -/
theorem Verdict.message_of_finished {policy : SuccessPolicy} {statuses : List StageStatus}
    {status : StageStatus} {message : Option String}
    (h : of policy statuses = .finished status message) : message = status.message? policy := by
  unfold of at h
  split_ifs at h
  all_goals
    cases h
    rfl

theorem StageChange.message_of_finalize {τ : Type} {stage : StageOf τ} {policy : SuccessPolicy}
    {statuses : List StageStatus} {status : StageStatus} {message : Option String}
    (h : plan? stage (.of policy statuses) = some (.finalize status message)) :
    message = status.message? policy := by
  cases hv : Verdict.of policy statuses with
  | noExecutions => simp [plan?, hv] at h
  | running anyActive =>
    simp only [plan?, hv] at h
    split at h
    · cases h
    · split at h <;> cases h
  | finished s m =>
    simp only [plan?, hv] at h
    split at h
    · cases h
    · cases h
      exact Verdict.message_of_finished hv

namespace StageRow

structure Consistent (clock : Instant → Prop) (row : StageRow) : Prop where
  ended : row.status.isTerminal = true ↔ row.completedAt.isSome = true
  begun : row.status = .active → row.startedAt.isSome = true
  message : row.errorMessage = row.status.message? row.policy
  taken : ∀ start ∈ row.startedAt, start.Taken clock

variable {clock : Instant → Prop} {row : StageRow}

theorem consistent_new (request : StageRequest) (freshId : String) :
    Consistent clock (request.stage freshId).row where
  ended := by simp [StageRequest.stage, Stage.row, StageOf.map, StageStatus.isTerminal]
  begun := by simp [StageRequest.stage, Stage.row, StageOf.map]
  message := rfl
  taken := by simp [StageRequest.stage, Stage.row, StageOf.map]

theorem Consistent.completedAt_eq_none (h : row.Consistent clock)
    (hstatus : row.status.isTerminal = false) : row.completedAt = none := by
  cases hcompleted : row.completedAt with
  | none => rfl
  | some till =>
    have hterminal := h.ended.mpr (by rw [hcompleted]; rfl)
    rw [hstatus] at hterminal
    cases hterminal

theorem Consistent.taken_or (h : row.Consistent clock) {now : Option Stamp}
    (hnow : ∀ start ∈ now, start.Taken clock) :
    ∀ start ∈ row.startedAt.or now, start.Taken clock := by
  intro start hstart
  rcases Option.or_eq_some_iff.mp hstart with hold | ⟨_, hnew⟩
  · exact h.taken start hold
  · exact hnow start hnew

theorem Consistent.activated (h : row.Consistent clock) (hstatus : row.status = .pending)
    {now : Stamp} (hnow : now.Taken clock) : (row.activated now).Consistent clock where
  ended := by
    have hcompleted := h.completedAt_eq_none (by rw [hstatus]; rfl)
    simp [StageRow.activated, hcompleted, StageStatus.isTerminal]
  begun := by simp [StageRow.activated]
  message := by
    have hmessage := h.message
    rw [hstatus] at hmessage
    exact hmessage
  taken := h.taken_or (by simpa using hnow)

theorem Consistent.finalized (h : row.Consistent clock) {c : Completion}
    (hstatus : c.status.isTerminal = true)
    (hmessage : c.errorMessage = c.status.message? row.policy) :
    (row.finalized c).Consistent clock where
  ended := by simp [StageRow.finalized, hstatus]
  begun := by
    intro hactive
    have hterminal : StageStatus.isTerminal .active = true := by
      rw [← hstatus]
      exact congrArg StageStatus.isTerminal hactive.symm
    cases hterminal
  message := hmessage
  taken := h.taken

theorem Consistent.reopened (h : row.Consistent clock) {status : StageStatus}
    (hstatus : status.isTerminal = false) {now : Stamp} (hnow : now.Taken clock) :
    (row.reopened status now).Consistent clock where
  ended := by simp [StageRow.reopened, hstatus]
  begun := by
    intro hactive
    have hstatus : status = .active := hactive
    simp [StageRow.reopened, hstatus]
  message := (StageStatus.message?_of_not_isTerminal hstatus _).symm
  taken := by
    refine h.taken_or fun start hstart => ?_
    split at hstart
    · cases hstart
      exact hnow
    · cases hstart

/-- A change that was planned on any statuses of a stage under the policy keeps the row
consistent. -/
theorem Consistent.onStage (h : row.Consistent clock) {stage : Stage} {statuses : List StageStatus}
    {change : StageChange} {now : Instant}
    (hplan : StageChange.plan? stage (.of stage.policy statuses) = some change)
    (hpolicy : row.id = stage.id → row.policy = stage.policy) (hnow : clock now) :
    ((change.statement stage now).onStage row).Consistent clock := by
  apply Statement.onStage_keeps h
  intro after hwrites
  cases change with
  | activate =>
    cases hwrites with
    | activate _ _ hr =>
      simp only [isAt, Bool.and_eq_true, beq_iff_eq] at hr
      exact h.activated hr.2 ⟨now, hnow, rfl⟩
  | reopen status =>
    cases hwrites with
    | reopen => exact h.reopened (StageChange.of_reopen hplan).2 ⟨now, hnow, rfl⟩
  | finalize status message =>
    cases hwrites with
    | finalize _ _ _ hr =>
      refine h.finalized (StageChange.isTerminal_of_finalize hplan) ?_
      rw [hpolicy (id_of_isAt hr)]
      exact StageChange.message_of_finalize hplan

/-- A stage that has started keeps the time of its first start. -/
theorem startedAt_onStage {start : Stamp} (h : row.startedAt = some start) (s : Statement) :
    (s.onStage row).startedAt = some start := by
  apply Statement.onStage_keeps (P := fun after => after.startedAt = some start) h
  intro after hwrites
  cases hwrites with
  | activate => simp [StageRow.activated, h]
  | finalize => exact h
  | reopen => simp [StageRow.reopened, h]

end StageRow

/-! ### Stages along a log -/

theorem Store.stage?_engine_cases {s : Statement} {st : Store} {id : String} {row : StageRow}
    (h : (Store.engine s st).2.stage? id = some row) :
    (∃ before, st.stage? id = some before ∧ row = s.onStage before) ∨ s = .insertStage row := by
  cases hstage : st.stage? id with
  | some before =>
    rw [stage?_engine_of_some s hstage] at h
    exact .inl ⟨before, rfl, (Option.some.inj h).symm⟩
  | none =>
    right
    rw [stage?, Statement.engine_stages, List.find?_append, List.find?_map] at h
    simp only [Function.comp_def, Statement.id_onStage] at h
    rw [show st.stages.find? (fun r => r.id == id) = none from hstage, Option.map_none,
      Option.none_or] at h
    exact (Statement.of_mem_newStages (List.mem_of_find?_eq_some h)).1

namespace Pool

variable {requests : List Request} {schedule : List (Nat × Instant)} {st st' : Store}
  {es : List (Entry Store)} {id : String} {row : StageRow}

/-- What new stages have and every statement keeps, all stages have. -/
theorem stages_keep {P : StageRow → Prop} (h : Chain Store.engine st es st')
    (hnew : ∀ e ∈ es, ∀ row, e.statement = .insertStage row → P row)
    (hkept : ∀ e ∈ es, ∀ row, e.before.stage? row.id = some row → P row →
      P (e.statement.onStage row))
    (start : ∀ id row, st.stage? id = some row → P row) :
    ∀ id row, st'.stage? id = some row → P row := by
  refine chain_keeps h (I := fun st => ∀ id row, st.stage? id = some row → P row) ?_ start
  intro e he hbefore id row hrow
  rcases Store.stage?_engine_cases hrow with ⟨before, hstage, rfl⟩ | hinsert
  · have hid := (Store.stage?_some hstage).2
    subst hid
    exact hkept e he before hstage (hbefore before.id before hstage)
  · exact hnew e he row hinsert

/-- A stage stays, with what every statement keeps of it. -/
theorem stage_keeps {P : StageRow → Prop} (h : Chain Store.engine st es st')
    (hkept : ∀ s row, P row → P (Statement.onStage s row)) (hrow : st.stage? id = some row)
    (start : P row) : ∃ row', st'.stage? id = some row' ∧ P row' := by
  refine chain_keeps h (I := fun st => ∃ row', st.stage? id = some row' ∧ P row') ?_
    ⟨row, hrow, start⟩
  intro e _ hbefore
  obtain ⟨before, hstage, hP⟩ := hbefore
  exact ⟨_, Store.stage?_engine_of_some e.statement hstage, hkept _ _ hP⟩

/-- A stage that was there when a statement met the store is there when a later one does, with what
every statement keeps of it. -/
theorem stage_since {P : StageRow → Prop} {first rest : List (Entry Store)} {look e : Entry Store}
    (h : Chain Store.engine st (first ++ e :: rest) st') (hlook : look ∈ first)
    (hkept : ∀ s row, P row → P (Statement.onStage s row)) (hrow : look.before.stage? id = some row)
    (start : P row) : ∃ row', e.before.stage? id = some row' ∧ P row' := by
  obtain ⟨pre, between, rfl⟩ := List.append_of_mem hlook
  rw [List.append_assoc, List.cons_append] at h
  exact stage_keeps (chain_between h) hkept (Store.stage?_engine_of_some look.statement hrow)
    (hkept _ _ start)

theorem of_insertStage_mem_log {e : Entry Store}
    (he : e ∈ log Store.engine schedule (Request.replies requests) st)
    (hinsert : e.statement = .insertStage row) :
    ∃ (request : StageRequest) (freshId : String), row = (request.stage freshId).row := by
  obtain ⟨r, _, hasked⟩ := askedBy_of_mem_log he
  rw [hinsert] at hasked
  obtain ⟨request, freshId, _, _, hrow⟩ := hasked
  exact ⟨request, freshId, hrow⟩

/-- Every statement of a run keeps the stages that it meets consistent. -/
theorem consistent_onStage {clock : Instant → Prop} (hclock : ∀ x ∈ schedule, clock x.2)
    {e : Entry Store} (he : e ∈ log Store.engine schedule (Request.replies requests) st)
    (hrow : e.before.stage? row.id = some row) (h : row.Consistent clock) :
    (e.statement.onStage row).Consistent clock := by
  cases hwrites : e.statement.writesStage with
  | false => rwa [Statement.onStage_of_not_writes (Statement.writes_of_not_writesStage hwrites _)]
  | true =>
    obtain ⟨first, rest, hlog⟩ := List.append_of_mem he
    obtain ⟨pre, look, read, hown, planned⟩ := endsPlanned_of_log hlog hwrites
    obtain ⟨seen, stage, change, now, _, hlook, hread, _, hplan, hnow, hstatement⟩ := planned
    rw [hstatement]
    refine h.onStage hplan (fun hid => ?_) (hclock _ hnow)
    -- The policy of the stage has not changed since it was read.
    obtain ⟨hseen, _, _, hpolicy, _⟩ := StageRow.read_ok hread
    have hmem : look ∈ first := by
      have hmine : look ∈ own e.caller first := by simp [hown]
      exact List.mem_of_mem_filter hmine
    have hchain := chain_log Store.engine schedule (Request.replies requests) st
    rw [hlog] at hchain
    obtain ⟨row', hrow', hsame⟩ := stage_since hchain hmem
      (P := fun after => after.policy = seen.policy)
      (fun s row h => (Statement.policy_onStage s row).trans h) hlook rfl
    rw [← hseen, ← hid, hrow] at hrow'
    cases hrow'
    rw [hsame, hpolicy]

end Pool

/-- However requests are interleaved, the times and the messages of stages fit their statuses. -/
theorem Store.Reached.consistent {clock : Instant → Prop} {st : Store} (h : st.Reached clock)
    {id : String} {row : StageRow} (hrow : st.stage? id = some row) : row.Consistent clock := by
  obtain ⟨requests, schedule, hclock, rfl⟩ := h
  rw [Pool.store_replies] at hrow
  refine Pool.stages_keep (Pool.chain_log Store.engine schedule (Request.replies requests) {}) ?_ ?_
    (by simp [Store.stage?]) id row hrow
  · intro e he row hinsert
    obtain ⟨request, freshId, rfl⟩ := Pool.of_insertStage_mem_log he hinsert
    exact StageRow.consistent_new request freshId
  · exact fun e he row => Pool.consistent_onStage hclock he

/-! ### Calls one after the other -/

namespace Pool

variable {requests : List Request} {schedule : List (Nat × Instant)} {st : Store}

/-- The calls are made one after the other: no step of a call comes after one of a later call. -/
def OneByOne (schedule : List (Nat × Instant)) : Prop := schedule.Pairwise fun a b => a.1 ≤ b.1

/-- What is carried out is carried out in the order of the steps. -/
theorem callers_sublist {α σ : Type} (engine : Engine σ) (schedule : List (Nat × Instant))
    (p : Pool α) (st : σ) :
    ((log engine schedule p st).map (·.caller)).Sublist (schedule.map (·.1)) := by
  induction schedule generalizing p st with
  | nil => exact .slnil
  | cons x schedule ih =>
    obtain ⟨i, now⟩ := x
    have hrest := ih (p.step engine now i st).1 (p.step engine now i st).2
    have hmoves := moves_step engine now i p st
    rw [log, List.map_append, List.map_cons]
    generalize p.asked? i st = entry at hmoves
    generalize p.step engine now i st = after at hmoves hrest
    obtain ⟨p', st'⟩ := after
    cases hmoves with
    | idle | clock | again => exact hrest.cons i
    | ask => exact hrest.cons_cons i

/-- Where entries stand in the order of their calls, those of the last call stand at the end. -/
theorem exists_append_own {σ : Type} {i : Nat} {es : List (Entry σ)}
    (horder : (es.map (·.caller)).Pairwise (· ≤ ·)) (hlast : ∀ e ∈ es, e.caller ≤ i) :
    ∃ pre, es = pre ++ own i es := by
  induction es with
  | nil => exact ⟨[], rfl⟩
  | cons e es ih =>
    rw [List.map_cons, List.pairwise_cons] at horder
    obtain ⟨hle, horder⟩ := horder
    rw [List.forall_mem_cons] at hlast
    by_cases hcaller : e.caller = i
    · have hall : own i (e :: es) = e :: es := by
        refine List.filter_eq_self.mpr fun e' he' => beq_iff_eq.mpr ?_
        rcases List.mem_cons.mp he' with rfl | hmem
        · exact hcaller
        · have hge := hle e'.caller (List.mem_map_of_mem hmem)
          have hle' := hlast.2 e' hmem
          omega
      exact ⟨[], hall.symm⟩
    · obtain ⟨pre, hpre⟩ := ih horder hlast.2
      have hskip : own i (e :: es) = own i es := by simp [own, hcaller]
      refine ⟨e :: pre, ?_⟩
      rw [hskip, List.cons_append, ← hpre]

/-- Made one after the other, calls write stages as planned for the store that the write meets. -/
theorem planned_on_before (horder : OneByOne schedule) {first rest : List (Entry Store)}
    {e : Entry Store}
    (hlog : log Store.engine schedule (Request.replies requests) st = first ++ e :: rest)
    (hwrites : e.statement.writesStage = true) :
    ∃ row stage change now, e.before.stage? row.id = some row ∧ row.read = .ok stage ∧
      StageChange.plan? stage (.of stage.policy (e.before.view row.id).answer) = some change ∧
      (e.caller, now) ∈ schedule ∧ e.statement = change.statement stage now := by
  obtain ⟨pre, look, read, hown, row, stage, change, now, hlook, hrow, hread, hstatuses,
    hplan, hnow, hstatement⟩ := endsPlanned_of_log hlog hwrites
  -- The two reads are the last statements before the write, and change nothing.
  have hsorted : ((first ++ e :: rest).map (·.caller)).Pairwise (· ≤ ·) := by
    rw [← hlog]
    exact (List.pairwise_map.mpr horder).sublist (callers_sublist ..)
  rw [List.map_append, List.pairwise_append] at hsorted
  obtain ⟨hfirst, _, hbefore⟩ := hsorted
  obtain ⟨others, hothers⟩ := exists_append_own (i := e.caller) hfirst fun e' he' =>
    hbefore _ (List.mem_map_of_mem he') _ (by simp)
  have hchain := chain_log Store.engine schedule (Request.replies requests) st
  rw [hlog, hothers, hown] at hchain
  simp only [List.append_assoc, List.cons_append, List.nil_append] at hchain
  obtain ⟨_, _, hchain⟩ := chain_append.mp hchain
  obtain ⟨mid, _, hlookMet, hreadMet, hmet, _⟩ := chain_append.mp hchain
  rw [hlook] at hreadMet hmet
  rw [hstatuses] at hmet
  have hlookBefore : look.before = e.before := hlookMet.trans hmet.symm
  have hreadBefore : read.before = e.before := hreadMet.trans hmet.symm
  rw [hlookBefore] at hrow
  rw [hreadBefore] at hplan
  exact ⟨row, stage, change, now, hrow, hread, hplan, hnow, hstatement⟩

end Pool

/-! ### How long a stage took -/

/-- A time that is cut already tells no difference between an instant and what is stored of it. -/
theorem Instant.elapsedMillis_cut (since till : Instant) :
    since.cut.elapsedMillis till.cut = since.cut.elapsedMillis till := by
  simp only [elapsedMillis, cut]
  omega

namespace StageRow

def elapsed? (row : StageRow) : Option Int :=
  match row.startedAt, row.completedAt with
  | some start, some till => some (start.named.elapsedMillis till.named)
  | _, _ => none

theorem elapsed?_of_completedAt {row : StageRow} (h : row.completedAt = none) :
    row.elapsed? = none := by
  unfold elapsed?
  rw [h]
  split <;> simp_all

variable {row : StageRow}

/-- A change that was planned for the row as it is leaves it with the time that it took. -/
theorem Consistent.durationMs_onStage {stage : Stage} {verdict : Verdict} {change : StageChange}
    {now : Instant} (h : row.Consistent Instant.Storable)
    (hduration : row.durationMs = row.elapsed?)
    (hplan : StageChange.plan? stage verdict = some change) (hnow : now.Storable)
    (hread : row.id = stage.id → row.read = .ok stage) :
    ((change.statement stage now).onStage row).durationMs =
      ((change.statement stage now).onStage row).elapsed? := by
  apply Statement.onStage_keeps (P := fun after => after.durationMs = after.elapsed?) hduration
  intro after hwrites
  cases change with
  | activate =>
    cases hwrites with
    | activate _ _ hr =>
      simp only [isAt, Bool.and_eq_true, beq_iff_eq] at hr
      have hcompleted := h.completedAt_eq_none (by rw [hr.2]; rfl)
      have hnone : (row.activated (.ofInstant now)).elapsed? = none :=
        elapsed?_of_completedAt hcompleted
      rw [hnone, ← elapsed?_of_completedAt hcompleted]
      exact hduration
  | reopen status =>
    cases hwrites with
    | reopen => exact (elapsed?_of_completedAt rfl).symm
  | finalize status message =>
    cases hwrites with
    | finalize _ _ _ hr =>
      obtain ⟨_, hstage⟩ := read_eq_map (hread (id_of_isAt hr))
      cases hstart : row.startedAt with
      | none => simp [StageRow.finalized, elapsed?, hstage, StageOf.map, hstart]
      | some start =>
        obtain ⟨t, ht, rfl⟩ := h.taken start hstart
        simp [StageRow.finalized, elapsed?, hstage, StageOf.map, hstart, Stamp.named_ofInstant ht,
          Stamp.named_ofInstant hnow, Instant.elapsedMillis_cut]

end StageRow

namespace Pool

variable {requests : List Request} {schedule : List (Nat × Instant)} {st : Store}

/-- Made one after the other, the calls keep the durations of the stages that they meet. -/
theorem durationMs_onStage_oneByOne (horder : OneByOne schedule)
    (hclock : ∀ x ∈ schedule, x.2.Storable) {e : Entry Store}
    (he : e ∈ log Store.engine schedule (Request.replies requests) st) {row : StageRow}
    (hrow : e.before.stage? row.id = some row) (h : row.Consistent Instant.Storable)
    (hduration : row.durationMs = row.elapsed?) :
    (e.statement.onStage row).durationMs = (e.statement.onStage row).elapsed? := by
  cases hwrites : e.statement.writesStage with
  | false => rwa [Statement.onStage_of_not_writes (Statement.writes_of_not_writesStage hwrites _)]
  | true =>
    obtain ⟨first, rest, hlog⟩ := List.append_of_mem he
    obtain ⟨seen, stage, change, now, hseen, hread, hplan, hnow, hstatement⟩ :=
      planned_on_before horder hlog hwrites
    rw [hstatement]
    refine h.durationMs_onStage hduration hplan (hclock (e.caller, now) hnow) fun hid => ?_
    rw [(StageRow.read_ok hread).1] at hid
    rw [← hid, hrow] at hseen
    cases hseen
    exact hread

/-- Where calls are made one after the other on a store that was empty, each stage is terminal
exactly when it has an end, has a start if it is active, has the message of its status under its
policy, and says how long it took as its two times have it. A start that it has once it keeps. -/
theorem stages_oneByOne (requests : List Request) {first rest : List (Nat × Instant)}
    (horder : OneByOne (first ++ rest)) (hclock : ∀ x ∈ first ++ rest, x.2.Storable) :
    let before := (run Store.engine first (Request.pool requests) {}).2
    let after := (run Store.engine (first ++ rest) (Request.pool requests) {}).2
    (∀ id row, after.stage? id = some row →
      (row.status.isTerminal = true ↔ row.completedAt.isSome = true) ∧
      (row.status = .active → row.startedAt.isSome = true) ∧
      row.errorMessage = row.status.message? row.policy ∧ row.durationMs = row.elapsed?) ∧
    ∀ id row start, before.stage? id = some row → row.startedAt = some start →
      ∃ row', after.stage? id = some row' ∧ row'.startedAt = some start := by
  intro before after
  constructor
  · have hall : ∀ id row, after.stage? id = some row →
        row.Consistent Instant.Storable ∧ row.durationMs = row.elapsed? := by
      have hchain := chain_log Store.engine (first ++ rest) (Request.replies requests) {}
      rw [← store_replies] at hchain
      refine stages_keep hchain ?_ ?_ (by simp [Store.stage?])
      · intro e he row hinsert
        obtain ⟨request, freshId, rfl⟩ := of_insertStage_mem_log he hinsert
        exact ⟨StageRow.consistent_new request freshId, rfl⟩
      · intro e he row hrow h
        obtain ⟨hconsistent, hduration⟩ := h
        have hafter : (e.statement.onStage row).Consistent Instant.Storable :=
          consistent_onStage hclock he hrow hconsistent
        exact ⟨hafter, durationMs_onStage_oneByOne horder hclock he hrow hconsistent hduration⟩
    intro id row hrow
    obtain ⟨hconsistent, hduration⟩ := hall id row hrow
    exact ⟨hconsistent.ended, hconsistent.begun, hconsistent.message, hduration⟩
  · intro id row start hrow hstart
    have hafter : after = (run Store.engine rest
        (run Store.engine first (Request.pool requests) {}).1 before).2 := by
      simp only [after, before, run_append]
    rw [hafter]
    exact stage_keeps (chain_log Store.engine rest _ before)
      (P := fun after => after.startedAt = some start)
      (fun s _ h => StageRow.startedAt_onStage h s) hrow hstart

end Pool

/-! A stage is started, completed, opened again and failed, while the clock goes forward and then
back. -/

namespace Reopening

def requests : List Request := OneExecution.requests .active ++ [
  .transition "e" .completed none,
  .transition "e" .active none,
  .transition "e" .failed (some "no such disk")]

def steps (i n : Nat) (now : Instant) : List (Nat × Instant) := List.replicate n (i, now)

def completing : List (Nat × Instant) :=
  steps 0 3 ⟨0⟩ ++ steps 1 3 ⟨0⟩ ++ steps 2 8 ⟨0⟩ ++ steps 3 9 ⟨1500000999⟩ ++
    steps 4 9 ⟨3000000000⟩

def failing : List (Nat × Instant) := steps 5 9 ⟨2000000000⟩ ++ steps 6 9 ⟨1000000000⟩

def stage? (schedule : List (Nat × Instant)) : Option StageRow :=
  (Pool.run Store.orderedEngine schedule (Request.pool requests) {}).2.stage? "st"

end Reopening

open Reopening in
theorem Pool.stages_oneByOne_reopening : OneByOne (completing ++ failing) ∧
    (∀ x ∈ completing ++ failing, x.2.Storable) ∧
    ∃ row row' start, stage? completing = some row ∧ row.startedAt = some start ∧
      row.durationMs = some 1500 ∧ stage? (completing ++ failing) = some row' ∧
      row'.startedAt = some start ∧ row'.errorMessage = row'.status.message? row'.policy ∧
      row'.errorMessage = some "all agents failed" ∧ row'.durationMs = row'.elapsed? ∧
      row'.durationMs = some 0 := by
  have horder : OneByOne (completing ++ failing) := by
    unfold OneByOne
    decide
  have hclock : ∀ x ∈ completing ++ failing, Instant.Storable x.2 := by decide
  obtain ⟨hrows, hstarts⟩ := stages_oneByOne requests horder hclock
  rw [Store.engine_eq_ordered] at hrows hstarts
  have hcompleted : (stage? completing).map (fun row => (row.startedAt, row.durationMs)) =
      some (some (.ofInstant ⟨1500000999⟩), some 1500) := by decide +kernel
  have hfailed : (stage? (completing ++ failing)).map
      (fun row => (row.errorMessage, row.durationMs)) =
      some (some "all agents failed", some 0) := by
    decide +kernel
  obtain ⟨row, hrow, hfields⟩ := Option.map_eq_some_iff.mp hcompleted
  obtain ⟨row', hrow', hfields'⟩ := Option.map_eq_some_iff.mp hfailed
  obtain ⟨hstart, hduration⟩ := Prod.mk.inj hfields
  obtain ⟨hmessage, hduration'⟩ := Prod.mk.inj hfields'
  obtain ⟨_, _, hfits, helapsed⟩ := hrows "st" row' hrow'
  obtain ⟨last, hlast, hkept⟩ := hstarts "st" row _ hrow hstart
  obtain rfl : row' = last := Option.some.inj (hrow'.symm.trans hlast)
  exact ⟨horder, hclock, row, row', _, hrow, hstart, hduration, hrow', hkept, hfits, hmessage,
    helapsed, hduration'⟩

end AlertDesk
