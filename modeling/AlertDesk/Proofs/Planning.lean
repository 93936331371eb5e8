import AlertDesk.Proofs.PlannedWrites
import AlertDesk.Proofs.Repairs

/-!
What writes of a stage are planned on. A call writes a stage only with what suits the verdict on
the statuses that it read last; so a write that does not suit the executions as they are comes
from a call that read them before they changed.
-/
namespace AlertDesk

namespace Statement

def suits (verdict : Verdict) : Statement → Bool
  | .activateStage _ _ => verdict.admits .active none
  | .finalizeStage _ _ completion => verdict.admits completion.status completion.errorMessage
  | .reopenStage _ _ status _ => verdict.admits status none
  | _ => true

theorem suits_statement {stage : Stage} {verdict : Verdict} {change : StageChange}
    (hplan : StageChange.plan? stage verdict = some change) (now : Instant) :
    (change.statement stage now).suits verdict = true := by
  have hadmits := StageChange.admits_outcome hplan
  cases change with
  | activate =>
    cases verdict with
    | noExecutions => rfl
    | running anyActive => exact hadmits
    | finished status message =>
      simp only [StageChange.plan?] at hplan
      split at hplan <;> cases hplan
  | reopen status => exact hadmits
  | finalize status message => exact hadmits

/-- A statement that changes a view, and adds no stage, works on executions or writes the stage. -/
theorem writes_of_view_ne {s : Statement} {st : Store} {id : String} (hnew : s.newStages st = [])
    (hmoves : s.movesExecutions = false)
    (hview : (Store.engine s st).2.view id ≠ st.view id) : s.writes id = true := by
  by_contra hnot
  apply hview
  rw [view_of_not_moves hmoves hnew]
  have hrow (row : StageRow) (hid : row.id = id) : s.onStage row = row :=
    onStage_of_not_writes (by rwa [hid, ← Bool.not_eq_true])
  cases hstage : st.stage? id with
  | none => simp [StageView.after, Store.view, hstage]
  | some row =>
    simp [StageView.after, Store.view, hstage, hrow row (Store.stage?_some hstage).2]

/-- A write that changes a view leaves the stage in line if it suits the executions as they are. -/
theorem inLine_of_writes {s : Statement} {st : Store} {id : String} {row : StageRow}
    (hwrites : s.writes id = true) (hstage : st.stage? id = some row)
    (hview : (Store.engine s st).2.view id ≠ st.view id) :
    ((Store.engine s st).2.view id).inLine =
      s.suits (.of row.policy (st.view id).statuses) := by
  have hmoves : s.movesExecutions = false := by
    cases s with
    | activateStage | finalizeStage | reopenStage => rfl
    | _ => cases hwrites
  have hnew : s.newStages st = [] := by
    cases s with
    | activateStage | finalizeStage | reopenStage => rfl
    | _ => cases hwrites
  rw [view_of_not_moves hmoves hnew] at hview ⊢
  have hchanged : s.onStage row ≠ row := by
    intro hsame
    exact hview (by simp [StageView.after, Store.view, hstage, hsame])
  have hinLine : ((st.view id).after s).inLine =
      (Verdict.of (s.onStage row).policy (st.view id).statuses).admits (s.onStage row).status
        (s.onStage row).errorMessage := by
    simp only [StageView.inLine, StageView.after, Store.view, hstage, Option.map_some,
      Option.all_some]
    rfl
  rw [hinLine]
  revert hchanged
  apply onStage_keeps (P := fun after => after ≠ row →
    (Verdict.of after.policy (st.view id).statuses).admits after.status after.errorMessage =
      s.suits (.of row.policy (st.view id).statuses))
  · exact fun hne => absurd rfl hne
  · intro after hwrites _
    cases hwrites with
    | activate => exact Verdict.admits_active _ _ _ _
    | finalize => rfl
    | reopen => rfl

end Statement

def Store.HasPolicy (id : String) (policy : SuccessPolicy) (st : Store) : Prop :=
  ∀ row, st.stage? id = some row → row.policy = policy

/-- Each write of the stage suits the verdict on the statuses that the call has seen last. -/
def Call.Plans {α : Type} (id : String) (policy : SuccessPolicy) :
    Option (List StageStatus) → Call (Except Failure α) → Prop
  | _, .done _ => True
  | _, .again => True
  | seen, .clock next => ∀ t, (next t).Plans id policy seen
  | seen, .ask s next =>
    (s.writes id = true →
      ∃ statuses, seen = some statuses ∧ s.suits (.of policy statuses) = true) ∧
    ∀ st : Store, st.HasPolicy id policy →
      (next (Store.engine s st).1).Plans id policy
        (if s = .topLevelStatuses id then some (st.view id).answer else seen)

def Pool.lastSeen (id : String) (seen : Option (List StageStatus)) (es : List (Entry Store)) :
    Option (List StageStatus) :=
  es.foldl (fun seen e =>
    if e.statement = .topLevelStatuses id then some (e.before.view id).answer else seen) seen

section
variable {id : String} {policy : SuccessPolicy} {seen : Option (List StageStatus)}
  {es : List (Pool.Entry Store)}

theorem Pool.lastSeen_concat (e : Entry Store) : lastSeen id seen (es ++ [e]) =
    if e.statement = .topLevelStatuses id then some (e.before.view id).answer
    else lastSeen id seen es := by
  rw [lastSeen, List.foldl_append]
  rfl

/-- Where the policy stays, what is planned on the last two reads suits the statuses seen last. -/
theorem Pool.EndsPlanned.suits {clock : Instant → Prop} {s : Statement}
    (h : EndsPlanned clock es s) (hwrites : s.writes id = true)
    (hpolicy : ∀ e ∈ es, e.before.HasPolicy id policy) :
    ∃ statuses, lastSeen id seen es = some statuses ∧ s.suits (.of policy statuses) = true := by
  obtain ⟨pre, look, read, rfl, row, stage, change, now, _, hrow, hread, hstatuses, hplan, _,
    rfl⟩ := h
  obtain ⟨hid, _, _, hsame, _⟩ := StageRow.read_ok hread
  rw [Statement.writes_statement, beq_iff_eq, hid] at hwrites
  subst hwrites
  have hlook : row.policy = policy := hpolicy look (by simp) row hrow
  refine ⟨(read.before.view row.id).answer, by simp [lastSeen, hstatuses], ?_⟩
  rw [← hlook, ← hsame]
  exact Statement.suits_statement hplan now

theorem Call.PlansWrites.plans {α : Type} {c : Call (Except Failure α)}
    (h : c.PlansWrites (fun _ => True) es) (hpolicy : ∀ e ∈ es, e.before.HasPolicy id policy) :
    c.Plans id policy (Pool.lastSeen id seen es) := by
  induction c generalizing es with
  | done r => trivial
  | ask s next ih =>
    refine ⟨fun hwrites => ?_, fun st hst => ?_⟩
    · exact (h.1 (Statement.writesStage_of_writes hwrites)).suits hwrites hpolicy
    · have hnext := ih _ (h.2 0 st)
        (List.forall_mem_append.mpr ⟨hpolicy, List.forall_mem_singleton.mpr hst⟩)
      rwa [Pool.lastSeen_concat] at hnext
  | clock next ih => exact fun t => ih t (h t trivial) hpolicy
  | again => trivial

theorem Request.plans (r : Request) : r.call.Plans id policy seen := by
  have hplans : r.service.PlansWrites (fun _ => True) [] := by
    rw [service_eq]
    exact Service.plansWrites_bind (plansWrites r) fun _ _ => trivial
  exact Call.PlansWrites.plans hplans (by simp)

end

/-! ### Runs -/

theorem Store.HasPolicy.engine {id : String} {policy : SuccessPolicy} {st : Store} {s : Statement}
    (h : st.HasPolicy id policy) (hs : s.newStages st = []) :
    (Store.engine s st).2.HasPolicy id policy := by
  intro row hrow
  rw [Statement.stage?_engine hs, Option.map_eq_some_iff] at hrow
  obtain ⟨before, hbefore, rfl⟩ := hrow
  rw [Statement.policy_onStage]
  exact h before hbefore

theorem Statement.newStages_of_askedBy {clock : Instant → Prop} {r : Request} {s : Statement}
    (hr : r.worksOnExecutions = true) (hs : s.AskedBy clock r) (st : Store) :
    s.newStages st = [] := by
  cases s with
  | insertStage row =>
    obtain ⟨_, _, rfl, _⟩ := hs
    cases hr
  | _ => rfl

namespace Pool

/-- The call of the entry had read statuses on whose verdict the write was planned. -/
def Entry.PlannedOn (id : String) (policy : SuccessPolicy) (log : List (Entry Store))
    (e : Entry Store) : Prop :=
  ∃ read ∈ log, read.caller = e.caller ∧ read.statement = .topLevelStatuses id ∧
    e.statement.suits (.of policy (read.before.view id).statuses) = true

structure Planning (requests : List Request) (id : String) (policy : SuccessPolicy)
    (log : List (Entry Store)) (p : Pool (Except Failure Unit)) (st : Store) : Prop where
  asks : p.Asks (fun _ _ => True)
    fun i s => ∃ r, requests[i]? = some r ∧ s.AskedBy (fun _ => True) r
  hasPolicy : st.HasPolicy id policy
  calls : ∀ (i : Nat) (f : Flight (Except Failure Unit)), p[i]? = some f →
    (∀ seen, f.call.Plans id policy seen) ∧
    ∃ seen, f.rest.Plans id policy seen ∧ ∀ statuses, seen = some statuses →
      ∃ read ∈ log, read.caller = i ∧ read.statement = .topLevelStatuses id ∧
        (read.before.view id).answer = statuses
  planned : ∀ before e after, log = before ++ e :: after → e.statement.writes id = true →
    e.before.HasPolicy id policy ∧ e.PlannedOn id policy before

section
variable {requests : List Request} {id : String} {policy : SuccessPolicy}
  {log : List (Entry Store)} {p : Pool (Except Failure Unit)} {st : Store}

/-- Replacing one call, and lengthening the log, leaves what is known of the others. -/
theorem Planning.calls_set (h : Planning requests id policy log p st) {i : Nat}
    {f : Flight (Except Failure Unit)} {rest : Call (Except Failure Unit)}
    {seen : Option (List StageStatus)} (new : List (Entry Store)) (hf : p[i]? = some f)
    (hrest : rest.Plans id policy seen)
    (hseen : ∀ statuses, seen = some statuses →
      ∃ read ∈ log ++ new, read.caller = i ∧ read.statement = .topLevelStatuses id ∧
        (read.before.view id).answer = statuses)
    (j : Nat) (g : Flight (Except Failure Unit)) (hg : (p.set i ⟨f.call, rest⟩)[j]? = some g) :
    (∀ seen, g.call.Plans id policy seen) ∧
    ∃ seen, g.rest.Plans id policy seen ∧ ∀ statuses, seen = some statuses →
      ∃ read ∈ log ++ new, read.caller = j ∧ read.statement = .topLevelStatuses id ∧
        (read.before.view id).answer = statuses := by
  rcases getElem?_set_cases hg with ⟨rfl, rfl⟩ | ⟨_, hold⟩
  · exact ⟨(h.calls i f hf).1, seen, hrest, hseen⟩
  · obtain ⟨hcall, seen, hplans, hread⟩ := h.calls j g hold
    refine ⟨hcall, seen, hplans, fun statuses hstatuses => ?_⟩
    obtain ⟨read, hmem, hfields⟩ := hread statuses hstatuses
    exact ⟨read, List.mem_append_left _ hmem, hfields⟩

theorem Planning.moves {p' : Pool (Except Failure Unit)} {st' : Store} {i : Nat} {now : Instant}
    {entry : Option (Entry Store)} (hkind : ∀ r ∈ requests, r.worksOnExecutions = true)
    (h : Planning requests id policy log p st)
    (hmoves : Moves Store.engine now i p st entry p' st') :
    Planning requests id policy (log ++ entry.toList) p' st' := by
  have hasks := asks_moves hmoves trivial h.asks
  cases hmoves with
  | idle hdone => rwa [Option.toList_none, List.append_nil]
  | clock f next hf hrest =>
    obtain ⟨_, seen, hplans, hread⟩ := h.calls i f hf
    rw [hrest] at hplans
    have hcalls := h.calls_set [] hf (hplans now) (by simpa using hread)
    rw [Option.toList_none]
    refine ⟨hasks, h.hasPolicy, hcalls, ?_⟩
    rw [List.append_nil]
    exact h.planned
  | again f hf hrest =>
    have hwhole := (h.calls i f hf).1 none
    have hcalls := h.calls_set [] hf hwhole (by simp)
    rw [Option.toList_none]
    refine ⟨hasks, h.hasPolicy, hcalls, ?_⟩
    rw [List.append_nil]
    exact h.planned
  | ask f s next hf hrest =>
    obtain ⟨_, seen, hplans, hread⟩ := h.calls i f hf
    rw [hrest] at hplans
    obtain ⟨hwrite, hnext⟩ := hplans
    have hasked := (h.asks i f hf).2
    rw [hrest] at hasked
    obtain ⟨r, hr, hs⟩ := hasked.1
    have hnew := Statement.newStages_of_askedBy (hkind r (List.mem_of_getElem? hr)) hs st
    rw [Option.toList_some]
    refine ⟨hasks, h.hasPolicy.engine hnew,
      h.calls_set [⟨i, s, st⟩] hf (hnext st h.hasPolicy) fun statuses hstatuses => ?_,
      fun before e after hlog hwrites => ?_⟩
    · split at hstatuses
      · next hreads =>
        cases hstatuses
        exact ⟨⟨i, s, st⟩, by simp, rfl, hreads, rfl⟩
      · obtain ⟨read, hmem, hfields⟩ := hread statuses hstatuses
        exact ⟨read, List.mem_append_left _ hmem, hfields⟩
    · rcases split_concat hlog with ⟨rfl, rfl, rfl⟩ | ⟨after, rfl, hold⟩
      · obtain ⟨statuses, hseen, hsuits⟩ := hwrite hwrites
        obtain ⟨read, hmem, hcaller, hstatement, rfl⟩ := hread statuses hseen
        refine ⟨h.hasPolicy, read, hmem, hcaller, hstatement, ?_⟩
        rwa [StageView.of_answer] at hsuits
      · exact h.planned before e after hold hwrites

/-- In every run of requests on executions, each write of a stage is planned on what its call
read. -/
theorem writes_planned {start : Store} (hkind : ∀ r ∈ requests, r.worksOnExecutions = true)
    (hpolicy : start.HasPolicy id policy) (schedule : List (Nat × Instant)) :
    Planning requests id policy
      (Pool.log Store.engine schedule (Request.pool requests) start)
      (Pool.run Store.engine schedule (Request.pool requests) start).1
      (Pool.run Store.engine schedule (Request.pool requests) start).2 := by
  refine run_induction Store.engine schedule (Request.pool requests) start
    (motive := fun _ log p st => Planning requests id policy log p st) ?_ ?_
  · refine ⟨Request.pool_asks requests _, hpolicy, fun i f hf => ?_, by simp⟩
    obtain ⟨r, hr, rfl⟩ : ∃ r, requests[i]? = some r ∧ Flight.start r.call = f := by
      simpa [Request.pool] using hf
    exact ⟨fun _ => Request.plans r, none, Request.plans r, by simp⟩
  · intro made log p st i now entry p' st' _ h hmoves
    exact h.moves hkind hmoves

end
end Pool
end AlertDesk
