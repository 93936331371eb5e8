import AlertDesk.Proofs.Planning

/-!
Calls that work on the executions of one stage at the same time. A call that changes a top-level
execution brings the stage in line afterwards, unless some other statement changes the stage or
its executions first. So whether the stage is in line in the end is decided by the last statement
that changed either.
-/
namespace AlertDesk

namespace Pool

def Entry.changes (id : String) (e : Entry Store) : Bool :=
  (Store.engine e.statement e.before).2.view id != e.before.view id

/-- A write of the stage that does not suit its executions as they were by then. -/
def Entry.isStale (id : String) (e : Entry Store) : Bool :=
  e.statement.writes id && (e.before.stage? id).any fun row =>
    !e.statement.suits (.of row.policy (e.before.view id).statuses)

def lastChange? (id : String) (log : List (Entry Store)) : Option (Entry Store) :=
  (log.filter (·.changes id)).getLast?

theorem lastChange?_concat (id : String) (log : List (Entry Store)) (e : Entry Store) :
    lastChange? id (log ++ [e]) = if e.changes id then some e else lastChange? id log := by
  rw [lastChange?, List.filter_append]
  cases hchanges : e.changes id with
  | true => simp [hchanges]
  | false => simp [hchanges, lastChange?]

/-- A call that brings the stage in line goes on to do so, if its next statement changes nothing. -/
theorem brings_answer {α : Type} {id : String} {st : Store} {s : Statement}
    {next : Except Failure s.Answer → Call (Except Failure α)}
    (h : Call.Brings id (st.view id) (.ask s next))
    (hview : (Store.engine s st).2.view id = st.view id) :
    Call.Brings id (st.view id) (next (Store.engine s st).1) := by
  cases h with
  | inLine _ hline => exact .inLine _ hline
  | findStage _ hnext => exact hnext
  | statuses _ hnext => exact hnext
  | write _ _ hs hnew hline =>
    rw [← Statement.view_of_not_moves hs (hnew st) id, hview] at hline
    exact .inLine _ hline

/-- What is known at any point of a run about the calls that work on one stage. -/
structure Repairing (requests : List Request) (start : Store) (id : String)
    (log : List (Entry Store)) (p : Pool (Except Failure Unit)) (st : Store) : Prop where
  asks : p.Asks (fun _ _ => True)
    fun i s => ∃ r, requests[i]? = some r ∧ s.AskedBy (fun _ => True) r
  placed : st.PlacedIn (Request.places requests start)
  repairs : ∀ (i : Nat) (f : Flight (Except Failure Unit)), p[i]? = some f →
    f.call.Repairs id (Request.places requests start) ∧
      f.rest.Repairs id (Request.places requests start)
  unchanged : lastChange? id log = none → st.view id = start.view id
  changed : ∀ e, lastChange? id log = some e →
    st.view id = (Store.engine e.statement e.before).2.view id ∧
    e.statement.newStages e.before = [] ∧
    (e.statement.movesExecutions = true →
      ∃ (i : Nat) (f : Flight (Except Failure Unit)), p[i]? = some f ∧
        f.rest.Brings id (st.view id))

section
variable {requests : List Request} {start st : Store} {id : String} {log : List (Entry Store)}
  {p : Pool (Except Failure Unit)}

theorem placedIn_engine {places : List (String × String × Option String)} {r : Request}
    {s : Statement} (hs : s.AskedBy (fun _ => True) r)
    (hplace : ∀ place, r.place? = some place → place ∈ places) (h : st.PlacedIn places) :
    (Store.engine s st).2.PlacedIn places := by
  intro e he
  rw [Statement.engine_executions] at he
  rcases List.mem_append.mp he with hold | hnew
  · obtain ⟨before, hbefore, rfl⟩ := List.mem_map.mp hold
    have hplace : (s.onExecution before).place = before.place := by
      cases s with
      | moveExecution => simp only [Statement.onExecution]; split <;> rfl
      | _ => rfl
    rw [hplace]
    exact h before (List.mem_filter.mp hbefore).1
  · rw [(Statement.of_mem_newExecutions hnew).1] at hs
    obtain ⟨request, freshId, rfl, _, rfl⟩ := hs
    exact hplace _ rfl

/-- Replacing one call leaves what is known of the others. -/
theorem Repairing.getElem?_set (h : Repairing requests start id log p st) {i : Nat}
    {f : Flight (Except Failure Unit)} {rest : Call (Except Failure Unit)} (hf : p[i]? = some f)
    (hrest : rest.Repairs id (Request.places requests start)) (j : Nat)
    (g : Flight (Except Failure Unit)) (hg : (p.set i ⟨f.call, rest⟩)[j]? = some g) :
    g.call.Repairs id (Request.places requests start) ∧
      g.rest.Repairs id (Request.places requests start) := by
  rcases getElem?_set_cases hg with ⟨rfl, rfl⟩ | ⟨_, hold⟩
  · exact ⟨(h.repairs i f hf).1, hrest⟩
  · exact h.repairs j g hold

theorem brings_set {v : StageView} {i : Nat} {f : Flight (Except Failure Unit)}
    {rest : Call (Except Failure Unit)} (hf : p[i]? = some f)
    (hrest : f.rest.Brings id v → rest.Brings id v)
    (h : ∃ (j : Nat) (g : Flight (Except Failure Unit)), p[j]? = some g ∧ g.rest.Brings id v) :
    ∃ (j : Nat) (g : Flight (Except Failure Unit)),
      (p.set i ⟨f.call, rest⟩)[j]? = some g ∧ g.rest.Brings id v := by
  obtain ⟨j, g, hg, hbrings⟩ := h
  obtain ⟨hi, _⟩ := List.getElem?_eq_some_iff.mp hf
  by_cases hij : i = j
  · subst hij
    rw [hf] at hg
    cases hg
    exact ⟨i, ⟨f.call, rest⟩, by simp [hi], hrest hbrings⟩
  · exact ⟨j, g, by rw [List.getElem?_set_ne hij, hg], hbrings⟩

/-- A step of one call that leaves the view as it is. -/
theorem Repairing.set (h : Repairing requests start id log p st) {i : Nat}
    {f : Flight (Except Failure Unit)} {rest : Call (Except Failure Unit)} {st' : Store}
    {log' : List (Entry Store)} (hf : p[i]? = some f)
    (hasks : Pool.Asks (fun _ _ => True)
      (fun i s => ∃ r, requests[i]? = some r ∧ s.AskedBy (fun _ => True) r)
      (p.set i ⟨f.call, rest⟩))
    (hplaced : st'.PlacedIn (Request.places requests start))
    (hrest : rest.Repairs id (Request.places requests start))
    (hsame : st'.view id = st.view id) (hlast : lastChange? id log' = lastChange? id log)
    (hbrings : f.rest.Brings id (st.view id) → rest.Brings id (st.view id)) :
    Repairing requests start id log' (p.set i ⟨f.call, rest⟩) st' where
  asks := hasks
  placed := hplaced
  repairs := h.getElem?_set hf hrest
  unchanged hnone := by
    rw [hsame]
    exact h.unchanged (hlast ▸ hnone)
  changed e he := by
    obtain ⟨hview, hnew, hdue⟩ := h.changed e (hlast ▸ he)
    rw [hsame]
    exact ⟨hview, hnew, fun hmoves => brings_set hf hbrings (hdue hmoves)⟩

/-- A statement of one call that changes the view: it is the last change from now on, and the call
that made it is the one that repairs it. -/
theorem Repairing.change {i : Nat} {f : Flight (Except Failure Unit)} {s : Statement}
    {next : Except Failure s.Answer → Call (Except Failure Unit)} {r : Request}
    (h : Repairing requests start id log p st) (hf : p[i]? = some f)
    (hkind : r.worksOnExecutions = true) (hs : s.AskedBy (fun _ => True) r)
    (hasks : Pool.Asks (fun _ _ => True)
      (fun i s => ∃ r, requests[i]? = some r ∧ s.AskedBy (fun _ => True) r)
      (p.set i ⟨f.call, next (Store.engine s st).1⟩))
    (hplaced : (Store.engine s st).2.PlacedIn (Request.places requests start))
    (hrepairs : (Call.ask s next).Repairs id (Request.places requests start))
    (hview : Entry.changes id ⟨i, s, st⟩ = true) :
    Repairing requests start id (log ++ [⟨i, s, st⟩])
      (p.set i ⟨f.call, next (Store.engine s st).1⟩) (Store.engine s st).2 := by
  obtain ⟨hchange, hnext⟩ := hrepairs st h.placed
  have hlast : lastChange? id (log ++ [⟨i, s, st⟩]) = some ⟨i, s, st⟩ := by
    rw [lastChange?_concat, hview]
    rfl
  refine ⟨hasks, hplaced, h.getElem?_set hf hnext, fun hnone => ?_, fun e he => ?_⟩
  · rw [hlast] at hnone
    cases hnone
  · rw [hlast] at he
    cases he
    refine ⟨rfl, Statement.newStages_of_askedBy hkind hs st, fun hmoves => ?_⟩
    obtain ⟨hi, _⟩ := List.getElem?_eq_some_iff.mp hf
    have hbrings := hchange hmoves (by simpa [Entry.changes] using hview)
    exact ⟨i, ⟨f.call, next (Store.engine s st).1⟩, by simp [hi], hbrings⟩

theorem Repairing.ask {i : Nat} {f : Flight (Except Failure Unit)} {s : Statement}
    {next : Except Failure s.Answer → Call (Except Failure Unit)}
    (hkind : ∀ r ∈ requests, r.worksOnExecutions = true)
    (h : Repairing requests start id log p st) (hf : p[i]? = some f) (hrest : f.rest = .ask s next)
    (hasks : Pool.Asks (fun _ _ => True)
      (fun i s => ∃ r, requests[i]? = some r ∧ s.AskedBy (fun _ => True) r)
      (p.set i ⟨f.call, next (Store.engine s st).1⟩)) :
    Repairing requests start id (log ++ [⟨i, s, st⟩])
      (p.set i ⟨f.call, next (Store.engine s st).1⟩) (Store.engine s st).2 := by
  have hasked := (h.asks i f hf).2
  rw [hrest] at hasked
  obtain ⟨r, hr, hs⟩ := hasked.1
  have hrepairs := (h.repairs i f hf).2
  rw [hrest] at hrepairs
  have hplaced : (Store.engine s st).2.PlacedIn (Request.places requests start) := by
    refine placedIn_engine hs (fun place hplace => ?_) h.placed
    refine List.mem_append_right _ (List.mem_filterMap.mpr ⟨r, ?_, hplace⟩)
    exact List.mem_of_getElem? hr
  cases hview : Entry.changes id ⟨i, s, st⟩ with
  | true => exact h.change hf (hkind r (List.mem_of_getElem? hr)) hs hasks hplaced hrepairs hview
  | false =>
    have hsame : (Store.engine s st).2.view id = st.view id := by
      simpa [Entry.changes] using hview
    have hlast : lastChange? id (log ++ [⟨i, s, st⟩]) = lastChange? id log := by
      rw [lastChange?_concat, hview]
      rfl
    refine h.set hf hasks hplaced (hrepairs st h.placed).2 hsame hlast fun hbrings => ?_
    rw [hrest] at hbrings
    exact brings_answer hbrings hsame

theorem Repairing.moves {p' : Pool (Except Failure Unit)} {st' : Store} {i : Nat} {now : Instant}
    {entry : Option (Entry Store)} (hkind : ∀ r ∈ requests, r.worksOnExecutions = true)
    (h : Repairing requests start id log p st)
    (hmoves : Moves Store.engine now i p st entry p' st') :
    Repairing requests start id (log ++ entry.toList) p' st' := by
  have hasks := asks_moves hmoves trivial h.asks
  cases hmoves with
  | idle hdone => rwa [Option.toList_none, List.append_nil]
  | clock f next hf hrest =>
    rw [Option.toList_none, List.append_nil]
    have hrepairs := (h.repairs i f hf).2
    rw [hrest] at hrepairs
    refine h.set hf hasks h.placed (hrepairs now) rfl rfl fun hbrings => ?_
    rw [hrest] at hbrings
    cases hbrings with
    | inLine _ hline => exact .inLine _ hline
    | clock _ hnext => exact hnext now
  | again f hf hrest =>
    rw [Option.toList_none, List.append_nil]
    refine h.set hf hasks h.placed (h.repairs i f hf).1 rfl rfl fun hbrings => ?_
    rw [hrest] at hbrings
    cases hbrings with
    | inLine _ hline => exact .inLine _ hline
  | ask f s next hf hrest => exact h.ask hkind hf hrest hasks

theorem Repairing.run (hkind : ∀ r ∈ requests, r.worksOnExecutions = true)
    (hids : (start.executions.map (·.id)).Nodup) (hfresh : Request.Fresh requests start)
    (schedule : List (Nat × Instant)) :
    Repairing requests start id
      (Pool.log Store.engine schedule (Request.pool requests) start)
      (Pool.run Store.engine schedule (Request.pool requests) start).1
      (Pool.run Store.engine schedule (Request.pool requests) start).2 := by
  have hplaces := Request.nodup_places hfresh hids
  refine run_induction Store.engine schedule (Request.pool requests) start
    (motive := fun _ log p st => Repairing requests start id log p st) ?_ ?_
  · refine ⟨Request.pool_asks requests _, fun r hr => ?_, fun i f hf => ?_, fun _ => rfl,
      by simp [lastChange?]⟩
    · exact List.mem_append_left _ (List.mem_map_of_mem hr)
    · obtain ⟨r, hr, rfl⟩ : ∃ r, requests[i]? = some r ∧ Flight.start r.call = f := by
        simpa [Request.pool] using hf
      have hrepairs : r.call.Repairs id _ :=
        Request.repairs (hkind r (List.mem_of_getElem? hr)) hplaces
      exact ⟨hrepairs, hrepairs⟩
  · intro made log p st i now entry p' st' _ h hmoves
    exact h.moves hkind hmoves

theorem mem_of_lastChange? {e : Entry Store} (h : lastChange? id log = some e) :
    e ∈ log ∧ e.changes id = true :=
  List.mem_filter.mp (List.mem_of_getLast? h)

/-- A write that was the last change left the stage in line exactly if it was not stale. -/
theorem Entry.inLine_iff_not_stale {e : Entry Store} (hchanges : e.changes id = true)
    (hnew : e.statement.newStages e.before = []) (hmoves : e.statement.movesExecutions = false) :
    ((Store.engine e.statement e.before).2.view id).inLine = true ↔ e.isStale id = false := by
  have hview : (Store.engine e.statement e.before).2.view id ≠ e.before.view id := by
    simpa [Entry.changes] using hchanges
  have hwrites := Statement.writes_of_view_ne hnew hmoves hview
  obtain ⟨row, hrow⟩ : ∃ row, e.before.stage? id = some row := by
    cases hstage : e.before.stage? id with
    | some row => exact ⟨row, rfl⟩
    | none =>
      rw [Statement.view_of_not_moves hmoves hnew] at hview
      exact absurd (by simp [StageView.after, Store.view, hstage]) hview
  rw [Statement.inLine_of_writes hwrites hrow hview]
  simp [Entry.isStale, hwrites, hrow]

/-- When all calls have come to an answer that is no failure of the store, the last change
decides. -/
theorem Repairing.inLine_iff (h : Repairing requests start id log p st)
    (hsettled : ∀ f ∈ p, f.isSettled = true) :
    (st.view id).inLine = true ↔
      match lastChange? id log with
      | none => (start.view id).inLine = true
      | some e => e.isStale id = false := by
  cases hlast : lastChange? id log with
  | none => rw [h.unchanged hlast]
  | some e =>
    obtain ⟨hview, hnew, hdue⟩ := h.changed e hlast
    cases hmoves : e.statement.movesExecutions with
    | false =>
      rw [hview]
      exact Entry.inLine_iff_not_stale (mem_of_lastChange? hlast).2 hnew hmoves
    | true =>
      obtain ⟨i, f, hf, hbrings⟩ := hdue hmoves
      obtain ⟨a, ha, hfailure⟩ := Flight.isSettled_iff.mp (hsettled f (List.mem_of_getElem? hf))
      rw [ha] at hbrings
      have hline : (st.view id).inLine = true := by
        cases hbrings with
        | inLine _ hline => exact hline
        | failed e' hretry =>
          rw [hfailure e' rfl] at hretry
          cases hretry
      have hwrites : e.statement.writes id = false := by
        cases hs : e.statement <;> simp [hs, Statement.movesExecutions] at hmoves <;> rfl
      simp [Entry.isStale, hwrites, hline]

/-- A stale write was planned on statuses that its call had read before they changed. -/
theorem Planning.read_before_stale {policy : SuccessPolicy}
    (h : Planning requests id policy log p st) {e : Entry Store} (he : e ∈ log)
    (hstale : e.isStale id = true) :
    ∃ before after, log = before ++ e :: after ∧
      ∃ read ∈ before, read.caller = e.caller ∧ read.statement = .topLevelStatuses id ∧
        (read.before.view id).statuses ≠ (e.before.view id).statuses := by
  obtain ⟨before, after, hlog⟩ := List.append_of_mem he
  simp only [Entry.isStale, Bool.and_eq_true, Option.any_eq_true, Bool.not_eq_true'] at hstale
  obtain ⟨hwrites, row, hrow, hnot⟩ := hstale
  obtain ⟨hpolicy, read, hmem, hcaller, hstatement, hsuits⟩ := h.planned before e after hlog hwrites
  refine ⟨before, after, hlog, read, hmem, hcaller, hstatement, fun hsame => ?_⟩
  rw [hpolicy row hrow, ← hsame, hsuits] at hnot
  cases hnot

end

/-- Requests on executions, in any order of their statements, when all of them have returned and
none of them because the store failed. The stage agrees with its top-level executions exactly if
the last statement that changed either was not a stale write; and a stale write comes from a call
that had read the statuses of the executions before they changed. -/
theorem stage_agrees_iff (start : Store) (hstart : start.Reached fun _ => True)
    (requests : List Request) (hkind : ∀ r ∈ requests, r.worksOnExecutions = true)
    (hfresh : Request.Fresh requests start) (schedule : List (Nat × Instant))
    (hsettled : ∀ f ∈ (run Store.engine schedule (Request.pool requests) start).1,
      f.isSettled = true)
    (id : String) (row : StageRow)
    (hrow : (run Store.engine schedule (Request.pool requests) start).2.stage? id = some row)
    (hsome :
      ((run Store.engine schedule (Request.pool requests) start).2.view id).executions ≠ []) :
    let st := (run Store.engine schedule (Request.pool requests) start).2
    let log := log Store.engine schedule (Request.pool requests) start
    (row.AgreesWith (st.view id).executions ↔
      match lastChange? id log with
      | none => (start.view id).inLine = true
      | some e => e.isStale id = false) ∧
    ∀ e ∈ log, e.isStale id = true →
      ∃ before after, log = before ++ e :: after ∧
        ∃ read ∈ before, read.caller = e.caller ∧ read.statement = .topLevelStatuses id ∧
          (read.before.view id).statuses ≠ (e.before.view id).statuses := by
  have h : Repairing requests start id _ _ _ :=
    Repairing.run hkind hstart.keyed.executions hfresh schedule
  have hiff := h.inLine_iff hsettled
  obtain ⟨policy, hpolicy⟩ : ∃ policy, start.HasPolicy id policy := by
    cases hstage : start.stage? id with
    | none => exact ⟨.any, by simp [Store.HasPolicy, hstage]⟩
    | some row => exact ⟨row.policy, by simp [Store.HasPolicy, hstage]⟩
  have hplanning := writes_planned hkind hpolicy schedule
  refine ⟨?_, fun e he hstale => hplanning.read_before_stale he hstale⟩
  rw [← hiff, StageView.inLine_iff hrow hsome]

/-! ### Two calls on a stage with one active execution -/

namespace OneActive

open OneExecution

def start : Store := store .active

def requests : List Request := [.transition "e" .completed none, .createExecution (agent 2) "f"]

theorem reached_start : start.Reached fun _ => True := reached_store .active trivial

theorem fresh_requests : Request.Fresh requests start := by
  refine ⟨by decide, ?_⟩
  decide +kernel

/-- The first call has read the statuses and planned its write when the second one does all of its
work. -/
def overlapping : List (Nat × Instant) := turns 0 4 ++ turns 1 9 ++ turns 0 5

def successive : List (Nat × Instant) := turns 0 9 ++ turns 1 9

end OneActive

section
open OneActive

/-- When the second call waits for the write of the first, the last change is no stale write. -/
theorem successive_calls_agree : ∃ row,
    (run Store.engine successive (Request.pool requests) start).2.stage? "st" = some row ∧
      row.AgreesWith
        ((run Store.engine successive (Request.pool requests) start).2.view "st").executions := by
  have hkind : ∀ r ∈ requests, r.worksOnExecutions = true := by decide
  have hsettled : ∀ f ∈ (run Store.engine successive (Request.pool requests) start).1,
      f.isSettled = true := by
    rw [Store.engine_eq_ordered]
    decide +kernel
  have hsome : ((run Store.engine successive (Request.pool requests) start).2.view "st").executions
      ≠ [] := by
    rw [Store.engine_eq_ordered]
    decide +kernel
  have hrow : ((run Store.engine successive (Request.pool requests) start).2.stage? "st").isSome
      = true := by
    rw [Store.engine_eq_ordered]
    decide +kernel
  have hlast : ((lastChange? "st" (log Store.engine successive (Request.pool requests) start)).any
      fun e => !e.isStale "st") = true := by
    rw [Store.engine_eq_ordered]
    decide +kernel
  obtain ⟨row, hrow⟩ := Option.isSome_iff_exists.mp hrow
  obtain ⟨e, he, hstale⟩ := (Option.any_eq_true _ _).mp hlast
  obtain ⟨hagrees, _⟩ := stage_agrees_iff start reached_start requests hkind fresh_requests
    successive hsettled "st" row hrow hsome
  refine ⟨row, hrow, hagrees.mpr ?_⟩
  rw [he]
  simpa using hstale

/-- When it does not, the stage is completed while the new execution is pending. -/
theorem overlapping_calls_disagree :
    ¬ ∀ (start : Store), start.Reached (fun _ => True) → ∀ requests : List Request,
      (∀ r ∈ requests, r.worksOnExecutions = true) → Request.Fresh requests start →
      ∀ schedule : List (Nat × Instant),
      (∀ f ∈ (run Store.engine schedule (Request.pool requests) start).1, f.isSettled = true) →
      ∀ id row, (run Store.engine schedule (Request.pool requests) start).2.stage? id = some row →
        ((run Store.engine schedule (Request.pool requests) start).2.view id).executions ≠ [] →
        row.AgreesWith
          ((run Store.engine schedule (Request.pool requests) start).2.view id).executions := by
  intro hclaim
  have hclaim := hclaim start reached_start requests (by decide) fresh_requests overlapping
  rw [Store.engine_eq_ordered] at hclaim
  have hrow :
      ((run Store.orderedEngine overlapping (Request.pool requests) start).2.stage? "st").any
        (·.status.isTerminal) = true := by
    decide +kernel
  obtain ⟨row, hrow, hterminal⟩ := (Option.any_eq_true _ _).mp hrow
  have hagrees := hclaim (by decide +kernel) "st" row hrow (by decide +kernel)
  have hpending :
      ¬ ∀ e ∈ ((run Store.orderedEngine overlapping
        (Request.pool requests) start).2.view "st").executions, e.status.isTerminal = true := by
    decide +kernel
  exact hpending (hagrees.terminal.mp hterminal)

end
end Pool
end AlertDesk
