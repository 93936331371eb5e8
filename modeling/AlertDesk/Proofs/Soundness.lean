import AlertDesk.Proofs.Effects
import AlertDesk.Proofs.Requests
import AlertDesk.Proofs.StoredTimes

/-!
What holds of every store that requests leave behind. Ids are distinct within a table, stages
belong to sessions and executions to stages, whatever the clock says; and while the clock stays
within the years that have four digits, every row can be read back.
-/
namespace AlertDesk

namespace Store

/-- Ids are distinct, and each stage has its session. -/
structure Keyed (st : Store) : Prop where
  sessions : (st.sessions.map (·.id)).Nodup
  stages : (st.stages.map (·.id)).Nodup
  executions : (st.executions.map (·.id)).Nodup
  owners : ∀ r ∈ st.stages, (st.session? r.sessionId).isSome = true

def Housed (st : Store) : Prop := ∀ e ∈ st.executions, (st.stage? e.stageId).isSome = true

structure Legible (st : Store) : Prop where
  sessions : ∀ r ∈ st.sessions, r.Readable
  stages : ∀ r ∈ st.stages, r.Readable
  executions : ∀ r ∈ st.executions, r.Readable

/-- Distinct keys stay distinct when rows keep theirs and at most one row with a key of its own
comes. -/
theorem nodup_changed {ρ : Type} {key : ρ → String} {rows new : List ρ} {change : ρ → ρ}
    (h : (rows.map key).Nodup) (hchange : ∀ r, key (change r) = key r)
    (hnew : new = [] ∨ ∃ row, new = [row] ∧ rows.find? (fun r => key r == key row) = none) :
    ((rows.map change ++ new).map key).Nodup := by
  have hkeys : (rows.map change).map key = rows.map key := by
    rw [List.map_map]
    exact List.map_congr_left fun r _ => hchange r
  rw [List.map_append, hkeys]
  rcases hnew with rfl | ⟨row, rfl, hfree⟩
  · rwa [List.map_nil, List.append_nil]
  · rw [List.map_singleton, List.nodup_append]
    refine ⟨h, by simp, ?_⟩
    intro k hk new hnew hsame
    subst hsame
    obtain ⟨r, hr, rfl⟩ := List.mem_map.mp hk
    exact List.find?_eq_none.mp hfree r hr (by simpa using hnew)

end Store

namespace Statement

variable {st : Store}

theorem newSessions_cases (s : Statement) (st : Store) :
    s.newSessions st = [] ∨
    ∃ row, s = .insertSession row ∧ s.newSessions st = [row] ∧ st.session? row.id = none := by
  cases s with
  | insertSession row =>
    cases h : st.session? row.id with
    | none => exact .inr ⟨row, rfl, by simp [newSessions, h], h⟩
    | some r => exact .inl (by simp [newSessions, h])
  | _ => exact .inl rfl

theorem newStages_cases (s : Statement) (st : Store) :
    s.newStages st = [] ∨
    ∃ row, s = .insertStage row ∧ s.newStages st = [row] ∧ st.admitsStage row = true := by
  cases s with
  | insertStage row =>
    cases h : st.admitsStage row with
    | true => exact .inr ⟨row, rfl, by simp [newStages, h], h⟩
    | false => exact .inl (by simp [newStages, h])
  | _ => exact .inl rfl

theorem newExecutions_cases (s : Statement) (st : Store) :
    s.newExecutions st = [] ∨
    ∃ row, s = .insertExecution row ∧ s.newExecutions st = [row] ∧
      st.admitsExecution row = true := by
  cases s with
  | insertExecution row =>
    cases h : st.admitsExecution row with
    | true => exact .inr ⟨row, rfl, by simp [newExecutions, h], h⟩
    | false => exact .inl (by simp [newExecutions, h])
  | _ => exact .inl rfl

theorem of_mem_newSessions {s : Statement} {row : SessionRow} (h : row ∈ s.newSessions st) :
    s = .insertSession row := by
  rcases newSessions_cases s st with hnil | ⟨new, rfl, hnew, _⟩
  · rw [hnil] at h
    cases h
  · rw [hnew] at h
    rw [List.mem_singleton.mp h]

theorem of_mem_newStages {s : Statement} {row : StageRow} (h : row ∈ s.newStages st) :
    s = .insertStage row ∧ st.admitsStage row = true := by
  rcases newStages_cases s st with hnil | ⟨new, rfl, hnew, hadmits⟩
  · rw [hnil] at h
    cases h
  · rw [hnew] at h
    rw [List.mem_singleton.mp h]
    exact ⟨rfl, hadmits⟩

theorem of_mem_newExecutions {s : Statement} {row : ExecutionRow} (h : row ∈ s.newExecutions st) :
    s = .insertExecution row ∧ st.admitsExecution row = true := by
  rcases newExecutions_cases s st with hnil | ⟨new, rfl, hnew, hadmits⟩
  · rw [hnil] at h
    cases h
  · rw [hnew] at h
    rw [List.mem_singleton.mp h]
    exact ⟨rfl, hadmits⟩

/-- Sessions stay. -/
theorem isSome_session?_engine (s : Statement) {id : String}
    (h : (st.session? id).isSome = true) : ((Store.engine s st).2.session? id).isSome = true := by
  obtain ⟨r, hr⟩ := Option.isSome_iff_exists.mp h
  rw [Store.session?_engine_of_some s hr]
  rfl

/-- Stages stay. -/
theorem isSome_stage?_engine (s : Statement) {id : String} (h : (st.stage? id).isSome = true) :
    ((Store.engine s st).2.stage? id).isSome = true := by
  obtain ⟨r, hr⟩ := Option.isSome_iff_exists.mp h
  rw [Store.stage?_engine_of_some s hr]
  rfl

theorem sessionId_onStage (s : Statement) (r : StageRow) :
    (s.onStage r).sessionId = r.sessionId := by
  apply onStage_keeps (P := fun after => after.sessionId = r.sessionId) rfl
  intro after hwrites
  cases hwrites <;> rfl

theorem stageId_onExecution (s : Statement) (r : ExecutionRow) :
    (s.onExecution r).stageId = r.stageId := by
  cases s with
  | moveExecution =>
    simp only [onExecution]
    split <;> rfl
  | _ => rfl

theorem keyed_engine (h : st.Keyed) (s : Statement) : (Store.engine s st).2.Keyed where
  sessions := by
    rw [engine_sessions]
    refine Store.nodup_changed h.sessions (id_onSession s) ?_
    rcases newSessions_cases s st with hnil | ⟨row, _, hrow, hfree⟩
    · exact .inl hnil
    · exact .inr ⟨row, hrow, hfree⟩
  stages := by
    rw [engine_stages]
    refine Store.nodup_changed h.stages (id_onStage s) ?_
    rcases newStages_cases s st with hnil | ⟨row, _, hrow, hadmits⟩
    · exact .inl hnil
    · simp only [Store.admitsStage, Bool.and_eq_true, Option.isNone_iff_eq_none] at hadmits
      exact .inr ⟨row, hrow, hadmits.1.2⟩
  executions := by
    have hspared : ((st.executions.filter (s.spares st)).map (·.id)).Nodup :=
      h.executions.sublist (List.filter_sublist.map _)
    rw [engine_executions]
    refine Store.nodup_changed hspared (id_onExecution s) ?_
    rcases newExecutions_cases s st with hnil | ⟨row, _, hrow, hadmits⟩
    · exact .inl hnil
    · simp only [Store.admitsExecution, Bool.and_eq_true, Option.isNone_iff_eq_none] at hadmits
      refine .inr ⟨row, hrow, ?_⟩
      rw [List.find?_eq_none]
      intro r hr
      exact List.find?_eq_none.mp hadmits.1.1.1.2 r (List.mem_filter.mp hr).1
  owners := by
    intro r hr
    rw [engine_stages] at hr
    apply isSome_session?_engine
    rcases List.mem_append.mp hr with hold | hnew
    · obtain ⟨before, hbefore, rfl⟩ := List.mem_map.mp hold
      rw [sessionId_onStage]
      exact h.owners before hbefore
    · have hadmits := (of_mem_newStages hnew).2
      simp only [Store.admitsStage, Bool.and_eq_true] at hadmits
      exact hadmits.2

theorem housed_engine (h : st.Housed) (s : Statement) : (Store.engine s st).2.Housed := by
  intro e he
  rw [engine_executions] at he
  apply isSome_stage?_engine
  rcases List.mem_append.mp he with hold | hnew
  · obtain ⟨before, hbefore, rfl⟩ := List.mem_map.mp hold
    rw [stageId_onExecution]
    exact h before (List.mem_filter.mp hbefore).1
  · have hadmits := (of_mem_newExecutions hnew).2
    simp only [Store.admitsExecution, Bool.and_eq_true] at hadmits
    exact hadmits.1.1.2

end Statement

/-! ### Readable rows -/

section
variable {clock : Instant → Prop} (hclock : ∀ t, clock t → t.Storable)
include hclock

theorem Stamp.Taken.readable {s : Stamp} (h : s.Taken clock) : s.Readable := by
  obtain ⟨t, ht, rfl⟩ := h
  exact Stamp.readable_ofInstant (hclock t ht)

theorem Stamp.Taken.readable_some {s : Stamp} (h : s.Taken clock) : ∀ t ∈ some s, t.Readable :=
  Stamp.readable_some (h.readable hclock)

theorem SessionRow.Readable.onSession {r : SessionRow} {s : Statement} {request : Request}
    (h : r.Readable) (hs : s.AskedBy clock request) : (s.onSession r).Readable := by
  apply Statement.onSession_keeps h
  intro after hwrites
  cases hwrites with
  | claim =>
    have htaken := hs.2.2.readable_some hclock
    exact { h with startedAt := htaken, lastInteractionAt := htaken }
  | touch => exact { h with lastInteractionAt := hs.2.readable_some hclock }
  | advance => exact { h with lastInteractionAt := hs.2.readable_some hclock }
  | finish =>
    have htaken := hs.2.2.readable_some hclock
    exact { h with lastInteractionAt := htaken, completedAt := htaken }
  | cancel => exact { h with }
  | abandon => exact { h with completedAt := hs.1.readable_some hclock }
  | requeue =>
    exact { h with startedAt := Stamp.readable_none, lastInteractionAt := Stamp.readable_none }
  | delete =>
    obtain ⟨_, t, _, ht, rfl, _⟩ := hs
    exact { h with deletedAt := Stamp.readable_some (Stamp.readable_ofInstant (hclock t ht)) }

theorem StageRow.Readable.onStage {r : StageRow} {s : Statement} {request : Request}
    (h : r.Readable) (hs : s.AskedBy clock request) : (s.onStage r).Readable := by
  have hor {now : Option Stamp} (hnow : ∀ t ∈ now, t.Readable) :
      ∀ t ∈ r.startedAt.or now, t.Readable := by
    intro t ht
    cases hstart : r.startedAt with
    | none =>
      rw [hstart, Option.none_or] at ht
      exact hnow t ht
    | some start =>
      rw [hstart, Option.some_or] at ht
      exact h.startedAt t (hstart ▸ ht)
  apply Statement.onStage_keeps h
  intro after hwrites
  cases hwrites with
  | activate => exact ⟨hor (hs.readable_some hclock), h.completedAt⟩
  | finalize => exact ⟨h.startedAt, hs.2.readable_some hclock⟩
  | reopen id observed status now =>
    refine ⟨hor fun t ht => ?_, Stamp.readable_none⟩
    split at ht
    · exact hs.2.2.readable_some hclock t ht
    · cases ht

theorem ExecutionRow.Readable.moved {r : ExecutionRow} (h : r.Readable) (status : StageStatus)
    (message : Option String) {now : Stamp} (hnow : now.Taken clock) :
    (r.moved status message now).Readable where
  startedAt := by
    intro t ht
    simp only [ExecutionRow.moved] at ht
    split at ht
    · cases hstart : r.startedAt with
      | none =>
        rw [hstart] at ht
        cases ht
        exact hnow.readable hclock
      | some start =>
        rw [hstart] at ht
        exact h.startedAt t (hstart ▸ ht)
    · exact h.startedAt t ht
  completedAt := by
    intro t ht
    simp only [ExecutionRow.moved] at ht
    split at ht
    · cases ht
      exact hnow.readable hclock
    · exact h.completedAt t ht

theorem Store.Legible.engine {st : Store} {s : Statement} {request : Request} (h : st.Legible)
    (hs : s.AskedBy clock request) : (Store.engine s st).2.Legible where
  sessions := by
    intro r hr
    rw [Statement.engine_sessions] at hr
    rcases List.mem_append.mp hr with hold | hnew
    · obtain ⟨before, hbefore, rfl⟩ := List.mem_map.mp hold
      exact (h.sessions before hbefore).onSession hclock hs
    · rw [Statement.of_mem_newSessions hnew] at hs
      obtain ⟨submission, freshId, t, _, ht, _, rfl⟩ := hs
      exact ⟨Stamp.readable_ofInstant (hclock t ht), Stamp.readable_none, Stamp.readable_none,
        Stamp.readable_none, Stamp.readable_none⟩
  stages := by
    intro r hr
    rw [Statement.engine_stages] at hr
    rcases List.mem_append.mp hr with hold | hnew
    · obtain ⟨before, hbefore, rfl⟩ := List.mem_map.mp hold
      exact (h.stages before hbefore).onStage hclock hs
    · rw [(Statement.of_mem_newStages hnew).1] at hs
      obtain ⟨stageRequest, freshId, _, _, rfl⟩ := hs
      exact ⟨Stamp.readable_none, Stamp.readable_none⟩
  executions := by
    intro r hr
    rw [Statement.engine_executions] at hr
    rcases List.mem_append.mp hr with hold | hnew
    · obtain ⟨before, hbefore, rfl⟩ := List.mem_map.mp hold
      have hreadable := h.executions before (List.mem_filter.mp hbefore).1
      cases s with
      | moveExecution id status message now =>
        simp only [Statement.onExecution]
        split
        · exact hreadable.moved hclock status message hs.1
        · exact hreadable
      | _ => exact hreadable
    · rw [(Statement.of_mem_newExecutions hnew).1] at hs
      obtain ⟨executionRequest, freshId, _, _, rfl⟩ := hs
      exact ⟨Stamp.readable_none, Stamp.readable_none⟩

theorem Store.Reached.legible {st : Store} (h : st.Reached clock) : st.Legible :=
  h.invariant ⟨by simp, by simp, by simp⟩ fun _ _ _ hs hst => hst.engine hclock hs

end

theorem Store.Reached.keyed {clock : Instant → Prop} {st : Store} (h : st.Reached clock) :
    st.Keyed :=
  h.invariant ⟨.nil, .nil, .nil, by simp⟩ fun _ s _ _ hst => Statement.keyed_engine hst s

theorem Store.Reached.housed {clock : Instant → Prop} {st : Store} (h : st.Reached clock) :
    st.Housed :=
  h.invariant (by simp [Store.Housed]) fun _ s _ _ hst => Statement.housed_engine hst s

end AlertDesk
