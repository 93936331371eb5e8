import AlertDesk.Call
import Mathlib.Data.List.Nodup

/-!
What a statement does to each table, row by row: rows are changed in place, new ones are added at
the end, and executions may be taken away. A statement of one table leaves the others as they are.
-/
namespace AlertDesk

namespace Store

variable {ρ κ : Type}

/-- Rows of which no two have one key are found by their keys. -/
theorem find?_key [BEq κ] [LawfulBEq κ] {key : ρ → κ} {rows : List ρ}
    (hnodup : (rows.map key).Nodup) {r : ρ} (hr : r ∈ rows) {k : κ} (hk : key r = k) :
    rows.find? (fun x => key x == k) = some r := by
  obtain ⟨found, hfound⟩ : ∃ found, rows.find? (fun x => key x == k) = some found := by
    rw [← Option.isSome_iff_exists, List.find?_isSome]
    exact ⟨r, hr, by simpa using hk⟩
  have hkey : key found = key r := by
    have hsame : key found = k := by simpa using List.find?_some hfound
    exact hsame.trans hk.symm
  rw [hfound, List.inj_on_of_nodup_map hnodup (List.mem_of_find?_eq_some hfound) hr hkey]

theorem session?_some {st : Store} {id : String} {r : SessionRow} (h : st.session? id = some r) :
    r ∈ st.sessions ∧ r.id = id :=
  ⟨List.mem_of_find?_eq_some h, by simpa using List.find?_some h⟩

theorem stage?_some {st : Store} {id : String} {r : StageRow} (h : st.stage? id = some r) :
    r ∈ st.stages ∧ r.id = id :=
  ⟨List.mem_of_find?_eq_some h, by simpa using List.find?_some h⟩

theorem execution?_some {st : Store} {id : String} {r : ExecutionRow}
    (h : st.execution? id = some r) : r ∈ st.executions ∧ r.id = id :=
  ⟨List.mem_of_find?_eq_some h, by simpa using List.find?_some h⟩

/-- A guard that asks for one key finds one of these rows at most. -/
theorem countP_key_le_one [BEq κ] [LawfulBEq κ] {key : ρ → κ} {rows : List ρ}
    (hnodup : (rows.map key).Nodup) {k : κ} {guard : ρ → Bool}
    (hguard : ∀ r, guard r = true → key r = k) : rows.countP guard ≤ 1 := by
  have hkey : rows.countP (key · == k) ≤ 1 := by
    have hcount := List.nodup_iff_count_le_one.mp hnodup k
    rwa [List.count, List.countP_map] at hcount
  have hfewer : rows.countP guard ≤ rows.countP (key · == k) :=
    List.countP_mono_left fun r _ hr => by simpa using hguard r hr
  exact Nat.le_trans hfewer hkey

/-- The row that a guard finds is found after its change, if it still passes the guard. -/
theorem find?_changeWhere {guard : ρ → Bool} {change : ρ → ρ}
    (hkeeps : ∀ r, guard (change r) = guard r) (rows : List ρ) :
    (changeWhere guard change rows).find? guard = (rows.find? guard).map change := by
  induction rows with
  | nil => rfl
  | cons r rows ih =>
    rw [changeWhere, List.map_cons]
    by_cases hr : guard r = true
    · have hchanged : guard (change r) = true := (hkeeps r).trans hr
      rw [if_pos hr, List.find?_cons_of_pos hchanged, List.find?_cons_of_pos hr, Option.map_some]
    · rw [if_neg hr, List.find?_cons_of_neg hr, List.find?_cons_of_neg hr]
      exact ih

/-- A change that has been made finds nothing more to do. -/
theorem changeWhere_changeWhere {guard : ρ → Bool} {change again : ρ → ρ}
    (hkeeps : ∀ r, guard (change r) = guard r) (hdone : ∀ r, again (change r) = change r)
    (rows : List ρ) :
    changeWhere guard again (changeWhere guard change rows) = changeWhere guard change rows := by
  simp only [changeWhere, List.map_map]
  refine List.map_congr_left fun r _ => ?_
  simp only [Function.comp_apply]
  by_cases hr : guard r = true
  · rw [if_pos hr, hkeeps, if_pos hr, hdone]
  · rw [if_neg hr, if_neg hr]

theorem changeWhere_eq_self {guard : ρ → Bool} {rows : List ρ} (h : ∀ r ∈ rows, ¬ guard r = true)
    (change : ρ → ρ) : changeWhere guard change rows = rows := by
  unfold changeWhere
  refine (List.map_congr_left fun r hr => ?_).trans (List.map_id' _)
  exact if_neg (h r hr)

/-! ### Insertions -/

def admitsStage (st : Store) (row : StageRow) : Bool :=
  !(st.stages.any fun r => r.sessionId == row.sessionId && r.stageIndex == row.stageIndex) &&
    (st.stage? row.id).isNone && (st.session? row.sessionId).isSome

def admitsExecution (st : Store) (row : ExecutionRow) : Bool :=
  !st.indexTaken row && (st.execution? row.id).isNone && (st.stage? row.stageId).isSome &&
    (st.session? row.sessionId).isSome &&
    row.parentId.all fun p => p == row.id || (st.execution? p).isSome

theorem insertSession_ok {st st' : Store} {row : SessionRow} (h : st.insertSession row = .ok st') :
    st.session? row.id = none ∧ st' = { st with sessions := st.sessions ++ [row] } := by
  unfold insertSession at h
  split at h
  · cases h
  · next hfree =>
    cases h
    exact ⟨by simpa using hfree, rfl⟩

theorem insertStage_ok {st st' : Store} {row : StageRow} (h : st.insertStage row = .ok st') :
    st.admitsStage row = true ∧ st' = { st with stages := st.stages ++ [row] } := by
  unfold insertStage at h
  split at h
  · cases h
  · next hindex =>
    split at h
    · cases h
    · next hid =>
      split at h
      · cases h
      · next hsession =>
        cases h
        refine ⟨?_, rfl⟩
        simp only [Bool.not_eq_true, Option.isSome_eq_false_iff, Option.isNone_eq_false_iff] at *
        simp [admitsStage, hindex, hid, hsession]

theorem insertStage_error {st : Store} {row : StageRow} {v : Violation}
    (h : st.insertStage row = .error v) : st.admitsStage row = false := by
  unfold insertStage at h
  split at h
  · next hindex => simp only [admitsStage, hindex, Bool.not_true, Bool.false_and]
  · split at h
    · next hid => simp [admitsStage, Option.isNone_eq_false_iff.mpr hid]
    · split at h
      · next hsession =>
        have hnone : st.session? row.sessionId = none := by simpa using hsession
        simp [admitsStage, hnone]
      · cases h

theorem insertExecution_ok {st st' : Store} {row : ExecutionRow}
    (h : st.insertExecution row = .ok st') :
    st.admitsExecution row = true ∧ st' = { st with executions := st.executions ++ [row] } := by
  unfold insertExecution at h
  split at h
  · cases h
  · next hindex =>
    split at h
    · cases h
    · next hid =>
      split at h
      · cases h
      · next hkeys =>
        cases h
        refine ⟨?_, rfl⟩
        have hnone : (st.execution? row.id).isNone = true := by
          simpa [Option.isNone_iff_eq_none] using hid
        simp only [Bool.or_eq_true, not_or, Bool.not_eq_true, Option.isNone_eq_false_iff] at hkeys
        obtain ⟨⟨hstage, hsession⟩, hparent⟩ := hkeys
        simp only [admitsExecution, hindex, hnone, hstage, hsession]
        cases hp : row.parentId with
        | none => rfl
        | some p =>
          have hthere : p = row.id ∨ (st.execution? p).isSome = true := by
            by_cases hown : p = row.id
            · exact .inl hown
            · exact .inr (by simpa [hp, hown] using hparent)
          simpa using hthere

theorem insertExecution_error {st : Store} {row : ExecutionRow} {v : Violation}
    (h : st.insertExecution row = .error v) : st.admitsExecution row = false := by
  rw [Bool.eq_false_iff]
  intro hadmits
  simp only [admitsExecution, Bool.and_eq_true, Bool.not_eq_true',
    Option.isNone_iff_eq_none] at hadmits
  obtain ⟨⟨⟨⟨hindex, hid⟩, hstage⟩, hsession⟩, hparent⟩ := hadmits
  have hkeys : row.parentId.any (fun p => p != row.id && (st.execution? p).isNone) = false := by
    cases hp : row.parentId with
    | none => rfl
    | some p =>
      simp only [hp, Option.all_some, Bool.or_eq_true, beq_iff_eq] at hparent
      rcases hparent with hown | hsome
      · simp [hown]
      · simp [Option.isNone_eq_false_iff.mpr hsome]
  simp [insertExecution, hindex, hid, hkeys, Option.isNone_eq_false_iff.mpr hstage,
    Option.isNone_eq_false_iff.mpr hsession] at h

/-- The next number is larger than all that were given out. -/
theorem lt_nextEventId (st : Store) : st.lastEventId < st.nextEventId := by
  have hle (rows : List EventRow) (n : Int) : n ≤ rows.foldl (fun n e => max n e.id) n := by
    induction rows generalizing n with
    | nil => exact Int.le_refl n
    | cons e rows ih =>
      have hrest := ih (max n e.id)
      rw [List.foldl_cons]
      omega
  have hevents := hle st.events st.lastEventId
  rw [nextEventId]
  omega

end Store

theorem StageRow.id_of_isAt {r : StageRow} {id : String} {status : StageStatus}
    (h : r.isAt id status = true) : r.id = id := by
  simp only [isAt, Bool.and_eq_true, beq_iff_eq] at h
  exact h.1

namespace Statement

theorem engine_insertSession (st : Store) (row : SessionRow) :
    (Store.engine (.insertSession row) st).2 =
      if (st.session? row.id).isSome then st
      else { st with sessions := st.sessions ++ [row] } := by
  simp only [Store.engine, exec, Store.insertSession]
  by_cases htaken : (st.session? row.id).isSome = true
  · rw [if_pos htaken, if_pos htaken]
    rfl
  · rw [if_neg htaken, if_neg htaken]
    rfl

theorem engine_insertStage (st : Store) (row : StageRow) :
    (Store.engine (.insertStage row) st).2 =
      if st.admitsStage row then { st with stages := st.stages ++ [row] } else st := by
  simp only [Store.engine, exec]
  cases h : st.insertStage row with
  | error v =>
    rw [Store.insertStage_error h]
    rfl
  | ok st' =>
    obtain ⟨hadmits, rfl⟩ := Store.insertStage_ok h
    rw [if_pos hadmits]
    rfl

theorem engine_insertExecution (st : Store) (row : ExecutionRow) :
    (Store.engine (.insertExecution row) st).2 =
      if st.admitsExecution row then { st with executions := st.executions ++ [row] } else st := by
  simp only [Store.engine, exec]
  cases h : st.insertExecution row with
  | error v =>
    rw [Store.insertExecution_error h]
    rfl
  | ok st' =>
    obtain ⟨hadmits, rfl⟩ := Store.insertExecution_ok h
    rw [if_pos hadmits]
    rfl

/-! ### Sessions -/

def onSession : Statement → SessionRow → SessionRow
  | .claimSession id worker now, r =>
    if r.id == id && r.isClaimable then r.claimed worker now else r
  | .touchSession id now, r => if r.id == id && r.isLive then r.touched now else r
  | .advanceSession id stageIndex stageId now, r =>
    if r.id == id && r.isInProgress then r.advanced stageIndex stageId now else r
  | .endSession id outcome now, r => if r.id == id && r.isLive then r.ended outcome now else r
  | .cancelSession id, r => if r.id == id && r.isInProgress then r.cancelling else r
  | .failOrphan id podId lastSeen now, r =>
    if r.id == id && r.isAsSeen podId lastSeen then r.abandoned now else r
  | .requeueOrphan id podId lastSeen, r =>
    if r.id == id && r.isAsSeen podId lastSeen then r.requeued else r
  | .deleteExpired cutoff now, r => if r.isExpired cutoff then r.deleted now else r
  | _, r => r

/-- What each statement makes of a session that its guard lets through. -/
inductive WritesSession (r : SessionRow) : Statement → SessionRow → Prop
  | claim (id worker : String) (now : Stamp) (hr : r.isClaimable = true) :
      WritesSession r (.claimSession id worker now) (r.claimed worker now)
  | touch (id : String) (now : Stamp) (hr : r.isLive = true) :
      WritesSession r (.touchSession id now) (r.touched now)
  | advance (id : String) (stageIndex : Int) (stageId : String) (now : Stamp)
      (hr : r.isInProgress = true) :
      WritesSession r (.advanceSession id stageIndex stageId now)
        (r.advanced stageIndex stageId now)
  | finish (id : String) (outcome : Outcome) (now : Stamp) (hr : r.isLive = true) :
      WritesSession r (.endSession id outcome now) (r.ended outcome now)
  | cancel (id : String) (hr : r.isInProgress = true) :
      WritesSession r (.cancelSession id) r.cancelling
  | abandon (id : String) (podId : Option String) (lastSeen : Option Stamp) (now : Stamp)
      (hr : r.isAsSeen podId lastSeen = true) :
      WritesSession r (.failOrphan id podId lastSeen now) (r.abandoned now)
  | requeue (id : String) (podId : Option String) (lastSeen : Option Stamp)
      (hr : r.isAsSeen podId lastSeen = true) :
      WritesSession r (.requeueOrphan id podId lastSeen) r.requeued
  | delete (cutoff now : Stamp) (hr : r.isExpired cutoff = true) :
      WritesSession r (.deleteExpired cutoff now) (r.deleted now)

def finds : Statement → SessionRow → Bool
  | .claimSession id _ _, r => r.id == id && r.isClaimable
  | .touchSession id _, r | .endSession id _ _, r => r.id == id && r.isLive
  | .advanceSession id _ _ _, r | .cancelSession id, r => r.id == id && r.isInProgress
  | .failOrphan id podId lastSeen _, r | .requeueOrphan id podId lastSeen, r =>
    r.id == id && r.isAsSeen podId lastSeen
  | .deleteExpired cutoff _, r => r.isExpired cutoff
  | _, _ => false

theorem writesSession_of_finds {s : Statement} {r : SessionRow} (h : s.finds r = true) :
    WritesSession r s (s.onSession r) := by
  have hguarded {guard : Bool} {after : SessionRow} (hguard : guard = true)
      (hafter : WritesSession r s after) : WritesSession r s (if guard then after else r) := by
    rwa [if_pos hguard]
  cases s with
  | claimSession id worker now =>
    exact hguarded h (.claim id worker now (Bool.and_eq_true_iff.mp h).2)
  | touchSession id now => exact hguarded h (.touch id now (Bool.and_eq_true_iff.mp h).2)
  | advanceSession id stageIndex stageId now =>
    exact hguarded h (.advance id stageIndex stageId now (Bool.and_eq_true_iff.mp h).2)
  | endSession id outcome now =>
    exact hguarded h (.finish id outcome now (Bool.and_eq_true_iff.mp h).2)
  | cancelSession id => exact hguarded h (.cancel id (Bool.and_eq_true_iff.mp h).2)
  | failOrphan id podId lastSeen now =>
    exact hguarded h (.abandon id podId lastSeen now (Bool.and_eq_true_iff.mp h).2)
  | requeueOrphan id podId lastSeen =>
    exact hguarded h (.requeue id podId lastSeen (Bool.and_eq_true_iff.mp h).2)
  | deleteExpired cutoff now => exact hguarded h (.delete cutoff now h)
  | _ => cases h

theorem onSession_of_not_finds {s : Statement} {r : SessionRow} (h : s.finds r = false) :
    s.onSession r = r := by
  cases s with
  | claimSession | touchSession | advanceSession | endSession | cancelSession | failOrphan
  | requeueOrphan | deleteExpired => exact if_neg (Bool.eq_false_iff.mp h)
  | _ => rfl

/-- A property of a session holds after a statement if it held before and each write keeps it. -/
theorem onSession_keeps {P : SessionRow → Prop} {s : Statement} {r : SessionRow} (hr : P r)
    (hwrites : ∀ after, WritesSession r s after → P after) : P (s.onSession r) := by
  cases hfinds : s.finds r with
  | true => exact hwrites _ (writesSession_of_finds hfinds)
  | false => rwa [onSession_of_not_finds hfinds]

theorem id_onSession (s : Statement) (r : SessionRow) : (s.onSession r).id = r.id := by
  apply onSession_keeps (P := fun after => after.id = r.id) rfl
  intro after hwrites
  cases hwrites <;> rfl

def newSessions (st : Store) : Statement → List SessionRow
  | .insertSession row => if (st.session? row.id).isSome then [] else [row]
  | _ => []

theorem engine_sessions (s : Statement) (st : Store) :
    (Store.engine s st).2.sessions = st.sessions.map s.onSession ++ s.newSessions st := by
  cases s with
  | insertSession row =>
    have hmap : st.sessions.map (onSession (.insertSession row)) = st.sessions := List.map_id _
    rw [engine_insertSession, hmap, newSessions]
    split
    · exact (List.append_nil _).symm
    · rfl
  | insertStage row =>
    have hmap : st.sessions.map (onSession (.insertStage row)) = st.sessions := List.map_id _
    rw [engine_insertStage, hmap]
    split <;> exact (List.append_nil _).symm
  | insertExecution row =>
    have hmap : st.sessions.map (onSession (.insertExecution row)) = st.sessions := List.map_id _
    rw [engine_insertExecution, hmap]
    split <;> exact (List.append_nil _).symm
  | removeExecution id =>
    have hmap : st.sessions.map (onSession (.removeExecution id)) = st.sessions := List.map_id _
    simp only [Store.engine, exec, Store.removeExecution, newSessions, hmap, List.append_nil]
    cases st.execution? id <;> rfl
  | claimSession | touchSession | advanceSession | endSession | cancelSession | failOrphan
  | requeueOrphan | deleteExpired => exact (List.append_nil _).symm
  | _ => exact ((List.append_nil _).trans (List.map_id _)).symm

/-! ### Stages -/

def onStage : Statement → StageRow → StageRow
  | .activateStage id now, r => if r.isAt id .pending then r.activated now else r
  | .finalizeStage id observed completion, r =>
    if r.isAt id observed then r.finalized completion else r
  | .reopenStage id observed status now, r =>
    if r.isAt id observed then r.reopened status now else r
  | _, r => r

inductive WritesStage (r : StageRow) : Statement → StageRow → Prop
  | activate (id : String) (now : Stamp) (hr : r.isAt id .pending = true) :
      WritesStage r (.activateStage id now) (r.activated now)
  | finalize (id : String) (observed : StageStatus) (completion : Completion)
      (hr : r.isAt id observed = true) :
      WritesStage r (.finalizeStage id observed completion) (r.finalized completion)
  | reopen (id : String) (observed status : StageStatus) (now : Stamp)
      (hr : r.isAt id observed = true) :
      WritesStage r (.reopenStage id observed status now) (r.reopened status now)

theorem onStage_keeps {P : StageRow → Prop} {s : Statement} {r : StageRow} (hr : P r)
    (hwrites : ∀ after, WritesStage r s after → P after) : P (s.onStage r) := by
  cases s with
  | activateStage id now =>
    show P (if r.isAt id .pending then r.activated now else r)
    by_cases hat : r.isAt id .pending = true
    · rw [if_pos hat]
      exact hwrites _ (.activate id now hat)
    · rwa [if_neg hat]
  | finalizeStage id observed completion =>
    show P (if r.isAt id observed then r.finalized completion else r)
    by_cases hat : r.isAt id observed = true
    · rw [if_pos hat]
      exact hwrites _ (.finalize id observed completion hat)
    · rwa [if_neg hat]
  | reopenStage id observed status now =>
    show P (if r.isAt id observed then r.reopened status now else r)
    by_cases hat : r.isAt id observed = true
    · rw [if_pos hat]
      exact hwrites _ (.reopen id observed status now hat)
    · rwa [if_neg hat]
  | _ => exact hr

theorem id_onStage (s : Statement) (r : StageRow) : (s.onStage r).id = r.id := by
  apply onStage_keeps (P := fun after => after.id = r.id) rfl
  intro after hwrites
  cases hwrites <;> rfl

theorem policy_onStage (s : Statement) (r : StageRow) : (s.onStage r).policy = r.policy := by
  apply onStage_keeps (P := fun after => after.policy = r.policy) rfl
  intro after hwrites
  cases hwrites <;> rfl

def newStages (st : Store) : Statement → List StageRow
  | .insertStage row => if st.admitsStage row then [row] else []
  | _ => []

theorem engine_stages (s : Statement) (st : Store) :
    (Store.engine s st).2.stages = st.stages.map s.onStage ++ s.newStages st := by
  cases s with
  | insertStage row =>
    have hmap : st.stages.map (onStage (.insertStage row)) = st.stages := List.map_id _
    rw [engine_insertStage, hmap, newStages]
    split
    · rfl
    · exact (List.append_nil _).symm
  | insertSession row =>
    have hmap : st.stages.map (onStage (.insertSession row)) = st.stages := List.map_id _
    rw [engine_insertSession, hmap]
    split <;> exact (List.append_nil _).symm
  | insertExecution row =>
    have hmap : st.stages.map (onStage (.insertExecution row)) = st.stages := List.map_id _
    rw [engine_insertExecution, hmap]
    split <;> exact (List.append_nil _).symm
  | removeExecution id =>
    have hmap : st.stages.map (onStage (.removeExecution id)) = st.stages := List.map_id _
    simp only [Store.engine, exec, Store.removeExecution, newStages, hmap, List.append_nil]
    cases st.execution? id <;> rfl
  | activateStage | finalizeStage | reopenStage => exact (List.append_nil _).symm
  | _ => exact ((List.append_nil _).trans (List.map_id _)).symm

/-! ### Executions -/

def onExecution : Statement → ExecutionRow → ExecutionRow
  | .moveExecution id status message now, r => if r.id == id then r.moved status message now else r
  | _, r => r

theorem id_onExecution (s : Statement) (r : ExecutionRow) : (s.onExecution r).id = r.id := by
  cases s with
  | moveExecution =>
    simp only [onExecution]
    split <;> rfl
  | _ => rfl

def spares (st : Store) : Statement → ExecutionRow → Bool
  | .removeExecution id, r =>
    (st.execution? id).isNone || !Store.isUnder st.executions id st.executions.length r
  | _, _ => true

def newExecutions (st : Store) : Statement → List ExecutionRow
  | .insertExecution row => if st.admitsExecution row then [row] else []
  | _ => []

theorem untouched_executions {s : Statement} {st : Store} (hspares : ∀ r, s.spares st r = true)
    (hon : ∀ r, s.onExecution r = r) :
    (st.executions.filter (s.spares st)).map s.onExecution = st.executions := by
  rw [List.filter_eq_self.mpr fun r _ => hspares r, funext hon]
  exact List.map_id _

theorem engine_executions (s : Statement) (st : Store) :
    (Store.engine s st).2.executions =
      (st.executions.filter (s.spares st)).map s.onExecution ++ s.newExecutions st := by
  cases s with
  | insertExecution row =>
    rw [engine_insertExecution, untouched_executions (fun _ => rfl) (fun _ => rfl), newExecutions]
    split
    · rfl
    · exact (List.append_nil _).symm
  | insertSession row =>
    rw [engine_insertSession, untouched_executions (fun _ => rfl) (fun _ => rfl)]
    split <;> exact (List.append_nil _).symm
  | insertStage row =>
    rw [engine_insertStage, untouched_executions (fun _ => rfl) (fun _ => rfl)]
    split <;> exact (List.append_nil _).symm
  | removeExecution id =>
    rw [show onExecution (.removeExecution id) = fun r => r from rfl, List.map_id']
    simp only [Store.engine, exec, Store.removeExecution, newExecutions, List.append_nil]
    cases h : st.execution? id with
    | none => exact (List.filter_eq_self.mpr fun r _ => by simp [spares, h]).symm
    | some e =>
      apply List.filter_congr
      intro r _
      simp [spares, h]
  | moveExecution id status message now =>
    have hkept : st.executions.filter (spares st (.moveExecution id status message now)) =
        st.executions := List.filter_eq_self.mpr fun _ _ => rfl
    rw [hkept]
    exact (List.append_nil _).symm
  | _ =>
    rw [untouched_executions (fun _ => rfl) (fun _ => rfl)]
    exact (List.append_nil _).symm

/-! ### Events -/

def sparesEvent : Statement → EventRow → Bool
  | .purgeEvents cutoff, r => !decide (r.createdAt < cutoff)
  | _, _ => true

def newEvents (st : Store) : Statement → List EventRow
  | .insertEvent sessionId channel payload createdAt =>
    [{ id := st.nextEventId, sessionId, channel, payload, createdAt }]
  | _ => []

theorem untouched_events {s : Statement} {st : Store} (hspares : ∀ r, s.sparesEvent r = true)
    (hnew : s.newEvents st = []) :
    st.events = st.events.filter s.sparesEvent ++ s.newEvents st := by
  rw [List.filter_eq_self.mpr fun r _ => hspares r, hnew, List.append_nil]

theorem engine_events (s : Statement) (st : Store) :
    (Store.engine s st).2.events = st.events.filter s.sparesEvent ++ s.newEvents st := by
  cases s with
  | insertEvent sessionId channel payload createdAt =>
    have hkept : st.events.filter (sparesEvent (.insertEvent sessionId channel payload createdAt)) =
        st.events := List.filter_eq_self.mpr fun _ _ => rfl
    rw [hkept]
    rfl
  | purgeEvents cutoff => exact (List.append_nil _).symm
  | insertSession row =>
    rw [engine_insertSession, ← untouched_events (fun _ => rfl) rfl]
    split <;> rfl
  | insertStage row =>
    rw [engine_insertStage, ← untouched_events (fun _ => rfl) rfl]
    split <;> rfl
  | insertExecution row =>
    rw [engine_insertExecution, ← untouched_events (fun _ => rfl) rfl]
    split <;> rfl
  | removeExecution id =>
    rw [← untouched_events (fun _ => rfl) rfl]
    simp only [Store.engine, exec, Store.removeExecution]
    split <;> rfl
  | _ => exact untouched_events (fun _ => rfl) rfl

/-- A number is given out to the event that is added, and otherwise none is. -/
theorem engine_lastEventId (s : Statement) (st : Store) :
    (s.newEvents st = [] ∧ (Store.engine s st).2.lastEventId = st.lastEventId) ∨
    ∃ row, s.newEvents st = [row] ∧ st.lastEventId < row.id ∧
      (Store.engine s st).2.lastEventId = row.id := by
  cases s with
  | insertEvent => exact .inr ⟨_, rfl, st.lt_nextEventId, rfl⟩
  | insertSession row =>
    rw [engine_insertSession]
    split <;> exact .inl ⟨rfl, rfl⟩
  | insertStage row =>
    rw [engine_insertStage]
    split <;> exact .inl ⟨rfl, rfl⟩
  | insertExecution row =>
    rw [engine_insertExecution]
    split <;> exact .inl ⟨rfl, rfl⟩
  | removeExecution id =>
    simp only [Store.engine, exec, Store.removeExecution]
    split <;> exact .inl ⟨rfl, rfl⟩
  | _ => exact .inl ⟨rfl, rfl⟩

theorem lt_id_of_mem_newEvents {s : Statement} {st : Store} {r : EventRow}
    (hr : r ∈ s.newEvents st) :
    st.lastEventId < r.id ∧ (Store.engine s st).2.lastEventId = r.id := by
  rcases s.engine_lastEventId st with ⟨hnil, _⟩ | ⟨row, hrow, hnext⟩
  · rw [hnil] at hr
    cases hr
  · rw [hrow] at hr
    rwa [List.mem_singleton.mp hr]

/-- An event was there before, or is the one that the statement inserts. -/
theorem mem_events_engine {s : Statement} {st : Store} {e : EventRow}
    (h : e ∈ (Store.engine s st).2.events) :
    e ∈ st.events ∨ ∃ sessionId channel payload,
    s = .insertEvent sessionId channel payload e.createdAt := by
  rw [engine_events] at h
  rcases List.mem_append.mp h with hold | hnew
  · exact .inl (List.mem_filter.mp hold).1
  · cases s with
    | insertEvent sessionId channel payload createdAt =>
      rw [List.mem_singleton.mp hnew]
      exact .inr ⟨sessionId, channel, payload, rfl⟩
    | _ => cases hnew

end Statement

namespace Store

variable {st : Store} {id : String}

/-- The session stays, as the statement leaves it. -/
theorem session?_engine_of_some (s : Statement) {r : SessionRow} (h : st.session? id = some r) :
    (engine s st).2.session? id = some (s.onSession r) := by
  rw [session?] at h ⊢
  rw [Statement.engine_sessions, List.find?_append, List.find?_map]
  simp only [Function.comp_def, Statement.id_onSession, h, Option.map_some, Option.some_or]

/-- The stage stays, as the statement leaves it. -/
theorem stage?_engine_of_some (s : Statement) {r : StageRow} (h : st.stage? id = some r) :
    (engine s st).2.stage? id = some (s.onStage r) := by
  rw [stage?] at h ⊢
  rw [Statement.engine_stages, List.find?_append, List.find?_map]
  simp only [Function.comp_def, Statement.id_onStage, h, Option.map_some, Option.some_or]

end Store
end AlertDesk
