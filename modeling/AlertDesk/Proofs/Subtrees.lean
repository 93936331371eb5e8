import AlertDesk.Proofs.Isolation
import AlertDesk.Proofs.RecomputeAlone
import AlertDesk.Proofs.Structure
import Mathlib.Data.List.Perm.Subperm
import Mathlib.Logic.Relation

/-!
Executions are removed with all that is below them. A removal follows parent links as often as there
are executions, and a path that visits none of them twice is not longer; so it takes just the
executions from which links lead to the removed one. No other execution is touched, none is left
without its parent, and of the rest of the store only the stage of a top-level execution is brought
in line.
-/
namespace AlertDesk

namespace Store

/-- The second execution is the parent of the first. -/
def ParentLink (rows : List ExecutionRow) (r parent : ExecutionRow) : Prop :=
  parentOf? rows r = some parent

variable {rows : List ExecutionRow} {r top parent : ExecutionRow} {path : List ExecutionRow}

theorem ParentLink.mem (h : ParentLink rows r parent) : parent ∈ rows := by
  obtain ⟨_, _, hfound⟩ := Option.bind_eq_some_iff.mp h
  exact List.mem_of_find?_eq_some hfound

inductive Path (rows : List ExecutionRow) (top : ExecutionRow) :
    ExecutionRow → List ExecutionRow → Prop
  | here : Path rows top top [top]
  | up {r parent : ExecutionRow} {path : List ExecutionRow} (hlink : ParentLink rows r parent)
      (h : Path rows top parent path) : Path rows top r (r :: path)

theorem Path.mem (h : Path rows top r path) (hr : r ∈ rows) : ∀ x ∈ path, x ∈ rows := by
  induction h with
  | here => simpa using hr
  | up hlink _ ih => exact List.forall_mem_cons.mpr ⟨hr, ih hlink.mem⟩

/-- From each execution on the way, the rest of it is a way up. -/
theorem Path.from_mem {x : ExecutionRow} (h : Path rows top r path) (hx : x ∈ path) :
    ∃ rest, Path rows top x rest ∧ rest.Sublist path := by
  induction h with
  | here =>
    rw [List.mem_singleton.mp hx]
    exact ⟨[top], .here, .refl _⟩
  | up hlink h ih =>
    rcases List.mem_cons.mp hx with rfl | hx
    · exact ⟨_, .up hlink h, .refl _⟩
    · obtain ⟨rest, hrest, hsub⟩ := ih hx
      exact ⟨rest, hrest, hsub.cons _⟩

/-- Where links lead up at all, they do so without coming to an execution twice. -/
theorem exists_path (h : Relation.ReflTransGen (ParentLink rows) r top) :
    ∃ path, Path rows top r path ∧ path.Nodup := by
  induction h using Relation.ReflTransGen.head_induction_on with
  | refl => exact ⟨[top], .here, List.nodup_singleton top⟩
  | @head r parent hlink _ ih =>
    obtain ⟨path, hpath, hnodup⟩ := ih
    by_cases hr : r ∈ path
    · obtain ⟨rest, hrest, hsub⟩ := hpath.from_mem hr
      exact ⟨rest, hrest, hnodup.sublist hsub⟩
    · exact ⟨r :: path, .up hlink hpath, List.nodup_cons.mpr ⟨hr, hnodup⟩⟩

theorem Path.isUnder (h : Path rows top r path) {steps : Nat} (hsteps : path.length ≤ steps + 1) :
    isUnder rows top.id steps r = true := by
  induction h generalizing steps with
  | here => cases steps <;> simp [Store.isUnder]
  | up hlink h ih =>
    rw [List.length_cons] at hsteps
    cases steps with
    | zero => cases h <;> simp at hsteps
    | succ steps =>
      have hunder : Store.isUnder rows top.id steps _ = true := ih (by omega)
      rw [isUnder_succ, show parentOf? rows _ = some _ from hlink, Option.any_some, hunder,
        Bool.or_true]

/-- However many links may be followed, they are parent links. -/
theorem reflTransGen_of_isUnder (hids : (rows.map (·.id)).Nodup) (htop : top ∈ rows) {steps : Nat}
    (hr : r ∈ rows) (h : isUnder rows top.id steps r = true) :
    Relation.ReflTransGen (ParentLink rows) r top := by
  have hsame {x : ExecutionRow} (hx : x ∈ rows) (hid : x.id = top.id) :
      Relation.ReflTransGen (ParentLink rows) x top := by
    rw [List.inj_on_of_nodup_map hids hx htop hid]
  induction steps generalizing r with
  | zero => exact hsame hr (beq_iff_eq.mp h)
  | succ steps ih =>
    rw [isUnder_succ, Bool.or_eq_true, beq_iff_eq, Option.any_eq_true] at h
    rcases h with hid | ⟨parent, hlink, hunder⟩
    · exact hsame hr hid
    · have hlink : ParentLink rows r parent := hlink
      exact .head hlink (ih hlink.mem hunder)

/-- Whether an execution is removed says whether parent links lead from it to the removed one. -/
theorem isUnder_iff (hids : (rows.map (·.id)).Nodup) (htop : top ∈ rows) (hr : r ∈ rows) :
    isUnder rows top.id rows.length r = true ↔
      Relation.ReflTransGen (ParentLink rows) r top := by
  refine ⟨reflTransGen_of_isUnder hids htop hr, fun h => ?_⟩
  obtain ⟨path, hpath, hnodup⟩ := exists_path h
  have hlength : path.length ≤ rows.length :=
    (List.subperm_of_subset hnodup (hpath.mem hr)).length_le
  exact hpath.isUnder (by omega)

/-! ### Parents -/

def HasParents (st : Store) : Prop :=
  ∀ r ∈ st.executions, ∀ p, r.parentId = some p → (st.execution? p).isSome = true

variable {st : Store} {s : Statement} {id : String}

/-- An execution whose sub-agent stays stays itself. -/
theorem spares_parent (hids : (st.executions.map (·.id)).Nodup) (hr : r ∈ st.executions)
    (hlink : ParentLink st.executions r parent) (hspared : s.spares st r = true) :
    s.spares st parent = true := by
  cases s with
  | removeExecution id =>
    cases hfound : st.execution? id with
    | none => simp [Statement.spares, hfound]
    | some e =>
      obtain ⟨he, rfl⟩ := execution?_some hfound
      simp only [Statement.spares, hfound, Option.isNone_some, Bool.false_or, Bool.not_eq_true',
        ← Bool.not_eq_true, isUnder_iff hids he hr, isUnder_iff hids he hlink.mem] at hspared ⊢
      exact fun hunder => hspared (.head hlink hunder)
  | _ => rfl

theorem HasParents.engine (h : st.HasParents) (hids : (st.executions.map (·.id)).Nodup)
    (s : Statement) : (Store.engine s st).2.HasParents := by
  have hthere {q : ExecutionRow} (hq : q ∈ st.executions) (hspared : s.spares st q = true) :
      ((Store.engine s st).2.execution? q.id).isSome = true := by
    rw [execution?, List.find?_isSome, Statement.engine_executions]
    refine ⟨s.onExecution q, List.mem_append_left _ (List.mem_map_of_mem ?_), ?_⟩
    · exact List.mem_filter.mpr ⟨hq, hspared⟩
    · exact beq_iff_eq.mpr (Statement.id_onExecution s q)
  intro r hr p hp
  have hrows := hr
  rw [Statement.engine_executions] at hrows
  rcases List.mem_append.mp hrows with hold | hnew
  · obtain ⟨before, hbefore, rfl⟩ := List.mem_map.mp hold
    obtain ⟨hmem, hspared⟩ := List.mem_filter.mp hbefore
    rw [(Statement.continues_onExecution s before).parentId] at hp
    obtain ⟨parent, hparent⟩ := Option.isSome_iff_exists.mp (h before hmem p hp)
    obtain ⟨hq, rfl⟩ := execution?_some hparent
    have hlink : ParentLink st.executions before parent := by
      rw [ParentLink, parentOf?, hp]
      exact hparent
    exact hthere hq (spares_parent hids hmem hlink hspared)
  · obtain ⟨rfl, hadmits⟩ := Statement.of_mem_newExecutions hnew
    simp only [admitsExecution, hp, Option.all_some, Bool.and_eq_true, Bool.or_eq_true,
      beq_iff_eq] at hadmits
    rcases hadmits.2 with rfl | hsome
    · rw [execution?, List.find?_isSome]
      exact ⟨r, hr, beq_self_eq_true r.id⟩
    · obtain ⟨parent, hparent⟩ := Option.isSome_iff_exists.mp hsome
      obtain ⟨hq, rfl⟩ := execution?_some hparent
      exact hthere hq rfl

theorem Reached.hasParents {clock : Instant → Prop} (h : st.Reached clock) : st.HasParents := by
  have hboth : st.Keyed ∧ st.HasParents :=
    h.invariant (I := fun st => st.Keyed ∧ st.HasParents)
      ⟨⟨.nil, .nil, .nil, by simp⟩, by simp [HasParents]⟩
      fun _ s _ _ hst => ⟨Statement.keyed_engine hst.1 s, hst.2.engine hst.1.executions s⟩
  exact hboth.2

end Store

theorem ExecutionRow.read_of_not_readable {r : ExecutionRow} (h : ¬ r.Readable) :
    ∃ e, e.isRetryable = true ∧ r.read = .error e := by
  rcases Stamp.read?_cases r.startedAt "started_at" with ⟨e, he, hread⟩ | hstart
  · exact ⟨e, he, by rw [ExecutionRow.read, hread]; rfl⟩
  · rcases Stamp.read?_cases r.completedAt "completed_at" with ⟨e, he, hread⟩ | hend
    · exact ⟨e, he, by rw [ExecutionRow.read, Stamp.read?_eq_ok hstart, hread]; rfl⟩
    · exact absurd ⟨hstart, hend⟩ h

namespace Store

variable {st : Store} {id : String} {e : ExecutionRow}

theorem engine_removeExecution (he : st.execution? id = some e) :
    engine (.removeExecution id) st = (.ok (1 : Nat), { st with
      executions := st.executions.filter fun r =>
        !isUnder st.executions id st.executions.length r }) := by
  simp only [engine, Statement.exec, removeExecution, he]

end Store

namespace Executions

open Service

variable {st : Store} {id : String} {e : ExecutionRow} {readings : Nat → Instant}

theorem alone_delete_of_none (hnone : st.execution? id = none) :
    (delete id).alone readings st = (some (.error (.notFound .execution id)), st) := by
  simp only [delete, Rows.execution?, Rows.readOne, bind_assoc]
  rw [alone_ask_bind]
  change (settle (.ok (st.execution? id)) >>= _).alone readings st = _
  rw [hnone]
  rfl

theorem alone_delete_of_not_readable (he : st.execution? id = some e) {f : Failure}
    (hread : e.read = .error f) : (delete id).alone readings st = (some (.error f), st) := by
  simp only [delete, Rows.execution?, Rows.readOne, bind_assoc]
  rw [alone_ask_bind]
  change (settle (.ok (st.execution? id)) >>= _).alone readings st = _
  rw [he, settle_ok, pure_bind, mapM_some_error hread]
  rfl

/-- Once the removal has been carried out, a sub-agent is done with, and a top-level execution
leaves its stage to be recomputed. -/
theorem alone_delete_of_readable (he : st.execution? id = some e) {execution : Execution}
    (hread : e.read = .ok execution) (readings : Nat → Instant) : (delete id).alone readings st =
      if e.parentId.isSome then (some (.ok ()), (Store.engine (.removeExecution id) st).2)
      else
        let (answer, after) :=
          (Stages.recompute e.stageId).alone readings (Store.engine (.removeExecution id) st).2
        (answer.map (·.map fun _ => ()), after) := by
  obtain ⟨_, hstage, hparent⟩ := ExecutionRow.read_ok hread
  simp only [delete, Rows.execution?, Rows.readOne, bind_assoc]
  rw [alone_ask_bind]
  change (settle (.ok (st.execution? id)) >>= _).alone readings st = _
  rw [he, settle_ok, pure_bind, mapM_some_ok hread, settle_ok, pure_bind]
  simp only [Rows.removeExecution]
  rw [alone_ask_bind, Store.engine_removeExecution he]
  simp only [settle_ok, pure_bind, hstage, ExecutionOf.isSubAgent, hparent]
  cases e.parentId with
  | some p => rfl
  | none => exact alone_bind_pure _ (fun _ => ()) readings _

end Executions

open Executions Store

section
variable {clock : Instant → Prop} {st : Store} {e : ExecutionRow}

/-- What is left of the executions, and that each of them still has its parent. -/
theorem Store.Reached.removed (hst : st.Reached clock) (he : st.execution? e.id = some e) :
    let left := (Store.engine (.removeExecution e.id) st).2
    left = { st with executions := left.executions } ∧ left.Keyed ∧ left.HasParents ∧
      ∃ keeps : ExecutionRow → Bool, left.executions = st.executions.filter keeps ∧
        ∀ r ∈ st.executions, keeps r = false ↔
          r = e ∨ Relation.TransGen (ParentLink st.executions) r e := by
  intro left
  have hkeyed := hst.keyed
  have hmem := (execution?_some he).1
  have hleft : left = { st with
      executions := st.executions.filter fun r =>
        !isUnder st.executions e.id st.executions.length r } := by
    simp only [left, engine_removeExecution he]
  refine ⟨by rw [hleft], Statement.keyed_engine hkeyed _,
    hst.hasParents.engine hkeyed.executions _,
    fun r => !isUnder st.executions e.id st.executions.length r, by rw [hleft], fun r hr => ?_⟩
  rw [Bool.not_eq_false', isUnder_iff hkeyed.executions hmem hr,
    Relation.reflTransGen_iff_eq_or_transGen, eq_comm]

/-- The stage of a top-level execution that was removed is recomputed. -/
theorem Store.Reached.recompute_removed (hst : st.Reached clock) (he : st.execution? e.id = some e)
    (readings : Nat → Instant) :
    let left := (Store.engine (.removeExecution e.id) st).2
    ∃ stage, stage.id = e.stageId ∧
      (Stages.recompute e.stageId).alone readings left = (some stage.read, left.withStage stage) ∧
      ((∀ t, clock t → t.Storable) → (readings 0).Storable → stage.Readable) := by
  intro left
  obtain ⟨_, hkeyed, _⟩ := hst.removed he
  obtain ⟨row, hrow⟩ := Option.isSome_iff_exists.mp (hst.housed e (execution?_some he).1)
  have hrow' : left.stage? e.stageId = some row := by
    simp only [left, engine_removeExecution he]
    exact hrow
  refine ⟨_, StageRow.id_recomputed.trans (stage?_some hrow).2,
    Stages.alone_recompute_eq hkeyed hrow' readings, fun hclock hnow => ?_⟩
  exact ((hst.legible hclock).stages row (stage?_some hrow).1).recomputed hnow

/-- The execution is gone with just those from which one or more parent links lead to it, whatever
their depth, and no parent is missing. The other rows are as they were, but for the stage of a
top-level execution, of which a recompute makes what it does with the executions that are left. -/
structure Store.TakenWithSubtree (st : Store) (e : ExecutionRow) (readings : Nat → Instant)
    (answer : Except Failure Unit) (after : Store) : Prop where
  subtree : ∃ keeps : ExecutionRow → Bool, after.executions = st.executions.filter keeps ∧
    ∀ r ∈ st.executions, keeps r = false ↔
      r = e ∨ Relation.TransGen (ParentLink st.executions) r e
  parents : ∀ r ∈ after.executions, ∀ p, r.parentId = some p → (after.execution? p).isSome = true
  subAgent : e.parentId.isSome = true →
    answer = .ok () ∧ after = { st with executions := after.executions }
  topLevel : e.parentId = none →
    let left : Store := { st with executions := after.executions }
    ∃ stage, stage.id = e.stageId ∧
      (Stages.recompute e.stageId).alone readings left = (some stage.read, after) ∧
      answer = stage.read.map (fun _ => ()) ∧ after = left.withStage stage

theorem Store.Reached.takes_subtree (hst : st.Reached clock) (he : st.execution? e.id = some e)
    (hreadable : e.Readable) (readings : Nat → Instant) :
    ∃ answer after, (delete e.id).alone readings st = (some answer, after) ∧
      st.TakenWithSubtree e readings answer after ∧
      ((∀ t, clock t → t.Storable) → (readings 0).Storable → answer = .ok ()) := by
  obtain ⟨hleft, _, hparents, hkeeps⟩ := hst.removed he
  have hdelete := alone_delete_of_readable he (ExecutionRow.read_eq_ok hreadable) readings
  cases hparent : e.parentId with
  | some p =>
    rw [hparent] at hdelete
    refine ⟨_, _, hdelete, ⟨hkeeps, hparents, fun _ => ⟨rfl, hleft⟩, by simp [hparent]⟩, ?_⟩
    exact fun _ _ => rfl
  | none =>
    obtain ⟨stage, hid, hrecompute, hlegible⟩ := hst.recompute_removed he readings
    simp only [hparent, Option.isSome_none, Bool.false_eq_true, if_false, hrecompute] at hdelete
    have hsame : (Store.engine (.removeExecution e.id) st).2 =
        { st with executions :=
          ((Store.engine (.removeExecution e.id) st).2.withStage stage).executions } := hleft
    refine ⟨_, _, hdelete, ⟨hkeeps, hparents, by simp [hparent], fun _ => ?_⟩,
      fun hclock hnow => ?_⟩
    · dsimp only
      rw [← hsame]
      exact ⟨stage, hid, hrecompute, rfl, rfl⟩
    · rw [StageRow.read_eq_ok (hlegible hclock hnow)]
      rfl

end

/-- Made alone on a store that requests have left behind, a deletion takes the execution with its
subtree and leaves the rest. An id that nothing has is not found. Where the clock stays within the
years that have four digits, every execution can be read and the deletion succeeds; one that cannot
be read stays, with the whole store. -/
theorem Store.Reached.delete_takes_subtree {clock : Instant → Prop} {st : Store}
    (hst : st.Reached clock) (id : String) (readings : Nat → Instant) :
    ∃ answer after, (delete id).alone readings st = (some answer, after) ∧
      (st.execution? id = none → answer = .error (.notFound .execution id) ∧ after = st) ∧
      ∀ e, st.execution? id = some e →
        (e.Readable → st.TakenWithSubtree e readings answer after) ∧
        (¬ e.Readable → (∃ f, answer = .error f ∧ f.isRetryable = true) ∧ after = st) ∧
        ((∀ t, clock t → t.Storable) →
          e.Readable ∧ ((readings 0).Storable → answer = .ok ())) := by
  cases he : st.execution? id with
  | none => exact ⟨_, _, alone_delete_of_none he, fun _ => ⟨rfl, rfl⟩, by simp⟩
  | some e =>
    obtain ⟨hmem, rfl⟩ := execution?_some he
    by_cases hreadable : e.Readable
    · obtain ⟨answer, after, halone, htaken, hok⟩ := hst.takes_subtree he hreadable readings
      refine ⟨answer, after, halone, by simp, ?_⟩
      rintro _ ⟨⟩
      exact ⟨fun _ => htaken, fun h => absurd hreadable h, fun hclock => ⟨hreadable, hok hclock⟩⟩
    · obtain ⟨f, hf, hread⟩ := ExecutionRow.read_of_not_readable hreadable
      refine ⟨_, _, alone_delete_of_not_readable he hread, by simp, ?_⟩
      rintro _ ⟨⟩
      refine ⟨fun h => absurd h hreadable, fun _ => ⟨⟨f, rfl, hf⟩, rfl⟩, fun hclock => ?_⟩
      exact absurd ((hst.legible hclock).executions e hmem) hreadable

/-! The agent asks two others for help, and the first of them asks two more. -/

namespace Forked

open OneExecution (turns)

def requests : List Request := Request.nestedRequests ++ [
  .createExecution { Request.helper with parentId := some "sub" } "deep",
  .createExecution { Request.helper with parentId := some "sub", agentIndex := 2 } "late",
  .createExecution { Request.helper with agentIndex := 2 } "other"]

def schedule : List (Nat × Instant) :=
  Request.nestedTurns ++ turns 5 8 ++ turns 6 8 ++ turns 7 8

def store : Store := (Pool.run Store.orderedEngine schedule (Request.pool requests) {}).2

theorem reached_store : store.Reached Instant.Storable := by
  refine ⟨requests, schedule, by decide, ?_⟩
  rw [Store.engine_eq_ordered]
  rfl

end Forked

open Forked in
/-- The first helper takes its own along, and both go with the agent. -/
theorem Store.Reached.delete_takes_forked :
    (∃ after, (delete "sub").alone (fun _ => ⟨0⟩) store = (some (.ok ()), after) ∧
      after = { store with executions := after.executions } ∧
      store.executions.map (·.id) = ["e", "sub", "deep", "late", "other"] ∧
      after.executions.map (·.id) = ["e", "other"]) ∧
    ∃ after, (delete "e").alone (fun _ => ⟨0⟩) store = (some (.ok ()), after) ∧
      after.executions = [] ∧ after.sessions = store.sessions := by
  have hclock : ∀ t : Instant, t.Storable → t.Storable := fun _ ht => ht
  have hsub : (store.execution? "sub").map (·.parentId) = some (some "e") := by decide +kernel
  have htop : (store.execution? "e").map (·.parentId) = some none := by decide +kernel
  constructor
  · obtain ⟨e, he, hparent⟩ := Option.map_eq_some_iff.mp hsub
    obtain ⟨answer, after, halone, _, hfound⟩ :=
      reached_store.delete_takes_subtree "sub" fun _ => ⟨0⟩
    obtain ⟨hremoved, _, hlegible⟩ := hfound e he
    obtain ⟨hok, hrest⟩ := (hremoved (hlegible hclock).1).subAgent (by rw [hparent]; rfl)
    have hids : ((delete "sub").alone (fun _ => ⟨0⟩) store).2.executions.map (·.id) =
        ["e", "other"] := by
      rw [Service.alone, Store.engine_eq_ordered]
      decide +kernel
    rw [halone] at hids
    exact ⟨after, hok ▸ halone, hrest, by decide +kernel, hids⟩
  · obtain ⟨e, he, hparent⟩ := Option.map_eq_some_iff.mp htop
    obtain ⟨answer, after, halone, _, hfound⟩ :=
      reached_store.delete_takes_subtree "e" fun _ => ⟨0⟩
    obtain ⟨hremoved, _, hlegible⟩ := hfound e he
    obtain ⟨hreadable, hok⟩ := hlegible hclock
    obtain ⟨stage, _, _, _, hafter⟩ := (hremoved hreadable).topLevel hparent
    have hids : ((delete "e").alone (fun _ => ⟨0⟩) store).2.executions = [] := by
      rw [Service.alone, Store.engine_eq_ordered]
      decide +kernel
    rw [halone] at hids
    exact ⟨after, hok (by decide) ▸ halone, hids, by rw [hafter]; rfl⟩

end AlertDesk
