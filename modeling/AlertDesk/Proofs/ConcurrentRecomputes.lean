import AlertDesk.Proofs.Turns
import AlertDesk.Proofs.RecomputeAlone
import AlertDesk.Proofs.Repairs

/-!
Recomputes of one stage at once. While the executions stay as they are, the first write that finds
the stage leaves it as they want it; what the other calls have planned for the stage before finds it
no more, and what they read after it leaves nothing to be done. So all of them answer the same, as
one call would that was made alone.
-/
namespace AlertDesk

/-! ### A recompute comes to an end -/

open Service

namespace Stages

theorem endsWithin_get (id : String) : (get id).EndsWithin 1 := by
  have hfound : (Rows.stage? id).EndsWithin (1 + 0) :=
    (endsWithin_ask (.findStage id)).bind fun _ => endsWithin_settle _
  refine hfound.bind (m := 0) fun stage => ?_
  cases stage <;> trivial

theorem endsWithin_write (stage : Stage) (change : StageChange) :
    (write stage change).EndsWithin 2 := by
  intro now
  cases change with
  | activate | reopen | finalize => exact endsWithin_ask _

theorem endsWithin_recomputeWithin (id : String) (attempts : Nat) :
    (recomputeWithin id attempts).EndsWithin (4 * attempts + 1) := by
  induction attempts with
  | zero => exact endsWithin_get id
  | succ attempts ih =>
    have hsteps : 4 * (attempts + 1) + 1 = 1 + (1 + (2 + (4 * attempts + 1))) := by omega
    rw [hsteps]
    refine (endsWithin_get id).bind fun stage => ?_
    refine (endsWithin_ask (.topLevelStatuses id)).bind fun statuses => ?_
    cases StageChange.plan? stage (.of stage.policy statuses) with
    | none => exact endsWithin_settle (.ok stage)
    | some change =>
      refine (endsWithin_write stage change).bind fun rows => ?_
      split
      · exact (endsWithin_get id).mono (by omega)
      · exact ih

end Stages

/-! ### What a write makes of the others -/

namespace StageChange

variable {row : StageRow} {stage : Stage} {statuses : List StageStatus} {verdict : Verdict}
  {change : StageChange}

/-- A write for a stage of another status finds nothing. -/
theorem onStage_stale (hplan : plan? stage verdict = some change) (hne : row.status ≠ stage.status)
    (now : Instant) : (change.statement stage now).onStage row = row := by
  have hat (id : String) : row.isAt id stage.status = false := by simp [StageRow.isAt, hne]
  cases change with
  | activate =>
    rw [of_activate hplan] at hat
    simp [statement, Statement.onStage, hat]
  | reopen status => simp [statement, Statement.onStage, hat]
  | finalize status message => simp [statement, Statement.onStage, hat]

/-- What is planned for a stage with the message of its status gives it another status. -/
theorem status_onStage_ne (hmessage : row.errorMessage = row.status.message? row.policy)
    (hread : row.read = .ok stage) (hplan : plan? stage (.of stage.policy statuses) = some change)
    (now : Instant) : ((change.statement stage now).onStage row).status ≠ row.status := by
  obtain ⟨_, hstatus, hmessage', hpolicy, _⟩ := StageRow.read_ok hread
  obtain ⟨houtcome, _⟩ := onStage_statement hread hplan now
  rw [(Prod.mk.inj houtcome).1, ← hstatus]
  cases change with
  | activate =>
    rw [of_activate hplan]
    exact (nomatch ·)
  | reopen status =>
    obtain ⟨hbefore, hafter⟩ := of_reopen hplan
    intro hsame
    rw [show status = stage.status from hsame, hbefore] at hafter
    cases hafter
  | finalize status message =>
    intro hsame
    obtain rfl : status = stage.status := hsame
    have hadmits := admits_outcome hplan
    rw [outcome, message_of_finalize hplan, hpolicy, hstatus, ← hmessage, ← hmessage', ← hstatus,
      ← hpolicy, ← plan?_eq_none_iff] at hadmits
    rw [hadmits] at hplan
    cases hplan

/-- After the one write, whatever was planned for the stage as it was finds it no more, and nothing
is planned for it as it is. -/
theorem onStage_again (hmessage : row.errorMessage = row.status.message? row.policy)
    (hread : row.read = .ok stage) (hplan : plan? stage (.of stage.policy statuses) = some change)
    {now : Instant} {seen : StageRow} {stage' : Stage} {change' : StageChange}
    (hseen : seen = row ∨ seen = (change.statement stage now).onStage row)
    (hread' : seen.read = .ok stage')
    (hplan' : plan? stage' (.of stage'.policy statuses) = some change') (now' : Instant) :
    (change'.statement stage' now').onStage ((change.statement stage now).onStage row) =
      (change.statement stage now).onStage row := by
  rcases hseen with rfl | rfl
  · rw [hread] at hread'
    cases hread'
    rw [hplan] at hplan'
    cases hplan'
    have hne := status_onStage_ne hmessage hread hplan now
    rw [← (StageRow.read_ok hread).2.1] at hne
    exact onStage_stale hplan hne now'
  · rw [StageRow.plan?_onStage hread hplan hread'] at hplan'
    cases hplan'

end StageChange

/-! ### The course of a recompute -/

namespace Service

variable {α β : Type} {clock : Instant → Prop} {es : List (Pool.Entry Store)}

def Runs (clock : Instant → Prop) (whole : Call (Except Failure α)) (x : Service α)
    (es : List (Pool.Entry Store)) (rest : Call (Except Failure α)) : Prop :=
  Call.Course Store.engine clock whole x.run es rest

variable {whole rest : Call (Except Failure β)}

theorem runs_settle {r : Except Failure β} (h : (settle r).Runs clock whole es rest) :
    es = [] ∧ rest = .done r := by
  cases h
  exact ⟨rfl, rfl⟩

theorem runs_ask_bind {s : Statement} {f : s.Answer → Service β}
    (h : Runs clock whole (bind (α := no_index s.Answer) (ask s) f) es rest) :
    (es = [] ∧ ∀ r, rest ≠ .done r) ∨ ∃ i st later, es = ⟨i, s, st⟩ :: later ∧
      (settle (Store.engine s st).1 >>= f).Runs clock whole later rest := by
  cases h with
  | stop => exact .inl ⟨rfl, fun _ => nofun⟩
  | ask h => exact .inr ⟨_, _, _, rfl, h⟩

theorem runs_clock_bind {f : Instant → Service β}
    (h : (Service.clock >>= f).Runs clock whole es rest) :
    (es = [] ∧ ∀ r, rest ≠ .done r) ∨ ∃ now, (f now).Runs clock whole es rest := by
  cases h with
  | stop => exact .inl ⟨rfl, fun _ => nofun⟩
  | clock _ h => exact .inr ⟨_, h⟩

end Service

namespace Stages

variable {β : Type} {clock : Instant → Prop} {es : List (Pool.Entry Store)} {id : String}
  {whole rest : Call (Except Failure β)}

theorem runs_get_bind {f : Stage → Service β} (h : (get id >>= f).Runs clock whole es rest) :
    (es = [] ∧ ∀ r, rest ≠ .done r) ∨ ∃ look later, es = look :: later ∧
      look.statement = .findStage id ∧ ∀ row, look.before.stage? id = some row →
        (settle row.read >>= f).Runs clock whole later rest := by
  simp only [get, Rows.stage?, Rows.readOne, bind_assoc] at h
  rcases runs_ask_bind h with hopen | ⟨i, st, later, rfl, hlater⟩
  · exact .inl hopen
  · refine .inr ⟨_, _, rfl, rfl, fun row hrow => ?_⟩
    change Runs clock whole (settle (.ok (st.stage? id)) >>= _) later rest at hlater
    rw [show st.stage? id = some row from hrow, settle_ok, pure_bind] at hlater
    cases hread : row.read with
    | error e => rwa [mapM_some_error hread] at hlater
    | ok stage => rwa [mapM_some_ok hread, settle_ok, pure_bind, pure_bind] at hlater

theorem runs_statuses_bind {f : List StageStatus → Service β}
    (h : (Rows.topLevelStatuses id >>= f).Runs clock whole es rest) :
    (es = [] ∧ ∀ r, rest ≠ .done r) ∨ ∃ read later, es = read :: later ∧
      read.statement = .topLevelStatuses id ∧
        (f (read.before.view id).answer).Runs clock whole later rest := by
  rcases runs_ask_bind h with hopen | ⟨i, st, later, rfl, hlater⟩
  · exact .inl hopen
  · exact .inr ⟨_, _, rfl, rfl, hlater⟩

theorem runs_write_bind {f : Nat → Service β} {stage : Stage} {change : StageChange}
    {verdict : Verdict} (hplan : StageChange.plan? stage verdict = some change)
    (h : (write stage change >>= f).Runs clock whole es rest) :
    (es = [] ∧ ∀ r, rest ≠ .done r) ∨ ∃ e later now, es = e :: later ∧
      e.statement = change.statement stage now ∧
        (f (e.before.stages.countP
          (·.isAt stage.id stage.status))).Runs clock whole later rest := by
  simp only [write, bind_assoc] at h
  rcases runs_clock_bind h with hopen | ⟨now, h⟩
  · exact .inl hopen
  · cases change with
    | activate =>
      rw [StageChange.of_activate hplan]
      rcases runs_ask_bind h with hopen | ⟨i, st, later, rfl, hlater⟩
      · exact .inl hopen
      · exact .inr ⟨_, _, now, rfl, rfl, hlater⟩
    | reopen status =>
      rcases runs_ask_bind h with hopen | ⟨i, st, later, rfl, hlater⟩
      · exact .inl hopen
      · exact .inr ⟨_, _, now, rfl, rfl, hlater⟩
    | finalize status message =>
      rcases runs_ask_bind h with hopen | ⟨i, st, later, rfl, hlater⟩
      · exact .inl hopen
      · exact .inr ⟨_, _, now, rfl, rfl, hlater⟩

end Stages

namespace StageRow

/-- The order in which the statuses are read does not matter. -/
theorem recomputed_answer (v : StageView) (now : Instant) (row : StageRow) :
    row.recomputed v.answer now = row.recomputed v.statuses now := by
  simp only [recomputed, StageView.of_answer]

/-- The row is as it was, or as the one write leaves it that was planned for it. -/
inductive Turn (statuses : List StageStatus) (row : StageRow) : StageRow → Prop
  | same : Turn statuses row row
  | written {stage : Stage} {change : StageChange} (hread : row.read = .ok stage)
      (hplan : StageChange.plan? stage (.of stage.policy statuses) = some change) (now : Instant) :
      Turn statuses row ((change.statement stage now).onStage row)

end StageRow

namespace Pool

variable {id : String} {statuses : List StageStatus} {row row' : StageRow} {e : Entry Store}
  {es : List (Entry Store)}

def Entry.MeetsStage (id : String) (row : StageRow) (e : Entry Store) : Prop :=
  e.before.stage? id = some row

def Entry.LeavesStage (id : String) (row : StageRow) (e : Entry Store) : Prop :=
  (Store.engine e.statement e.before).2.stage? id = some row

theorem Entry.MeetsStage.leaves (h : e.MeetsStage id row) :
    e.LeavesStage id (e.statement.onStage row) :=
  Store.stage?_engine_of_some e.statement h

/-- What was planned for a stage with the message of its status does not leave the stage as it
was. -/
theorem Entry.MeetsStage.not_leaves {stage : Stage} {change : StageChange} {now : Instant}
    (h : e.MeetsStage id row) (hmessage : row.errorMessage = row.status.message? row.policy)
    (hread : row.read = .ok stage)
    (hplan : StageChange.plan? stage (.of stage.policy statuses) = some change)
    (hwrite : e.statement = change.statement stage now) : ¬ e.LeavesStage id row := by
  intro hstays
  have hsame : e.statement.onStage row = row := Option.some.inj (h.leaves.symm.trans hstays)
  rw [hwrite] at hsame
  exact StageChange.status_onStage_ne hmessage hread hplan now (congrArg (·.status) hsame)

/-- The statements meet the stage as one row until one of them leaves it as the other, and then as
the other; the statuses of its executions are the same all the time. -/
structure TurnsOnce (id : String) (statuses : List StageStatus) (row row' : StageRow)
    (es : List (Entry Store)) : Prop where
  keyed : ∀ e ∈ es, e.before.Keyed
  answer : ∀ e ∈ es, (e.before.view id).answer = statuses
  meets : ∀ e ∈ es, e.MeetsStage id row ∧ (e.LeavesStage id row ∨ e.LeavesStage id row') ∨
    e.MeetsStage id row' ∧ e.LeavesStage id row'
  lasts : es.Pairwise fun e e' => e.LeavesStage id row' → e'.MeetsStage id row'

theorem TurnsOnce.sublist {es' : List (Entry Store)} (h : TurnsOnce id statuses row row' es)
    (hsub : es'.Sublist es) : TurnsOnce id statuses row row' es' where
  keyed e he := h.keyed e (hsub.subset he)
  answer e he := h.answer e (hsub.subset he)
  meets e he := h.meets e (hsub.subset he)
  lasts := h.lasts.sublist hsub

theorem TurnsOnce.tail (h : TurnsOnce id statuses row row' (e :: es)) :
    TurnsOnce id statuses row row' es := h.sublist (List.sublist_cons_self e es)

theorem TurnsOnce.meets_after (h : TurnsOnce id statuses row row' (e :: es))
    (he : e.LeavesStage id row') : ∀ e' ∈ es, e'.MeetsStage id row' :=
  fun e' he' => (List.pairwise_cons.mp h.lasts).1 e' he' he

/-- How often these statements look for the statuses of the stage: once for each attempt. -/
def attempts (id : String) (es : List (Entry Store)) : Nat :=
  es.countP (·.statement == .topLevelStatuses id)

end Pool

namespace Stages

open Pool (Entry TurnsOnce)

variable {clock : Instant → Prop} {es : List (Entry Store)} {id : String}
  {whole rest : Call (Except Failure Stage)} {statuses : List StageStatus} {row row' : StageRow}

theorem runs_get (h : (get id).Runs clock whole es rest) (hmeets : ∀ e ∈ es, e.MeetsStage id row) :
    Pool.attempts id es = 0 ∧ ∀ r, rest = .done r → r = row.read := by
  rw [← bind_pure (get id)] at h
  rcases runs_get_bind h with ⟨rfl, hopen⟩ | ⟨look, later, rfl, hlook, hlater⟩
  · exact ⟨rfl, fun r hr => absurd hr (hopen r)⟩
  · have hlater := hlater row (hmeets look List.mem_cons_self)
    rw [bind_pure] at hlater
    obtain ⟨rfl, rfl⟩ := runs_settle hlater
    refine ⟨by simp [Pool.attempts, hlook], fun r hr => ?_⟩
    cases hr
    rfl

/-- A recompute of a stage that is settled looks at it and answers what it has seen. -/
theorem runs_settled {attempts : Nat} (h : (recomputeWithin id attempts).Runs clock whole es rest)
    (hmeets : ∀ e ∈ es, e.MeetsStage id row)
    (hanswer : ∀ e ∈ es, (e.before.view id).answer = statuses) (hsettled : row.Settled statuses) :
    Pool.attempts id es ≤ 1 ∧ ∀ r, rest = .done r → r = row.read := by
  cases attempts with
  | zero =>
    obtain ⟨hcount, hdone⟩ := runs_get h hmeets
    exact ⟨by omega, hdone⟩
  | succ attempts =>
    rcases runs_get_bind h with ⟨rfl, hopen⟩ | ⟨look, later, rfl, hlook, hlater⟩
    · exact ⟨by simp [Pool.attempts], fun r hr => absurd hr (hopen r)⟩
    have hlater := hlater row (hmeets look List.mem_cons_self)
    cases hread : row.read with
    | error e =>
      rw [hread] at hlater
      obtain ⟨rfl, rfl⟩ := runs_settle (r := .error e) hlater
      refine ⟨by simp [Pool.attempts, hlook], fun r hr => ?_⟩
      cases hr
      rfl
    | ok stage =>
      rw [hread, settle_ok, pure_bind] at hlater
      rcases runs_statuses_bind hlater with ⟨rfl, hopen⟩ | ⟨read, last, rfl, hstatuses, hlast⟩
      · exact ⟨by simp [Pool.attempts, hlook], fun r hr => absurd hr (hopen r)⟩
      rw [hanswer read (by simp), hsettled stage hread] at hlast
      obtain ⟨rfl, rfl⟩ := runs_settle (r := .ok stage) hlast
      refine ⟨by simp [Pool.attempts, hlook, hstatuses], fun r hr => ?_⟩
      cases hr
      rfl

/-- A recompute that finds something to be done writes it, or is still on its way to the write. -/
theorem runs_planned {attempts : Nat} {stage : Stage} {change : StageChange}
    (h : (recomputeWithin id (attempts + 1)).Runs clock whole es rest)
    (hmeets : ∀ e ∈ es.head?, e.MeetsStage id row)
    (hanswer : ∀ e ∈ es, (e.before.view id).answer = statuses) (hread : row.read = .ok stage)
    (hplan : StageChange.plan? stage (.of stage.policy statuses) = some change) :
    (Pool.attempts id es ≤ 1 ∧ ∀ r, rest ≠ .done r) ∨
    ∃ look read write later now, es = look :: read :: write :: later ∧
      Pool.attempts id es = 1 + Pool.attempts id later ∧
      write.statement = change.statement stage now ∧
      (if write.before.stages.countP (·.isAt stage.id stage.status) == 1 then get id
        else recomputeWithin id attempts).Runs clock whole later rest := by
  rcases runs_get_bind h with ⟨rfl, hopen⟩ | ⟨look, later, rfl, hlook, hlater⟩
  · exact .inl ⟨by simp [Pool.attempts], hopen⟩
  have hlater := hlater row (hmeets look rfl)
  rw [hread, settle_ok, pure_bind] at hlater
  rcases runs_statuses_bind hlater with ⟨rfl, hopen⟩ | ⟨read, last, rfl, hstatuses, hlast⟩
  · exact .inl ⟨by simp [Pool.attempts, hlook], hopen⟩
  rw [hanswer read (by simp), hplan] at hlast
  rcases runs_write_bind hplan hlast with ⟨rfl, hopen⟩ | ⟨write, last, now, rfl, hwrite, hlast⟩
  · exact .inl ⟨by simp [Pool.attempts, hlook, hstatuses], hopen⟩
  · refine .inr ⟨look, read, write, last, now, rfl, ?_, hwrite, hlast⟩
    have hother : (change.statement stage now == .topLevelStatuses id) = false := by
      cases change <;> rfl
    simp [Pool.attempts, hlook, hstatuses, hwrite, hother, Nat.add_comm]

end Stages

/-- The guard of a write does not find a stage that has another status. -/
theorem Store.Keyed.countP_isAt_of_ne {st : Store} (h : st.Keyed) {id : String} {row : StageRow}
    {status : StageStatus} (hrow : st.stage? id = some row) (hne : row.status ≠ status) :
    st.stages.countP (·.isAt id status) = 0 := by
  rw [List.countP_eq_zero]
  intro r hr hat
  have hid := StageRow.id_of_isAt hat
  have hfound := h.stage?_of_mem hr
  rw [hid, hrow] at hfound
  cases hfound
  simp only [StageRow.isAt, Bool.and_eq_true, beq_iff_eq] at hat
  exact hne hat.2

namespace Stages

open Pool (Entry TurnsOnce)

variable {clock : Instant → Prop} {es : List (Entry Store)} {id : String}
  {whole rest : Call (Except Failure Stage)} {statuses : List StageStatus} {row row' : StageRow}

/-- While the stage keeps its row, every write that a recompute plans would leave another one. -/
theorem runs_same {attempts : Nat}
    (h : (recomputeWithin id (attempts + 1)).Runs clock whole es rest)
    (hes : TurnsOnce id statuses row row es)
    (hmessage : row.errorMessage = row.status.message? row.policy) :
    Pool.attempts id es ≤ 1 ∧ ∀ r, rest = .done r → r = row.read ∧ row.Settled statuses := by
  have hmeets : ∀ e ∈ es, e.MeetsStage id row := by
    intro e he
    rcases hes.meets e he with ⟨hmet, _⟩ | ⟨hmet, _⟩ <;> exact hmet
  by_cases hsettled : row.Settled statuses
  · obtain ⟨hcount, hr⟩ := runs_settled h hmeets hes.answer hsettled
    exact ⟨hcount, fun r hrest => ⟨hr r hrest, hsettled⟩⟩
  unfold StageRow.Settled at hsettled
  push Not at hsettled
  obtain ⟨stage, hread, hplan⟩ := hsettled
  obtain ⟨change, hplan⟩ := Option.ne_none_iff_exists'.mp hplan
  rcases runs_planned h (fun e he => hmeets e (List.mem_of_mem_head? he)) hes.answer hread hplan
    with ⟨hcount, hopen⟩ | ⟨look, read, write, later, now, rfl, _, hwrite, _⟩
  · exact ⟨hcount, fun r hr => absurd hr (hopen r)⟩
  have hchanges := (hmeets write (by simp)).not_leaves hmessage hread hplan hwrite
  rcases hes.meets write (by simp) with ⟨_, hstays | hstays⟩ | ⟨_, hstays⟩ <;>
    exact absurd hstays hchanges

/-- A recompute that has found the stage before it turns writes it, or finds it turned by another
call and begins again. -/
theorem runs_written {attempts : Nat} {stage : Stage} {change : StageChange}
    (h : (recomputeWithin id (attempts + 1)).Runs clock whole es rest)
    (hes : TurnsOnce id statuses row row' es) (hid : row.id = id)
    (hmessage : row.errorMessage = row.status.message? row.policy) (hread : row.read = .ok stage)
    (hplan : StageChange.plan? stage (.of stage.policy statuses) = some change)
    (hne : row'.status ≠ row.status) (hsettled : row'.Settled statuses)
    (hfirst : ∀ e ∈ es.head?, e.MeetsStage id row) :
    Pool.attempts id es ≤ 2 ∧ ∀ r, rest = .done r → r = row'.read := by
  obtain ⟨hstageId, hstageStatus, _⟩ := StageRow.read_ok hread
  rcases runs_planned h hfirst hes.answer hread hplan with
    ⟨hcount, hopen⟩ | ⟨look, read, write, later, now, rfl, hcount, hwrite, hlater⟩
  · exact ⟨by omega, fun r hr => absurd hr (hopen r)⟩
  have hlast : TurnsOnce id statuses row row' (write :: later) := hes.tail.tail
  rcases hlast.meets write (by simp) with ⟨hmet, hleaves⟩ | ⟨hmet, hleaves⟩
  -- The write finds the stage and turns it.
  · have hturns : write.LeavesStage id row' :=
      hleaves.resolve_left (hmet.not_leaves hmessage hread hplan hwrite)
    have hfound := (hlast.keyed write (by simp)).countP_isAt hmet
    rw [← hstageId, ← hstageStatus] at hfound
    rw [hfound] at hlater
    obtain ⟨hnone, hr⟩ := runs_get hlater (hlast.meets_after hturns)
    exact ⟨by omega, hr⟩
  -- The stage has been turned by another call since it was read.
  · have hmissed := (hlast.keyed write (by simp)).countP_isAt_of_ne hmet hne
    rw [← hid, ← hstageId, ← hstageStatus] at hmissed
    rw [hmissed] at hlater
    obtain ⟨hagain, hr⟩ := runs_settled hlater (hlast.meets_after hleaves) hlast.tail.answer
      hsettled
    exact ⟨by omega, hr⟩

/-- While the stage turns at most once, a recompute needs two attempts at most, and answers the row
that the stage has turned to. -/
theorem runs_turning {attempts : Nat}
    (h : (recomputeWithin id (attempts + 1)).Runs clock whole es rest)
    (hes : TurnsOnce id statuses row row' es) (hturn : row.Turn statuses row') (hid : row.id = id)
    (hmessage : row.errorMessage = row.status.message? row.policy) :
    Pool.attempts id es ≤ 2 ∧ ∀ r, rest = .done r → r = row'.read ∧ row'.Settled statuses := by
  cases hturn with
  | same =>
    obtain ⟨hcount, hr⟩ := runs_same h hes hmessage
    exact ⟨by omega, hr⟩
  | @written stage change hread hplan now =>
    have hne := StageChange.status_onStage_ne hmessage hread hplan now
    have hsettled : StageRow.Settled statuses ((change.statement stage now).onStage row) :=
      fun after hafter => StageRow.plan?_onStage hread hplan hafter
    by_cases hfirst : ∀ e ∈ es.head?, e.MeetsStage id row
    · obtain ⟨hcount, hr⟩ := runs_written h hes hid hmessage hread hplan hne hsettled hfirst
      exact ⟨hcount, fun r hrest => ⟨hr r hrest, hsettled⟩⟩
    -- The stage had been turned when the call began.
    · push Not at hfirst
      obtain ⟨look, hlook, hmissed⟩ := hfirst
      obtain ⟨later, rfl⟩ := List.head?_eq_some_iff.mp hlook
      obtain ⟨hmet, hleaves⟩ := (hes.meets look (by simp)).resolve_left fun hmet => hmissed hmet.1
      obtain ⟨hcount, hr⟩ := runs_settled h
        (List.forall_mem_cons.mpr ⟨hmet, hes.meets_after hleaves⟩) hes.answer hsettled
      exact ⟨by omega, fun r hrest => ⟨hr r hrest, hsettled⟩⟩

end Stages

/-! ### Runs in which the executions stay as they are -/

namespace Pool

variable {requests : List Request} {schedule : List (Nat × Instant)} {st : Store} {id : String}
  {statuses : List StageStatus} {row : StageRow} {es first rest : List (Entry Store)}
  {e : Entry Store}

def Entry.changesStage (id : String) (e : Entry Store) : Bool :=
  decide ((Store.engine e.statement e.before).2.stage? id ≠ e.before.stage? id)

structure Entry.KeepsStage (id : String) (row : StageRow) (e : Entry Store) : Prop where
  meets : e.MeetsStage id row
  leaves : e.LeavesStage id row

theorem Entry.KeepsStage.changesStage_eq_false (h : e.KeepsStage id row) :
    e.changesStage id = false := by
  have hmeets := h.meets
  have hleaves := h.leaves
  unfold MeetsStage at hmeets
  unfold LeavesStage at hleaves
  simp [changesStage, hmeets, hleaves]

theorem Entry.MeetsStage.keeps_of_not_writes (h : e.MeetsStage id row)
    (hwrites : e.statement.writes id = false) : e.KeepsStage id row := by
  refine ⟨h, h.leaves.trans (congrArg some (Statement.onStage_of_not_writes ?_))⟩
  rwa [(Store.stage?_some h).2]

/-- The run before and after the one write that finds the stage out of line. -/
inductive Phase (id : String) (statuses : List StageStatus) (schedule : List (Nat × Instant))
    (row : StageRow) : List (Entry Store) → Store → Prop
  | before {es : List (Entry Store)} {st : Store} (hrow : st.stage? id = some row)
      (hes : ∀ e ∈ es, e.KeepsStage id row) : Phase id statuses schedule row es st
  | after {es later : List (Entry Store)} {st : Store} {write : Entry Store} {stage : Stage}
      {change : StageChange} {now : Instant} (hread : row.read = .ok stage)
      (hplan : StageChange.plan? stage (.of stage.policy statuses) = some change)
      (hnow : (write.caller, now) ∈ schedule)
        (hwrite : write.statement = change.statement stage now)
      (hmet : write.MeetsStage id row) (hes : ∀ e ∈ es, e.KeepsStage id row)
      (hlater : ∀ e ∈ later, e.KeepsStage id ((change.statement stage now).onStage row))
      (hrow : st.stage? id = some ((change.statement stage now).onStage row)) :
      Phase id statuses schedule row (es ++ write :: later) st

/-- A write of the stage was planned on the row as an earlier entry met it. -/
theorem planned_of_writes
    (hlog : log Store.engine schedule (Request.replies requests) st = first ++ e :: rest)
    (hanswer : ∀ e ∈ first, (e.before.view id).answer = statuses)
    (hwrites : e.statement.writes id = true) :
    ∃ look ∈ first, ∃ seen stage change now, look.MeetsStage id seen ∧ seen.read = .ok stage ∧
      StageChange.plan? stage (.of stage.policy statuses) = some change ∧
      (e.caller, now) ∈ schedule ∧ e.statement = change.statement stage now := by
  obtain ⟨pre, look, read, hown, seen, stage, change, now, _, hmet, hread, hstatuses, hplan, hnow,
    hstatement⟩ := endsPlanned_of_log hlog (Statement.writesStage_of_writes hwrites)
  have hmem {e' : Entry Store} (he' : e' ∈ own e.caller first) : e' ∈ first :=
    List.mem_of_mem_filter he'
  rw [hstatement, Statement.writes_statement, beq_iff_eq, (StageRow.read_ok hread).1] at hwrites
  subst hwrites
  rw [hanswer read (hmem (by simp [hown]))] at hplan
  exact ⟨look, hmem (by simp [hown]), seen, stage, change, now, hmet, hread, hplan, hnow,
    hstatement⟩

/-- While the executions stay as they are, one write at most finds the stage out of line. -/
theorem phase_log (hrow : st.stage? id = some row)
    (hmessage : row.errorMessage = row.status.message? row.policy)
    (hanswer : ∀ e ∈ log Store.engine schedule (Request.replies requests) st,
      (e.before.view id).answer = statuses) :
    Phase id statuses schedule row (log Store.engine schedule (Request.replies requests) st)
      (run Store.engine schedule (Request.replies requests) st).2 := by
  refine chain_induction (chain_log Store.engine schedule (Request.replies requests) st)
    (.before hrow (by simp)) ?_
  intro first e rest hlog hphase
  have hfirst : ∀ e ∈ first, (e.before.view id).answer = statuses := fun e' he' =>
    hanswer e' (by rw [hlog]; exact List.mem_append_left _ he')
  cases hphase with
  | before hmet hes =>
    cases hwrites : e.statement.writes id with
    | false =>
      have hkeeps := Entry.MeetsStage.keeps_of_not_writes hmet hwrites
      exact .before hkeeps.leaves
        (List.forall_mem_append.mpr ⟨hes, List.forall_mem_singleton.mpr hkeeps⟩)
    | true =>
      obtain ⟨look, hlook, seen, stage, change, now, hseen, hread, hplan, hnow, hstatement⟩ :=
        planned_of_writes hlog hfirst hwrites
      obtain rfl : seen = row := Option.some.inj (hseen.symm.trans (hes look hlook).meets)
      have hleaves := Entry.MeetsStage.leaves hmet
      rw [hstatement] at hleaves
      exact .after hread hplan hnow hstatement hmet hes (by simp) hleaves
  | @after es later _ write stage change now hread hplan hnow hwrite hmetRow hes hlater hmet =>
    have hkeeps : e.KeepsStage id ((change.statement stage now).onStage row) := by
      cases hwrites : e.statement.writes id with
      | false => exact Entry.MeetsStage.keeps_of_not_writes hmet hwrites
      | true =>
        obtain ⟨look, hlook, seen, stage', change', now', hseen, hread', hplan', _, hstatement⟩ :=
          planned_of_writes hlog hfirst hwrites
        refine ⟨hmet, (Entry.MeetsStage.leaves hmet).trans (congrArg some ?_)⟩
        rw [hstatement]
        refine StageChange.onStage_again hmessage hread hplan ?_ hread' hplan' now'
        rcases List.mem_append.mp hlook with hbefore | hafter
        · exact .inl (Option.some.inj (hseen.symm.trans (hes look hbefore).meets))
        · rcases List.mem_cons.mp hafter with rfl | hafter
          · exact .inl (Option.some.inj (hseen.symm.trans hmetRow))
          · exact .inr (Option.some.inj (hseen.symm.trans (hlater look hafter).meets))
    rw [List.append_assoc, List.cons_append]
    exact .after hread hplan hnow hwrite hmetRow hes
      (List.forall_mem_append.mpr ⟨hlater, List.forall_mem_singleton.mpr hkeeps⟩) hkeeps.leaves

theorem countP_changesStage_eq_zero (h : ∀ e ∈ es, e.KeepsStage id row) :
    es.countP (·.changesStage id) = 0 := by
  rw [List.countP_eq_zero]
  intro e he
  rw [(h e he).changesStage_eq_false]
  exact Bool.false_ne_true

theorem Phase.turnsOnce (h : Phase id statuses schedule row es st)
    (hmessage : row.errorMessage = row.status.message? row.policy)
    (hkeyed : ∀ e ∈ es, e.before.Keyed) (hanswer : ∀ e ∈ es, (e.before.view id).answer = statuses) :
    ∃ row', st.stage? id = some row' ∧ row.Turn statuses row' ∧ TurnsOnce id statuses row row' es ∧
      es.countP (·.changesStage id) ≤ 1 ∧
      ∃ now, (∀ e ∈ es, e.changesStage id = true → (e.caller, now) ∈ schedule) ∧
        (row'.Settled statuses → row' = row.recomputed statuses now) := by
  cases h with
  | before hrow hes =>
    have hnone := countP_changesStage_eq_zero hes
    refine ⟨row, hrow, .same, ⟨hkeyed, hanswer, ?_, ?_⟩, by omega, ⟨0⟩, ?_,
      fun hsettled => (hsettled.recomputed ⟨0⟩).symm⟩
    · exact fun e he => .inr ⟨(hes e he).meets, (hes e he).leaves⟩
    · exact List.pairwise_of_forall_mem_list fun _ _ e' he' _ => (hes e' he').meets
    · exact fun e he hchanges => absurd hchanges (List.countP_eq_zero.mp hnone e he)
  | @after es later _ write stage change now hread hplan hnow hwrite hmet hes hlater hrow =>
    have hne := StageChange.status_onStage_ne hmessage hread hplan now
    have hrecomputed : row.recomputed statuses now = (change.statement stage now).onStage row := by
      simp only [StageRow.recomputed, hread, hplan]
    have hleaves : write.LeavesStage id ((change.statement stage now).onStage row) := by
      rw [← hwrite]
      exact hmet.leaves
    have hstill : ∀ e ∈ es, ¬ e.LeavesStage id ((change.statement stage now).onStage row) := by
      intro e he hleft
      have hsame := Option.some.inj (hleft.symm.trans (hes e he).leaves)
      exact hne (congrArg (·.status) hsame)
    have hbefore := countP_changesStage_eq_zero hes
    have hafter := countP_changesStage_eq_zero hlater
    refine ⟨_, hrow, .written hread hplan now, ⟨hkeyed, hanswer, ?_, ?_⟩, ?_, now, ?_,
      fun _ => hrecomputed.symm⟩
    · intro e he
      rcases List.mem_append.mp he with hold | hnew
      · exact .inl ⟨(hes e hold).meets, .inl (hes e hold).leaves⟩
      · rcases List.mem_cons.mp hnew with rfl | hnew
        · exact .inl ⟨hmet, .inr hleaves⟩
        · exact .inr ⟨(hlater e hnew).meets, (hlater e hnew).leaves⟩
    · refine List.pairwise_append.mpr ⟨?_, List.pairwise_cons.mpr ⟨?_, ?_⟩, ?_⟩
      · exact List.pairwise_of_forall_mem_list fun e he _ _ hleft => (hstill e he hleft).elim
      · exact fun e' he' _ => (hlater e' he').meets
      · exact List.pairwise_of_forall_mem_list fun _ _ e' he' _ => (hlater e' he').meets
      · exact fun e he _ _ hleft => (hstill e he hleft).elim
    · rw [List.countP_append, List.countP_cons, hbefore, hafter]
      split <;> omega
    · intro e he hchanges
      rcases List.mem_append.mp he with hold | hnew
      · exact absurd hchanges (List.countP_eq_zero.mp hbefore e hold)
      · rcases List.mem_cons.mp hnew with rfl | hnew
        · exact hnow
        · exact absurd hchanges (List.countP_eq_zero.mp hafter e hnew)

end Pool

theorem Request.replying_recompute (id : String) : (replying (.recompute id)).run =
    (Stages.recompute id).run.map (·.map Reply.stage) := Service.run_bind_pure _ Reply.stage

namespace Pool

variable {requests : List Request} {schedule : List (Nat × Instant)} {st : Store} {id : String}
  {statuses : List StageStatus} {row row' : StageRow} {i : Nat}

theorem isSome_reply?_of_turns (hr : requests[i]? = some (.recompute id))
    (hturns : 4 * Stages.attempts + 1 ≤ Sessions.turns schedule i) :
    (reply? i (run Store.engine schedule (Request.replies requests) st).1).isSome := by
  have hf : (Request.replies requests)[i]? =
      some (Flight.map (·.map Reply.stage) (.start (Stages.recompute id).run)) := by
    rw [Request.replies, List.getElem?_map, hr]
    exact congrArg some (congrArg Flight.start (Request.replying_recompute id))
  obtain ⟨a, hdone⟩ : ∃ a, (run Store.engine schedule (Request.replies requests) st).1[i]? =
      some (Flight.map (·.map Reply.stage) ⟨(Stages.recompute id).run, .done a⟩) :=
    done_of_turns hf (Stages.endsWithin_recomputeWithin id Stages.attempts) hturns
  rw [reply?, hdone]
  rfl

theorem reply_of_turnsOnce (hr : requests[i]? = some (.recompute id))
    (hes : TurnsOnce id statuses row row' (log Store.engine schedule (Request.replies requests) st))
    (hturn : row.Turn statuses row') (hid : row.id = id)
    (hmessage : row.errorMessage = row.status.message? row.policy) :
    attempts id (own i (log Store.engine schedule (Request.replies requests) st)) ≤ 2 ∧
    ∀ answer, reply? i (run Store.engine schedule (Request.replies requests) st).1 = some answer →
      answer = row'.read.map Reply.stage ∧ row'.Settled statuses := by
  obtain ⟨f, hf, hcourse⟩ := course_replies schedule st hr
  rw [Request.replying_recompute] at hcourse
  obtain ⟨rest, hrest, hcourse⟩ := hcourse.of_map
  obtain ⟨hattempts, hdone⟩ :=
    Stages.runs_turning hcourse (hes.sublist List.filter_sublist) hturn hid
    hmessage
  refine ⟨hattempts, fun answer hanswer => ?_⟩
  rw [reply?, hf] at hanswer
  change f.answer? = some answer at hanswer
  unfold Flight.answer? at hanswer
  split at hanswer
  · next hended =>
    cases hanswer
    rw [hrest] at hended
    cases rest with
    | done r =>
      obtain ⟨rfl, hsettled⟩ := hdone r rfl
      cases hended
      exact ⟨rfl, hsettled⟩
    | ask | clock | again => cases hended
  · cases hanswer

/-- Requests that ask for nothing to be done to executions leave those of each stage as they are. -/
theorem executions_stay (hquiet : ∀ r ∈ requests, r.movesExecutions = false) (id : String) :
    ∀ e ∈ log Store.engine schedule (Request.replies requests) st,
      (e.before.view id).executions = (st.view id).executions := by
  refine chain_meets (chain_log Store.engine schedule (Request.replies requests) st)
    (I := fun mid => (mid.view id).executions = (st.view id).executions) ?_ rfl
  intro e he hsame
  obtain ⟨r, hr, hasked⟩ := askedBy_of_mem_log he
  have hmoves := Statement.not_moves_of_askedBy (hquiet r (List.mem_of_getElem? hr)) hasked
  rw [← hsame, Store.view, Statement.executions_of_not_moves hmoves]
  rfl

/-- A run within the bounds of the clock leaves a store legible. -/
theorem legible_run (requests : List Request) (hst : st.Legible)
    (hclock : ∀ x ∈ schedule, x.2.Storable) :
    (run Store.engine schedule (Request.replies requests) st).2.Legible := by
  refine chain_keeps (chain_log Store.engine schedule (Request.replies requests) st)
    (fun e he h => ?_) hst
  obtain ⟨r, _, hasked⟩ := askedBy_of_mem_log he
  exact h.engine (fun t ht => hclock (e.caller, t) ht) hasked

/-- Recomputes of one stage, however many and however interleaved, while its executions stay as they
are. One statement at most changes the stage, at a time that the clock of its call has told. No call
looks for the statuses more than twice, and each one ends that is given its turns. All that have
ended have answered the stage as it is in the end, and that is the stage that one call would have
left if it had been made alone at that time. -/
theorem concurrent_recomputes_agree {clock : Instant → Prop} (hst : st.Reached clock)
    (hrow : st.stage? id = some row) (requests : List Request) (schedule : List (Nat × Instant))
    (hquiet : ∀ e ∈ log Store.engine schedule (Request.replies requests) st,
      (e.before.view id).executions = (st.view id).executions) :
    let entries := log Store.engine schedule (Request.replies requests) st
    let final := run Store.engine schedule (Request.replies requests) st
    ∃ row', final.2.stage? id = some row' ∧ entries.countP (·.changesStage id) ≤ 1 ∧
      ∃ now, (∀ e ∈ entries, e.changesStage id = true → (e.caller, now) ∈ schedule) ∧
        ∀ i, requests[i]? = some (.recompute id) →
          attempts id (own i entries) ≤ 2 ∧
          (4 * Stages.attempts + 1 ≤ Sessions.turns schedule i →
            (reply? i final.1).isSome = true) ∧
          ∀ answer, reply? i final.1 = some answer →
            answer = row'.read.map Reply.stage ∧
            (Stages.recompute id).alone (fun _ => now) st = (some row'.read, st.withStage row') ∧
            ((∀ t, clock t → t.Storable) → (∀ x ∈ schedule, x.2.Storable) →
              row'.read = .ok (row'.map Stamp.named)) := by
  intro entries final
  have hchain : Chain Store.engine st entries final.2 :=
    chain_log Store.engine schedule (Request.replies requests) st
  have hkeyed : ∀ e ∈ entries, e.before.Keyed :=
    chain_meets hchain (fun e _ h => Statement.keyed_engine h e.statement) hst.keyed
  have hanswer : ∀ e ∈ entries, (e.before.view id).answer = (st.view id).answer := by
    intro e he
    rw [StageView.answer, hquiet e he]
    rfl
  have hmessage := (hst.consistent hrow).message
  obtain ⟨row', hrow', hturn, honce, hcount, now, hnow, hrecomputed⟩ :=
    (phase_log hrow hmessage hanswer).turnsOnce hmessage hkeyed hanswer
  refine ⟨row', hrow', hcount, now, hnow, fun i hr => ?_⟩
  obtain ⟨hattempts, hreply⟩ :=
    reply_of_turnsOnce hr honce hturn (Store.stage?_some hrow).2 hmessage
  refine ⟨hattempts, isSome_reply?_of_turns hr, fun answer hended => ?_⟩
  obtain ⟨hsame, hsettled⟩ := hreply answer hended
  have halone := Stages.alone_recompute_eq hst.keyed hrow fun _ => now
  rw [← StageRow.recomputed_answer, ← hrecomputed hsettled] at halone
  refine ⟨hsame, halone, fun hclock hschedule => ?_⟩
  have hlegible := legible_run requests (hst.legible hclock) hschedule
  exact StageRow.read_eq_ok (hlegible.stages row' (Store.stage?_some hrow').1)

end Pool

/-! Two recomputes of the stage that lags behind take turns, with clocks that differ. -/

namespace Lagging

def recomputes : List Request := [.recompute "st", .recompute "st"]

def inTurns : List (Nat × Instant) := (List.replicate 33 [(0, ⟨5⟩), (1, ⟨7⟩)]).flatten

def final : Pool (Except Failure Reply) × Store :=
  Pool.run Store.orderedEngine inTurns (Request.replies recomputes) store

end Lagging

open Lagging in
theorem Pool.concurrent_recomputes_agree_lagging : ∃ row', final.2.stage? "st" = some row' ∧
    row'.status = .active ∧ reply? 0 final.1 = some (.ok (.stage (row'.map Stamp.named))) ∧
    reply? 1 final.1 = some (.ok (.stage (row'.map Stamp.named))) ∧
    ∃ now, (Stages.recompute "st").alone (fun _ => now) store =
      (some row'.read, store.withStage row') := by
  have hstage : (store.stage? "st").isSome = true := by decide +kernel
  obtain ⟨row, hrow⟩ := Option.isSome_iff_exists.mp hstage
  have hquiet : ∀ r ∈ recomputes, r.movesExecutions = false := by decide
  obtain ⟨row', hrow', _, now, _, hcalls⟩ :=
    concurrent_recomputes_agree reached_store hrow recomputes
    inTurns (executions_stay hquiet "st")
  rw [Store.engine_eq_ordered] at hrow' hcalls
  have hstatus : (final.2.stage? "st").map (·.status) = some .active := by decide +kernel
  rw [show final.2.stage? "st" = some row' from hrow'] at hstatus
  have hreplies : ∀ i, recomputes[i]? = some (.recompute "st") → 33 ≤ Sessions.turns inTurns i →
      reply? i final.1 = some (.ok (.stage (row'.map Stamp.named))) ∧
      (Stages.recompute "st").alone (fun _ => now) store =
        (some row'.read, store.withStage row') := by
    intro i hi hturns
    obtain ⟨_, hends, hanswers⟩ := hcalls i hi
    obtain ⟨answer, hanswer⟩ := Option.isSome_iff_exists.mp (hends hturns)
    obtain ⟨rfl, halone, hlegible⟩ := hanswers answer hanswer
    rw [hlegible (fun _ ht => ht) (by decide)] at hanswer
    exact ⟨hanswer, halone⟩
  obtain ⟨hfirst, halone⟩ := hreplies 0 rfl (by decide)
  obtain ⟨hsecond, _⟩ := hreplies 1 rfl (by decide)
  exact ⟨row', hrow', Option.some.inj hstatus, hfirst, hsecond, now, halone⟩

end AlertDesk
