import AlertDesk.Proofs.Attempts
import AlertDesk.Proofs.Recomputing

/-!
A stage that is recomputed while nobody else works on the store. The recompute leaves a stage that
is in line as it is and writes any other once; broken off, it has either done nothing or all that
it has to do.
-/
namespace AlertDesk

structure Store.Sound (st : Store) : Prop where
  keyed : st.Keyed
  legible : st.Legible

theorem Store.Reached.sound {st : Store} (h : st.Reached Instant.Storable) : st.Sound :=
  ⟨h.keyed, h.legible fun _ ht => ht⟩

theorem Store.Sound.engine {st : Store} {s : Statement} {r : Request} (h : st.Sound)
    (hs : s.AskedBy Instant.Storable r) : (Store.engine s st).2.Sound :=
  ⟨Statement.keyed_engine h.keyed s, h.legible.engine (fun _ ht => ht) hs⟩

theorem Store.Sound.stage {st : Store} (h : st.Sound) {id : String} {row : StageRow}
    (hrow : st.stage? id = some row) : row.read = .ok (row.map Stamp.named) :=
  StageRow.read_eq_ok (h.legible.stages row (List.mem_of_find?_eq_some hrow))

theorem Store.Sound.execution {st : Store} (h : st.Sound) {id : String} {row : ExecutionRow}
    (hrow : st.execution? id = some row) : row.read = .ok (row.map Stamp.named) :=
  ExecutionRow.read_eq_ok (h.legible.executions row (List.mem_of_find?_eq_some hrow))

/-- The guard of a write finds the one stage that was read. -/
theorem Store.Keyed.countP_isAt {st : Store} (h : st.Keyed) {id : String} {row : StageRow}
    (hrow : st.stage? id = some row) : st.stages.countP (·.isAt row.id row.status) = 1 := by
  have hpos : 0 < st.stages.countP (·.isAt row.id row.status) :=
    List.countP_pos_iff.mpr ⟨row, List.mem_of_find?_eq_some hrow, by simp [StageRow.isAt]⟩
  have hle : st.stages.countP (·.isAt row.id row.status) ≤ 1 :=
    countP_key_le_one h.stages fun _ hat => StageRow.id_of_isAt hat
  exact Nat.le_antisymm hle hpos

inductive Store.Settles : Option String → Store → Store → Prop
  | nothing (st : Store) : Settles none st st
  | inLine {id : String} {st : Store} (h : (st.view id).inLine = true) : Settles (some id) st st
  | written {id : String} {st : Store} {row : StageRow} {stage : Stage} {change : StageChange}
      {now : Instant} (hrow : st.stage? id = some row) (hread : row.read = .ok stage)
      (hplan : StageChange.plan? stage (.of stage.policy (st.view id).answer) = some change)
      (hnow : now.Storable) : Settles (some id) st (Store.engine (change.statement stage now) st).2

namespace Store.Settles

variable {id : String} {st st' : Store}

theorem executions {owed : Option String} (h : Settles owed st st') :
    st'.executions = st.executions := by
  cases h with
  | nothing => rfl
  | inLine => rfl
  | @written _ _ _ stage change now =>
    cases change <;> rfl

/-- A settled stage is in line. -/
theorem inLine_view (h : Settles (some id) st st') : (st'.view id).inLine = true := by
  cases h with
  | inLine h => exact h
  | written hrow hread hplan hnow =>
    rw [Statement.view_of_not_moves (StageChange.movesExecutions_statement _ _ _)
      (StageChange.newStages_statement _ _ _ st)]
    exact StageView.inLine_after hrow hread hplan _

/-- A stage that is in line is settled already. -/
theorem eq_of_inLine (h : Settles (some id) st st') (hline : (st.view id).inLine = true) :
    st' = st := by
  cases h with
  | inLine => rfl
  | written hrow hread hplan hnow =>
    rw [(StageView.plan?_eq_none_iff hrow hread).mpr hline] at hplan
    cases hplan

theorem iff_of_inLine (hline : (st.view id).inLine = true) :
    Settles (some id) st st' ↔ st' = st := by
  constructor
  · intro h
    exact h.eq_of_inLine hline
  · intro hsame
    rw [hsame]
    exact .inLine hline

theorem iff_of_plan {row : StageRow} {stage : Stage} {change : StageChange}
    (hrow : st.stage? id = some row) (hread : row.read = .ok stage)
    (hplan : StageChange.plan? stage (.of stage.policy (st.view id).answer) = some change) :
    Settles (some id) st st' ↔
      ∃ now, now.Storable ∧ st' = (Store.engine (change.statement stage now) st).2 := by
  constructor
  · intro h
    cases h with
    | inLine hline =>
      rw [(StageView.plan?_eq_none_iff (v := st.view id) hrow hread).mpr hline] at hplan
      cases hplan
    | written hrow' hread' hplan' hnow =>
      rw [hrow] at hrow'
      cases hrow'
      rw [hread] at hread'
      cases hread'
      rw [hplan] at hplan'
      cases hplan'
      exact ⟨_, hnow, rfl⟩
  · intro h
    obtain ⟨now, hnow, rfl⟩ := h
    exact .written hrow hread hplan hnow

/-- A stage that was recomputed is not changed when it is recomputed again. -/
theorem trans {owed : Option String} {st'' : Store} (h : Settles owed st st')
    (h' : Settles owed st' st'') : st'' = st' := by
  cases owed with
  | none =>
    cases h'
    rfl
  | some id => exact h'.eq_of_inLine h.inLine_view

theorem exists_settles (hst : st.Sound) (owed : Option String) : ∃ st', Settles owed st st' := by
  cases owed with
  | none => exact ⟨st, .nothing st⟩
  | some id =>
    by_cases hline : (st.view id).inLine = true
    · exact ⟨st, .inLine hline⟩
    · cases hrow : st.stage? id with
      | none => exact absurd (by simp [StageView.inLine, Store.view, hrow]) hline
      | some row =>
        have hread := hst.stage hrow
        rw [← StageView.plan?_eq_none_iff (v := st.view id) hrow hread] at hline
        obtain ⟨change, hplan⟩ := Option.ne_none_iff_exists'.mp hline
        have hnow : Instant.Storable ⟨0⟩ := by decide
        exact ⟨_, .written hrow hread hplan hnow⟩

end Store.Settles

/-! ### Attempts -/

/-- What attempts at the call leave of a store: `ends` when they are left alone, and then they do
not fail for the store; `cuts` when they are broken off. -/
structure Service.Attempts {α : Type} (x : Service α) (st : Store) (ends cuts : Store → Prop) :
    Prop where
  returns : ∀ {r : Except Failure α} {st' : Store}, x.Returns Instant.Storable st r st' →
    ends st' ∧ ∀ e, r = .error e → e.isRetryable = false
  ends : ∀ {st' : Store}, ends st' → ∃ r, x.Returns Instant.Storable st r st'
  breaksOff : ∀ {failure : Failure} {r : Except Failure α} {st' : Store},
    x.BreaksOff Instant.Storable failure st r st' → r = .error failure ∧ cuts st'

namespace Service

variable {α β : Type} {st mid : Store} {ends ends' cuts cuts' : Store → Prop}

theorem Attempts.imp {x : Service α} (h : x.Attempts st ends cuts)
    (hends : ∀ st', ends st' ↔ ends' st') (hcuts : ∀ st', cuts st' → cuts' st') :
    x.Attempts st ends' cuts' where
  returns hx := by
    obtain ⟨hst, hr⟩ := h.returns hx
    exact ⟨(hends _).mp hst, hr⟩
  ends hst := h.ends ((hends _).mpr hst)
  breaksOff hx := by
    obtain ⟨hr, hst⟩ := h.breaksOff hx
    exact ⟨hr, hcuts _ hst⟩

theorem attempts_pure (a : α) : (pure a : Service α).Attempts st (· = st) cuts where
  returns hx := by
    obtain ⟨rfl, rfl⟩ := returns_pure.mp hx
    exact ⟨rfl, by simp⟩
  ends hst := ⟨.ok a, returns_pure.mpr ⟨rfl, hst⟩⟩
  breaksOff hx := absurd hx breaksOff_pure

theorem attempts_throw {e : Failure} (he : e.isRetryable = false) :
    (throw e : Service α).Attempts st (· = st) cuts where
  returns hx := by
    obtain ⟨rfl, rfl⟩ := returns_throw.mp hx
    refine ⟨rfl, fun e' hsame => ?_⟩
    cases hsame
    exact he
  ends hst := ⟨.error e, returns_throw.mpr ⟨rfl, hst⟩⟩
  breaksOff hx := absurd hx breaksOff_throw

theorem attempts_ask {s : Statement} {f : s.Answer → Service β} {a : s.Answer}
    (h : Store.engine s st = (.ok a, mid)) (hf : (f a).Attempts mid ends cuts) (hst : cuts st)
    (hmid : cuts mid) : Attempts (bind (α := no_index s.Answer) (ask s) f) st ends cuts where
  returns hx := hf.returns ((returns_ask_of_ok h).mp hx)
  ends hst' := by
    obtain ⟨r, hr⟩ := hf.ends hst'
    exact ⟨r, (returns_ask_of_ok h).mpr hr⟩
  breaksOff hx := by
    rcases (breaksOff_ask_of_ok h).mp hx with ⟨hr, rfl | rfl⟩ | hx
    · exact ⟨hr, hst⟩
    · exact ⟨hr, hmid⟩
    · exact hf.breaksOff hx

/-- A statement that is refused changes nothing. -/
theorem attempts_refused {s : Statement} {f : s.Answer → Service β} {e : Failure}
    (h : Store.engine s st = (.error e, st)) (he : e.isRetryable = false) (hst : cuts st) :
    Attempts (bind (α := no_index s.Answer) (ask s) f) st (· = st) cuts where
  returns hx := by
    obtain ⟨rfl, rfl⟩ := (returns_ask_of_error h).mp hx
    refine ⟨rfl, fun e' hsame => ?_⟩
    cases hsame
    exact he
  ends hst' := ⟨.error e, (returns_ask_of_error h).mpr ⟨rfl, hst'⟩⟩
  breaksOff hx := by
    obtain ⟨hr, rfl | rfl⟩ := (breaksOff_ask_of_error h).mp hx
    · exact ⟨hr, hst⟩
    · exact ⟨hr, hst⟩

theorem attempts_clock {f : Instant → Service β} (ends : Instant → Store → Prop)
    (hf : ∀ now, now.Storable → (f now).Attempts st (ends now) cuts) :
    (Service.clock >>= f).Attempts st (fun st' => ∃ now, now.Storable ∧ ends now st') cuts where
  returns hx := by
    obtain ⟨now, hnow, hx⟩ := returns_clock_bind.mp hx
    obtain ⟨hst, hr⟩ := (hf now hnow).returns hx
    exact ⟨⟨now, hnow, hst⟩, hr⟩
  ends := by
    intro st' h
    obtain ⟨now, hnow, hst⟩ := h
    obtain ⟨r, hr⟩ := (hf now hnow).ends hst
    exact ⟨r, returns_clock_bind.mpr ⟨now, hnow, hr⟩⟩
  breaksOff hx := by
    obtain ⟨now, hnow, hx⟩ := breaksOff_clock_bind.mp hx
    exact (hf now hnow).breaksOff hx

end Service

open Service

namespace Stages

variable {β : Type} {st : Store} {id : String} {ends cuts : Store → Prop}

theorem attempts_get_bind {f : Stage → Service β} {row : StageRow} {stage : Stage}
    (hrow : st.stage? id = some row) (hread : row.read = .ok stage)
    (hf : (f stage).Attempts st ends cuts) (hst : cuts st) :
    (get id >>= f).Attempts st ends cuts := by
  simp only [get, Rows.stage?, Rows.readOne, bind_assoc]
  refine attempts_ask (a := some row) (by rw [← hrow]; rfl) ?_ hst hst
  rw [mapM_some_ok hread, settle_ok, pure_bind, pure_bind]
  exact hf

theorem attempts_get_missing {f : Stage → Service β} (hrow : st.stage? id = none) (hst : cuts st) :
    (get id >>= f).Attempts st (· = st) cuts := by
  simp only [get, Rows.stage?, Rows.readOne, bind_assoc]
  refine attempts_ask (a := none) (by rw [← hrow]; rfl) ?_ hst hst
  exact attempts_throw rfl

theorem attempts_write_bind {f : Nat → Service β} {stage : Stage} {policy : SuccessPolicy}
    {statuses : List StageStatus} {change : StageChange} (ends : Instant → Store → Prop)
    (hplan : StageChange.plan? stage (.of policy statuses) = some change)
    (hf : ∀ now, now.Storable → (f (st.stages.countP (·.isAt stage.id stage.status))).Attempts
      (Store.engine (change.statement stage now) st).2 (ends now) cuts) (hst : cuts st)
    (hwritten : ∀ now, now.Storable → cuts (Store.engine (change.statement stage now) st).2) :
    (write stage change >>= f).Attempts st (fun st' => ∃ now, now.Storable ∧ ends now st')
      cuts := by
  simp only [write, bind_assoc]
  refine attempts_clock ends fun now hnow => ?_
  have hf := hf now hnow
  have hwritten := hwritten now hnow
  cases change with
  | activate =>
    rw [StageChange.of_activate hplan] at hf
    exact attempts_ask rfl hf hst hwritten
  | reopen status => exact attempts_ask rfl hf hst hwritten
  | finalize status message => exact attempts_ask rfl hf hst hwritten

/-- What recomputing a stage leaves, when a call does nothing after it. -/
theorem attempts_recompute_bind {f : Stage → Service β} (hf : ∀ stage, ∃ b, f stage = pure b)
    (hst : st.Sound) : (recompute id >>= f).Attempts st (st.Settles (some id))
      (fun st' => st' = st ∨ st.Settles (some id) st') := by
  have hpure (stage : Stage) (mid : Store) (cuts : Store → Prop) :
      (f stage).Attempts mid (· = mid) cuts := by
    obtain ⟨b, hb⟩ := hf stage
    rw [hb]
    exact attempts_pure b
  change (recomputeWithin id (7 + 1) >>= f).Attempts _ _ _
  simp only [recomputeWithin, bind_assoc]
  cases hrow : st.stage? id with
  | none =>
    have hline : (st.view id).inLine = true := by simp [StageView.inLine, Store.view, hrow]
    exact (attempts_get_missing hrow (.inl rfl)).imp
      (fun _ => (Store.Settles.iff_of_inLine hline).symm) fun _ h => h
  | some row =>
    have hread := hst.stage hrow
    generalize hstage : row.map Stamp.named = stage at hread
    refine attempts_get_bind hrow hread ?_ (.inl rfl)
    refine attempts_ask (Statement.engine_topLevelStatuses id st) ?_ (.inl rfl) (.inl rfl)
    cases hplan : StageChange.plan? stage (.of stage.policy (st.view id).answer) with
    | none =>
      have hline := (StageView.plan?_eq_none_iff (v := st.view id) hrow hread).mp hplan
      simp only [pure_bind]
      exact (hpure stage st _).imp
        (fun _ => (Store.Settles.iff_of_inLine hline).symm) fun _ h => h
    | some change =>
      obtain ⟨hid, hstatus, _⟩ := StageRow.read_ok hread
      have hcount := hst.keyed.countP_isAt hrow
      rw [← hid, ← hstatus] at hcount
      simp only [bind_assoc]
      refine (attempts_write_bind (fun now st' =>
        st' = (Store.engine (change.statement stage now) st).2) hplan (fun now hnow => ?_)
          (.inl rfl)
        fun now hnow => .inr (.written hrow hread hplan hnow)).imp
          (fun _ => (Store.Settles.iff_of_plan hrow hread hplan).symm) fun _ h => h
      rw [hcount]
      have hwritten := hst.engine (StageChange.askedBy_statement hplan hnow (.recompute id))
      have hrow' : (Store.engine (change.statement stage now) st).2.stage? id =
          some ((change.statement stage now).onStage row) := by
        rw [Statement.stage?_engine (change.newStages_statement stage now st), hrow]
        rfl
      exact attempts_get_bind hrow' (hwritten.stage hrow') (hpure _ _ _)
        (.inr (.written hrow hread hplan hnow))

end Stages
end AlertDesk
