import AlertDesk.Proofs.Bookkeeping
import AlertDesk.Proofs.RecomputeAlone
import AlertDesk.Proofs.StageRows

/-!
How long an execution took and how long a stage took. For an execution each of its two times is
rounded to the millisecond on the Julian day scale, and the difference is kept with its sign; for a
stage the time between the two is cut to whole milliseconds and is never below zero. The two agree
only on some pairs of times.
-/
namespace AlertDesk

namespace JulianDay

/-! ### Rounding to the millisecond -/

/-- What has half a unit added is as a floor its whole part or one more, and only about halfway
between can it be either. -/
theorem floor_cases {q : ℚ} {whole part : Nat} (hpart : part < 1000)
    (hnear : |q - (whole + part / 1000 + 1 / 2)| ≤ 1 / 1000000) :
    (⌊q⌋₊ = whole ∧ part ≤ 500) ∨ (⌊q⌋₊ = whole + 1 ∧ 500 ≤ part) := by
  obtain ⟨hlow, hhigh⟩ := abs_le.mp hnear
  have hwhole : (0 : ℚ) ≤ whole := Nat.cast_nonneg _
  have hpart0 : (0 : ℚ) ≤ part := Nat.cast_nonneg _
  have hpart1 : (part : ℚ) ≤ 999 := by exact_mod_cast (by omega : part ≤ 999)
  have hq : 0 ≤ q := by linarith
  rcases lt_or_ge q (whole + 1) with hless | hmore
  · have hfloor : ⌊q⌋₊ = whole := (Nat.floor_eq_iff hq).mpr ⟨by linarith, hless⟩
    refine .inl ⟨hfloor, ?_⟩
    by_contra hover
    have hover' : (501 : ℚ) ≤ part := by exact_mod_cast (by omega : 501 ≤ part)
    linarith
  · have hfloor : ⌊q⌋₊ = whole + 1 := by
      rw [Nat.floor_eq_iff hq]
      push_cast
      exact ⟨hmore, by linarith⟩
    refine .inr ⟨hfloor, ?_⟩
    by_contra hunder
    have hunder' : (part : ℚ) ≤ 499 := by exact_mod_cast (by omega : part ≤ 499)
    linarith

/-- The milliseconds of a minute are rounded down or up. Only halfway between two of them the
doubles decide which it is. -/
theorem roundedMillis_cases {second digits : Nat} (hsecond : second < 60)
    (hdigits : digits < 1000000) :
    (roundedMillis second digits 6 = some (second * 1000 + digits / 1000) ∧ digits % 1000 ≤ 500) ∨
      (roundedMillis second digits 6 = some (second * 1000 + digits / 1000 + 1) ∧
        500 ≤ digits % 1000) := by
  obtain ⟨q, hq, hnear⟩ := roundedMillis_near hsecond hdigits
  have hsplit : (second * 1000 + digits / 1000 : ℚ) =
      (second * 1000 + digits / 1000 : Nat) + (digits % 1000 : Nat) / 1000 := by
    have hdigits : (digits : ℚ) = (digits / 1000 : Nat) * 1000 + (digits % 1000 : Nat) := by
      exact_mod_cast (Nat.div_add_mod' digits 1000).symm
    push_cast
    linarith
  rw [hsplit] at hnear
  rw [hq]
  rcases floor_cases (Nat.mod_lt digits (by omega)) hnear with ⟨hfloor, hpart⟩ | ⟨hfloor, hpart⟩
  · exact .inl ⟨congrArg some hfloor, hpart⟩
  · exact .inr ⟨congrArg some hfloor, hpart⟩

def roundsUp (t : Instant) : Bool :=
  roundedMillis (t.secondOfDay % 60) (t.nanoOfSecond / 1000) 6 ==
    some (t.secondOfDay % 60 * 1000 + t.nanoOfSecond / 1000 / 1000 + 1)

def nearestMillis (t : Instant) : Int := t.nanos / 1000000 + (roundsUp t).toNat

def microsOver (t : Instant) : Int := t.nanos / 1000 % 1000

theorem microsOver_eq (t : Instant) : microsOver t = (t.nanoOfSecond / 1000 % 1000 : Nat) := by
  unfold microsOver Instant.nanoOfSecond Instant.nanoOfDay Instant.perDay Instant.perSecond
  omega

/-- What lies under half a millisecond is rounded down, and what lies over it is rounded up. -/
theorem roundsUp_cases (t : Instant) :
    (roundsUp t = false ∧ microsOver t ≤ 500) ∨ (roundsUp t = true ∧ 500 ≤ microsOver t) := by
  obtain ⟨_, _, _, hmicros⟩ := Stamp.fields_lt t
  rw [microsOver_eq, roundsUp]
  rcases roundedMillis_cases (Nat.mod_lt t.secondOfDay (by omega : 0 < 60)) hmicros with
    ⟨hr, hpart⟩ | ⟨hr, hpart⟩
  · refine .inl ⟨?_, by exact_mod_cast hpart⟩
    rw [hr]
    simp
  · refine .inr ⟨?_, by exact_mod_cast hpart⟩
    rw [hr, beq_self_eq_true]

/-- No whole millisecond is nearer to the stored time. -/
theorem nearestMillis_near (t : Instant) : |nearestMillis t * 1000000 - t.cut.nanos| ≤ 500000 := by
  have hcases := roundsUp_cases t
  rw [abs_le]
  unfold nearestMillis Instant.cut
  unfold microsOver at hcases
  dsimp only
  rcases hcases with ⟨hup, hpart⟩ | ⟨hup, hpart⟩
  · rw [hup, Bool.toNat_false]
    omega
  · rw [hup, Bool.toNat_true]
    omega

/-- The place of a time that the scale covers. -/
theorem millis?_ofInstant {t : Instant} (h : Covers t) :
    millis? (.ofInstant t) = some (nearestMillis t + epoch) := by
  have hsome := (isSome_millis?_ofInstant t).mpr h
  have hday : t.date.dayNumber = t.nanos / Instant.perDay :=
    (Date.ofDay_spec (t.nanos / Instant.perDay)).2
  obtain ⟨_, _, _, hmicros⟩ := Stamp.fields_lt t
  have hr : roundedMillis (t.secondOfDay % 60) (t.nanoOfSecond / 1000) 6 =
      some (t.secondOfDay % 60 * 1000 + t.nanoOfSecond / 1000 / 1000 + (roundsUp t).toNat) := by
    rcases roundedMillis_cases (Nat.mod_lt t.secondOfDay (by omega : 0 < 60)) hmicros with
      ⟨hr, _⟩ | ⟨hr, _⟩
    · simp [roundsUp, hr]
    · simp [roundsUp, hr]
  rw [millis?, reading?_ofInstant h.year hr] at hsome ⊢
  simp only [Reading.millis?] at hsome ⊢
  split
  · refine congrArg some ?_
    rw [hday]
    unfold nearestMillis millisPerDay Instant.secondOfDay Instant.nanoOfSecond Instant.nanoOfDay
      Instant.perDay Instant.perSecond
    omega
  · next hout =>
    rw [if_neg hout] at hsome
    cases hsome

/-- The milliseconds between two times that the scale covers. -/
theorem between?_ofInstant {since till : Instant} (hsince : Covers since) (htill : Covers till) :
    between? (.ofInstant since) (.ofInstant till) =
      some (nearestMillis till - nearestMillis since) := by
  rw [between?, millis?_ofInstant hsince, millis?_ofInstant htill]
  exact congrArg some (by omega)

/-! ### Rounding both times against cutting what lies between -/

/-- Rounded, the two times are as far apart as the whole milliseconds between them say. Where the
second comes first, that is not apart at all. -/
def SameMillis (since till : Instant) : Prop :=
  if till.cut < since.cut then nearestMillis till = nearestMillis since
  else if microsOver till < microsOver since then roundsUp since = true ∧ roundsUp till = false
  else roundsUp since = roundsUp till

theorem nearestMillis_sub_eq_iff (since till : Instant) :
    nearestMillis till - nearestMillis since = since.cut.elapsedMillis till.cut ↔
      SameMillis since till := by
  have horder : till.cut < since.cut ↔ till.nanos / 1000 * 1000 < since.nanos / 1000 * 1000 :=
    Iff.rfl
  unfold SameMillis Instant.elapsedMillis
  simp only [horder]
  unfold nearestMillis microsOver Instant.cut
  dsimp only
  split
  · omega
  · cases roundsUp since <;> cases roundsUp till <;> split <;> simp <;> omega

/-- So it is for whole milliseconds of a clock that has not gone back. -/
theorem sameMillis_of_whole {since till : Instant} (hsince : microsOver since = 0)
    (htill : microsOver till = 0) (horder : since ≤ till) : SameMillis since till := by
  have hdown {t : Instant} (ht : microsOver t = 0) : roundsUp t = false := by
    rcases roundsUp_cases t with ⟨hup, _⟩ | ⟨_, hpart⟩
    · exact hup
    · omega
  have hforth : ¬ till.cut < since.cut := by
    change since.nanos ≤ till.nanos at horder
    change ¬ till.nanos / 1000 * 1000 < since.nanos / 1000 * 1000
    omega
  rw [SameMillis, if_neg hforth, hsince, htill, if_neg (lt_irrefl 0), hdown hsince, hdown htill]

end JulianDay

/-! ### The time that a stage took -/

namespace Stages

open Service

/-- The stage is activated and then finalized, each time as it is read right before. -/
def activateAndFinalize (id : String) (status : StageStatus) (message : Option String) :
    Service Unit := do
  let _ ← write (← get id) .activate
  let _ ← write (← get id) (.finalize status message)

variable {st : Store} {id : String} {row : StageRow} {readings : Nat → Instant}

def changed (row : StageRow) (change : StageChange) (now : Instant) : StageRow :=
  (change.statement (row.map Stamp.named) now).onStage row

theorem alone_get_write_bind {β : Type} {f : Nat → Service β} {change : StageChange}
    {verdict : Verdict} (hst : st.Keyed) (hrow : st.stage? id = some row) (hreadable : row.Readable)
    (hplan : StageChange.plan? (row.map Stamp.named) verdict = some change) :
    (get id >>= fun stage => write stage change >>= f).alone readings st =
      (f 1).alone (fun n => readings (n + 1)) (st.withStage (changed row change (readings 0))) := by
  have hread := StageRow.read_eq_ok hreadable
  rw [alone_get_bind hrow, hread, settle_ok, pure_bind, alone_write_bind hst hrow hread hplan]
  rfl

theorem stage?_changed (hrow : st.stage? id = some row) (change : StageChange) (now : Instant) :
    (st.withStage (changed row change now)).stage? id = some (changed row change now) := by
  refine Store.stage?_withStage hrow ?_
  rw [changed, Statement.id_onStage, (Store.stage?_some hrow).2]

theorem keyed_changed (hst : st.Keyed) (hrow : st.stage? id = some row) (change : StageChange)
    (now : Instant) : (st.withStage (changed row change now)).Keyed := by
  rw [changed, ← StageChange.engine_statement hst hrow rfl]
  exact Statement.keyed_engine hst _

theorem changed_activate (hpending : row.status = .pending) (now : Instant) :
    changed row .activate now = row.activated (.ofInstant now) := by
  simp [changed, StageChange.statement, Statement.onStage, StageRow.isAt, StageOf.map, hpending]

theorem durationMs_changed_finalize (row : StageRow) (status : StageStatus)
    (message : Option String) (now : Instant) :
    (changed row (.finalize status message) now).durationMs =
      row.startedAt.map fun start => start.named.elapsedMillis now := by
  simp [changed, StageChange.statement, Statement.onStage, StageRow.isAt, StageRow.finalized,
    StageOf.map, Function.comp_def]

/-- What is kept is the whole milliseconds between the two readings of the clock. -/
theorem durationMs_activateAndFinalize (hst : st.Keyed) (hrow : st.stage? id = some row)
    (hreadable : row.Readable) (hpending : row.status = .pending) (hnew : row.startedAt = none)
    {status : StageStatus} (hterminal : status.isTerminal = true) (message : Option String)
    (readings : Nat → Instant) (hreading : (readings 0).Storable) : ∃ row',
      ((activateAndFinalize id status message).alone readings st).2.stage? id = some row' ∧
      row'.durationMs = some ((readings 0).cut.elapsedMillis (readings 1).cut) := by
  have hactivate : StageChange.plan? (row.map Stamp.named) (.running true) = some .activate := by
    simp [StageChange.plan?, StageOf.map, hpending, StageStatus.isTerminal]
  have hactive := changed_activate hpending (readings 0)
  have hstart : (changed row .activate (readings 0)).startedAt =
      some (.ofInstant (readings 0)) := by
    rw [hactive, StageRow.activated, hnew, Option.none_or]
  have hreadable' : (changed row .activate (readings 0)).Readable := by
    refine ⟨?_, by rw [hactive]; exact hreadable.completedAt⟩
    rw [hstart]
    exact Stamp.readable_some (Stamp.readable_ofInstant hreading)
  have hfinalize : StageChange.plan? ((changed row .activate (readings 0)).map Stamp.named)
      (.finished status message) = some (.finalize status message) := by
    have hne : (StageStatus.active == status) = false := by
      cases status <;> simp [StageStatus.isTerminal] at hterminal ⊢
    simp [StageChange.plan?, StageOf.map, hactive, StageRow.activated, hne]
  refine ⟨changed (changed row .activate (readings 0)) (.finalize status message) (readings 1),
    ?_, ?_⟩
  · rw [activateAndFinalize, alone_get_write_bind hst hrow hreadable hactivate,
      alone_get_write_bind (keyed_changed hst hrow _ _) (stage?_changed hrow _ _) hreadable'
        hfinalize]
    exact stage?_changed (stage?_changed hrow _ _) _ _
  · rw [durationMs_changed_finalize, hstart, Option.map_some, Stamp.named_ofInstant hreading,
      Instant.elapsedMillis_cut]

end Stages

namespace Executions

open Service JulianDay

/-- Where an execution was first active at one time and first terminal at another, after it was
started, and a stage was activated and finalized at the same two times, the stage tells the whole
milliseconds from the one to the other, or zero if there are none. The execution tells the same
exactly if both times lie on the Julian day scale and are rounded as if what lies between them had
been cut; on the scale it always tells how far the two are apart when each is rounded to the
millisecond nearest to it. -/
theorem durations_agree_iff {st created after : Store} {request : ExecutionRequest}
    {freshId : String} {e : Execution} {readings : Nat → Instant} {reports : List Report}
    (hcreate : (create request freshId).alone readings st = (some (.ok e), created))
    (hreports : Reported freshId created reports after) {start finish : Instant}
    (hspan : Report.span? reports = some (start, finish)) (hstart : start.Storable)
    {st' : Store} (hst' : st'.Reached Instant.Storable) {id : String} {row : StageRow}
    (hrow : st'.stage? id = some row) (hpending : row.status = .pending)
    (hnew : row.startedAt = none) {status : StageStatus} (hterminal : status.isTerminal = true)
    (message : Option String) :
    ∃ execution stage, after.execution? freshId = some execution ∧
      ((Stages.activateAndFinalize id status message).alone
        (fun n => if n = 0 then start else finish) st').2.stage? id = some stage ∧
      stage.durationMs = some (max 0 ((finish.cut.nanos - start.cut.nanos) / 1000000)) ∧
      (execution.durationMs = stage.durationMs ↔
        Covers start ∧ Covers finish ∧ SameMillis start finish) ∧
      (Covers start → Covers finish →
        execution.durationMs = some (nearestMillis finish - nearestMillis start) ∧
        |nearestMillis start * 1000000 - start.cut.nanos| ≤ 500000 ∧
        |nearestMillis finish * 1000000 - finish.cut.nanos| ≤ 500000) := by
  obtain ⟨rfl, hcreated⟩ := (yields_created request freshId st).of_alone hcreate e rfl
  obtain ⟨stage, hstage, hduration⟩ := Stages.durationMs_activateAndFinalize hst'.keyed hrow
    ((hst'.legible fun _ ht => ht).stages row (Store.stage?_some hrow).1) hpending hnew hterminal
    message (fun n => if n = 0 then start else finish) hstart
  have hbook : (Report.book reports (request.execution freshId).row).durationMs =
      between? (.ofInstant start) (.ofInstant finish) := by
    simp only [Report.book, hspan, Option.bind_some]
  refine ⟨_, stage, book_of_reported hreports hcreated rfl, hstage, hduration, ?_,
    fun hsince htill => ⟨?_, nearestMillis_near start, nearestMillis_near finish⟩⟩
  · rw [hbook, hduration]
    constructor
    · intro hsame
      have hsome := (isSome_between?_ofInstant start finish).mp (by rw [hsame]; rfl)
      rw [between?_ofInstant hsome.1 hsome.2] at hsame
      exact ⟨hsome.1, hsome.2, (nearestMillis_sub_eq_iff start finish).mp (Option.some.inj hsame)⟩
    · rintro ⟨hsince, htill, hsame⟩
      rw [between?_ofInstant hsince htill, (nearestMillis_sub_eq_iff start finish).mpr hsame]
      rfl
  · rw [hbook, between?_ofInstant hsince htill]

open Timed

/-- The stage of the execution has not begun. -/
theorem exists_pending_stage : opened.Reached Instant.Storable ∧ ∃ row,
    opened.stage? "st" = some row ∧ row.status = .pending ∧ row.startedAt = none := by
  constructor
  · refine ⟨OneExecution.requests .active, OneExecution.turns 0 3 ++ OneExecution.turns 1 3,
      by decide, ?_⟩
    rw [Store.engine_eq_ordered]
    rfl
  · have hfields : (opened.stage? "st").map (fun row => (row.status, row.startedAt)) =
        some (.pending, none) := by decide +kernel
    obtain ⟨row, hrow, hfields⟩ := Option.map_eq_some_iff.mp hfields
    obtain ⟨hstatus, hstart⟩ := Prod.mk.inj hfields
    exact ⟨row, hrow, hstatus, hstart⟩

def forward : List Report := [⟨.active, none, ⟨0⟩⟩, ⟨.completed, none, ⟨1500000000⟩⟩]

theorem durations_agree_forward : ∃ e created after execution stage,
    (create agent "e").alone (fun _ => ⟨0⟩) opened = (some (.ok e), created) ∧
    Reported "e" created forward after ∧ after.execution? "e" = some execution ∧
    ((Stages.activateAndFinalize "st" .completed none).alone
      (fun n => if n = 0 then ⟨0⟩ else ⟨1500000000⟩) opened).2.stage? "st" = some stage ∧
    stage.durationMs = some 1500 ∧ execution.durationMs = some 1500 := by
  obtain ⟨e, created, hcreate⟩ := exists_created
  obtain ⟨hreached, row, hrow, hpending, hnew⟩ := exists_pending_stage
  have hreports : Reported "e" created forward _ := (Reported.nothing.call _).call _
  have hspan : Report.span? forward = some (⟨0⟩, ⟨1500000000⟩) := rfl
  have hterminal : StageStatus.completed.isTerminal = true := rfl
  obtain ⟨execution, stage, hexecution, hstage, hduration, hagree, _⟩ :=
    durations_agree_iff hcreate hreports hspan (by decide) hreached hrow hpending hnew
      hterminal none
  have hsame : SameMillis ⟨0⟩ ⟨1500000000⟩ :=
    sameMillis_of_whole (by decide) (by decide) (by decide)
  refine ⟨e, created, _, execution, stage, hcreate, hreports, hexecution, hstage, hduration, ?_⟩
  rw [hagree.mpr ⟨by decide, by decide, hsame⟩, hduration]
  rfl

/-- The clock is set back by a second and a half while the execution is active. -/
def backward : List Report := [⟨.active, none, ⟨2000000000⟩⟩, ⟨.completed, none, ⟨500000000⟩⟩]

/-- The execution is then told to have taken less than no time, and the stage none. -/
theorem durations_disagree_backward : ∃ e created after execution stage,
    (create agent "e").alone (fun _ => ⟨0⟩) opened = (some (.ok e), created) ∧
    Reported "e" created backward after ∧ after.execution? "e" = some execution ∧
    ((Stages.activateAndFinalize "st" .completed none).alone
      (fun n => if n = 0 then ⟨2000000000⟩ else ⟨500000000⟩) opened).2.stage? "st" = some stage ∧
    stage.durationMs = some 0 ∧ execution.durationMs = some (-1500) := by
  obtain ⟨e, created, hcreate⟩ := exists_created
  obtain ⟨hreached, row, hrow, hpending, hnew⟩ := exists_pending_stage
  have hreports : Reported "e" created backward _ := (Reported.nothing.call _).call _
  obtain ⟨rfl, hcreated⟩ := (yields_created agent "e" opened).of_alone hcreate e rfl
  have hterminal : StageStatus.completed.isTerminal = true := rfl
  obtain ⟨stage, hstage, hduration⟩ := Stages.durationMs_activateAndFinalize hreached.keyed hrow
    ((hreached.legible fun _ ht => ht).stages row (Store.stage?_some hrow).1) hpending hnew
      hterminal
    none (fun n => if n = 0 then ⟨2000000000⟩ else ⟨500000000⟩) (by decide)
  have hspan : Report.span? backward = some (⟨2000000000⟩, ⟨500000000⟩) := rfl
  have hnegative : (Report.book backward (agent.execution "e").row).durationMs = some (-1500) := by
    simp only [Report.book, hspan, Option.bind_some]
    decide +kernel
  refine ⟨_, created, _, _, stage, hcreate, hreports,
    book_of_reported hreports hcreated rfl, hstage, hduration, hnegative⟩

end Executions
end AlertDesk
