import AlertDesk.Task

/-!
The life of a background task, under any order of starts, of stops and of loops that end. A stop is
two steps, and whatever happens between them finds the task stopping: no loop is spawned, and no
other stop waits. So the loop that the stop cancelled stays the newest, and when the stop returns
every loop has ended.
-/
namespace AlertDesk
namespace Task

/-- What a caller of the task has been told so far. A stop waits for a loop or has returned, with
the loop that it waited for; loops are told apart by how many were spawned before. -/
inductive Caller where
  | started (spawned : Bool)
  | waits (older : Nat)
  | stopped (older : Option Nat)
deriving DecidableEq, Repr

def Caller.isWaiting : Caller → Bool
  | .waits _ => true
  | _ => false

structure Shared where
  task : Task := {}
  callers : List Caller := []
deriving DecidableEq, Repr

inductive Event where
  | start
  | stop
  | resume (caller : Nat)
  | loopEnds (older : Nat)
deriving DecidableEq, Repr

def loop? (older : Nat) (t : Task) : Option Loop := t.loops.reverse[older]?

namespace Shared

/-- A step of a caller, which only a stop that waits has. It goes by the newest loop, and that is
the loop it waits for. -/
def resume (caller : Nat) (y : Shared) : Shared :=
  match y.callers[caller]? with
  | some (.waits older) =>
    match y.task.finishStop? with
    | some task => ⟨task, y.callers.set caller (.stopped (some older))⟩
    | none => y
  | _ => y

def step (y : Shared) : Event → Shared
  | .start => ⟨y.task.start.2, y.callers ++ [.started y.task.start.1]⟩
  | .stop =>
    let answer := if y.task.beginStop.1 then .waits (y.task.spawned - 1) else .stopped none
    ⟨y.task.beginStop.2, y.callers ++ [answer]⟩
  | .resume caller => y.resume caller
  | .loopEnds older => { y with task := y.task.endLoop older }

def run (events : List Event) (y : Shared) : Shared := events.foldl step y

def Reached (y : Shared) : Prop := ∃ events, y = run events {}

end Shared

/-! ### Loops -/

section
variable {t : Task} {k : Nat} {loop : Loop}

theorem loop?_cons (phase : Phase) (newest : Loop) (older : List Loop) (k : Nat) :
    loop? k ⟨phase, newest :: older⟩ =
      if k = older.length then some newest else loop? k ⟨phase, older⟩ := by
  rw [loop?, List.reverse_cons, List.getElem?_append, List.length_reverse]
  by_cases hk : k < older.length
  · rw [if_pos hk, if_neg (Nat.ne_of_lt hk), loop?]
  · by_cases hnew : k = older.length
    · simp [hnew]
    · rw [if_neg hk, if_neg hnew, loop?, List.getElem?_eq_none (by simp; omega),
        List.getElem?_eq_none (by simp; omega)]

theorem loop?_lt (h : t.loop? k = some loop) : k < t.loops.length := by
  obtain ⟨hk, _⟩ := List.getElem?_eq_some_iff.mp h
  rwa [List.length_reverse] at hk

theorem loop?_endLoop (ending : Nat) (t : Task) (k : Nat) : (t.endLoop ending).loop? k =
    (t.loop? k).map fun loop => if k = ending then { loop with hasEnded := true } else loop := by
  by_cases hk : k < t.loops.length
  · have hplace : t.loops.length - 1 - k + ending + 1 = t.loops.length ↔ k = ending := by omega
    simp only [loop?, endLoop, List.getElem?_reverse, List.length_mapIdx, hk, List.getElem?_mapIdx,
      hplace]
  · rw [loop?, loop?, List.getElem?_eq_none (by simpa [endLoop] using hk),
      List.getElem?_eq_none (by simpa using hk)]
    rfl

/-- A loop that ends is the newest or one of the older ones. -/
theorem endLoop_cons (ending : Nat) (phase : Phase) (newest : Loop) (older : List Loop) :
    endLoop ending ⟨phase, newest :: older⟩ =
      ⟨phase, (if ending = older.length then { newest with hasEnded := true } else newest) ::
        (endLoop ending ⟨phase, older⟩).loops⟩ := by
  have hnewest : 0 + ending + 1 = older.length + 1 ↔ ending = older.length := by omega
  have holder (i : Nat) : i + 1 + ending + 1 = older.length + 1 ↔
      i + ending + 1 = older.length := by
    omega
  simp only [endLoop, List.mapIdx_cons, List.length_cons, hnewest, holder]

def Quiet (loops : List Loop) : Prop := ∀ loop ∈ loops, loop.hasEnded = true

theorem Quiet.endLoop {phase : Phase} {loops : List Loop} (h : Quiet loops) (ending : Nat) :
    Quiet (Task.endLoop ending ⟨phase, loops⟩).loops := by
  intro loop hloop
  obtain ⟨i, hi, rfl⟩ := List.mem_mapIdx.mp hloop
  by_cases hend : i + ending + 1 = loops.length
  · simp [hend]
  · simpa [hend] using h _ (List.getElem_mem hi)

theorem Quiet.countP {loops : List Loop} (h : Quiet loops) : loops.countP (!·.hasEnded) = 0 :=
  List.countP_eq_zero.mpr fun loop hloop => by simp [h loop hloop]

/-! ### The phase and the loops -/

/-- While the task is not idle only its newest loop may be left, which is cancelled once it is
stopping. -/
inductive Consistent : Task → Prop where
  | idle {loops : List Loop} : Quiet loops → Consistent ⟨.idle, loops⟩
  | running {newest : Loop} {older : List Loop} :
    newest.isCancelled = false → Quiet older → Consistent ⟨.running, newest :: older⟩
  | stopping {newest : Loop} {older : List Loop} :
    newest.isCancelled = true → Quiet older → Consistent ⟨.stopping, newest :: older⟩

theorem Consistent.start (h : t.Consistent) : t.start.2.Consistent := by
  cases h with
  | idle hquiet => exact .running rfl hquiet
  | running hnewest hquiet => exact .running hnewest hquiet
  | stopping hnewest hquiet => exact .stopping hnewest hquiet

theorem Consistent.beginStop (h : t.Consistent) : t.beginStop.2.Consistent := by
  cases h with
  | idle hquiet => exact .idle hquiet
  | running hnewest hquiet => exact .stopping rfl hquiet
  | stopping hnewest hquiet => exact .stopping hnewest hquiet

theorem Consistent.endLoop (h : t.Consistent) (ending : Nat) : (t.endLoop ending).Consistent := by
  cases h with
  | idle hquiet => exact .idle (hquiet.endLoop ending)
  | running hnewest hquiet =>
    rw [endLoop_cons]
    refine .running ?_ (hquiet.endLoop ending)
    split <;> exact hnewest
  | stopping hnewest hquiet =>
    rw [endLoop_cons]
    refine .stopping ?_ (hquiet.endLoop ending)
    split <;> exact hnewest

theorem Consistent.quiet_of_idle (h : t.Consistent) (hidle : t.phase = .idle) : Quiet t.loops := by
  cases h with
  | idle hquiet => exact hquiet
  | running => cases hidle
  | stopping => cases hidle

theorem Consistent.countP_le_one (h : t.Consistent) : t.loops.countP (!·.hasEnded) ≤ 1 := by
  have hone {newest : Loop} {older : List Loop} (hquiet : Quiet older) :
      (newest :: older).countP (!·.hasEnded) ≤ 1 := by
    rw [List.countP_cons, hquiet.countP]
    split <;> omega
  cases h with
  | idle hquiet => exact hquiet.countP ▸ Nat.zero_le 1
  | running _ hquiet => exact hone hquiet
  | stopping _ hquiet => exact hone hquiet

theorem Consistent.beginStop_of_running (h : t.Consistent) (hrunning : t.phase = .running) :
    ∃ newest older, t.loops = newest :: older ∧ newest.isCancelled = false ∧
      t.beginStop = (true, ⟨.stopping, { newest with isCancelled := true } :: older⟩) := by
  cases h with
  | idle => cases hrunning
  | running hnewest => exact ⟨_, _, rfl, hnewest, rfl⟩
  | stopping => cases hrunning

theorem beginStop_of_not_running (h : t.phase ≠ .running) : t.beginStop = (false, t) := by
  unfold beginStop
  split
  · next hrunning _ => exact absurd hrunning h
  · rfl

/-- While the task stops, its last step is up to the newest loop, which is cancelled. -/
theorem Consistent.finishStop?_of_stopping (h : t.Consistent) (hstopping : t.phase = .stopping) :
    ∃ newest, t.loop? (t.spawned - 1) = some newest ∧ newest.isCancelled = true ∧
      t.finishStop? = if newest.hasEnded then some { t with phase := .idle } else none := by
  cases h with
  | idle => cases hstopping
  | running => cases hstopping
  | @stopping newest older hnewest =>
    refine ⟨newest, ?_, hnewest, rfl⟩
    rw [loop?_cons]
    exact if_pos rfl

theorem finishStop?_eq_some {t' : Task} (h : t.finishStop? = some t') :
    t.phase = .stopping ∧ t' = { t with phase := .idle } ∧
      ∃ newest, t.loops.head? = some newest ∧ newest.hasEnded = true := by
  unfold finishStop? at h
  split at h
  · next newest older hphase hloops =>
    split at h
    · next hended => exact ⟨hphase, (Option.some.inj h).symm, newest, by rw [hloops]; rfl, hended⟩
    · cases h
  · cases h

theorem Consistent.finishStop {t' : Task} (h : t.Consistent) (hfinish : t.finishStop? = some t') :
    t'.Consistent := by
  obtain ⟨hphase, rfl, last, hlast, hended⟩ := finishStop?_eq_some hfinish
  cases h with
  | idle => cases hphase
  | running => cases hphase
  | stopping _ hquiet =>
    cases hlast
    exact .idle (List.forall_mem_cons.mpr ⟨hended, hquiet⟩)

/-! ### What becomes of a loop -/

theorem loop?_start (h : t.loop? k = some loop) : t.start.2.loop? k = some loop := by
  unfold start
  split
  · rw [loop?_cons, if_neg (Nat.ne_of_lt (loop?_lt h))]
    exact h
  · exact h

theorem loop?_beginStop (h : t.loop? k = some loop) : t.beginStop.2.loop? k =
    some (if t.phase = .running ∧ k + 1 = t.spawned then { loop with isCancelled := true }
      else loop) := by
  by_cases hrunning : t.phase = .running
  · obtain ⟨phase, loops⟩ := t
    cases hrunning
    cases loops with
    | nil => cases h
    | cons newest older =>
      rw [loop?_cons] at h
      have hnewest : k + 1 = spawned ⟨.running, newest :: older⟩ ↔ k = older.length := by
        simp [spawned]
      simp only [beginStop, loop?_cons, hnewest, true_and]
      by_cases hk : k = older.length
      · rw [if_pos hk] at h ⊢
        rw [if_pos hk, Option.some.inj h]
      · rw [if_neg hk] at h ⊢
        rw [if_neg hk]
        exact h
  · rw [beginStop_of_not_running hrunning, if_neg fun hboth => hrunning hboth.1]
    exact h

end

namespace Shared

variable {y : Shared} {i k : Nat} {loop : Loop}

theorem task_resume (caller : Nat) (y : Shared) :
    (y.resume caller).task = y.task ∨ y.task.finishStop? = some (y.resume caller).task := by
  unfold resume
  split
  · split
    · next hfinish => exact .inr hfinish
    · exact .inl rfl
  · exact .inl rfl

theorem loops_resume (caller : Nat) (y : Shared) : (y.resume caller).task.loops = y.task.loops := by
  rcases task_resume caller y with hsame | hfinish
  · rw [hsame]
  · rw [(finishStop?_eq_some hfinish).2.1]

/-- A step cancels the loop of a running task if it is a stop, and ends the loop that it is the end
of; any other loop stays as it is. -/
theorem loop?_step (h : y.task.loop? k = some loop) (event : Event) :
    ∃ after, (y.step event).task.loop? k = some after ∧
      (after.isCancelled = true ↔ loop.isCancelled = true ∨
        event = .stop ∧ y.task.phase = .running ∧ k + 1 = y.task.spawned) ∧
      (after.hasEnded = true ↔ loop.hasEnded = true ∨ event = .loopEnds k) := by
  cases event with
  | start => exact ⟨loop, loop?_start h, by simp, by simp⟩
  | stop =>
    refine ⟨_, loop?_beginStop h, ?_, ?_⟩
    · by_cases hnewest : y.task.phase = .running ∧ k + 1 = y.task.spawned <;> simp [hnewest]
    · by_cases hnewest : y.task.phase = .running ∧ k + 1 = y.task.spawned <;> simp [hnewest]
  | resume caller =>
    refine ⟨loop, ?_, by simp, by simp⟩
    rw [loop?, step, loops_resume]
    exact h
  | loopEnds ending =>
    refine ⟨if k = ending then { loop with hasEnded := true } else loop, ?_, ?_, ?_⟩
    · rw [step, loop?_endLoop, h]
      rfl
    · by_cases hk : k = ending <;> simp [hk]
    · by_cases hk : k = ending
      · simp [hk]
      · simp [hk, Ne.symm hk]

/-! ### The callers -/

def Over (y : Shared) (k : Nat) : Prop :=
  ∃ loop, y.task.loop? k = some loop ∧ loop.isCancelled = true ∧ loop.hasEnded = true

theorem Over.step (h : y.Over k) (event : Event) : (y.step event).Over k := by
  obtain ⟨loop, hloop, hcancelled, hended⟩ := h
  obtain ⟨after, hafter, hcancel, hend⟩ := loop?_step hloop event
  exact ⟨after, hafter, hcancel.mpr (.inl hcancelled), hend.mpr (.inl hended)⟩

/-- One stop waits while the task is stopping, for the newest loop, and none otherwise. Where a stop
has returned that had to wait, the loop is over. -/
structure Sound (y : Shared) : Prop where
  task : y.task.Consistent
  waiting : y.callers.countP Caller.isWaiting = if y.task.phase = .stopping then 1 else 0
  newest : ∀ k, .waits k ∈ y.callers → k + 1 = y.task.spawned
  returned : ∀ k, .stopped (some k) ∈ y.callers → y.Over k

theorem Sound.stopping_of_waits (h : y.Sound) (hcaller : .waits k ∈ y.callers) :
    y.task.phase = .stopping := by
  have hpos := List.countP_pos_iff.mpr ⟨_, hcaller, (rfl : Caller.isWaiting (.waits k) = true)⟩
  rw [h.waiting] at hpos
  cases hphase : y.task.phase with
  | stopping => rfl
  | idle => simp [hphase] at hpos
  | running => simp [hphase] at hpos

theorem Sound.not_waits (h : y.Sound) (hphase : y.task.phase ≠ .stopping) (k : Nat) :
    .waits k ∉ y.callers := fun hk => hphase (h.stopping_of_waits hk)

theorem step_stop_of_running (h : y.task.Consistent) (hrunning : y.task.phase = .running) :
    ∃ newest older, y.task.loops = newest :: older ∧ newest.isCancelled = false ∧ y.step .stop =
      ⟨⟨.stopping, { newest with isCancelled := true } :: older⟩,
        y.callers ++ [.waits older.length]⟩ := by
  obtain ⟨newest, older, hloops, hfresh, hbegin⟩ := h.beginStop_of_running hrunning
  refine ⟨newest, older, hloops, hfresh, ?_⟩
  rw [step, hbegin, spawned, hloops]
  rfl

theorem step_stop_of_not_running (h : y.task.phase ≠ .running) :
    y.step .stop = ⟨y.task, y.callers ++ [.stopped none]⟩ := by
  rw [step, beginStop_of_not_running h]
  rfl

theorem step_start_of_idle (h : y.task.phase = .idle) :
    y.step .start = ⟨⟨.running, {} :: y.task.loops⟩, y.callers ++ [.started true]⟩ := by
  rw [step, start, h]

theorem step_start_of_not_idle (h : y.task.phase ≠ .idle) :
    y.step .start = ⟨y.task, y.callers ++ [.started false]⟩ := by
  have hstart : y.task.start = (false, y.task) := by
    unfold start
    split
    · next hidle => exact absurd hidle h
    · rfl
  rw [step, hstart]

/-- A stop that waits goes on exactly when the loop that it cancelled has ended. -/
theorem Sound.resume_of_waits (h : y.Sound) (hcaller : y.callers[i]? = some (.waits k)) :
    ∃ loop, y.task.loop? k = some loop ∧ loop.isCancelled = true ∧ y.resume i =
      if loop.hasEnded then ⟨{ y.task with phase := .idle }, y.callers.set i (.stopped (some k))⟩
      else y := by
  have hmem := List.mem_of_getElem? hcaller
  obtain ⟨newest, hnewest, hcancelled, hfinish⟩ :=
    h.task.finishStop?_of_stopping (h.stopping_of_waits hmem)
  rw [← h.newest k hmem, Nat.add_sub_cancel] at hnewest
  refine ⟨newest, hnewest, hcancelled, ?_⟩
  simp only [resume, hcaller, hfinish]
  cases newest.hasEnded <;> rfl

theorem resume_of_not_waiting (h : ∀ k, y.callers[i]? ≠ some (.waits k)) : y.resume i = y := by
  unfold resume
  split
  · next hcaller => exact absurd hcaller (h _)
  · rfl

/-! ### What every step keeps -/

theorem Sound.start (h : y.Sound) : (y.step .start).Sound := by
  have hreturned : ∀ k, .stopped (some k) ∈ (y.step .start).callers → (y.step .start).Over k := by
    intro k hk
    exact (h.returned k (by simpa [step] using hk)).step .start
  have hcount := h.waiting
  by_cases hidle : y.task.phase = .idle
  · have hconsistent : (y.step .start).task.Consistent := h.task.start
    rw [step_start_of_idle hidle] at hconsistent hreturned ⊢
    refine ⟨hconsistent, ?_, ?_, hreturned⟩
    · simpa [hidle, List.countP_append, Caller.isWaiting] using hcount
    · exact fun k hk => absurd (by simpa using hk) (h.not_waits (by simp [hidle]) k)
  · rw [step_start_of_not_idle hidle] at hreturned ⊢
    refine ⟨h.task, ?_, fun k hk => h.newest k (by simpa using hk), hreturned⟩
    simpa [List.countP_append, Caller.isWaiting] using hcount

theorem Sound.stop (h : y.Sound) : (y.step .stop).Sound := by
  have hcount := h.waiting
  by_cases hrunning : y.task.phase = .running
  · have hreturned : ∀ k, .stopped (some k) ∈ y.callers → (y.step .stop).Over k :=
      fun k hk => (h.returned k hk).step .stop
    have hnone : ∀ k, .waits k ∉ y.callers := h.not_waits (by simp [hrunning])
    have hconsistent : (y.step .stop).task.Consistent := h.task.beginStop
    obtain ⟨newest, older, hloops, _, hstep⟩ := step_stop_of_running h.task hrunning
    rw [hstep] at hreturned hconsistent ⊢
    refine ⟨hconsistent, ?_, ?_, fun k hk => hreturned k (by simpa using hk)⟩
    · simpa [hrunning, List.countP_append, Caller.isWaiting] using hcount
    · intro k hk
      have hk' : k = older.length := by simpa [hnone k] using hk
      rw [hk']
      rfl
  · rw [step_stop_of_not_running hrunning]
    refine ⟨h.task, ?_, fun k hk => h.newest k (by simpa using hk),
      fun k hk => h.returned k (by simpa using hk)⟩
    simpa [List.countP_append, Caller.isWaiting] using hcount

theorem Sound.resume (h : y.Sound) (caller : Nat) : (y.step (.resume caller)).Sound := by
  have hconsistent : (y.resume caller).task.Consistent := by
    rcases task_resume caller y with hsame | hfinish
    · exact hsame ▸ h.task
    · exact h.task.finishStop hfinish
  by_cases hwaits : ∃ k, y.callers[caller]? = some (.waits k)
  · obtain ⟨k, hcaller⟩ := hwaits
    obtain ⟨loop, hloop, hcancelled, hresume⟩ := h.resume_of_waits hcaller
    rw [step, hresume]
    cases hended : loop.hasEnded with
    | false => exact h
    | true =>
      rw [hresume, hended] at hconsistent
      refine ⟨hconsistent, ?_, ?_, ?_⟩
      · obtain ⟨hlt, hget⟩ := List.getElem?_eq_some_iff.mp hcaller
        have hone := h.waiting
        rw [if_pos (h.stopping_of_waits (List.mem_of_getElem? hcaller))] at hone
        simp [List.countP_set hlt, hget, hone, Caller.isWaiting]
      · intro j hj
        rcases List.mem_or_eq_of_mem_set hj with hold | hnew
        · exact h.newest j hold
        · cases hnew
      · intro j hj
        rcases List.mem_or_eq_of_mem_set hj with hold | hnew
        · exact h.returned j hold
        · cases hnew
          exact ⟨loop, hloop, hcancelled, hended⟩
  · rw [step, resume_of_not_waiting fun k hk => hwaits ⟨k, hk⟩]
    exact h

theorem Sound.loopEnds (h : y.Sound) (ending : Nat) : (y.step (.loopEnds ending)).Sound where
  task := h.task.endLoop ending
  waiting := h.waiting
  newest := fun k hk => by
    rw [h.newest k hk]
    exact (List.length_mapIdx).symm
  returned := fun k hk => (h.returned k hk).step (.loopEnds ending)

theorem Sound.step (h : y.Sound) (event : Event) : (y.step event).Sound := by
  cases event with
  | start => exact h.start
  | stop => exact h.stop
  | resume caller => exact h.resume caller
  | loopEnds ending => exact h.loopEnds ending

/-- What every step keeps, a run keeps. -/
theorem run_keeps {P : Shared → Prop} (hstep : ∀ y event, P y → P (Shared.step y event)) (h : P y)
    (events : List Event) : P (Shared.run events y) := by
  induction events generalizing y with
  | nil => exact h
  | cons event events ih => exact ih (hstep y event h)

theorem Sound.run (h : y.Sound) (events : List Event) : (run events y).Sound :=
  run_keeps (fun _ event h => h.step event) h events

theorem Reached.sound (h : y.Reached) : y.Sound := by
  obtain ⟨events, rfl⟩ := h
  have hinitial : Sound {} :=
    ⟨.idle fun _ hloop => by simp at hloop, rfl, fun _ hk => by simp at hk,
      fun _ hk => by simp at hk⟩
  exact hinitial.run events

/-! ### A stop from its first step to its last -/

def Told (y : Shared) (i k : Nat) : Prop :=
  y.callers[i]? = some (.waits k) ∨ y.callers[i]? = some (.stopped (some k))

theorem Told.append (h : y.Told i k) (task : Task) (caller : Caller) :
    Told ⟨task, y.callers ++ [caller]⟩ i k := by
  have hold {told : Caller} (htold : y.callers[i]? = some told) :
      (y.callers ++ [caller])[i]? = some told := by
    rw [List.getElem?_append_left (List.getElem?_eq_some_iff.mp htold).1]
    exact htold
  exact h.imp hold hold

theorem Told.resume (h : y.Told i k) (caller : Nat) : (y.resume caller).Told i k := by
  unfold Shared.resume
  split
  · next older hcaller =>
    split
    · by_cases hi : caller = i
      · subst hi
        have hlt := (List.getElem?_eq_some_iff.mp hcaller).1
        rcases h with hwaits | hstopped
        · rw [hcaller] at hwaits
          cases hwaits
          exact .inr (by simp [hlt])
        · rw [hcaller] at hstopped
          cases hstopped
      · simpa [Told, List.getElem?_set, hi] using h
    · exact h
  · exact h

theorem Told.step (h : y.Told i k) (event : Event) : (y.step event).Told i k := by
  cases event with
  | start => exact h.append _ _
  | stop => exact h.append _ _
  | resume caller => exact h.resume caller
  | loopEnds ending => exact h

theorem Told.run (h : y.Told i k) (events : List Event) : (run events y).Told i k :=
  run_keeps (P := (·.Told i k)) (fun _ event h => h.step event) h events

/-- A stop that found the task running waits until the loop is over. -/
theorem Sound.waits_until_over (h : y.Sound) (hcaller : y.callers[i]? = some (.waits k))
    (events : List Event) : (Shared.run events y).callers[i]? = some (.waits k) ∨
      (Shared.run events y).callers[i]? = some (.stopped (some k)) ∧
        (Shared.run events y).Over k := by
  have htold : y.Told i k := .inl hcaller
  rcases htold.run events with hwaits | hstopped
  · exact .inl hwaits
  · exact .inr ⟨hstopped, (h.run events).returned k (List.mem_of_getElem? hstopped)⟩

end Shared

/-- How the task answers its callers, and what becomes of its loops. -/
structure Shared.RunsOneLoop (y : Shared) : Prop where
  atMostOne : y.task.loops.countP (!·.hasEnded) ≤ 1
  quiet : y.task.phase = .idle → ∀ loop ∈ y.task.loops, loop.hasEnded = true
  spawned : y.task.phase = .idle →
    y.step .start = ⟨⟨.running, {} :: y.task.loops⟩, y.callers ++ [.started true]⟩
  ignored : y.task.phase ≠ .idle → y.step .start = ⟨y.task, y.callers ++ [.started false]⟩
  cancelled : y.task.phase = .running → ∃ newest older, y.task.loops = newest :: older ∧
    newest.isCancelled = false ∧ y.step .stop =
      ⟨⟨.stopping, { newest with isCancelled := true } :: older⟩,
        y.callers ++ [.waits older.length]⟩
  stopped : y.task.phase ≠ .running → y.step .stop = ⟨y.task, y.callers ++ [.stopped none]⟩
  resumed : ∀ i k, y.callers[i]? = some (.waits k) →
    ∃ loop, y.task.loop? k = some loop ∧ loop.isCancelled = true ∧ y.step (.resume i) =
      if loop.hasEnded then
        ⟨{ y.task with phase := .idle }, y.callers.set i (.stopped (some k))⟩
      else y
  waits : ∀ i k : Nat, y.callers[i]? = some (.waits k) → ∀ events,
    (y.run events).callers[i]? = some (.waits k) ∨
      (y.run events).callers[i]? = some (.stopped (some k)) ∧ (y.run events).Over k
  loops : ∀ event k loop, y.task.loop? k = some loop → ∃ after,
    (y.step event).task.loop? k = some after ∧
    (after.isCancelled = true ↔ loop.isCancelled = true ∨
      event = .stop ∧ y.task.phase = .running ∧ k + 1 = y.task.spawned) ∧
    (after.hasEnded = true ↔ loop.hasEnded = true ∨ event = .loopEnds k)

/-- Under any order of starts, stops and ends of loops, at most one loop is left, and none while the
task is idle. A start spawns a loop, which is not cancelled, exactly when it finds the task idle. A
stop that finds the task running cancels the newest loop and waits until it has ended, and leaves
the task idle; any other stop does nothing and returns at once. Nothing else cancels a loop. -/
theorem runs_one_loop {y : Shared} (hy : y.Reached) : y.RunsOneLoop where
  atMostOne := hy.sound.task.countP_le_one
  quiet := hy.sound.task.quiet_of_idle
  spawned := Shared.step_start_of_idle
  ignored := Shared.step_start_of_not_idle
  cancelled := Shared.step_stop_of_running hy.sound.task
  stopped := Shared.step_stop_of_not_running
  resumed _ _ hcaller := hy.sound.resume_of_waits hcaller
  waits _ _ hcaller := hy.sound.waits_until_over hcaller
  loops event _ _ hloop := Shared.loop?_step hloop event

def Shared.stoppedTwice : Shared := run [.start, .stop, .stop] {}

/-- While the first stop waits no loop is spawned; it goes on once the loop has ended, not before,
and then the task can start again. -/
theorem first_stop_waits :
    Shared.stoppedTwice.step .start = ⟨Shared.stoppedTwice.task,
      [.started true, .waits 0, .stopped none, .started false]⟩ ∧
    Shared.stoppedTwice.step (.resume 1) = Shared.stoppedTwice ∧
    Shared.run [.loopEnds 0, .resume 1, .start] Shared.stoppedTwice =
      ⟨⟨.running, [{}, ⟨true, true⟩]⟩,
        [.started true, .stopped (some 0), .stopped none, .started true]⟩ := by
  have hreached : Shared.stoppedTwice.Reached := ⟨_, rfl⟩
  have hruns := runs_one_loop hreached
  refine ⟨hruns.ignored (by decide), ?_, by decide⟩
  obtain ⟨loop, hloop, _, hresume⟩ := hruns.resumed 1 0 rfl
  cases hloop
  exact hresume

end Task
end AlertDesk
