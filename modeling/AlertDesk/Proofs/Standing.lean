import AlertDesk.Proofs.StageView

/-!
How a stage stands after a series of recomputes. A recompute leaves the status that the verdict on
the executions demands; where the verdict leaves it open whether the stage has begun, the status
that it had stays. So a stage stands by what its executions were at every recompute.
-/
namespace AlertDesk

def Verdict.settle : Verdict → StageStatus → StageStatus
  | .noExecutions, status => status
  | .running true, _ => .active
  | .running false, status => if status.isTerminal then .pending else status
  | .finished status _, _ => status

theorem Verdict.settle_of_admits {v : Verdict} {status : StageStatus} {message : Option String}
    (h : v.admits status message = true) : v.settle status = status := by
  cases v with
  | noExecutions => rfl
  | running anyActive =>
    simp only [admits, Bool.and_eq_true, Bool.not_eq_true', Bool.or_eq_true, beq_iff_eq] at h
    cases anyActive with
    | true =>
      have hactive : status = .active := by simpa using h.2
      exact hactive.symm
    | false => simp [settle, h.1]
  | finished s m =>
    simp only [admits, Bool.and_eq_true, beq_iff_eq] at h
    exact h.1.symm

theorem StageChange.settle_of_plan {τ : Type} {stage : StageOf τ} {v : Verdict}
    {change : StageChange} (h : plan? stage v = some change) (message : Option String) :
    (change.outcome message).1 = v.settle stage.status := by
  cases v with
  | noExecutions => cases h
  | running anyActive =>
    simp only [plan?] at h
    split at h
    · next hterminal =>
      cases h
      cases anyActive with
      | true => rfl
      | false => exact (if_pos hterminal).symm
    · split at h
      · next hactive =>
        cases h
        rw [Bool.and_eq_true] at hactive
        rw [hactive.1]
        rfl
      · cases h
  | finished status m =>
    simp only [plan?] at h
    split at h
    · cases h
    · cases h
      rfl

/-- The statuses of the top-level executions of a stage after each call, the last ones first. -/
abbrev StageTrace := List (List StageStatus)

namespace StageTrace

/-- One execution is active, or there are some and all of them are terminal. -/
def decides (statuses : List StageStatus) : Bool :=
  statuses.contains .active || (!statuses.isEmpty && statuses.all (·.isTerminal))

def wasActive (trace : StageTrace) : Bool := (trace.find? decides).any (·.contains .active)

/-- The last executions that there were have ended, and the stage with them, or it stands as it did
when that was decided last. -/
def standing (policy : SuccessPolicy) (trace : StageTrace) : StageStatus :=
  match (trace.find? (!·.isEmpty)).map (Verdict.of policy) with
  | some (.finished status _) => status
  | _ => if wasActive trace then .active else .pending

variable {policy : SuccessPolicy} {statuses : List StageStatus} {trace : StageTrace}

theorem decides_of_finished {status : StageStatus} {message : Option String}
    (h : Verdict.of policy statuses = .finished status message) :
    decides statuses = true ∧ statuses.contains .active = false := by
  have hne : statuses ≠ [] := by
    intro hempty
    rw [hempty] at h
    cases h
  rcases Verdict.of_cases policy hne with ⟨_, hof⟩ | ⟨hall, _⟩
  · rw [hof] at h
    cases h
  · have hactive : statuses.contains .active = false := by
      rw [List.contains_eq_mem, decide_eq_false_iff_not]
      intro hmem
      cases hall _ hmem
    have hterminal : statuses.all (·.isTerminal) = true := List.all_eq_true.mpr hall
    refine ⟨?_, hactive⟩
    simp [decides, hterminal, hne]

/-- What is not decided yet is running, with nothing active in it. -/
theorem of_of_not_decides (policy : SuccessPolicy) (hne : statuses ≠ [])
    (h : decides statuses = false) : Verdict.of policy statuses = .running false := by
  rcases Verdict.of_cases policy hne with ⟨_, hof⟩ | ⟨_, status, message, hof, _⟩
  · simp only [decides, Bool.or_eq_false_iff] at h
    rw [hof, h.1]
  · rw [(decides_of_finished hof).1] at h
    cases h

theorem wasActive_cons_of_decides (h : decides statuses = true) :
    wasActive (statuses :: trace) = statuses.contains .active := by
  simp only [wasActive, List.find?_cons_of_pos h, Option.any_some]

theorem wasActive_cons_of_not_decides (h : decides statuses = false) :
    wasActive (statuses :: trace) = wasActive trace := by
  rw [wasActive, List.find?_cons_of_neg (Bool.eq_false_iff.mp h), wasActive]

theorem standing_nil_cons : standing policy ([] :: trace) = standing policy trace := by
  rw [standing, wasActive_cons_of_not_decides rfl]
  rfl

/-- The last executions that there are speak for themselves. -/
theorem standing_cons_of_ne (hne : statuses ≠ []) : standing policy (statuses :: trace) =
    match Verdict.of policy statuses with
    | .finished status _ => status
    | _ => if wasActive (statuses :: trace) then .active else .pending := by
  have hfound : List.find? (!·.isEmpty) (statuses :: trace) = some statuses :=
    List.find?_cons_of_pos (by simpa using hne)
  rw [standing, hfound, Option.map_some]
  cases Verdict.of policy statuses <;> rfl

/-- A stage has ended, or it is active just if it was when that was decided last. -/
theorem standing_cases (policy : SuccessPolicy) (trace : StageTrace) :
    ((standing policy trace).isTerminal = true ∧ wasActive trace = false) ∨
      standing policy trace = if wasActive trace then .active else .pending := by
  induction trace with
  | nil => exact .inr rfl
  | cons statuses trace ih =>
    by_cases hempty : statuses = []
    · subst hempty
      rw [standing_nil_cons, wasActive_cons_of_not_decides rfl]
      exact ih
    · have hstands : standing policy (statuses :: trace) = _ := standing_cons_of_ne hempty
      cases hof : Verdict.of policy statuses with
      | finished status message =>
        obtain ⟨hdecides, hactive⟩ := decides_of_finished hof
        rw [hof] at hstands
        rw [hstands, wasActive_cons_of_decides hdecides]
        exact .inl ⟨Verdict.isTerminal_of_finished hof, hactive⟩
      | noExecutions | running =>
        rw [hof] at hstands
        exact .inr hstands

theorem standing_cons_of_not_decides (hne : statuses ≠ []) (h : decides statuses = false) :
    standing policy (statuses :: trace) = if wasActive trace then .active else .pending := by
  rw [standing_cons_of_ne hne, of_of_not_decides policy hne h, wasActive_cons_of_not_decides h]

/-- A stage comes to stand as recomputes leave it, one after the other. -/
theorem standing_cons (policy : SuccessPolicy) (statuses : List StageStatus) (trace : StageTrace) :
    standing policy (statuses :: trace) =
      (Verdict.of policy statuses).settle (standing policy trace) := by
  by_cases hempty : statuses = []
  · subst hempty
    exact standing_nil_cons
  · cases hdecides : decides statuses with
    | false =>
      rw [standing_cons_of_not_decides hempty hdecides, of_of_not_decides policy hempty hdecides]
      rcases standing_cases policy trace with ⟨hterminal, hactive⟩ | hstands
      · simp [Verdict.settle, hterminal, hactive]
      · rw [hstands]
        cases wasActive trace <;> rfl
    | true =>
      rw [standing_cons_of_ne hempty, wasActive_cons_of_decides hdecides]
      rcases Verdict.of_cases policy hempty with
        ⟨⟨s, hs, hopen⟩, hof⟩ | ⟨_, status, message, hof, _⟩
      · have hactive : statuses.contains .active = true := by
          have hnot : statuses.all (·.isTerminal) = false :=
            List.all_eq_false.mpr ⟨s, hs, by simp [hopen]⟩
          simpa [decides, hnot] using hdecides
        rw [hof, hactive]
        rfl
      · rw [hof]
        rfl

/-- What is decided does not depend on what was before. -/
theorem standing_cons_of_decides (h : decides statuses = true) (trace trace' : StageTrace) :
    standing policy (statuses :: trace) = standing policy (statuses :: trace') := by
  have hne : statuses ≠ [] := by
    intro hempty
    rw [hempty] at h
    cases h
  rw [standing_cons_of_ne hne, standing_cons_of_ne hne, wasActive_cons_of_decides h,
    wasActive_cons_of_decides h]

theorem standing_perm {statuses' : List StageStatus} (h : statuses.Perm statuses')
    (trace : StageTrace) :
    standing policy (statuses :: trace) = standing policy (statuses' :: trace) := by
  rw [standing_cons, standing_cons, Verdict.of_perm h]

/-- When two stages that have the same executions in the end stand in the same way. -/
theorem standing_eq_iff {statuses' : List StageStatus} (h : statuses.Perm statuses')
    (trace trace' : StageTrace) :
    standing policy (statuses :: trace) = standing policy (statuses' :: trace') ↔
      decides statuses = true ∨
      (statuses ≠ [] ∧ wasActive trace = wasActive trace') ∨
      (statuses = [] ∧ standing policy trace = standing policy trace') := by
  rw [← standing_perm h]
  by_cases hempty : statuses = []
  · subst hempty
    simp [standing_nil_cons, decides]
  · cases hdecides : decides statuses with
    | true => simp [standing_cons_of_decides hdecides trace trace']
    | false =>
      rw [standing_cons_of_not_decides hempty hdecides,
        standing_cons_of_not_decides hempty hdecides]
      cases wasActive trace <;> cases wasActive trace' <;> simp [hempty]

end StageTrace
end AlertDesk
