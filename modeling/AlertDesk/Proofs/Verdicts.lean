import AlertDesk.Service.Stages
import Mathlib.Tactic.SplitIfs

/-!
What a verdict asks of a stage. A stage is in line with the verdict on its executions when nothing
is left to be planned for it, and each change that is planned leaves it in line.
-/
namespace AlertDesk

namespace Verdict

/-- A stage with this status and this message is in line with the verdict. -/
def admits : Verdict → StageStatus → Option String → Bool
  | .noExecutions, _, _ => true
  | .running anyActive, status, _ => !status.isTerminal && (!anyActive || status == .active)
  | .finished status message, status', message' => status' == status && message' == message

/-- A verdict depends only on which statuses occur. -/
theorem of_congr {statuses statuses' : List StageStatus} (h : ∀ s, s ∈ statuses ↔ s ∈ statuses')
    (policy : SuccessPolicy) : of policy statuses = of policy statuses' := by
  have hempty : statuses.isEmpty = statuses'.isEmpty := by
    rw [Bool.eq_iff_iff, List.isEmpty_iff, List.isEmpty_iff, List.eq_nil_iff_forall_not_mem,
      List.eq_nil_iff_forall_not_mem]
    exact forall_congr' fun s => not_congr (h s)
  have hany (p : StageStatus → Bool) : statuses.any p = statuses'.any p := by
    rw [Bool.eq_iff_iff, List.any_eq_true, List.any_eq_true]
    simp only [h]
  have hall (p : StageStatus → Bool) : statuses.all p = statuses'.all p := by
    rw [Bool.eq_iff_iff, List.all_eq_true, List.all_eq_true]
    simp only [h]
  have hcontains (s : StageStatus) : statuses.contains s = statuses'.contains s := by
    rw [Bool.eq_iff_iff, List.contains_iff_mem, List.contains_iff_mem]
    exact h s
  have hsucceeds : succeeds policy statuses = succeeds policy statuses' := by
    cases policy with
    | all => exact hall _
    | any => exact hcontains _
  simp only [of, hempty, hany, hall, hcontains, hsucceeds]

/-- A verdict that is not empty is finished exactly when every execution is. -/
theorem of_cases (policy : SuccessPolicy) {statuses : List StageStatus} (hne : statuses ≠ []) :
    ((∃ s ∈ statuses, s.isTerminal = false) ∧
      of policy statuses = .running (statuses.contains .active)) ∨
    ((∀ s ∈ statuses, s.isTerminal = true) ∧
      ∃ status message,
        of policy statuses = .finished status message ∧ status.isTerminal = true) := by
  have hempty : statuses.isEmpty = false := by simpa using hne
  by_cases hrun : statuses.any (!·.isTerminal) = true
  · left
    refine ⟨by simpa using hrun, ?_⟩
    simp only [of, hempty, hrun, if_true, Bool.false_eq_true, if_false]
  · right
    refine ⟨by simpa using hrun, ?_⟩
    simp only [of, hempty, hrun, Bool.false_eq_true, if_false]
    split_ifs
    all_goals exact ⟨_, _, rfl, rfl⟩

theorem isTerminal_of_finished {policy : SuccessPolicy} {statuses : List StageStatus}
    {status : StageStatus} {message : Option String}
    (h : of policy statuses = .finished status message) : status.isTerminal = true := by
  have hne : statuses ≠ [] := by
    intro hempty
    rw [hempty] at h
    cases h
  rcases of_cases policy hne with ⟨_, hof⟩ | ⟨_, s, m, hof, hs⟩
  · rw [hof] at h
    cases h
  · rw [hof] at h
    cases h
    exact hs

/-- In line with the verdict on some executions means: terminal exactly when all of them are, then
with the status and the message of the verdict, and active whenever one of them is active. -/
theorem admits_of_iff {policy : SuccessPolicy} {statuses : List StageStatus} (hne : statuses ≠ [])
    (status : StageStatus) (message : Option String) :
    (of policy statuses).admits status message = true ↔
      (status.isTerminal = true ↔ ∀ s ∈ statuses, s.isTerminal = true) ∧
      (∀ s m, of policy statuses = .finished s m → status = s ∧ message = m) ∧
      (.active ∈ statuses → status = .active) := by
  rcases of_cases policy hne with ⟨⟨s, hs, hterm⟩, hof⟩ | ⟨hall, s, m, hof, hterm⟩
  · have hnot : ¬ ∀ s ∈ statuses, s.isTerminal = true := by
      intro hall
      simp [hall s hs] at hterm
    simp only [hof, admits, hnot, iff_false, reduceCtorEq, false_implies, implies_true, true_and]
    by_cases hactive : StageStatus.active ∈ statuses <;> simp [hactive]
  · have hactive : StageStatus.active ∉ statuses := by
      intro hmem
      cases hall _ hmem
    have hiff : (∀ s ∈ statuses, s.isTerminal = true) ↔ True := iff_true_intro hall
    simp only [hof, admits, hactive, hiff, iff_true, false_implies, and_true, finished.injEq,
      Bool.and_eq_true, beq_iff_eq]
    constructor
    · intro hsame
      obtain ⟨rfl, rfl⟩ := hsame
      refine ⟨hterm, fun s' m' hverdict => ?_⟩
      obtain ⟨rfl, rfl⟩ := hverdict
      exact ⟨rfl, rfl⟩
    · exact fun h => h.2 s m ⟨rfl, rfl⟩

/-- The message of an active stage does not matter. -/
theorem admits_active (policy : SuccessPolicy) (statuses : List StageStatus)
    (message message' : Option String) :
    (of policy statuses).admits .active message = (of policy statuses).admits .active message' := by
  cases hof : of policy statuses with
  | noExecutions => rfl
  | running anyActive => rfl
  | finished status m =>
    have hne : (StageStatus.active == status) = false := by
      cases status with
      | active => cases isTerminal_of_finished hof
      | _ => rfl
    simp only [admits, hne, Bool.false_and]

end Verdict

namespace StageChange

variable {τ : Type} {stage : StageOf τ} {v : Verdict} {change : StageChange}

theorem plan?_eq_none_iff :
    plan? stage v = none ↔ v.admits stage.status stage.errorMessage = true := by
  cases v with
  | noExecutions => simp [plan?, Verdict.admits]
  | running anyActive =>
    simp only [plan?, Verdict.admits]
    cases stage.status <;> cases anyActive <;> simp [StageStatus.isTerminal]
  | finished status message =>
    simp [plan?, Verdict.admits]

def outcome : StageChange → Option String → StageStatus × Option String
  | .activate, message => (.active, message)
  | .reopen status, _ => (status, none)
  | .finalize status message, _ => (status, message)

/-- A planned change brings the stage in line. -/
theorem admits_outcome (h : plan? stage v = some change) :
    v.admits (change.outcome stage.errorMessage).1
      (change.outcome stage.errorMessage).2 = true := by
  cases v with
  | noExecutions => cases h
  | running anyActive =>
    simp only [plan?] at h
    split at h
    · cases h
      cases anyActive <;> rfl
    · split at h
      · cases h
        cases anyActive <;> rfl
      · cases h
  | finished status message =>
    simp only [plan?] at h
    split at h
    · cases h
    · cases h
      simp [outcome, Verdict.admits]

theorem isTerminal_of_finalize {policy : SuccessPolicy} {statuses : List StageStatus}
    {status : StageStatus} {message : Option String}
    (h : plan? stage (.of policy statuses) = some (.finalize status message)) :
    status.isTerminal = true := by
  cases hv : Verdict.of policy statuses with
  | noExecutions => simp [plan?, hv] at h
  | running anyActive =>
    simp only [plan?, hv] at h
    split at h
    · cases h
    · split at h <;> cases h
  | finished s m =>
    simp only [plan?, hv] at h
    split at h
    · cases h
    · cases h
      exact Verdict.isTerminal_of_finished hv

theorem of_reopen {status : StageStatus} (h : plan? stage v = some (.reopen status)) :
    stage.status.isTerminal = true ∧ status.isTerminal = false := by
  cases v with
  | noExecutions => cases h
  | running anyActive =>
    simp only [plan?] at h
    split at h
    · next hterm =>
      cases h
      refine ⟨hterm, ?_⟩
      cases anyActive <;> rfl
    · split at h <;> cases h
  | finished s m =>
    simp only [plan?] at h
    split at h <;> cases h

theorem of_activate (h : plan? stage v = some .activate) : stage.status = .pending := by
  cases v with
  | noExecutions => cases h
  | running anyActive =>
    simp only [plan?] at h
    split at h
    · cases h
    · split at h
      · next hpending =>
        simp only [Bool.and_eq_true, beq_iff_eq] at hpending
        exact hpending.2
      · cases h
  | finished s m =>
    simp only [plan?] at h
    split at h <;> cases h

end StageChange
end AlertDesk
