import AlertDesk.Proofs.StageRows

/-!
Verdicts under the two policies. A verdict looks at which statuses occur, and at nothing else. Where
both policies are met, or neither is, they agree on the status; they differ exactly where some
agents of a finished stage completed and others did not.
-/
namespace AlertDesk

namespace SuccessPolicy

/-- The policy is met by executions that have all ended. -/
def MetBy (statuses : List StageStatus) : SuccessPolicy → Prop
  | .all => ∀ s ∈ statuses, s = .completed
  | .any => .completed ∈ statuses

variable {policy : SuccessPolicy} {statuses : List StageStatus}

theorem succeeds_iff : Verdict.succeeds policy statuses = true ↔ policy.MetBy statuses := by
  cases policy with
  | all => simp [Verdict.succeeds, MetBy]
  | any => simp [Verdict.succeeds, MetBy]

theorem MetBy.any_of_all (hne : statuses ≠ []) (h : SuccessPolicy.all.MetBy statuses) :
    SuccessPolicy.any.MetBy statuses := by
  obtain ⟨s, hs⟩ := List.exists_mem_of_ne_nil statuses hne
  have hcompleted : s = .completed := h s hs
  rwa [hcompleted] at hs

/-- One more agent that completed does not spoil a success. -/
theorem MetBy.set (h : policy.MetBy statuses) (i : Nat) :
    policy.MetBy (statuses.set i .completed) := by
  cases policy with
  | all =>
    intro s hs
    rcases List.mem_or_eq_of_mem_set hs with hold | hnew
    · exact h s hold
    · exact hnew
  | any =>
    obtain ⟨j, hj, hcompleted⟩ := List.mem_iff_getElem.mp h
    by_cases hij : i = j
    · exact List.mem_iff_getElem.mpr ⟨j, by simpa using hj, by simp [hij]⟩
    · exact List.mem_iff_getElem.mpr ⟨j, by simpa using hj, by simp [hij, hcompleted]⟩

end SuccessPolicy

namespace Verdict

variable {policy : SuccessPolicy} {statuses : List StageStatus}

def status? : Verdict → Option StageStatus
  | .finished status _ => some status
  | _ => none

theorem status?_eq_some_iff {v : Verdict} {status : StageStatus} :
    v.status? = some status ↔ ∃ message, v = .finished status message := by
  cases v <;> simp [status?]

def Over (statuses : List StageStatus) : Prop :=
  statuses ≠ [] ∧ ∀ s ∈ statuses, s.isTerminal = true

theorem isSome_status?_iff : (of policy statuses).status?.isSome = true ↔ Over statuses := by
  by_cases hne : statuses = []
  · subst hne
    simp [of, status?, Over]
  · rcases of_cases policy hne with ⟨⟨s, hs, hrunning⟩, hof⟩ | ⟨hall, status, message, hof, _⟩
    · have hnot : ¬ Over statuses := by
        intro hover
        rw [hover.2 s hs] at hrunning
        cases hrunning
      simp [hof, status?, hnot]
    · have hover : Over statuses := ⟨hne, hall⟩
      simp [hof, status?, hover]

/-- A finished stage is a success if the policy is met, and else timed out or cancelled if all of
its executions were. -/
theorem status?_of (h : Over statuses) : (of policy statuses).status? = some (
    if succeeds policy statuses then .completed
    else if statuses.all (· == .timedOut) then .timedOut
    else if statuses.all (· == .cancelled) then .cancelled
    else .failed) := by
  have hempty : statuses.isEmpty = false := by simpa using h.1
  have hrunning : (statuses.any (!·.isTerminal)) = false := by simpa using h.2
  simp only [of, hempty, hrunning, Bool.false_eq_true, if_false]
  split_ifs <;> rfl

theorem status?_eq_completed_iff : (of policy statuses).status? = some .completed ↔
    Over statuses ∧ policy.MetBy statuses := by
  constructor
  · intro h
    have hsome : (of policy statuses).status?.isSome = true := by rw [h, Option.isSome_some]
    have hover : Over statuses := isSome_status?_iff.mp hsome
    refine ⟨hover, SuccessPolicy.succeeds_iff.mp ?_⟩
    by_contra hfails
    rw [status?_of hover, if_neg hfails] at h
    split_ifs at h
    all_goals cases h
  · intro h
    rw [status?_of h.1, if_pos (SuccessPolicy.succeeds_iff.mpr h.2)]

theorem status?_eq_none (h : ¬ Over statuses) : (of policy statuses).status? = none := by
  rwa [← Option.isNone_iff_eq_none, ← Option.not_isSome, Bool.not_eq_true', ← Bool.not_eq_true,
    isSome_status?_iff]

/-- Where both policies are met, or neither is, they agree on the status. -/
theorem status?_all_eq_any
    (h : SuccessPolicy.all.MetBy statuses ↔ SuccessPolicy.any.MetBy statuses) :
    (of .all statuses).status? = (of .any statuses).status? := by
  by_cases hover : Over statuses
  · have hsame : succeeds .all statuses = succeeds .any statuses := by
      rw [Bool.eq_iff_iff, SuccessPolicy.succeeds_iff, SuccessPolicy.succeeds_iff]
      exact h
    rw [status?_of hover, status?_of hover, hsame]
  · rw [status?_eq_none hover, status?_eq_none hover]

/-- The policy is asked only of a stage that has finished. -/
theorem of_all_eq_any (h : ¬ Over statuses) : of .all statuses = of .any statuses := by
  by_cases hne : statuses = []
  · rw [hne]
    rfl
  · rcases of_cases .all hne with ⟨_, hall⟩ | ⟨hended, _⟩
    · rcases of_cases .any hne with ⟨_, hany⟩ | ⟨hended, _⟩
      · rw [hall, hany]
      · exact absurd ⟨hne, hended⟩ h
    · exact absurd ⟨hne, hended⟩ h

theorem status?_all_ne_any_iff : (of .all statuses).status? ≠ (of .any statuses).status? ↔
    Over statuses ∧ .completed ∈ statuses ∧ ∃ s ∈ statuses, s ≠ .completed := by
  constructor
  · intro hne
    have hover : Over statuses := by
      by_contra hnot
      exact hne (by rw [status?_eq_none hnot, status?_eq_none hnot])
    have hsome : SuccessPolicy.any.MetBy statuses := by
      by_contra hnot
      exact hne (status?_all_eq_any (iff_of_false (fun h => hnot (h.any_of_all hover.1)) hnot))
    have hothers : ¬ SuccessPolicy.all.MetBy statuses := fun hall =>
      hne (status?_all_eq_any (iff_of_true hall hsome))
    exact ⟨hover, hsome, by simpa [SuccessPolicy.MetBy] using hothers⟩
  · intro h
    obtain ⟨hover, hsome, s, hs, hother⟩ := h
    have hany : (of .any statuses).status? = some .completed :=
      status?_eq_completed_iff.mpr ⟨hover, hsome⟩
    rw [hany]
    intro hall
    exact hother ((status?_eq_completed_iff.mp hall).2 s hs)

/-- Executions that ended alike end the stage as they did. -/
theorem status?_of_uniform {status : StageStatus} (hne : statuses ≠ [])
    (hterminal : status.isTerminal = true) (hsame : ∀ s ∈ statuses, s = status) :
    (of policy statuses).status? = some status := by
  have hover : Over statuses := ⟨hne, fun s hs => by rwa [hsame s hs]⟩
  obtain ⟨s, hs⟩ := List.exists_mem_of_ne_nil statuses hne
  have hmem : status ∈ statuses := hsame s hs ▸ hs
  have hmet : policy.MetBy statuses ↔ status = .completed := by
    cases policy with
    | all => exact ⟨fun h => h status hmem, fun h s hs => (hsame s hs).trans h⟩
    | any => exact ⟨fun h => (hsame _ h).symm, fun h => by rwa [h] at hmem⟩
  have hsucceeds : succeeds policy statuses = (status == .completed) := by
    rw [Bool.eq_iff_iff, SuccessPolicy.succeeds_iff, hmet, beq_iff_eq]
  have hall (wanted : StageStatus) : statuses.all (· == wanted) = (status == wanted) := by
    rw [Bool.eq_iff_iff, List.all_eq_true, beq_iff_eq]
    exact ⟨fun h => beq_iff_eq.mp (h status hmem), fun h s hs =>
      beq_iff_eq.mpr ((hsame s hs).trans h)⟩
  rw [status?_of hover, hsucceeds, hall, hall]
  cases status with
  | pending | active => cases hterminal
  | completed | failed | cancelled | timedOut => rfl

theorem Over.set (h : Over statuses) (i : Nat) : Over (statuses.set i .completed) := by
  refine ⟨by simpa using h.1, fun s hs => ?_⟩
  rcases List.mem_or_eq_of_mem_set hs with hold | hnew
  · exact h.2 s hold
  · rw [hnew]
    rfl

/-- A stage that has finished gives a reason exactly when it is no success. -/
theorem message_eq_none_iff {status : StageStatus} {message : Option String}
    (h : of policy statuses = .finished status message) : message = none ↔ status = .completed := by
  have hterminal := isTerminal_of_finished h
  rw [message_of_finished h]
  cases status with
  | pending | active => cases hterminal
  | completed | failed | cancelled | timedOut => simp [StageStatus.message?]

/-- The laws of the verdict on a stage with these statuses, under this policy. -/
structure Lawful (policy : SuccessPolicy) (statuses : List StageStatus) : Prop where
  occurring : ∀ statuses', (∀ s, s ∈ statuses' ↔ s ∈ statuses) →
    of policy statuses' = of policy statuses
  finished : (∃ status message, of policy statuses = .finished status message) ↔
    statuses ≠ [] ∧ ∀ s ∈ statuses, s.isTerminal = true
  uniform : ∀ status, status.isTerminal = true → statuses ≠ [] → (∀ s ∈ statuses, s = status) →
    (of policy statuses).status? = some status
  stricter : (of .all statuses).status? = some .completed →
    (of .any statuses).status? = some .completed
  unfinished : ¬ (statuses ≠ [] ∧ ∀ s ∈ statuses, s.isTerminal = true) →
    of .all statuses = of .any statuses
  differing : (of .all statuses).status? ≠ (of .any statuses).status? ↔
    (statuses ≠ [] ∧ ∀ s ∈ statuses, s.isTerminal = true) ∧
      .completed ∈ statuses ∧ ∃ s ∈ statuses, s ≠ .completed
  completed : ∀ i, (of policy statuses).status? = some .completed →
    (of policy (statuses.set i .completed)).status? = some .completed
  message : ∀ status message, of policy statuses = .finished status message →
    (message = none ↔ status = .completed)

/-- The verdict on a stage depends only on which statuses occur, and finishes the stage exactly when
there are executions and all of them have ended. Executions that ended alike end the stage as they
did. What is a success for the stricter policy is one for the other. The two say the same of a stage
that has not finished, and differ on how it ended exactly when some executions completed and others
did not. One more execution that completed does not spoil a success, and only a success goes without
a message. -/
theorem verdicts_lawful (policy : SuccessPolicy) (statuses : List StageStatus) :
    Lawful policy statuses where
  occurring _ h := of_congr h policy
  finished := by
    have hover : (of policy statuses).status?.isSome = true ↔ Over statuses := isSome_status?_iff
    rw [Option.isSome_iff_exists] at hover
    simp only [status?_eq_some_iff] at hover
    exact hover
  uniform _ hterminal hne hsame := status?_of_uniform hne hterminal hsame
  stricter hall := by
    obtain ⟨hover, hmet⟩ := status?_eq_completed_iff.mp hall
    exact status?_eq_completed_iff.mpr ⟨hover, hmet.any_of_all hover.1⟩
  unfinished := of_all_eq_any
  differing := status?_all_ne_any_iff
  completed i h := by
    obtain ⟨hover, hmet⟩ := status?_eq_completed_iff.mp h
    exact status?_eq_completed_iff.mpr ⟨hover.set i, hmet.set i⟩
  message _ _ := message_eq_none_iff

end Verdict
end AlertDesk
