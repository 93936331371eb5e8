import AlertDesk.Time.Calendar

/-!
Dates and day numbers. The date of a day is a valid date, and its day number is that day again.
-/
namespace AlertDesk

namespace Calendar

theorem yearStart_succ (year : Int) :
    yearStart (year + 1) = yearStart year + if isLeap year then 366 else 365 := by
  by_cases hleap : isLeap year = true
  · rw [if_pos hleap]
    simp only [isLeap, Bool.and_eq_true, Bool.or_eq_true, beq_iff_eq, bne_iff_ne, ne_eq] at hleap
    unfold yearStart
    omega
  · rw [if_neg hleap]
    simp only [isLeap, Bool.and_eq_true, Bool.or_eq_true, beq_iff_eq, bne_iff_ne, ne_eq] at hleap
    unfold yearStart
    omega

/-- The day lies in its year. -/
theorem yearStart_yearOf (day : Int) :
    yearStart (yearOf day) ≤ day ∧ day < yearStart (yearOf day + 1) := by
  unfold yearOf
  generalize hyear : day * 400 / 146097 + 1 = year
  have hnext := yearStart_succ year
  have hbefore : yearStart (year - 1) ≤ day := by
    unfold yearStart
    omega
  have hafter : day < yearStart (year + 1 + 1) := by
    unfold yearStart
    omega
  dsimp only
  split
  · next hlt => exact ⟨hbefore, by rwa [Int.sub_add_cancel]⟩
  · next hge =>
    split
    · next hle => exact ⟨hle, hafter⟩
    · next hgt => exact ⟨by omega, by omega⟩

/-- The month holds the day. -/
theorem monthOf_spec (leap : Bool) (day : Nat) (hday : day < if leap then 366 else 365) :
    1 ≤ monthOf leap day ∧ monthOf leap day ≤ 12 ∧ monthStart leap (monthOf leap day) ≤ day ∧
      day < monthStart leap (monthOf leap day) + monthLength leap (monthOf leap day) := by
  have hall : ∀ leap : Bool, ∀ day < if leap then 366 else 365,
      1 ≤ monthOf leap day ∧ monthOf leap day ≤ 12 ∧ monthStart leap (monthOf leap day) ≤ day ∧
        day < monthStart leap (monthOf leap day) + monthLength leap (monthOf leap day) := by
    decide +kernel
  exact hall leap day hday

end Calendar

namespace Date

open Calendar

theorem ofDay_spec (n : Int) : (ofDay n).isValid = true ∧ (ofDay n).dayNumber = n := by
  have hyear := yearStart_yearOf (n + epoch)
  have hnext := yearStart_succ (yearOf (n + epoch))
  have hday : (n + epoch - yearStart (yearOf (n + epoch))).toNat <
      if isLeap (yearOf (n + epoch)) then 366 else 365 := by
    split at hnext <;> simp_all <;> omega
  obtain ⟨hfirst, hlast, hstart, hstop⟩ := monthOf_spec _ _ hday
  constructor
  · simp only [isValid, ofDay, Bool.and_eq_true]
    exact ⟨⟨⟨decide_eq_true hfirst, decide_eq_true hlast⟩, decide_eq_true (by omega)⟩,
      decide_eq_true (by omega)⟩
  · simp only [dayNumber, ofDay]
    omega

end Date
end AlertDesk
