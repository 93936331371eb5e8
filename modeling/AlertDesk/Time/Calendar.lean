/-!
The proleptic Gregorian calendar. Days are counted from 1 January 1970; a date names one of them,
and `Date.ofDay` and `Date.day?` go between the two.
-/
namespace AlertDesk

structure Date where
  year : Int
  month : Nat
  day : Nat
deriving DecidableEq, Repr

namespace Calendar

def isLeap (year : Int) : Bool := year % 4 == 0 && (year % 100 != 0 || year % 400 == 0)

/-- Days from 1 January of year 1 to 1 January of `year`. -/
def yearStart (year : Int) : Int :=
  365 * (year - 1) + (year - 1) / 4 - (year - 1) / 100 + (year - 1) / 400

def epoch : Int := 719162

/-- The year that holds the day counted from 1 January of year 1: an estimate by the mean length of
a year is off by one year at most. -/
def yearOf (day : Int) : Int :=
  let year := day * 400 / 146097 + 1
  if day < yearStart year then year - 1
  else if yearStart (year + 1) ≤ day then year + 1
  else year

def monthLength (leap : Bool) : Nat → Nat
  | 2 => if leap then 29 else 28
  | 4 | 6 | 9 | 11 => 30
  | _ => 31

def monthStart (leap : Bool) : Nat → Nat
  | 0 | 1 => 0
  | month + 1 => monthStart leap month + monthLength leap month

def monthOf (leap : Bool) (dayOfYear : Nat) : Nat :=
  ((List.range 12).filter fun m => monthStart leap (m + 1) ≤ dayOfYear).length

end Calendar

namespace Date

open Calendar

def isValid (d : Date) : Bool :=
  1 ≤ d.month && d.month ≤ 12 && 1 ≤ d.day && d.day ≤ monthLength (isLeap d.year) d.month

/-- Days from 1 January 1970. A day past the end of the month counts on into the next. -/
def dayNumber (d : Date) : Int :=
  yearStart d.year + monthStart (isLeap d.year) d.month + d.day - 1 - epoch

def ofDay (n : Int) : Date :=
  let day := n + epoch
  let year := yearOf day
  let dayOfYear := (day - yearStart year).toNat
  let month := monthOf (isLeap year) dayOfYear
  ⟨year, month, dayOfYear - monthStart (isLeap year) month + 1⟩

example : ofDay 0 = ⟨1970, 1, 1⟩ := by decide
example : ofDay 11016 = ⟨2000, 2, 29⟩ ∧ (⟨2000, 2, 29⟩ : Date).dayNumber = 11016 := by decide
example : (⟨-262143, 1, 1⟩ : Date).dayNumber = -96465292 := by decide

end Date
end AlertDesk
