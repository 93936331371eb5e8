import AlertDesk.Time.Calendar
import AlertDesk.Text.Digits
/-!
Instants are whole nanoseconds since 1 January 1970, UTC, without leap seconds. Ages are taken off
an instant only where the result stays in the calendar's range; elapsed time is counted in whole
milliseconds and never below zero.
-/
namespace AlertDesk

structure Instant where
  nanos : Int
deriving DecidableEq, Repr, Inhabited

namespace Instant

def perSecond : Int := 1000000000
def perDay : Int := 86400 * perSecond

instance : LE Instant := ⟨fun a b => a.nanos ≤ b.nanos⟩
instance : LT Instant := ⟨fun a b => a.nanos < b.nanos⟩
instance (a b : Instant) : Decidable (a ≤ b) := inferInstanceAs (Decidable (a.nanos ≤ b.nanos))
instance (a b : Instant) : Decidable (a < b) := inferInstanceAs (Decidable (a.nanos < b.nanos))

def ofSeconds (seconds : Int) (nanos : Int) : Instant := ⟨seconds * perSecond + nanos⟩

def plus (t : Instant) (nanos : Int) : Instant := ⟨t.nanos + nanos⟩

def earliest : Instant := ⟨(⟨-262143, 1, 1⟩ : Date).dayNumber * perDay⟩

def latest : Instant := ⟨((⟨262142, 12, 31⟩ : Date).dayNumber + 1) * perDay - 1⟩

def inRange (t : Instant) : Bool := decide (earliest ≤ t) && decide (t ≤ latest)

/-- The largest age in nanoseconds: as many milliseconds as a signed 64-bit number holds. -/
def maxAge : Nat := (Nat.pow 2 63 - 1) * 1000000

/-- The instant `age` nanoseconds earlier, where both the age and the result are in range. -/
def before? (t : Instant) (age : Nat) : Option Instant :=
  let cut := t.plus (-age)
  if age ≤ maxAge ∧ cut.inRange then some cut else none

/-- Whole milliseconds from one instant to another, zero if it is not later. -/
def elapsedMillis (since till : Instant) : Int := max 0 ((till.nanos - since.nanos) / 1000000)

/-! ### Calendar fields -/

def date (t : Instant) : Date := Date.ofDay (t.nanos / perDay)

def nanoOfDay (t : Instant) : Nat := (t.nanos % perDay).toNat

def secondOfDay (t : Instant) : Nat := t.nanoOfDay / 1000000000

def nanoOfSecond (t : Instant) : Nat := t.nanoOfDay % 1000000000

/-- A year from 0 to 9999 has four digits; any other has its sign and at least four. -/
def yearChars (year : Int) : List Char :=
  if 0 ≤ year ∧ year ≤ 9999 then Digits.padded 4 year.toNat
  else (if year < 0 then '-' else '+') :: Digits.atLeast 4 year.natAbs

def dateChars (d : Date) : List Char :=
  yearChars d.year ++ '-' :: Digits.padded 2 d.month ++ '-' :: Digits.padded 2 d.day

def clockChars (second : Nat) : List Char :=
  Digits.padded 2 (second / 3600) ++ ':' :: Digits.padded 2 (second / 60 % 60) ++
    ':' :: Digits.padded 2 (second % 60)

def fractionChars (nano : Nat) : List Char :=
  if nano = 0 then []
  else if nano % 1000000 = 0 then '.' :: Digits.padded 3 (nano / 1000000)
  else if nano % 1000 = 0 then '.' :: Digits.padded 6 (nano / 1000)
  else '.' :: Digits.padded 9 nano

def text (t : Instant) : String :=
  String.ofList
    (dateChars t.date ++ 'T' :: clockChars t.secondOfDay ++ fractionChars t.nanoOfSecond ++
    ['Z'])

end Instant
end AlertDesk
