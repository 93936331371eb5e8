import AlertDesk.Time.Stamp
import AlertDesk.Number.Double
/-!
Stored times on the Julian day scale, in whole milliseconds since noon of 24 November -4713. The
seconds and their fraction are one double, and that double is rounded to the millisecond, a half
upwards. A text that is neither a date nor a number of days, or that lies outside the scale, has no
place on it.
-/
namespace AlertDesk.JulianDay

structure Reading where
  date : Date
  minute : Nat
  millis : Nat
  zone : Int

/-- `second + digits / 10 ^ places` as a double, times a thousand, plus a half, rounded down. -/
def roundedMillis (second digits places : Nat) : Option Nat := do
  let fraction ← Double.div? (← Double.nearest? digits 1) (← Double.nearest? (Nat.pow 10 places) 1)
  let seconds ← Double.add? (← Double.nearest? second 1) fraction
  let scaled ← Double.mul? seconds (← Double.nearest? 1000 1)
  return (← Double.add? scaled (← Double.nearest? 1 2)).floor

def isSpace (c : Char) : Bool := c == ' ' || (9 ≤ c.toNat && c.toNat ≤ 13)

def zone? (cs : List Char) : Option Int :=
  match cs.dropWhile isSpace with
  | [] => some 0
  | 'Z' :: rest | 'z' :: rest => if (rest.dropWhile isSpace).isEmpty then some 0 else none
  | '+' :: rest => minutes? rest
  | '-' :: rest => (minutes? rest).map (- ·)
  | _ => none
where
  minutes? (cs : List Char) : Option Int := do
    let (hour, cs) ← Digits.take? 2 cs
    let (minute, cs) ← Digits.take? 2 (← Rfc3339.char? ':' cs)
    guard (hour ≤ 14 ∧ minute ≤ 59 ∧ (cs.dropWhile isSpace).isEmpty)
    return hour * 60 + minute

def clock? (date : Date) (cs : List Char) : Option Reading := do
  let (hour, cs) ← Digits.take? 2 cs
  let (minute, cs) ← Digits.take? 2 (← Rfc3339.char? ':' cs)
  guard (hour ≤ 24 ∧ minute ≤ 59)
  match cs with
  | ':' :: cs =>
    let (second, cs) ← Digits.take? 2 cs
    guard (second ≤ 59)
    match cs with
    | '.' :: d :: more =>
      if d.isDigit then
        let (ds, rest) := Digits.run (d :: more)
        return ⟨date, hour * 60 + minute, ← roundedMillis second (Digits.number ds) ds.length,
          ← zone? rest⟩
      else none
    | cs => return ⟨date, hour * 60 + minute, second * 1000, ← zone? cs⟩
  | cs => return ⟨date, hour * 60 + minute, 0, ← zone? cs⟩

def dated? (cs : List Char) : Option Reading := do
  let (negative, cs) := match cs with
    | '-' :: r => (true, r)
    | r => (false, r)
  let (year, cs) ← Digits.take? 4 cs
  let (month, cs) ← Digits.take? 2 (← Rfc3339.char? '-' cs)
  let (day, cs) ← Digits.take? 2 (← Rfc3339.char? '-' cs)
  guard (1 ≤ month ∧ month ≤ 12 ∧ 1 ≤ day ∧ day ≤ 31)
  let date : Date := ⟨if negative then -(year : Int) else year, month, day⟩
  match cs.dropWhile fun c => isSpace c || c == 'T' with
  | [] => return ⟨date, 0, 0, 0⟩
  | cs => clock? date cs

/-- A time of day alone is one on the first day of the year 2000. -/
def reading? (cs : List Char) : Option Reading := (dated? cs).or (clock? ⟨2000, 1, 1⟩ cs)

/-- A text that is a decimal number counts the days of the scale itself. -/
def days? (cs : List Char) : Option Double :=
  let cs := cs.dropWhile isSpace
  let cs := match cs with
    | '+' :: r => r
    | r => r
  let (whole, cs) := Digits.run cs
  let (part, cs) := match cs with
    | '.' :: r => Digits.run r
    | r => ([], r)
  if (whole ++ part).isEmpty ∨ !(cs.dropWhile isSpace).isEmpty then none
  else Double.nearest? (Digits.number (whole ++ part)) (Nat.pow 10 part.length)

def millisPerDay : Nat := 86400000

def dayMillis? (days : Double) : Option Int := do
  let (num, den) := days.fraction
  guard (2 * num < 10746969 * den)
  let scaled ← days.mul? (← Double.nearest? millisPerDay 1)
  return (← Double.add? scaled (← Double.nearest? 1 2)).floor

def last : Int := 464269060799999

def epoch : Int := 210866760000000

def Reading.millis? (r : Reading) : Option Int :=
  let n := r.date.dayNumber * millisPerDay + epoch + r.minute * 60000 + r.millis - r.zone * 60000
  if -4713 ≤ r.date.year ∧ 0 ≤ n ∧ n ≤ last then some n else none

def millis? (s : Stamp) : Option Int :=
  match reading? s.chars with
  | some r => r.millis?
  | none => (days? s.chars).bind dayMillis?

/-- The milliseconds between two stored times, each first taken to the scale. -/
def between? (since till : Stamp) : Option Int := do return (← millis? till) - (← millis? since)

example : millis? (.ofText "1970-01-01T00:00:00.000499Z") = some epoch := by decide +kernel
example : millis? (.ofText "1970-01-01T00:00:00.000500Z") = some (epoch + 1) := by decide +kernel
example : millis? (.ofText "9999-12-31T23:59:59.999500Z") = none := by decide +kernel
example : millis? (.ofText "2440587.5") = some epoch := by decide +kernel

end AlertDesk.JulianDay
