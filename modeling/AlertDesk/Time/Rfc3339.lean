import AlertDesk.Time.Instant
import AlertDesk.Text.Blank
/-!
Reading instants from RFC 3339 text. The strict form has fixed widths, as stored times need it; the
lenient form, which records accept, also takes a signed year, shorter numbers, white space between
the parts and the zone written `UTC`. Both take any offset and give the instant in UTC.
-/
namespace AlertDesk.Rfc3339

/-- What a text says, before it is checked. Seconds go up to 60: the last names the second that
follows. -/
structure Reading where
  date : Date
  hour : Nat
  minute : Nat
  second : Nat
  nano : Nat
  offset : Int
deriving DecidableEq, Repr

def Reading.instant? (r : Reading) : Option Instant :=
  let t := Instant.ofSeconds
    (r.date.dayNumber * 86400 + r.hour * 3600 + r.minute * 60 + r.second - r.offset) r.nano
  if r.date.isValid ∧ r.hour < 24 ∧ r.minute < 60 ∧ r.second ≤ 60 ∧ r.offset.natAbs < 86400 ∧
    t.inRange then
    some t
  else none

def char? (c : Char) : List Char → Option (List Char)
  | d :: rest => if c = d then some rest else none
  | [] => none

/-- The digits after the point: nine count, more are passed over. -/
def fraction? : List Char → Option (Nat × List Char)
  | '.' :: cs =>
    let (ds, rest) := Digits.run cs
    if ds.isEmpty then none
    else
      let kept := ds.take 9
      some (Digits.number kept * Nat.pow 10 (9 - kept.length), rest)
  | cs => some (0, cs)

def isTimeMark (c : Char) : Bool := c == 'T' || c == 't' || c == ' '

/-- The hours and minutes of an offset, in seconds; `gap` passes over what may stand between
them. -/
def offsetDigits? (gap : List Char → Option (List Char)) (cs : List Char) :
    Option (Int × List Char) := do
  let (hours, cs) ← Digits.take? 2 cs
  let cs ← gap cs
  let (minutes, cs) ← Digits.take? 2 cs
  if minutes < 60 then some (hours * 3600 + minutes * 60, cs) else none

/-- The zone: `Z`, or a sign and an offset. The sign may also be the minus sign U+2212. -/
def zone? (gap : List Char → Option (List Char)) : List Char → Option (Int × List Char)
  | 'Z' :: cs | 'z' :: cs => some (0, cs)
  | '+' :: cs => offsetDigits? gap cs
  | '-' :: cs | '\u2212' :: cs => (offsetDigits? gap cs).map fun (s, r) => (-s, r)
  | _ => none

/-! ### The strict form -/

def strictReading? (cs : List Char) : Option Reading := do
  let (year, cs) ← Digits.take? 4 cs
  let (month, cs) ← Digits.take? 2 (← char? '-' cs)
  let (day, cs) ← Digits.take? 2 (← char? '-' cs)
  let mark :: cs := cs | none
  guard (isTimeMark mark)
  let (hour, cs) ← Digits.take? 2 cs
  let (minute, cs) ← Digits.take? 2 (← char? ':' cs)
  let (second, cs) ← Digits.take? 2 (← char? ':' cs)
  let (nano, cs) ← fraction? cs
  let (offset, cs) ← zone? (char? ':') cs
  guard cs.isEmpty
  return ⟨⟨year, month, day⟩, hour, minute, second, nano, offset⟩

def strict? (cs : List Char) : Option Instant := do (← strictReading? cs).instant?

/-! ### The lenient form -/

def short? (cs : List Char) : Option (Nat × List Char) := Digits.upTo? 2 (Text.skipWhite cs)

def year? (cs : List Char) : Option (Int × List Char) :=
  match Text.skipWhite cs with
  | '+' :: cs =>
    let (ds, rest) := Digits.run cs
    if ds.isEmpty then none else some (Digits.number ds, rest)
  | '-' :: cs =>
    let (ds, rest) := Digits.run cs
    if ds.isEmpty then none else some (-(Digits.number ds : Int), rest)
  | cs => (Digits.upTo? 4 cs).map fun (n, r) => ((n : Int), r)

def spacedChar? (c : Char) (cs : List Char) : Option (List Char) := char? c (Text.skipWhite cs)

def lenientZone? (cs : List Char) : Option (Int × List Char) :=
  match Text.skipWhite cs with
  | u :: t :: c :: rest =>
    if u.toLower = 'u' ∧ t.toLower = 't' ∧ c.toLower = 'c' then some (0, rest)
    else zone? gap (u :: t :: c :: rest)
  | cs => zone? gap cs
where
  gap (cs : List Char) : Option (List Char) :=
    some (cs.dropWhile fun c => c == ':' || Text.isWhite c)

def lenientReading? (cs : List Char) : Option Reading := do
  let (year, cs) ← year? cs
  let (month, cs) ← short? (← spacedChar? '-' cs)
  let (day, cs) ← short? (← spacedChar? '-' cs)
  let mark :: cs := cs | none
  guard (isTimeMark mark)
  let (hour, cs) ← short? cs
  let (minute, cs) ← short? (← spacedChar? ':' cs)
  let (second, cs) ← short? (← spacedChar? ':' cs)
  let (nano, cs) ← fraction? cs
  let (offset, cs) ← lenientZone? cs
  guard (Text.skipWhite cs).isEmpty
  return ⟨⟨year, month, day⟩, hour, minute, second, nano, offset⟩

def lenient? (cs : List Char) : Option Instant := do (← lenientReading? cs).instant?

end AlertDesk.Rfc3339
