import AlertDesk.Time.Rfc3339
/-!
Stored times. A store keeps a time as text of fixed width, cut to whole microseconds, and compares
times by comparing the texts character by character. A store may also hold a text that is no time at
all; then reading it fails and comparing it does not.
-/
namespace AlertDesk

structure Stamp where
  chars : List Char
deriving DecidableEq, Repr

namespace Stamp

def ofText (s : String) : Stamp := ⟨s.toList⟩

def text (s : Stamp) : String := String.ofList s.chars

instance : LT Stamp := ⟨fun a b => a.chars < b.chars⟩
instance (a b : Stamp) : Decidable (a < b) := inferInstanceAs (Decidable (a.chars < b.chars))

/-- The time as it is stored: six digits of a second, the rest cut off. -/
def ofInstant (t : Instant) : Stamp :=
  ⟨Instant.dateChars t.date ++ 'T' :: Instant.clockChars t.secondOfDay ++
    '.' :: Digits.padded 6 (t.nanoOfSecond / 1000) ++ ['Z']⟩

def instant? (s : Stamp) : Option Instant := Rfc3339.strict? s.chars

end Stamp
end AlertDesk
