import AlertDesk.Time.Rfc3339
/-!
Times as they are written. A minute may be given a second 60, which follows its second 59; as an
instant it is the second after that, and a moment also keeps that it was written so.
-/
namespace AlertDesk

structure Moment where
  instant : Instant
  isSixtieth : Bool := false
deriving DecidableEq, Repr

namespace Moment

def lenient? (cs : List Char) : Option Moment := do
  let reading ← Rfc3339.lenientReading? cs
  return { instant := ← reading.instant?, isSixtieth := reading.second == 60 }

def text (m : Moment) : String :=
  if m.isSixtieth then
    let t := m.instant.plus (-Instant.perSecond)
    String.ofList (Instant.dateChars t.date ++ 'T' :: (Instant.clockChars t.secondOfDay).take 6 ++
      '6' :: '0' :: Instant.fractionChars t.nanoOfSecond ++ ['Z'])
  else m.instant.text

example :
    (lenient? "2016-12-31T23:59:60.5Z".toList).map text = some "2016-12-31T23:59:60.500Z" := by
  decide +kernel

end Moment
end AlertDesk
