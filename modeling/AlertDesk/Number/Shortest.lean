import AlertDesk.Number.Double
import AlertDesk.Text.Digits
/-!
The shortest decimal that reads back as a given double, and its text. Of the decimals with one
digit, then two, and so on, the first grid with a point among the numbers that round to the double
wins; of two points of that grid the nearer one.
-/
namespace AlertDesk.Double

/-- The ends of the numbers that round to `x`, and `x` itself, in quarters of its last place. -/
def quarters (x : Double) : Nat × Nat × Nat :=
  let below := if x.mantissa = Nat.pow 2 52 ∧ -1074 < x.exponent then 1 else 2
  (4 * x.mantissa - below, 4 * x.mantissa, 4 * x.mantissa + 2)

/-- The power of ten above the value: `10 ^ (point - 1) ≤ x < 10 ^ point`. -/
def point (x : Double) : Int :=
  let (n, d) := x.fraction
  ((Digits.plain (n * Nat.pow 10 340 / d)).length : Int) - 340

def onGrid? (x : Double) (step : Int) : Option Nat :=
  let (lo, mid, hi) := x.quarters
  -- the quarters and the grid over one denominator
  let (un, ud) := scaled 1 1 (-(x.exponent - 2))
  let (gn, gd) := if step < 0 then (1, Nat.pow 10 (-step).toNat) else (Nat.pow 10 step.toNat, 1)
  let scale := fun quarter => quarter * un * gd
  let unit := gn * ud
  let holds := fun c =>
    if x.mantissa % 2 = 0 then decide (scale lo ≤ c * unit) && decide (c * unit ≤ scale hi)
    else decide (scale lo < c * unit) && decide (c * unit < scale hi)
  let down := scale mid / unit
  let rest := scale mid % unit
  match holds down, holds (down + 1) with
  | true, true =>
    if 2 * rest < unit ∨ (2 * rest = unit ∧ down % 2 = 0) then some down else some (down + 1)
  | true, false => some down
  | false, true => some (down + 1)
  | false, false => none

def search (x : Double) : Nat → Int → Nat × Int
  | 0, step => (((x.onGrid? step).getD 0), step)
  | more + 1, step =>
    match x.onGrid? step with
    | some c => (c, step)
    | none => search x more (step - 1)

def shortest (x : Double) : List Char × Int :=
  let (c, step) := x.search 17 (x.point - 1)
  let ds := Digits.plain c
  let kept := (ds.reverse.dropWhile (· == '0')).reverse
  (kept, step + (ds.length - kept.length))

/-- Positional from five places behind the point to sixteen before it, with a point always;
otherwise a leading digit, the rest behind a point, and the power of ten. -/
def chars (x : Double) : List Char :=
  if x.mantissa = 0 then ['0', '.', '0']
  else
    let (ds, power) := x.shortest
    let point := ds.length + power
    if 0 ≤ power ∧ point ≤ 16 then ds ++ List.replicate power.toNat '0' ++ ['.', '0']
    else if 0 < point ∧ point ≤ 16 then ds.take point.toNat ++ '.' :: ds.drop point.toNat
    else if -5 < point ∧ point ≤ 0 then '0' :: '.' :: List.replicate (-point).toNat '0' ++ ds
    else
      let exponent := point - 1
      let tail := 'e' :: (if exponent < 0 then ['-'] else []) ++ Digits.plain exponent.natAbs
      match ds with
      | d :: [] => d :: tail
      | d :: more => d :: '.' :: more ++ tail
      | [] => tail

end AlertDesk.Double
