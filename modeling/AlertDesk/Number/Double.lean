/-!
Doubles as exact numbers. A magnitude is `mantissa * 2 ^ exponent`; `nearest?` takes a fraction to
the double nearest to it, a tie to the even mantissa, and says when the fraction is too large.
Everything is computed in natural numbers.
-/
namespace AlertDesk

structure Double where
  mantissa : Nat
  exponent : Int
deriving DecidableEq, Repr, Inhabited

namespace Double

def zero : Double := ⟨0, -1074⟩

def scaled (num den : Nat) (exponent : Int) : Nat × Nat :=
  if exponent < 0 then (num * Nat.pow 2 (-exponent).toNat, den)
  else (num, den * Nat.pow 2 exponent.toNat)

/-- The quotient rounded to a whole number, a half to the even neighbour. -/
def roundEven (num den : Nat) : Nat :=
  let q := num / den
  let twice := 2 * (num % den)
  if twice < den then q
  else if den < twice then q + 1
  else q + q % 2

/-- The exponent at which `num / den` has a mantissa below `2 ^ 53`, and as close to it as the range
of exponents allows. -/
def exponentOf (num den : Nat) : Int :=
  let low := max (-1074) ((num.log2 : Int) - den.log2 - 53)
  let (n, d) := scaled num den low
  if n / d < Nat.pow 2 53 then low else low + 1

/-- The double nearest to `num / den`; none if that is past the largest one. -/
def nearest? (num den : Nat) : Option Double :=
  if num = 0 then some zero
  else
    let e := exponentOf num den
    let (n, d) := scaled num den e
    let m := roundEven n d
    let (m, e) := if m = Nat.pow 2 53 then (Nat.pow 2 52, e + 1) else (m, e)
    if 971 < e then none else some ⟨m, e⟩

def fraction (x : Double) : Nat × Nat := scaled x.mantissa 1 (-x.exponent)

def mul? (x y : Double) : Option Double :=
  let (a, b) := x.fraction
  let (c, d) := y.fraction
  nearest? (a * c) (b * d)

def div? (x y : Double) : Option Double :=
  let (a, b) := x.fraction
  let (c, d) := y.fraction
  nearest? (a * d) (b * c)

def add? (x y : Double) : Option Double :=
  let (a, b) := x.fraction
  let (c, d) := y.fraction
  nearest? (a * d + c * b) (b * d)

def floor (x : Double) : Nat :=
  let (a, b) := x.fraction
  a / b

example : nearest? 1 10 = some ⟨7205759403792794, -56⟩ := by decide
example :
    nearest? 1 (2 ^ 1074) = some ⟨1, -1074⟩ ∧ nearest? 1 (2 ^ 1076) = some zero := by decide +kernel
example : nearest? (2 ^ 1024) 1 = none := by decide +kernel

end Double
end AlertDesk
