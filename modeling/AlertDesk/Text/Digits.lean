/-!
Decimal digits: numbers written with a fixed width or with as few digits as they need, and runs of
digits read back.
-/
namespace AlertDesk.Digits

def char (d : Nat) : Char := Char.ofNat (48 + d)

def value (c : Char) : Nat := c.toNat - 48

/-- The last `width` decimal digits of `n`. -/
def padded : Nat → Nat → List Char
  | 0, _ => []
  | width + 1, n => padded width (n / 10) ++ [char (n % 10)]

def plain (n : Nat) : List Char := Nat.toDigits 10 n

def atLeast (width n : Nat) : List Char :=
  if n < Nat.pow 10 width then padded width n else plain n

def number (ds : List Char) : Nat := ds.foldl (fun n d => 10 * n + value d) 0

def run (cs : List Char) : List Char × List Char :=
  (cs.takeWhile Char.isDigit, cs.dropWhile Char.isDigit)

def take? (width : Nat) (cs : List Char) : Option (Nat × List Char) :=
  let ds := cs.take width
  if ds.length = width ∧ ds.all Char.isDigit then some (number ds, cs.drop width) else none

/-- At least one and at most `most` digits at the front, as a number, and what follows them. -/
def upTo? (most : Nat) (cs : List Char) : Option (Nat × List Char) :=
  let ds := (cs.take most).takeWhile Char.isDigit
  if ds.isEmpty then none else some (number ds, cs.drop ds.length)

theorem padded_length (width n : Nat) : (padded width n).length = width := by
  induction width generalizing n with
  | zero => rfl
  | succ width ih => simp [padded, ih]

end AlertDesk.Digits
