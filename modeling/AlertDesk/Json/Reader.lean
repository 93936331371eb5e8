import AlertDesk.Json.Value
import AlertDesk.Text.Digits
/-!
JSON text read as a value. Nesting is bounded: the reader is given the number of levels it may open.
A number with a point, an exponent or more than 64 bits becomes a double, computed from its leading
digits and a power of ten with one rounding for each.
-/
namespace AlertDesk.Json

def isSpace (c : Char) : Bool := c == ' ' || c == '\n' || c == '\t' || c == '\r'

def skipSpace (cs : List Char) : List Char := cs.dropWhile isSpace

/-! ### Strings -/

def hexValue? (c : Char) : Option Nat :=
  if c.isDigit then some (c.toNat - 48)
  else if 'a' ≤ c ∧ c ≤ 'f' then some (c.toNat - 87)
  else if 'A' ≤ c ∧ c ≤ 'F' then some (c.toNat - 55)
  else none

def hex4? (a b c d : Char) : Option Nat := do
  return ((← hexValue? a) * 16 + (← hexValue? b)) * 256 + (← hexValue? c) * 16 + (← hexValue? d)

def plainEscape? : Char → Option Char
  | '"' => some '"'
  | '\\' => some '\\'
  | '/' => some '/'
  | 'b' => some '\x08'
  | 'f' => some '\x0c'
  | 'n' => some '\n'
  | 'r' => some '\r'
  | 't' => some '\t'
  | _ => none

/-- The text up to the closing quote, and what follows it. Half of a surrogate pair is refused. -/
def stringBody : List Char → Option (List Char × List Char)
  | '"' :: rest => some ([], rest)
  | '\\' :: 'u' :: a :: b :: c :: d :: '\\' :: 'u' :: e :: f :: g :: h :: rest =>
    match hex4? a b c d, hex4? e f g h with
    | some high, some low =>
      if 0xD800 ≤ high ∧ high < 0xDC00 then
        if 0xDC00 ≤ low ∧ low < 0xE000 then
          (stringBody rest).map fun (s, r) =>
            (Char.ofNat (0x10000 + (high - 0xD800) * 0x400 + (low - 0xDC00)) :: s, r)
        else none
      else if 0xDC00 ≤ high ∧ high < 0xE000 then none
      else
        (stringBody ('\\' :: 'u' :: e :: f :: g :: h :: rest)).map fun (s, r) =>
          (Char.ofNat high :: s, r)
    | _, _ => none
  | '\\' :: 'u' :: a :: b :: c :: d :: rest =>
    match hex4? a b c d with
    | some n =>
      if 0xD800 ≤ n ∧ n < 0xE000 then none
      else (stringBody rest).map fun (s, r) => (Char.ofNat n :: s, r)
    | none => none
  | '\\' :: e :: rest =>
    match plainEscape? e with
    | some c => (stringBody rest).map fun (s, r) => (c :: s, r)
    | none => none
  | c :: rest => if c.toNat < 32 then none else (stringBody rest).map fun (s, r) => (c :: s, r)
  | [] => none

/-! ### Numbers -/

/-- The leading digits that fit 64 bits, the number they make, and how many digits were left out. -/
def significand (acc : Nat) : List Char → Nat × Nat
  | [] => (acc, 0)
  | d :: ds =>
    if 10 * acc + Digits.value d < Nat.pow 2 64 then significand (10 * acc + Digits.value d) ds
    else (acc, ds.length + 1)

def powerOfTen (n : Nat) : Double := (Double.nearest? (Nat.pow 10 n) 1).getD .zero

/-- The double for `digits * 10 ^ exponent`. A quotient is taken in steps of at most `10 ^ 308`,
which reach zero long before the eighth. -/
def decimal? (x : Double) (exponent : Int) : Nat → Option Double
  | 0 => some .zero
  | steps + 1 =>
    if x.mantissa = 0 then some x
    else if 308 < exponent then none
    else if 0 ≤ exponent then x.mul? (powerOfTen exponent.toNat)
    else if -308 ≤ exponent then x.div? (powerOfTen exponent.natAbs)
    else do decimal? (← x.div? (powerOfTen 308)) (exponent + 308) steps

def float? (negative : Bool) (digits : Nat) (exponent : Int) : Option Json := do
  return .float negative (← decimal? (← Double.nearest? digits 1) exponent 8)

def exponentPart? (cs : List Char) : Option (Int × List Char) :=
  let (negative, cs) := match cs with
    | '-' :: r => (true, r)
    | '+' :: r => (false, r)
    | r => (false, r)
  let (ds, rest) := Digits.run cs
  if ds.isEmpty then none
  else some (if negative then -(Digits.number ds : Int) else Digits.number ds, rest)

def afterWhole (negative : Bool) (whole rest : List Char) : Option (Json × List Char) :=
  let (n, dropped) := significand 0 whole
  let finish (digits : Nat) (exponent : Int) (rest : List Char) : Option (Json × List Char) :=
    match rest with
    | e :: r =>
      if e = 'e' ∨ e = 'E' then do
        let (shift, r) ← exponentPart? r
        return (← float? negative digits (exponent + shift), r)
      else do return (← float? negative digits exponent, rest)
    | [] => do return (← float? negative digits exponent, rest)
  match rest with
  | '.' :: r =>
    let (ds, r) := Digits.run r
    if ds.isEmpty then none
    else
      let (m, left) := significand n ds
      let read := ds.length - left
      finish m (dropped - read) r
  | e :: _ =>
    if e = 'e' ∨ e = 'E' ∨ dropped ≠ 0 then finish n dropped rest
    else whole? n
  | [] => if dropped ≠ 0 then finish n dropped rest else whole? n
where
  /-- A negative number past 63 bits, and a negative zero, are doubles. -/
  whole? (n : Nat) : Option (Json × List Char) :=
    if negative then
      if n = 0 ∨ Nat.pow 2 63 < n then do return (← float? true n 0, rest)
      else some (.int (-n), rest)
    else some (.int n, rest)

def number? (cs : List Char) : Option (Json × List Char) :=
  let (negative, cs) := match cs with
    | '-' :: r => (true, r)
    | r => (false, r)
  let (whole, rest) := Digits.run cs
  match whole with
  | [] => none
  | ['0'] => afterWhole negative ['0'] rest
  | '0' :: _ => none
  | ds => afterWhole negative ds rest

/-! ### Values -/

mutual

/-- A value at the front, and what follows it. `depth` is one more than the levels that may be
opened. -/
def value : Nat → Nat → List Char → Option (Json × List Char)
  | 0, _, _ => none
  | fuel + 1, depth, cs =>
    match skipSpace cs with
    | 'n' :: 'u' :: 'l' :: 'l' :: r => some (.null, r)
    | 't' :: 'r' :: 'u' :: 'e' :: r => some (.bool true, r)
    | 'f' :: 'a' :: 'l' :: 's' :: 'e' :: r => some (.bool false, r)
    | '"' :: r => (stringBody r).map fun (s, r) => (.str (String.ofList s), r)
    | '[' :: r =>
      if depth ≤ 1 then none
      else
        match skipSpace r with
        | ']' :: r => some (.arr [], r)
        | r => (items fuel (depth - 1) r).map fun (vs, r) => (.arr vs, r)
    | '\x7b' :: r =>
      if depth ≤ 1 then none
      else
        match skipSpace r with
        | '\x7d' :: r => some (.obj [], r)
        | r => (fields fuel (depth - 1) r).map fun (fs, r) => (ofFields fs, r)
    | r => number? r

def items : Nat → Nat → List Char → Option (List Json × List Char)
  | 0, _, _ => none
  | fuel + 1, depth, cs =>
    match value fuel depth cs with
    | none => none
    | some (v, r) =>
      match skipSpace r with
      | ',' :: r => (items fuel depth r).map fun (vs, r) => (v :: vs, r)
      | ']' :: r => some ([v], r)
      | _ => none

def fields : Nat → Nat → List Char → Option (List (String × Json) × List Char)
  | 0, _, _ => none
  | fuel + 1, depth, cs =>
    match skipSpace cs with
    | '"' :: r =>
      match stringBody r with
      | none => none
      | some (name, r) =>
        match skipSpace r with
        | ':' :: r =>
          match value fuel depth r with
          | none => none
          | some (v, r) =>
            match skipSpace r with
            | ',' :: r => (fields fuel depth r).map fun (fs, r) =>
              ((String.ofList name, v) :: fs, r)
            | '\x7d' :: r => some ([(String.ofList name, v)], r)
            | _ => none
        | _ => none
    | _ => none

end

def storedDepth : Nat := 128

/-- The value that a whole text stands for. Every call of the reader takes a character or hands on
to one that does, so twice the length is fuel enough. -/
def read? (depth : Nat) (s : String) : Option Json :=
  match value (2 * s.length + 2) depth s.toList with
  | some (v, rest) => if (skipSpace rest).isEmpty then some v else none
  | none => none

end AlertDesk.Json
