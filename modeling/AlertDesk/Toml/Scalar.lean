import AlertDesk.Toml.Document
import AlertDesk.Text.Digits
import AlertDesk.Time.Calendar
import AlertDesk.Number.Double
/-!
The plain values of TOML: strings in their four forms, integers in four bases, floats, dates and
times. Each reader takes a value from the front of a text and hands back what follows it.
-/
namespace AlertDesk.Toml

def isGap (c : Char) : Bool := c == ' ' || c == '\t'

def skipGap (cs : List Char) : List Char := cs.dropWhile isGap

def newline? : List Char → Option (List Char)
  | '\n' :: r | '\r' :: '\n' :: r => some r
  | _ => none

def isPrinted (c : Char) : Bool := c == '\t' || (32 ≤ c.toNat && c.toNat != 127)

/-! ### Strings -/

def hexValue? (c : Char) : Option Nat :=
  if c.isDigit then some (c.toNat - 48)
  else if 'a' ≤ c ∧ c ≤ 'f' then some (c.toNat - 87)
  else if 'A' ≤ c ∧ c ≤ 'F' then some (c.toNat - 55)
  else none

def codePoint? (ds : List Char) : Option Char := do
  let n ← ds.foldlM (fun n d => (hexValue? d).map (16 * n + ·)) 0
  if h : n.isValidChar then some (Char.ofNatAux n h) else none

def escaped? : Char → Option Char
  | 'b' => some '\x08'
  | 't' => some '\t'
  | 'n' => some '\n'
  | 'f' => some '\x0c'
  | 'r' => some '\r'
  | '"' => some '"'
  | '\\' => some '\\'
  | _ => none

def prepend (c : Char) (rest : Option (List Char × List Char)) : Option (List Char × List Char) :=
  rest.map fun (s, r) => (c :: s, r)

def quoted : List Char → Option (List Char × List Char)
  | '"' :: r => some ([], r)
  | '\\' :: 'u' :: a :: b :: c :: d :: r => do prepend (← codePoint? [a, b, c, d]) (quoted r)
  | '\\' :: 'U' :: a :: b :: c :: d :: e :: f :: g :: h :: r => do
    prepend (← codePoint? [a, b, c, d, e, f, g, h]) (quoted r)
  | '\\' :: e :: r => do prepend (← escaped? e) (quoted r)
  | c :: r => if isPrinted c then prepend c (quoted r) else none
  | [] => none

/-- A string of several lines after its opening quotes. Up to two quotes may stand right before the
three that close it. While `isTrimming`, after a backslash at the end of a line, gaps and line ends
are passed over. -/
def quotedLines (isTrimming : Bool) : List Char → Option (List Char × List Char)
  | '"' :: '"' :: '"' :: '"' :: '"' :: r => some (['"', '"'], r)
  | '"' :: '"' :: '"' :: '"' :: r => some (['"'], r)
  | '"' :: '"' :: '"' :: r => some ([], r)
  | '\\' :: 'u' :: a :: b :: c :: d :: r => do
    prepend (← codePoint? [a, b, c, d]) (quotedLines false r)
  | '\\' :: 'U' :: a :: b :: c :: d :: e :: f :: g :: h :: r => do
    prepend (← codePoint? [a, b, c, d, e, f, g, h]) (quotedLines false r)
  | '\\' :: e :: r =>
    if (newline? (skipGap (e :: r))).isSome then quotedLines true (e :: r)
    else do prepend (← escaped? e) (quotedLines false r)
  | '\r' :: '\n' :: r | '\n' :: r =>
    if isTrimming then quotedLines true r else prepend '\n' (quotedLines false r)
  | c :: r =>
    if isTrimming && isGap c then quotedLines true r
    else if isPrinted c then prepend c (quotedLines false r)
    else none
  | [] => none

def literal : List Char → Option (List Char × List Char)
  | '\'' :: r => some ([], r)
  | c :: r => if isPrinted c then prepend c (literal r) else none
  | [] => none

def literalLines : List Char → Option (List Char × List Char)
  | '\'' :: '\'' :: '\'' :: '\'' :: '\'' :: r => some (['\'', '\''], r)
  | '\'' :: '\'' :: '\'' :: '\'' :: r => some (['\''], r)
  | '\'' :: '\'' :: '\'' :: r => some ([], r)
  | '\r' :: '\n' :: r | '\n' :: r => prepend '\n' (literalLines r)
  | c :: r => if isPrinted c then prepend c (literalLines r) else none
  | [] => none

def dropNewline (cs : List Char) : List Char := (newline? cs).getD cs

def string? (cs : List Char) : Option (List Char × List Char) :=
  match cs with
  | '"' :: '"' :: '"' :: r => quotedLines false (dropNewline r)
  | '"' :: r => quoted r
  | '\'' :: '\'' :: '\'' :: r => literalLines (dropNewline r)
  | '\'' :: r => literal r
  | _ => none

/-! ### Numbers -/

/-- Digits, each but the first of which may have an underscore before it. -/
def digitRun (isDigit : Char → Bool) : List Char → List Char × List Char
  | '_' :: d :: r =>
    if isDigit d then
      let (ds, rest) := digitRun isDigit r
      (d :: ds, rest)
    else ([], '_' :: d :: r)
  | d :: r =>
    if isDigit d then
      let (ds, rest) := digitRun isDigit r
      (d :: ds, rest)
    else ([], d :: r)
  | [] => ([], [])

def digits? (isDigit : Char → Bool) (cs : List Char) : Option (List Char × List Char) :=
  match cs with
  | d :: _ => if isDigit d then some (digitRun isDigit cs) else none
  | [] => none

def sign (cs : List Char) : Bool × List Char :=
  match cs with
  | '-' :: r => (true, r)
  | '+' :: r => (false, r)
  | r => (false, r)

def whole? (cs : List Char) : Option (List Char × List Char) :=
  match cs with
  | '0' :: r => some (['0'], r)
  | cs => digits? Char.isDigit cs

def bounded? (n : Int) : Option Toml :=
  if -(Nat.pow 2 63) ≤ n ∧ n < Nat.pow 2 63 then some (.int n) else none

def based? (base : Nat) (cs : List Char) : Option (Toml × List Char) := do
  let isDigit := fun c => (hexValue? c).any (· < base)
  let (ds, rest) ← digits? isDigit cs
  let n := ds.foldl (fun n d => base * n + (hexValue? d).getD 0) 0
  return (← bounded? n, rest)

def integer? (cs : List Char) : Option (Toml × List Char) :=
  match cs with
  | '0' :: 'x' :: r => based? 16 r
  | '0' :: 'o' :: r => based? 8 r
  | '0' :: 'b' :: r => based? 2 r
  | cs => do
    let (isNegative, cs) := sign cs
    let (ds, rest) ← whole? cs
    let n : Int := Digits.number ds
    return (← bounded? (if isNegative then -n else n), rest)

/-- The decimal `ds * 10 ^ exponent` is past the largest double. The length of the number decides
unless it is near that of the largest. -/
def isTooLarge (ds : List Char) (exponent : Int) : Bool :=
  let ds := ds.dropWhile (· == '0')
  let point := ds.length + exponent
  if ds.isEmpty ∨ point < 300 then false
  else if 320 < point then true
  else
    let n := Digits.number ds
    let nearest := if exponent < 0 then Double.nearest? n (Nat.pow 10 exponent.natAbs)
      else Double.nearest? (n * Nat.pow 10 exponent.toNat) 1
    nearest.isNone

def exponent? (cs : List Char) : Option (Int × List Char) :=
  match cs with
  | e :: r =>
    if e = 'e' ∨ e = 'E' then do
      let (isNegative, r) := sign r
      let (ds, r) ← digits? Char.isDigit r
      let n : Int := Digits.number ds
      return (if isNegative then -n else n, r)
    else none
  | [] => none

/-- A float has a fraction or an exponent, and if it is positive it is finite. -/
def float? (cs : List Char) : Option (Toml × List Char) := do
  let (isNegative, cs) := sign cs
  let finish (ds : List Char) (exponent : Int) (rest : List Char) : Option (Toml × List Char) :=
    if !isNegative && isTooLarge ds exponent then none else some (.float, rest)
  match cs with
  | 'i' :: 'n' :: 'f' :: r | 'n' :: 'a' :: 'n' :: r => return (.float, r)
  | cs =>
    let (ds, cs) ← whole? cs
    match cs with
    | '.' :: r =>
      let (fs, r) ← digits? Char.isDigit r
      match exponent? r with
      | some (e, r) => finish (ds ++ fs) (e - fs.length) r
      | none => finish (ds ++ fs) (-fs.length) r
    | r =>
      let (e, r) ← exponent? r
      finish ds e r

/-! ### Dates and times -/

def char? (c : Char) : List Char → Option (List Char)
  | d :: r => if c = d then some r else none
  | [] => none

def date? (cs : List Char) : Option (List Char) := do
  let (year, cs) ← Digits.take? 4 cs
  let (month, cs) ← Digits.take? 2 (← char? '-' cs)
  let (day, cs) ← Digits.take? 2 (← char? '-' cs)
  if (⟨year, month, day⟩ : Date).isValid then some cs else none

def clock? (cs : List Char) : Option (List Char) := do
  let (hour, cs) ← Digits.take? 2 cs
  let (minute, cs) ← Digits.take? 2 (← char? ':' cs)
  let (second, cs) ← Digits.take? 2 (← char? ':' cs)
  guard (hour < 24 ∧ minute < 60 ∧ second ≤ 60)
  match cs with
  | '.' :: r =>
    let (ds, r) := Digits.run r
    return if ds.isEmpty then cs else r
  | _ => return cs

def zone? (cs : List Char) : Option (List Char) := do
  match cs with
  | 'Z' :: r | 'z' :: r => return r
  | '+' :: r | '-' :: r =>
    let (hour, r) ← Digits.take? 2 r
    let (minute, r) ← Digits.take? 2 (← char? ':' r)
    guard (hour < 24 ∧ minute < 60)
    return r
  | _ => none

def time? (cs : List Char) : Option (Toml × List Char) :=
  match date? cs with
  | none => (clock? cs).map fun r => (.time, r)
  | some rest =>
    match rest with
    | mark :: r =>
      if mark = 'T' ∨ mark = 't' ∨ mark = ' ' then
        match clock? r with
        | some r => some (.time, (zone? r).getD r)
        | none => some (.time, rest)
      else some (.time, rest)
    | [] => some (.time, [])

/-! ### All of them -/

def scalar? (cs : List Char) : Option (Toml × List Char) :=
  match cs with
  | '"' :: _ | '\'' :: _ => (string? cs).map fun (s, r) => (.text (String.ofList s), r)
  | 't' :: 'r' :: 'u' :: 'e' :: r => some (.bool true, r)
  | 'f' :: 'a' :: 'l' :: 's' :: 'e' :: r => some (.bool false, r)
  | 'i' :: _ | 'n' :: _ => float? cs
  | _ => (time? cs).or ((float? cs).or (integer? cs))

end AlertDesk.Toml
