import AlertDesk.Toml.Scalar
/-!
Reading TOML: keys, values and lines. A text is read line by line into a draft; a text that is no
TOML document gives nothing.
-/
namespace AlertDesk.Toml

/-- Keys have fewer parts, and values fewer levels, than this. -/
def nesting : Nat := 80

/-! ### Keys -/

def isBare (c : Char) : Bool := c.isAlphanum || c == '-' || c == '_'

def keyPart? (cs : List Char) : Option (String × List Char) :=
  match cs with
  | '"' :: r => (quoted r).map fun (s, r) => (String.ofList s, r)
  | '\'' :: r => (literal r).map fun (s, r) => (String.ofList s, r)
  | cs =>
    match cs.takeWhile isBare with
    | [] => none
    | name => some (String.ofList name, cs.dropWhile isBare)

def keyParts : Nat → List Char → Option (List String × List Char)
  | 0, _ => none
  | fuel + 1, cs => do
    let (part, cs) ← keyPart? (skipGap cs)
    match skipGap cs with
    | '.' :: r =>
      let (parts, r) ← keyParts fuel r
      return (part :: parts, r)
    | r => return ([part], r)

def key? (cs : List Char) : Option (List String × List Char) := do
  let (parts, rest) ← keyParts cs.length cs
  if parts.length < nesting then some (parts, rest) else none

/-! ### Values -/

def comment? (cs : List Char) : Option (List Char) :=
  match cs with
  | '#' :: r => some (r.dropWhile isPrinted)
  | _ => none

def skipLines : Nat → List Char → List Char
  | 0, cs => cs
  | fuel + 1, cs =>
    let cs := skipGap cs
    match newline? cs with
    | some r => skipLines fuel r
    | none =>
      match comment? cs with
      | some r => skipLines fuel r
      | none => cs

abbrev ValueReader := List Char → Option (Toml × List Char)

def items (value : ValueReader) : Nat → List Char → Option (List Toml × List Char)
  | 0, _ => none
  | fuel + 1, cs =>
    match skipLines cs.length cs with
    | ']' :: r => some ([], r)
    | cs => do
      let (v, cs) ← value cs
      match skipLines cs.length cs with
      | ',' :: r =>
        let (vs, r) ← items value fuel r
        return (v :: vs, r)
      | ']' :: r => return ([v], r)
      | _ => none

def equals? (cs : List Char) : Option (List Char) := do
  let cs ← char? '=' cs
  return skipGap cs

def pairs (value : ValueReader) : Nat → Fields → List Char → Option (Fields × List Char)
  | 0, _, _ => none
  | fuel + 1, fields, cs => do
    let (path, cs) ← key? cs
    let (v, cs) ← value (← equals? cs)
    let fields ← putPath path v .inline fields
    match skipGap cs with
    | ',' :: r => pairs value fuel fields r
    | '\x7d' :: r => return (fields, r)
    | _ => none

/-- A value; `levels` counts the arrays and tables that may still be opened. -/
def value : Nat → ValueReader
  | 0, cs => scalar? cs
  | levels + 1, cs =>
    match cs with
    | '[' :: r => (items (value levels) (r.length + 1) r).map fun (vs, r) => (.array vs, r)
    | '\x7b' :: r =>
      match skipGap r with
      | '\x7d' :: r => some (.table .inline [], r)
      | r => (pairs (value levels) (r.length + 1) [] r).map fun (fs, r) => (.table .inline fs, r)
    | cs => scalar? cs

/-! ### Lines -/

def lineEnd? (cs : List Char) : Option (List Char) :=
  let cs := skipGap cs
  let cs := (comment? cs).getD cs
  if cs.isEmpty then some [] else newline? cs

def line? (cs : List Char) : Option (Line × List Char) :=
  match cs with
  | '[' :: '[' :: r => do
    let (path, r) ← key? r
    return (.nextHeader path, ← char? ']' (← char? ']' r))
  | '[' :: r => do
    let (path, r) ← key? r
    return (.header path, ← char? ']' r)
  | cs => do
    let (path, cs) ← key? cs
    let (v, cs) ← value (nesting - 1) (← equals? cs)
    return (.pair path v, cs)

def lines : Nat → Draft → List Char → Option Draft
  | 0, _, _ => none
  | fuel + 1, draft, cs =>
    match skipGap cs with
    | [] => some draft
    | '#' :: _ | '\n' :: _ | '\r' :: _ => do lines fuel draft (← lineEnd? cs)
    | cs => do
      let (line, cs) ← line? cs
      lines fuel (← draft.add line) (← lineEnd? cs)

/-- The document that a text stands for; a byte order mark before it does not count. -/
def read? (s : String) : Option Fields :=
  let cs := match s.toList with
    | '\ufeff' :: r => r
    | cs => cs
  (lines (cs.length + 1) {} cs).map (·.fields)

end AlertDesk.Toml
