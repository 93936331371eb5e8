import AlertDesk.Json.Value
import AlertDesk.Number.Shortest
/-!
The compact text of a JSON value: no white space, objects in the order of their fields, and only the
quote, the backslash and control characters escaped.
-/
namespace AlertDesk.Json

def hexDigit (d : Nat) : Char := if d < 10 then Digits.char d else Char.ofNat (87 + d)

def escaped (c : Char) : List Char :=
  match c with
  | '"' => ['\\', '"']
  | '\\' => ['\\', '\\']
  | '\n' => ['\\', 'n']
  | '\r' => ['\\', 'r']
  | '\t' => ['\\', 't']
  | '\x08' => ['\\', 'b']
  | '\x0c' => ['\\', 'f']
  | c =>
    if c.toNat < 32 then ['\\', 'u', '0', '0', hexDigit (c.toNat / 16), hexDigit (c.toNat % 16)]
    else [c]

def quoted (s : String) : List Char := '"' :: s.toList.flatMap escaped ++ ['"']

def intChars (n : Int) : List Char :=
  if n < 0 then '-' :: Digits.plain n.natAbs else Digits.plain n.natAbs

mutual

def chars : Json → List Char
  | .null => ['n', 'u', 'l', 'l']
  | .bool true => ['t', 'r', 'u', 'e']
  | .bool false => ['f', 'a', 'l', 's', 'e']
  | .int n => intChars n
  | .float negative x => if negative then '-' :: x.chars else x.chars
  | .str s => quoted s
  | .arr [] => ['[', ']']
  | .arr (v :: more) => '[' :: chars v ++ itemChars more
  | .obj [] => ['\x7b', '\x7d']
  | .obj ((n, v) :: more) => '\x7b' :: quoted n ++ ':' :: chars v ++ fieldChars more

def itemChars : List Json → List Char
  | [] => [']']
  | v :: more => ',' :: chars v ++ itemChars more

def fieldChars : List (String × Json) → List Char
  | [] => ['\x7d']
  | (n, v) :: more => ',' :: quoted n ++ ':' :: chars v ++ fieldChars more

end

def text (v : Json) : String := String.ofList v.chars

end AlertDesk.Json
