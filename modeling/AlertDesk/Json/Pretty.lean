import AlertDesk.Json.Writer
/-!
JSON text for people: one item or field to a line, each level two spaces further in.
-/
namespace AlertDesk.Json

def lineStart (level : Nat) : List Char := '\n' :: List.replicate (2 * level) ' '

def bracketed (level : Nat) (opening closing : Char) (items : List (List Char)) : List Char :=
  if items.isEmpty then [opening, closing]
  else
    opening :: lineStart (level + 1) ++ List.intercalate (',' :: lineStart (level + 1)) items ++
      lineStart level ++ [closing]

mutual

def prettyChars (level : Nat) : Json → List Char
  | .arr items => bracketed level '[' ']' (prettyItems (level + 1) items)
  | .obj fields => bracketed level '\x7b' '\x7d' (prettyFields (level + 1) fields)
  | v => v.chars

def prettyItems (level : Nat) : List Json → List (List Char)
  | [] => []
  | v :: rest => prettyChars level v :: prettyItems level rest

def prettyFields (level : Nat) : List (String × Json) → List (List Char)
  | [] => []
  | (name, v) :: rest =>
    (quoted name ++ ':' :: ' ' :: prettyChars level v) :: prettyFields level rest

end

def pretty (v : Json) : String := String.ofList (prettyChars 0 v)

end AlertDesk.Json
