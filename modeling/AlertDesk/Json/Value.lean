import AlertDesk.Number.Double
/-!
JSON values. Whole numbers from the least signed to the greatest unsigned 64-bit number are kept
exactly, every other number as a double. The fields of an object are sorted by name and no name
comes twice.
-/
namespace AlertDesk

inductive Json where
  | null
  | bool (b : Bool)
  | int (n : Int)
  | float (negative : Bool) (magnitude : Double)
  | str (s : String)
  | arr (items : List Json)
  | obj (fields : List (String × Json))
deriving BEq, Repr, Inhabited

namespace Json

/-- The field put in its place by name; an earlier field of that name gives way. -/
def insert (name : String) (value : Json) : List (String × Json) → List (String × Json)
  | [] => [(name, value)]
  | (n, v) :: rest =>
    if name < n then (name, value) :: (n, v) :: rest
    else if name = n then (name, value) :: rest
    else (n, v) :: insert name value rest

def ofFields (fields : List (String × Json)) : Json :=
  .obj (fields.foldl (fun sorted (n, v) => insert n v sorted) [])

def field? : Json → String → Option Json
  | .obj fields, name => fields.lookup name
  | _, _ => none

def ofOption {α : Type} (f : α → Json) : Option α → Json
  | none => .null
  | some a => f a

def text? : Json → Option String
  | .str s => some s
  | _ => none

def int? : Json → Option Int
  | .int n => some n
  | _ => none

end Json
end AlertDesk
