/-!
TOML documents as trees, and the rules by which lines add to them. A table may be opened by one
header only; tables that a header or a dotted key passes through come into being on the way. What
has been written as a value is closed, and dotted keys extend only the tables that dotted keys have
made.
-/
namespace AlertDesk

namespace Toml

/-- How a table came about: by a header of its own, on the way to another header, on the way of a
dotted key, or in line as a value. -/
inductive Origin where
  | header | way | dotted | inline
deriving DecidableEq, Repr

end Toml

/-- A float and a time are known by their kind alone. -/
inductive Toml where
  | text (s : String)
  | int (n : Int)
  | float
  | bool (b : Bool)
  | time
  | array (items : List Toml)
  | table (origin : Toml.Origin) (fields : List (String × Toml))
  /-- The tables of a header in double brackets, the newest first. -/
  | tables (items : List (List (String × Toml)))
deriving Repr, Inhabited

namespace Toml

abbrev Fields := List (String × Toml)

def replace (name : String) (value : Toml) : Fields → Fields
  | [] => [(name, value)]
  | (n, v) :: rest => if n = name then (n, value) :: rest else (n, v) :: replace name value rest

/-- Works on the table at the end of a path, by way of a dotted key or of a header. Tables that are
not there are made. A path leads through a list of tables by the newest of them. -/
def inside (isDotted : Bool) (work : Origin → Fields → Option Fields) :
    List String → Origin → Fields → Option Fields
  | [], origin, fields => work origin fields
  | name :: path, _, fields =>
    match fields.lookup name with
    | none => do
      let origin := if isDotted then .dotted else .way
      return fields ++ [(name, .table origin (← inside isDotted work path origin []))]
    | some (.table origin inner) =>
      if origin = .inline ∨ (isDotted ∧ origin = .header) then none
      else do return replace name (.table origin (← inside isDotted work path origin inner)) fields
    | some (.tables (newest :: older)) => do
      return replace name (.tables ((← inside isDotted work path .header newest) :: older)) fields
    | some _ => none

/-- A name that is not taken gets a value. At the end of a dotted key stands a table that dotted
keys have made, and a plain key does not reach into one. -/
def put (name : String) (value : Toml) (isPlain : Bool) (origin : Origin) (fields : Fields) :
    Option Fields :=
  if decide (origin = .dotted) = isPlain then none
  else if (fields.lookup name).isSome then none
  else some (fields ++ [(name, value)])

def putPath (path : List String) (value : Toml) (origin : Origin) (fields : Fields) :
    Option Fields :=
  match path.getLast? with
  | none => none
  | some name => inside true (put name value (path.length == 1)) path.dropLast origin fields

/-- A header opens a table that is new or that other headers have passed through. -/
def openTable (name : String) (_ : Origin) (fields : Fields) : Option Fields :=
  match fields.lookup name with
  | none => some (fields ++ [(name, .table .header [])])
  | some (.table .way inner) => some (replace name (.table .header inner) fields)
  | some _ => none

def openNext (name : String) (_ : Origin) (fields : Fields) : Option Fields :=
  match fields.lookup name with
  | none => some (fields ++ [(name, .tables [[]])])
  | some (.tables items) => some (replace name (.tables ([] :: items)) fields)
  | some _ => none

inductive Line where
  | pair (path : List String) (value : Toml)
  | header (path : List String)
  | nextHeader (path : List String)

structure Draft where
  fields : Fields := []
  place : List String := []

def Draft.add (d : Draft) (line : Line) : Option Draft :=
  let opened (work : String → Origin → Fields → Option Fields) (path : List String) :
      Option Draft := do
    let fields ← inside false (work (← path.getLast?)) path.dropLast .header d.fields
    return ⟨fields, path⟩
  match line with
  | .pair path value => do
    return { d with fields := ← inside false (putPath path value) d.place .header d.fields }
  | .header path => opened openTable path
  | .nextHeader path => opened openNext path

end Toml
end AlertDesk
