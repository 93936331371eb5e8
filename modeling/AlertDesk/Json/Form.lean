import AlertDesk.Json.Value
import AlertDesk.Status
import AlertDesk.Time.Moment
/-!
The JSON forms of plain values and of records. A form writes a value and reads it back. A record is
an object of its fields; it may also be read from an array that gives all of them in order. A field
that may be empty may also be left out, and fields with other names do not count.
-/
namespace AlertDesk

structure Form (α : Type) where
  write : α → Json
  read? : Json → Option α

namespace Form

def text : Form String := ⟨.str, Json.text?⟩

def int : Form Int :=
  ⟨.int, fun v => v.int?.filter fun n => decide (-(Nat.pow 2 63) ≤ n) && decide (n < Nat.pow 2 63)⟩

def instant : Form Instant :=
  ⟨fun t => .str t.text, fun v => v.text?.bind fun s => Rfc3339.lenient? s.toList⟩

def moment : Form Moment :=
  ⟨fun m => .str m.text, fun v => v.text?.bind fun s => Moment.lenient? s.toList⟩

def any : Form Json := ⟨id, some⟩

/-- A word of a vocabulary by its name; the name may also be the one field of an object, with
null. -/
def word {α : Type} (name : α → String) (ofName? : String → Option α) : Form α where
  write a := .str (name a)
  read?
    | .str s | .obj [(s, .null)] => ofName? s
    | _ => none

def sessionStatus : Form SessionStatus := word SessionStatus.name SessionStatus.ofName?
def stageStatus : Form StageStatus := word StageStatus.name StageStatus.ofName?
def parallelism : Form Parallelism := word Parallelism.name Parallelism.ofName?
def successPolicy : Form SuccessPolicy := word SuccessPolicy.name SuccessPolicy.ofName?

/-! ### Records -/

abbrev Given := String → Option Json

def given? (names : List String) : Json → Option Given
  | .obj fields => some fun name => fields.lookup name
  | .arr items =>
    if items.length = names.length then some fun name => (names.zip items).lookup name else none
  | _ => none

def record {α : Type} (names : List String) (write : α → List Json) (read? : Given → Option α) :
    Form α where
  write a := .ofFields (names.zip (write a))
  read? v := (given? names v).bind read?

def get? {α : Type} (f : Form α) (given : Given) (name : String) : Option α :=
  (given name).bind f.read?

def getOption? {α : Type} (f : Form α) (given : Given) (name : String) : Option (Option α) :=
  match given name with
  | none | some .null => some none
  | some v => (f.read? v).map some

def option {α : Type} (f : Form α) (a : Option α) : Json := .ofOption f.write a

end Form
end AlertDesk
