import AlertDesk.Failure
/-!
The schema of the store: its tables and the indexes over them. It has no triggers and no views, and
making it where it is already there changes nothing.
-/
namespace AlertDesk.Schema

inductive Kind where
  | table | index | trigger | view
deriving DecidableEq, Repr

namespace Kind

def all : List Kind := [.table, .index, .trigger, .view]

def name : Kind → String
  | .table => "table"
  | .index => "index"
  | .trigger => "trigger"
  | .view => "view"

def ofName? (s : String) : Option Kind := all.find? (·.name == s)

end Kind

def indexes : List String := [
  "idx_session_status_created",
  "idx_session_last_interaction",
  "idx_session_completed",
  "idx_stage_session",
  "idx_execution_stage",
  "idx_execution_parent",
  "uq_execution_top_level_index",
  "uq_execution_sub_agent_index",
  "idx_event_created",
  "idx_event_session"]

def names (kind : Kind) : List String :=
  let unsorted : List String := match kind with
    | .table => Table.all.map Table.name
    | .index => indexes
    | .trigger | .view => []
  unsorted.mergeSort fun a b => decide (a ≤ b)

end AlertDesk.Schema
