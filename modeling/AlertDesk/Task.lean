/-!
Background tasks: a loop that is started and stopped. The task spawns a loop only when it is idle. A
stop cancels the newest loop and then waits for its end, in two steps between which anything may
happen; loops end by themselves, because they were cancelled, or by a fault, and the task does not
tell these apart.
-/
namespace AlertDesk

namespace Task

/-- While the task is stopping, its newest loop is cancelled and a stop waits for that loop's
end. -/
inductive Phase where
  | idle | running | stopping
deriving DecidableEq, Repr

def Phase.name : Phase → String
  | .idle => "idle"
  | .running => "running"
  | .stopping => "stopping"

structure Loop where
  isCancelled : Bool := false
  hasEnded : Bool := false
deriving DecidableEq, Repr

end Task

/-- The phase, and every loop that was ever spawned, the newest first. -/
structure Task where
  phase : Task.Phase := .idle
  loops : List Task.Loop := []
deriving DecidableEq, Repr

namespace Task

def start (t : Task) : Bool × Task :=
  match t.phase with
  | .idle => (true, { phase := .running, loops := {} :: t.loops })
  | _ => (false, t)

/-- The first step of a stop, which cancels the loop of a running task. The stop has to wait for
that loop exactly when the task was running. -/
def beginStop (t : Task) : Bool × Task :=
  match t.phase, t.loops with
  | .running, loop :: older =>
    (true, { phase := .stopping, loops := { loop with isCancelled := true } :: older })
  | _, _ => (false, t)

def finishStop? (t : Task) : Option Task :=
  match t.phase, t.loops with
  | .stopping, loop :: _ => if loop.hasEnded then some { t with phase := .idle } else none
  | _, _ => none

/-- The loop spawned after `older` others has ended. -/
def endLoop (older : Nat) (t : Task) : Task :=
  { t with
    loops := t.loops.mapIdx fun i loop =>
      if i + older + 1 = t.loops.length then { loop with hasEnded := true } else loop }

def spawned (t : Task) : Nat := t.loops.length

def ended (t : Task) : Nat := t.loops.countP (·.hasEnded)

end Task
end AlertDesk
