import AlertDesk.Store.Statement
/-!
Calls: programs whose steps are statements and readings of the clock. A call can be run alone, where
its statements follow one another, or together with others in a pool, where one step of any of them
may come next. Both ways carry out the same program.
-/
namespace AlertDesk

/-- A call that answers `α`. `again` starts the whole call over. -/
inductive Call (α : Type) where
  | done (answer : α)
  | ask (s : Statement) (next : Except Failure s.Answer → Call α)
  | clock (next : Instant → Call α)
  | again

namespace Call

def bind {α β : Type} : Call α → (α → Call β) → Call β
  | .done a, f => f a
  | .ask s next, f => .ask s fun r => (next r).bind f
  | .clock next, f => .clock fun t => (next t).bind f
  | .again, _ => .again

instance : Monad Call where
  pure := .done
  bind := bind

end Call

abbrev Service (α : Type) := ExceptT Failure Call α

namespace Service

def ask (s : Statement) : Service s.Answer := ExceptT.mk (Call.ask s Call.done)

def clock : Service Instant := ExceptT.mk (Call.clock fun t => Call.done (.ok t))

def again {α : Type} : Service α := ExceptT.mk Call.again

def attempt {α : Type} (x : Service α) : Service (Except Failure α) :=
  ExceptT.mk (Call.bind x.run fun r => .done (.ok r))

def settle {α : Type} (r : Except Failure α) : Service α := ExceptT.mk (Call.done r)

end Service

abbrev Engine (σ : Type) := (s : Statement) → σ → Except Failure s.Answer × σ

def Store.engine : Engine Store := fun s st =>
  match s.exec st with
  | .ok (a, st) => (.ok a, st)
  | .error v => (.error (.store (.violation v)), st)

namespace Call

variable {α σ : Type}

/-- The call from its first step to its answer, or to the point where it starts over. -/
def pass (engine : Engine σ) (now : Instant) : Call α → σ → Option α × σ
  | .done a, st => (some a, st)
  | .ask s next, st =>
    let (r, st) := engine s st
    pass engine now (next r) st
  | .clock next, st => pass engine now (next now) st
  | .again, st => (none, st)

/-- The call run alone, starting over `rounds` times at most. -/
def run (engine : Engine σ) (now : Instant) (call : Call α) : Nat → σ → Option α × σ
  | 0, st => call.pass engine now st
  | rounds + 1, st =>
    match call.pass engine now st with
    | (some a, st) => (some a, st)
    | (none, st) => run engine now call rounds st

end Call

/-- A call on its way: the whole of it, and what is left to do. -/
structure Flight (α : Type) where
  call : Call α
  rest : Call α

namespace Flight

variable {α σ : Type}

def start (call : Call α) : Flight α := ⟨call, call⟩

def answer? (f : Flight α) : Option α :=
  match f.rest with
  | .done a => some a
  | _ => none

def step (engine : Engine σ) (now : Instant) (f : Flight α) (st : σ) : Flight α × σ :=
  match f.rest with
  | .done _ => (f, st)
  | .ask s next =>
    let (r, st) := engine s st
    ({ f with rest := next r }, st)
  | .clock next => ({ f with rest := next now }, st)
  | .again => ({ f with rest := f.call }, st)

end Flight

abbrev Pool (α : Type) := List (Flight α)

namespace Pool

variable {α σ : Type}

def step (engine : Engine σ) (now : Instant) (i : Nat) (p : Pool α) (st : σ) : Pool α × σ :=
  match p[i]? with
  | none => (p, st)
  | some f =>
    let (f, st) := f.step engine now st
    (p.set i f, st)

def run (engine : Engine σ) : List (Nat × Instant) → Pool α → σ → Pool α × σ
  | [], p, st => (p, st)
  | (i, now) :: schedule, p, st =>
    let (p, st) := p.step engine now i st
    run engine schedule p st

/-- Each call in turn makes one step, `rounds` times over. -/
def inTurn (calls rounds : Nat) (now : Instant) : List (Nat × Instant) :=
  (List.replicate rounds ((List.range calls).map fun i => (i, now))).flatten

def answers (p : Pool α) : List α := p.filterMap (·.answer?)

end Pool
end AlertDesk
