import AlertDesk.Status
import AlertDesk.Text.Digits
/-!
The operator's command line. A database is named first, by an option or by the environment, and a
command follows with options and arguments of its own. An option takes the word after it, unless
that word starts with a dash, or what stands behind an equals sign; no option is given twice. After
two dashes alone every word is an argument.
-/
namespace AlertDesk.Operator

inductive Command where
  | submit (alertType chainId alertData : String) (author : Option String)
  | describe (id : String)
  | list (status : Option String) (limit : Nat)
  | cancel (id : String)
  | orphans (seconds : Nat) (action : OrphanAction)
  | sweep (days seconds : Nat)
  | events (sessionId : String)
deriving DecidableEq, Repr

inductive Stop where
  | usage | help | version
deriving DecidableEq, Repr

/-! ### Words -/

def longOption? (word : String) : Option (String × Option String) :=
  match word.toList with
  | '-' :: '-' :: rest =>
    match rest.dropWhile (· != '=') with
    | [] => some (String.ofList rest, none)
    | _ :: value => some (String.ofList (rest.takeWhile (· != '=')), some (String.ofList value))
  | _ => none

/-- A word that starts with a dash, a dash alone apart, is no value. -/
def isDashed (word : String) : Bool := word.startsWith "-" && word != "-"

/-- Decimal digits after a sign, if there is one. A minus is admitted where numbers are signed at
first. -/
def natural? (allowsMinus : Bool) (bound : Nat) (word : String) : Option Nat := do
  let (isNegative, ds) := match word.toList with
    | '+' :: ds => (false, ds)
    | '-' :: ds => (true, ds)
    | ds => (false, ds)
  guard (!ds.isEmpty ∧ ds.all Char.isDigit ∧ (allowsMinus ∨ !isNegative))
  let n := Digits.number ds
  guard (n < bound ∧ (n = 0 ∨ !isNegative))
  return n

def natural32? : String → Option Nat := natural? true (Nat.pow 2 32)

def natural64? : String → Option Nat := natural? false (Nat.pow 2 64)

/-! ### Options and arguments -/

structure Words where
  options : List (String × String) := []
  arguments : List String := []

/-- What a command admits: its options, each with what its value must satisfy, and how many
arguments. -/
structure Admitted where
  options : List (String × (String → Bool)) := []
  arguments : Nat := 0

def addOption (admitted : Admitted) (name value : String) (read : Words) : Except Stop Words :=
  match admitted.options.lookup name with
  | some isValue =>
    if isValue value ∧ (read.options.lookup name).isNone then
      .ok { read with options := (name, value) :: read.options }
    else .error .usage
  | none => .error .usage

def addArgument (admitted : Admitted) (word : String) (read : Words) : Except Stop Words :=
  if read.arguments.length < admitted.arguments then
    .ok { read with arguments := read.arguments ++ [word] }
  else .error .usage

def readWords (admitted : Admitted) (read : Words) : List String → Except Stop Words
  | [] => .ok read
  | word :: rest =>
    if word = "--" then rest.foldlM (fun read word => addArgument admitted word read) read
    else
      match longOption? word with
      | some ("help", none) => .error .help
      | some (name, some value) => do
        readWords admitted (← addOption admitted name value read) rest
      | some (name, none) =>
        match rest with
        | value :: rest =>
          if isDashed value then .error .usage
          else do readWords admitted (← addOption admitted name value read) rest
        | [] => .error .usage
      | none =>
        if isDashed word then .error (if word.startsWith "-h" then .help else .usage)
        else do readWords admitted (← addArgument admitted word read) rest

/-! ### Commands -/

def anything (_ : String) : Bool := true

def theArgument (read : Words) : Except Stop String :=
  match read.arguments with
  | [word] => .ok word
  | _ => .error .usage

def needed (read : Words) (name : String) : Except Stop String :=
  match read.options.lookup name with
  | some value => .ok value
  | none => .error .usage

def numberOr (read : Words) (name : String) (number? : String → Option Nat) (default : Nat) : Nat :=
  ((read.options.lookup name).bind number?).getD default

def command? (name : String) (words : List String) : Option (Except Stop Command) :=
  match name with
  | "submit" => some do
    let read ← readWords
      ⟨[("alert-type", anything), ("chain", anything), ("data", anything), ("author", anything)], 0⟩
        {} words
    return .submit (← needed read "alert-type") (← needed read "chain")
      ((read.options.lookup "data").getD "\x7b\x7d") (read.options.lookup "author")
  | "show" => some do
    return .describe (← theArgument (← readWords ⟨[], 1⟩ {} words))
  | "list" => some do
    let read ←
      readWords ⟨[("status", anything), ("limit", fun s => (natural32? s).isSome)], 0⟩ {} words
    return .list (read.options.lookup "status") (numberOr read "limit" natural32? 50)
  | "cancel" => some do
    return .cancel (← theArgument (← readWords ⟨[], 1⟩ {} words))
  | "orphans" => some do
    let read ← readWords
      ⟨[("timeout-seconds", fun s => (natural64? s).isSome),
        ("action", fun s => (OrphanAction.ofName? s).isSome)], 0⟩ {} words
    return .orphans (numberOr read "timeout-seconds" natural64? 300)
      (((read.options.lookup "action").bind OrphanAction.ofName?).getD .report)
  | "sweep" => some do
    let read ← readWords
      ⟨[("retention-days", fun s => (natural32? s).isSome),
        ("event-ttl-seconds", fun s => (natural64? s).isSome)], 0⟩ {} words
    return .sweep (numberOr read "retention-days" natural32? 365)
      (numberOr read "event-ttl-seconds" natural64? 3600)
  | "events" => some do
    return .events (← theArgument (← readWords ⟨[], 1⟩ {} words))
  | _ => none

/-! ### The whole line -/

structure Invocation where
  database : String
  command : Command
deriving DecidableEq, Repr

/-- The database by the option that was given, else by the environment. A path is not empty. -/
def database (given environment : Option String) : Except Stop String :=
  match given.or environment with
  | some path => if path.isEmpty then .error .usage else .ok path
  | none => .error .usage

def invocation (environment given : Option String) : List String → Except Stop Invocation
  | [] => .error .usage
  | word :: rest =>
    match longOption? word with
    | some ("version", none) => .error .version
    | some ("help", none) => .error .help
    | some ("database", some path) =>
      if given.isSome ∨ path.isEmpty then .error .usage else invocation environment (some path) rest
    | some ("database", none) =>
      match rest with
      | path :: rest =>
        if given.isSome ∨ path.isEmpty ∨ isDashed path then .error .usage
        else invocation environment (some path) rest
      | [] => .error .usage
    | some _ => .error .usage
    | none =>
      if isDashed word then
        .error (if word.startsWith "-V" then .version
          else if word.startsWith "-h" then .help else .usage)
      else if word = "help" then .error .help
      else
        match command? word rest with
        | none => .error .usage
        | some command => do
          let command ← command
          return { database := ← database given environment, command }

end AlertDesk.Operator
