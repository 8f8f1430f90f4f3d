import Conduit.CommandLine.Flag
import Conduit.CommandLine.Usage
import Conduit.Pipeline.Options

/-!
# Arguments

From the arguments to a command. Arguments are looked at one by one. A flag
that takes a value and has none attached waits for the next argument, and its
value is looked at when the next flag comes or the arguments end; an argument
that has no place at all is complained about before that.
-/

namespace Conduit.CommandLine

structure Given where
  seen : List Flag := []
  config : Option String := none
  producers : Nat := 1
  consumers : Nat := 5
  count : Nat := 1000
  capacity : Nat := 64
  workMs : Nat := 0
  rounds : Nat := 10
  deriving DecidableEq, Repr

structure Command where
  task : Task
  config : Option String
  options : Pipeline.Options
  /-- How often a stress run repeats all pipelines. -/
  rounds : Nat
  deriving DecidableEq, Repr

/-! ## Values -/

def word (f : Flag) (value : String) : Except Usage Nat :=
  (readNatural 18446744073709551615 value).mapError fun e => .invalidValue f value e.message

/-- A number of 32 bits, from a lower limit up. -/
def halfWord (least : Nat) (f : Flag) (value : String) : Except Usage Nat :=
  match readSigned value with
  | .error e => .error (.invalidValue f value e.message)
  | .ok n =>
    if (least : Int) ≤ n ∧ n ≤ 4294967295 then .ok n.toNat
    else
      .error (.invalidValue f value
        (toString n ++ " is not in " ++ toString least ++ "..=4294967295"))

def setValue (f : Flag) (value : String) (g : Given) : Except Usage Given :=
  match f with
  | .config => if value = "" then .error (.missingValue f) else .ok { g with config := some value }
  | .producers => (word f value).map fun n => { g with producers := n }
  | .consumers => (word f value).map fun n => { g with consumers := n }
  | .count => (halfWord 0 f value).map fun n => { g with count := n }
  | .capacity => (halfWord 1 f value).map fun n => { g with capacity := n }
  | .workMs => (word f value).map fun n => { g with workMs := n }
  | .rounds => (word f value).map fun n => { g with rounds := n }
  | _ => .ok g

def Given.accept (f : Flag) (value : String) (g : Given) : Except Usage Given :=
  if g.seen.contains f then .error (.repeated f)
  else setValue f value { g with seen := f :: g.seen }

/-! ## Flags -/

/-- A flag that takes a value and did not get it looked at yet. -/
inductive Pending
  | nothing
  | waiting (f : Flag)
  | holding (f : Flag) (value : String)
  deriving DecidableEq, Repr

structure Reading where
  given : Given := {}
  pending : Pending := .nothing
  deriving DecidableEq, Repr

namespace Reading

def resolve (r : Reading) : Except Usage Given :=
  match r.pending with
  | .nothing => .ok r.given
  | .waiting f => .error (.missingValue f)
  | .holding f value => r.given.accept f value

def takeFlag (f : Flag) (attached : Option String) (r : Reading) : Except Usage Reading := do
  if f.takesValue then
    let given ← r.resolve
    match attached with
    | some value => return { given := ← given.accept f value }
    | none => return { given, pending := .waiting f }
  else
    match attached with
    | some value => throw (.unwantedValue f value)
    | none =>
      let given ← r.resolve
      match f with
      | .help => throw .help
      | .version => throw .version
      | _ => return { given := ← given.accept f "" }

def takeLong (p : Place) (text : String) (r : Reading) : Except Usage Reading :=
  let name := text.takeWhile (· != '=') |>.toString
  let attached := if name.length < text.length then some (text.drop (name.length + 1)).toString else none
  match Flag.ofLong? p name with
  | some f => r.takeFlag f attached
  | none => .error (.unexpected ("--" ++ name))

/-- Short flags that stand together. The first that takes a value takes the rest. -/
def takeShort (p : Place) : List Char → Reading → Except Usage Reading
  | [], r => .ok r
  | c :: cs, r =>
    match Flag.ofShort? p c with
    | none => .error (.unexpected ("-" ++ String.singleton c))
    | some f =>
      if f.takesValue then
        match cs with
        | [] => r.takeFlag f none
        | '=' :: value => r.takeFlag f (some (String.ofList value))
        | value => r.takeFlag f (some (String.ofList value))
      else do takeShort p cs (← r.takeFlag f none)

end Reading

/-! ## Arguments -/

def misplaced (p : Place) (trailing : Bool) (argument : String) : Usage :=
  match p with
  | .start =>
    if trailing && (Task.ofName? argument).isSome then .unexpected argument else .unrecognized argument
  | .after _ => .unexpected argument

/-- Reads arguments up to the task or the end. After `--` nothing is a flag. -/
def readPlace (p : Place) : List String → Bool → Reading → Except Usage (Reading × Option (String × List String))
  | [], _, r => .ok (r, none)
  | a :: _, true, _ => .error (misplaced p true a)
  | a :: rest, false, r =>
    match a.toList, r.pending with
    | ['-', '-'], _ => readPlace p rest true r
    | '-' :: '-' :: text, _ => do readPlace p rest false (← r.takeLong p (String.ofList text))
    | '-' :: c :: cs, _ => do readPlace p rest false (← r.takeShort p (c :: cs))
    | _, .waiting f => readPlace p rest false { r with pending := .holding f a }
    | _, _ =>
      if p == .start && (a == "help" || (Task.ofName? a).isSome) then .ok (r, some (a, rest))
      else .error (misplaced p false a)

/-- The value of the flag before, and the path that the environment names if no flag did. -/
def closePlace (named : Option String) (r : Reading) : Except Usage Given := do
  let given ← r.resolve
  if given.config.isNone && named == some "" then throw (.missingValue .config)
  return given

def readHelp : List String → Usage
  | [] => .help
  | a :: rest =>
    if a == "help" || (Task.ofName? a).isSome then (rest.head?.map Usage.unrecognized).getD .help
    else .unrecognized a

def Given.options (g : Given) : Pipeline.Options where
  producers := .ofNat (max g.producers 1)
  consumers := .ofNat (max g.consumers 1)
  count := .ofNat g.count
  capacity := .ofNat g.capacity
  workMs := .ofNat g.workMs
  traceValues := g.seen.contains .traceValues

/-- Reads a whole command; `named` is the path that the environment names. -/
def readCommand (named : Option String) (arguments : List String) : Except Usage Command := do
  let (r, found) ← readPlace .start arguments false {}
  match found with
  | none =>
    let given ← closePlace named r
    throw (if given.seen.isEmpty && named.isNone then .bare else .noTask)
  | some (name, rest) =>
    match Task.ofName? name with
    | none => throw (readHelp rest)
    | some task =>
      let (inner, _) ← readPlace (.after task) rest false {}
      let given ← closePlace named inner
      let outer ← closePlace named r
      return {
        task
        config := given.config.or (outer.config.or named)
        options := given.options
        rounds := given.rounds }

end Conduit.CommandLine
