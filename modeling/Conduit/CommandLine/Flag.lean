/-!
# Flags

The flags of the command line, where each may stand, how it is written, and the decimal numbers
that some of them take.
-/

namespace Conduit.CommandLine

inductive Flag
  | config
  | verbose
  | producers
  | consumers
  | count
  | capacity
  | workMs
  | traceValues
  | rounds
  | help
  | version
  deriving DecidableEq, Repr

inductive Task
  | bounded
  | lockFree
  | spsc
  | stress
  deriving DecidableEq, Repr

/-- Flags stand before the task or after it. -/
inductive Place
  | start
  | after (t : Task)
  deriving DecidableEq, Repr

def Task.name : Task → String
  | .bounded => "bounded"
  | .lockFree => "lock-free"
  | .spsc => "spsc"
  | .stress => "stress"

def Task.all : List Task := [.bounded, .lockFree, .spsc, .stress]

def Task.ofName? (name : String) : Option Task := Task.all.find? (·.name == name)

namespace Flag

def all : List Flag :=
  [.config, .verbose, .producers, .consumers, .count, .capacity, .workMs, .traceValues, .rounds, .help, .version]

def long : Flag → String
  | .config => "config"
  | .verbose => "verbose"
  | .producers => "producers"
  | .consumers => "consumers"
  | .count => "count"
  | .capacity => "capacity"
  | .workMs => "work-ms"
  | .traceValues => "trace-values"
  | .rounds => "rounds"
  | .help => "help"
  | .version => "version"

def short? : Flag → Option Char
  | .config => some 'c'
  | .verbose => some 'v'
  | .producers => some 'p'
  | .consumers => some 'n'
  | .rounds => some 'r'
  | .help => some 'h'
  | .version => some 'V'
  | _ => none

def value? : Flag → Option String
  | .config => some "CONFIG"
  | .producers => some "PRODUCERS"
  | .consumers => some "CONSUMERS"
  | .count => some "COUNT"
  | .capacity => some "CAPACITY"
  | .workMs => some "WORK_MS"
  | .rounds => some "ROUNDS"
  | _ => none

def takesValue (f : Flag) : Bool := f.value?.isSome

def shown (f : Flag) : String :=
  "--" ++ f.long ++ match f.value? with
    | some name => " <" ++ name ++ ">"
    | none => ""

def allowed (p : Place) : Flag → Bool
  | .config | .verbose | .help => true
  | .version => p == .start
  | .rounds => p == .after .stress
  | _ => p != .start

def ofLong? (p : Place) (name : String) : Option Flag :=
  all.find? fun f => f.allowed p && f.long == name

def ofShort? (p : Place) (c : Char) : Option Flag :=
  all.find? fun f => f.allowed p && f.short? == some c

end Flag

/-! ## Numbers -/

inductive NumberFault
  | empty
  | invalidDigit
  | tooLarge
  | tooSmall
  deriving DecidableEq, Repr

def NumberFault.message : NumberFault → String
  | .empty => "cannot parse integer from empty string"
  | .invalidDigit => "invalid digit found in string"
  | .tooLarge => "number too large to fit in target type"
  | .tooSmall => "number too small to fit in target type"

/-- Reads digits after a number so far, up to a limit. -/
def readDigits (limit : Nat) (beyond : NumberFault) : List Char → Nat → Except NumberFault Nat
  | [], n => .ok n
  | c :: cs, n =>
    if !c.isDigit then .error .invalidDigit
    else
      let n := 10 * n + (c.toNat - '0'.toNat)
      if limit < n then .error beyond else readDigits limit beyond cs n

def readNatural (limit : Nat) (text : String) : Except NumberFault Nat :=
  match text.toList with
  | [] => .error .empty
  | ['+'] => .error .invalidDigit
  | '+' :: digits => readDigits limit .tooLarge digits 0
  | digits => readDigits limit .tooLarge digits 0

def readSigned (text : String) : Except NumberFault Int :=
  match text.toList with
  | [] => .error .empty
  | ['+'] | ['-'] => .error .invalidDigit
  | '+' :: digits => (readDigits 9223372036854775807 .tooLarge digits 0).map Int.ofNat
  | '-' :: digits => (readDigits 9223372036854775808 .tooSmall digits 0).map fun n => -Int.ofNat n
  | digits => (readDigits 9223372036854775807 .tooLarge digits 0).map Int.ofNat

end Conduit.CommandLine
