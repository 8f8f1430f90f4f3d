import Conduit.Pipeline.Options
import Conduit.Text.Time

/-!
# Output

What is printed at the end: a line for each report, a warning if messages
were dropped, or a failure with its causes.
-/

namespace Conduit.CommandLine

/-! ## Colours -/

inductive Style
  | green
  | red
  | yellow
  | bold
  deriving DecidableEq, Repr

def Style.code : Style → String
  | .green => "32"
  | .red => "31"
  | .yellow => "33"
  | .bold => "1"

def paint (colours : Bool) (s : Style) (text : String) : String :=
  if colours then "\x1b[" ++ s.code ++ "m" ++ text ++ "\x1b[0m" else text

/-- A variable that is set to anything but `0`. -/
def switchedOn (vars : List (String × String)) (name : String) : Option Bool :=
  (vars.lookup name).map (· != "0")

/-- Colours can be forced; else they may be forbidden, and need a terminal. -/
def usesColours (vars : List (String × String)) (terminal : Bool) : Bool :=
  if switchedOn vars "CLICOLOR_FORCE" == some true then true
  else if (vars.lookup "NO_COLOR").isSome then false
  else (switchedOn vars "CLICOLOR").getD true && terminal

/-! ## Lines -/

def reportLine (colours : Bool) (r : Pipeline.Report) (t : Text.Nanos) : String :=
  let status := if r.isClean then paint colours .green "ok" else paint colours .red "FAILED"
  status ++ " " ++ paint colours .bold (Text.padRight 18 r.queue) ++ " "
    ++ Text.padLeft 9 (toString r.received) ++ " values  " ++ Text.padLeft 10 (Text.elapsedShort t) ++ "\n"

def droppedLine (colours : Bool) (dropped : Nat) : String :=
  if dropped = 0 then ""
  else paint colours .yellow "warn" ++ " " ++ toString dropped ++ " log messages dropped\n"

/-! ## Failures -/

def setIn (margin text : String) : String := ("\n" ++ margin).intercalate (text.splitOn "\n")

/-- Causes, the outermost first; they are numbered if there are more than one. -/
def causeLines : List String → List String
  | [] => []
  | [cause] => ["    " ++ setIn "    " cause]
  | causes => causes.zipIdx.map fun (cause, i) =>
    Text.padLeft 5 (toString i) ++ ": " ++ setIn "       " cause

def failureText (what : String) (causes : List String) : String :=
  let tail := if causes.isEmpty then [] else "" :: "Caused by:" :: causeLines causes
  "\n".intercalate (("Error: " ++ what) :: tail) ++ "\n"

end Conduit.CommandLine
