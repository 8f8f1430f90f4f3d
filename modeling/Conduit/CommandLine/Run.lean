import Conduit.CommandLine.Arguments
import Conduit.CommandLine.Output
import Conduit.Log.Outlet
import Conduit.Pipeline.Run
import Conduit.Settings.Load

/-!
# A run of the program

A command loads its configuration, starts the logger, runs its pipelines,
shuts the logger down and prints what came of it. What the logger writes to
the standard output stands before the reports. Reports are printed only if
every pipeline was clean.
-/

namespace Conduit.CommandLine

structure Ending where
  exitCode : Nat
  stdout : String := ""
  stderr : String := ""
  deriving DecidableEq, Repr

def Ending.ofUsage (u : Usage) : Ending := ⟨u.exitCode, u.stdout, u.stderr⟩

def Ending.failure (what : String) (causes : List String) : Ending := ⟨1, "", failureText what causes⟩

/-- A fault in the program itself, which ends at once. -/
def Ending.panic (message : String) : Ending := ⟨101, "", "thread 'main' panicked:\n" ++ message ++ "\n"⟩

def configVariable : String := "PIPEQ_CONFIG"

def loadConfig (read : String → Option String) (vars : List (String × String)) (c : Command) :
    Except Ending Log.Config :=
  (Settings.loadFrom read c.config vars).mapError fun e =>
    .failure "loading logger configuration" [e.context, e.cause]

def startFailure : Log.StartFault → Ending
  | .failure f => .failure "starting logger" [f.message]
  | fault => .panic fault.message

/-! ## Pipelines -/

def Task.kinds : Task → List Pipeline.Kind
  | .bounded => [.bounded]
  | .lockFree => [.lockFree]
  | .spsc => [.ring]
  | .stress => [.bounded, .lockFree, .ring]

def Command.repeats (c : Command) : Nat := if c.task = .stress then c.rounds else 1

structure Work where
  session : Log.Session
  reports : Array (Pipeline.Report × Text.Nanos) := #[]
  trouble : Option Pipeline.Trouble := none

namespace Work

def start (config : Log.Config) : Work := { session := .start config.capacity .wide }

def conclude (k : Pipeline.Kind) (o : Pipeline.Options) (begun : Except Pipeline.Trouble Pipeline.Finish)
    (t : Text.Nanos) (stamp : String → String) (w : Work) : Work :=
  match w with
  | ⟨session, reports, trouble⟩ =>
    match k.conclude o begun t stamp session with
    | (session, .ok r) => ⟨session, reports.push (r, t), trouble⟩
    | (session, .error e) => ⟨session, reports, some e⟩

def add (k : Pipeline.Kind) (o : Pipeline.Options) (t : Text.Nanos) (stamp : String → String) (w : Work) : Work :=
  if w.trouble.isSome then w else w.conclude k o (k.begin? o) t stamp

def addRounds (c : Command) (t : Text.Nanos) (stamp : String → String) : Nat → Work → Work
  | 0, w => w
  | n + 1, w =>
    if w.trouble.isSome then w
    else addRounds c t stamp n (c.task.kinds.foldl (fun w k => w.add k c.options t stamp) w)

/-- Shuts the logger down; gives the lines it wrote and what is printed after that. -/
def close (colours : Bool) (w : Work) : List String × Ending :=
  let (s, i) := w.session.beginShutdown
  let ending := match s.report? i, w.trouble with
    | some (.error f), _ => .failure "shutting down logger" [f.message]
    | _, some trouble => .failure trouble.message []
    | some (.ok stats), none =>
      let lines := w.reports.toList.map fun (r, t) => reportLine colours r t
      { exitCode := 0, stdout := String.join lines ++ droppedLine colours stats.dropped }
    | none, none => { exitCode := 0 }
  (s.logger.stored.toList, ending)

end Work

/-! ## The whole run -/

/-- A run in its surroundings, with all that depends on the clock given: the
time of every log line and the time that every pipeline takes. -/
def run (time : String) (t : Text.Nanos) (vars : List (String × String)) (files : Files)
    (arguments : List String) : Nat × Log.Surroundings :=
  let surroundings : Log.Surroundings := { files }
  let finish (e : Ending) (s : Log.Surroundings) : Nat × Log.Surroundings :=
    (e.exitCode, { s with stdout := s.stdout ++ e.stdout, stderr := s.stderr ++ e.stderr })
  match readCommand (vars.lookup configVariable) arguments with
  | .error u => finish (.ofUsage u) surroundings
  | .ok c =>
    match loadConfig files.read? vars c with
    | .error e => finish e surroundings
    | .ok config =>
      match config.launch surroundings with
      | (surroundings, .error fault) => finish (startFailure fault) surroundings
      | (surroundings, .ok outlet) =>
        let work := Work.addRounds c t (config.line time) c.repeats (.start config)
        let (lines, ending) := work.close (usesColours vars false)
        finish ending (outlet.writeLines lines surroundings)

end Conduit.CommandLine
