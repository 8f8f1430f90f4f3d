import Conduit.Log.Session
import Conduit.Pipeline.Joining

/-!
# Running a pipeline

A pipeline over one of the three queues, from its options to its report. Each
run logs its values, if they are to be traced, and then one line that sums it
up, also when the report is not clean. Options that are refused log nothing.
-/

namespace Conduit.Pipeline

/-- What the thread that joins has come to before it logs its line. -/
structure Finish where
  report : Report
  log : List String

inductive Trouble
  | refused (f : OptionsFault)
  | unclean (r : Report)
  /-- Some thread waits for what never comes. -/
  | endless
  deriving DecidableEq, Repr

def Trouble.message : Trouble → String
  | .refused f => f.message
  | .unclean r => r.complaint
  | .endless => "the pipeline never ends"

def Crew.finish? {ρ ε : Type} (C : Crew ρ ε) (r : ρ) : Option Finish :=
  let w := C.join ((C.handles r).length + 1) { crew := r, log := C.lines r }
  match w.joiner with
  | .summing report => some ⟨report, w.log⟩
  | _ => none

namespace Kind

/-- Runs a pipeline to its end, whatever its options. -/
def finish? (k : Kind) (o : Options) : Option Finish :=
  match k with
  | .bounded =>
    let channel : Blocking.System Int64 := .start { limit := o.capacity.toNat }
    (Race.run o channel).bind (Race.crew .bounded o).finish?
  | .lockFree =>
    let channel : Linked.System Int64 := .start (o.producers.toNat + o.consumers.toNat) .new
    (Race.run o channel).bind (Race.crew .lockFree o).finish?
  | .ring => (Relay.run o).bind (Relay.crew o).finish?

/-- A run that is allowed, up to the line that sums it up. -/
def begin? (k : Kind) (o : Options) : Except Trouble Finish :=
  match o.validate with
  | .error f => .error (.refused f)
  | .ok () =>
    match k.finish? o with
    | some f => .ok f
    | none => .error .endless

def lines (k : Kind) (o : Options) (f : Finish) (t : Text.Nanos) : List String :=
  f.log ++ [k.summary o f.report t]

/-- Logs a run that took so long and gives its outcome; `stamp` makes a log
line of a message. -/
def conclude (k : Kind) (o : Options) (begun : Except Trouble Finish) (t : Text.Nanos)
    (stamp : String → String) (s : Log.Session) : Log.Session × Except Trouble Report :=
  match begun with
  | .error e => (s, .error e)
  | .ok f => ((s.logAll ((k.lines o f t).map stamp)).1, f.report.check.mapError .unclean)

def run (k : Kind) (o : Options) (t : Text.Nanos) (stamp : String → String) (s : Log.Session) :
    Log.Session × Except Trouble Report :=
  k.conclude o (k.begin? o) t stamp s

end Kind

end Conduit.Pipeline
