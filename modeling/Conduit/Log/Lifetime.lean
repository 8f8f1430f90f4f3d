import Conduit.Log.Logger
import Conduit.Log.Outlet

/-!
# A logger on a file

A logger whose worker writes to an opened file. The file takes all that it is
handed. Dropping a logger is one more call for its end.
-/

namespace Conduit.Log

structure Lifetime where
  logger : Logger
  sink : FileSink

namespace Lifetime

def start (capacity : Nat) (place : Path) (around : Surroundings) : Lifetime :=
  { logger := .start capacity, sink := { place, around } }

/-- What the worker has the sink do in its next step. -/
def serve (w : Worker) (k : FileSink) : FileSink :=
  match w with
  | .writing line | .closing line _ => k.writeLine line
  | .flushing => k.flush
  | _ => k

inductive Act
  | submit (line : String)
  | countRefused
  | work
  | call
  | advance (i : Nat)
  deriving DecidableEq, Repr

/-- The step as the logger makes it; the sink is done each time. -/
def Act.atLogger : Act → Logger.Act
  | submit line => .submit line
  | countRefused => .countRefused
  | work => .work .done
  | call => .call
  | advance i => .advance i

def step (a : Act) (l : Lifetime) : Lifetime :=
  { logger := l.logger.step a.atLogger
    sink := if a = .work then serve l.logger.worker l.sink else l.sink }

def isOver (l : Lifetime) : Bool :=
  !l.logger.callers.isEmpty && (List.range l.logger.callers.size).all fun i => (l.logger.returned? i).isSome

end Lifetime

end Conduit.Log
