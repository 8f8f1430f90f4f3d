import Conduit.Sink.Writer

/-!
# Log configuration

What a logger is started with: how many messages it holds, where its lines go, whether they carry
the time, and the name of its thread. It fails to start, because of its thread or its
configuration, or its worker comes to a bad end.
-/

namespace Conduit.Log

/-- Where lines end up. A file is appended to or emptied first. -/
inductive Target
  | stdout
  | stderr
  | file (path : String) (append : Bool)
  | null
  deriving DecidableEq, Repr, Inhabited

structure Config where
  capacity : Nat := 10000
  sink : Target := .stdout
  timestamps : Bool := false
  threadName : String := "pipeq-logger"
  deriving DecidableEq, Repr, Inhabited

def Target.kind : Target → String
  | .stdout => "stdout"
  | .stderr => "stderr"
  | .file .. => "file"
  | .null => "null"

namespace Config

def withCapacity (c : Config) (capacity : Nat) : Config := { c with capacity := capacity }

def withSink (c : Config) (sink : Target) : Config := { c with sink := sink }

/-- The line of a message, with the time in front of it if lines carry the time. -/
def line (c : Config) (time message : String) : String :=
  if c.timestamps then time ++ " " ++ message else message

end Config

/-! ## Failures -/

inductive Failure
  | spawn (f : Sink.Failure)
  | sink (f : Sink.Failure)
  | workerPanicked
  /-- A cause, and what was being done when it came up, the innermost first. -/
  | config (cause : String) (contexts : List String)
  deriving DecidableEq, Repr

namespace Failure

def chain (cause : String) (contexts : List String) : String :=
  ": ".intercalate (contexts.reverse ++ [cause])

def message : Failure → String
  | .spawn f => "failed to spawn logger thread: " ++ f.message
  | .sink f => "log sink failed: " ++ f.message
  | .workerPanicked => "logger thread panicked"
  | .config cause contexts => "invalid logger configuration: " ++ chain cause contexts

def source : Failure → Option Sink.Failure
  | .spawn f | .sink f => some f
  | _ => none

end Failure

end Conduit.Log
