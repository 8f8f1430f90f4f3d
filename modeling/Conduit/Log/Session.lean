import Conduit.Log.Logger
import Conduit.Sink.Memory

/-!
# A logger at work

A logger with the gate that its worker writes through. After each call the
threads come to rest: the worker is held at the gate, asleep or at its end,
and each shutdown call waits for the worker or has returned.
-/

namespace Conduit.Log

structure Session where
  logger : Logger
  gate : Sink.Gate := .wide

namespace Session

def start (capacity : Nat) (gate : Sink.Gate) : Session := { logger := .start capacity, gate }

def atGate (s : Session) : Bool :=
  match s.logger.worker with
  | .writing _ | .closing _ _ => true
  | _ => false

def canWork (s : Session) : Bool := s.logger.canWork && (!s.atGate || s.gate.letsPass)

def work (s : Session) : Session :=
  let atGate := s.atGate
  match s with
  | ⟨logger, gate⟩ =>
    if atGate then ⟨logger.work gate.nextResult, gate.pass⟩ else ⟨logger.work gate.flushResult, gate⟩

def workFor : Nat → Session → Session
  | 0, s => s
  | n + 1, s => if s.canWork then workFor n s.work else s

def advanceFor (i : Nat) : Nat → Session → Session
  | 0, s => s
  | n + 1, ⟨logger, gate⟩ => advanceFor i n ⟨logger.advanceCaller i, gate⟩

def callerSteps : Nat := 8

/-- Lets each shutdown call go on as far as it can. -/
def advanceAll (s : Session) : Session :=
  (List.range s.logger.callers.size).foldl (fun s i => s.advanceFor i callerSteps) s

/-- Lines of which the worker still has to dispose. -/
def backlog (s : Session) : Nat :=
  s.logger.pending + match s.logger.worker with
    | .writing _ => 1
    | .closing _ rest => rest.length + 1
    | _ => 0

/-- Lets the worker go on as far as it can. A line costs it two steps, and its
end a few more. -/
def settleWorker (s : Session) : Session := s.workFor (2 * s.backlog + 8)

def settle (s : Session) : Session := s.advanceAll.settleWorker.advanceAll

/-! ## What a thread outside can do -/

def log (line : String) (s : Session) : Session × Bool :=
  match s with
  | ⟨logger, gate⟩ =>
    match logger.submit line with
    | (logger, true) => ((⟨logger, gate⟩ : Session).settleWorker, true)
    | (logger, false) => (⟨logger.countRefused, gate⟩, false)

def logAll (lines : List String) (s : Session) : Session × Nat :=
  lines.foldl (fun (s, n) line =>
    match s.log line with
    | (s, true) => (s, n + 1)
    | (s, false) => (s, n)) (s, 0)

def changeGate (f : Sink.Gate → Sink.Gate) (s : Session) : Session := { s with gate := f s.gate }.settle

/-- Enters a shutdown call and leaves it to itself. -/
def beginShutdown (s : Session) : Session × Nat :=
  let (logger, i) := s.logger.call
  ({ s with logger }.settle, i)

/-- Enters a shutdown call, and opens the gate once the queue is down. -/
def beginShutdownOpening (s : Session) : Session × Nat :=
  let (logger, i) := s.logger.call
  let s := { s with logger := logger.advanceCaller i }
  (s.changeGate .throwOpen, i)

def report? (i : Nat) (s : Session) : Option (Except Failure Stats) := s.logger.returned? i

end Session

end Conduit.Log
