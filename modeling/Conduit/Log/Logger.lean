import Conduit.Blocking.Threads
import Conduit.Log.Config

/-!
# The logger

Any number of threads submit lines to a queue that never makes them wait. One
worker takes them off and hands them to a sink, first one by one and, once
the queue is down, all that is left at once. Lines that will not reach the
sink are counted as dropped. Any thread may shut the logger down; one of them
takes the worker's handle and waits for its end.
-/

namespace Conduit.Log

inductive Ending
  | finished
  | failed (f : Sink.Failure)
  /-- So many lines were in its hands and are counted nowhere. -/
  | panicked (unwound : Nat)
  deriving DecidableEq, Repr

/-- What the worker does next. -/
inductive Worker
  | popping
  | asleep
  | writing (line : String)
  /-- Takes all that is left in the queue. -/
  | draining
  /-- Writes a line of what was left, with others to follow. -/
  | closing (line : String) (rest : List String)
  | flushing
  /-- The sink failed with so many lines in hand; shuts the queue down. -/
  | failing (f : Sink.Failure) (inHand : Nat)
  | clearing (f : Sink.Failure) (inHand : Nat)
  | counting (f : Sink.Failure) (lost : Nat)
  | ended (e : Ending)
  deriving DecidableEq, Repr

inductive Outcome
  | finished (written : Nat)
  | failed (f : Sink.Failure)
  | panicked
  deriving DecidableEq, Repr

structure Stats where
  written : Nat
  dropped : Nat
  deriving DecidableEq, Repr

/-- Where a shutdown call stands: what it does next. -/
inductive Caller
  | signalling
  | taking
  | joining
  /-- The worker panicked: takes what is left in the queue, to count it. -/
  | clearing
  | counting (lost : Nat)
  | recording (o : Outcome)
  | reporting
  | returned (r : Except Failure Stats)

structure Logger where
  queue : Blocking.System String
  worker : Worker := .popping
  written : Nat := 0
  stored : Array String := #[]
  dropped : Nat := 0
  /-- Calls whose line was refused and that have not counted it yet. -/
  refusing : Nat := 0
  /-- Whether nobody has taken the worker's handle yet. -/
  handle : Bool := true
  outcome : Option Outcome := none
  callers : Array Caller := #[]

namespace Logger

def start (capacity : Nat) : Logger := { queue := .start { limit := capacity } }

def pending (s : Logger) : Nat := s.queue.queue.items.size

/-! ## Submitting a line -/

/-- A thread submits a line; tells whether it was accepted. A refused one is
still to be counted. -/
def submit (line : String) : Logger → Logger × Bool
  | ⟨queue, worker, written, stored, dropped, refusing, handle, outcome, callers⟩ =>
    match queue.tryPush 0 line with
    | (queue, .accepted) =>
      (⟨queue, worker, written, stored, dropped, refusing, handle, outcome, callers⟩, true)
    | (queue, _) =>
      (⟨queue, worker, written, stored, dropped, refusing + 1, handle, outcome, callers⟩, false)

def countRefused (s : Logger) : Logger :=
  if 0 < s.refusing then { s with refusing := s.refusing - 1, dropped := s.dropped + 1 } else s

/-! ## The worker -/

def afterPop : Blocking.Answer String → Worker
  | .parked => .asleep
  | .value line => .writing line
  | _ => .draining

def afterLine : List String → Worker
  | [] => .flushing
  | line :: rest => .closing line rest

def drained : Blocking.Answer String → List String
  | .drained lines => lines
  | _ => []

def canWork (s : Logger) : Bool :=
  match s.worker with
  | .asleep => s.queue.data.woken.contains 0
  | .ended _ => false
  | _ => true

/-- The worker's next step; nothing changes asleep or at the end. `r` is how
the sink's call ends, in a step that makes one. -/
def work (r : Sink.Result) (s : Logger) : Logger :=
  match s with
  | ⟨queue, worker, written, stored, dropped, refusing, handle, outcome, callers⟩ =>
    match worker with
    | .popping =>
      let (queue, a) := queue.runPop 0 0
      ⟨queue, afterPop a, written, stored, dropped, refusing, handle, outcome, callers⟩
    | .asleep =>
      match queue.resumePop 0 0 with
      | some (queue, a) => ⟨queue, afterPop a, written, stored, dropped, refusing, handle, outcome, callers⟩
      | none => ⟨queue, .asleep, written, stored, dropped, refusing, handle, outcome, callers⟩
    | .writing line =>
      match r with
      | .done => ⟨queue, .popping, written + 1, stored.push line, dropped, refusing, handle, outcome, callers⟩
      | .failed f => ⟨queue, .failing f 1, written, stored, dropped, refusing, handle, outcome, callers⟩
      | .panicked => ⟨queue, .ended (.panicked 1), written, stored, dropped, refusing, handle, outcome, callers⟩
    | .draining =>
      let (queue, a) := queue.drain
      ⟨queue, afterLine (drained a), written, stored, dropped, refusing, handle, outcome, callers⟩
    | .closing line rest =>
      match r with
      | .done => ⟨queue, afterLine rest, written + 1, stored.push line, dropped, refusing, handle, outcome, callers⟩
      | .failed f =>
        ⟨queue, .failing f (rest.length + 1), written, stored, dropped, refusing, handle, outcome, callers⟩
      | .panicked =>
        ⟨queue, .ended (.panicked (rest.length + 1)), written, stored, dropped, refusing, handle, outcome, callers⟩
    | .flushing =>
      match r with
      | .done => ⟨queue, .ended .finished, written, stored, dropped, refusing, handle, outcome, callers⟩
      | .failed f => ⟨queue, .failing f 0, written, stored, dropped, refusing, handle, outcome, callers⟩
      | .panicked => ⟨queue, .ended (.panicked 0), written, stored, dropped, refusing, handle, outcome, callers⟩
    | .failing f inHand =>
      ⟨queue.shutDown.1, .clearing f inHand, written, stored, dropped, refusing, handle, outcome, callers⟩
    | .clearing f inHand =>
      let (queue, a) := queue.drain
      ⟨queue, .counting f (inHand + (drained a).length), written, stored, dropped, refusing, handle, outcome, callers⟩
    | .counting f lost =>
      ⟨queue, .ended (.failed f), written, stored, dropped + lost, refusing, handle, outcome, callers⟩
    | .ended e => ⟨queue, .ended e, written, stored, dropped, refusing, handle, outcome, callers⟩

/-! ## Shutting down -/

/-- A thread calls for the logger's end; gives the call's number. -/
def call (s : Logger) : Logger × Nat :=
  ({ s with callers := s.callers.push .signalling }, s.callers.size)

def report (s : Logger) : Except Failure Stats :=
  match s.outcome with
  | some (.finished written) => .ok ⟨written, s.dropped⟩
  | some (.failed f) => .error (.sink f)
  | some .panicked => .error .workerPanicked
  | none => .ok ⟨0, s.dropped⟩

/-- A step of a shutdown call: the logger, and what the call does after it.
Nothing changes while the call waits and after its return. -/
def advance (c : Caller) (s : Logger) : Logger × Caller :=
  match c with
  | .signalling => ({ s with queue := s.queue.shutDown.1 }, .taking)
  | .taking => if s.handle then ({ s with handle := false }, .joining) else (s, .reporting)
  | .joining =>
    match s.worker with
    | .ended .finished => (s, .recording (.finished s.written))
    | .ended (.failed f) => (s, .recording (.failed f))
    | .ended (.panicked _) => (s, .clearing)
    | _ => (s, .joining)
  | .clearing =>
    let (queue, a) := s.queue.drain
    ({ s with queue }, .counting (drained a).length)
  | .counting lost => ({ s with dropped := s.dropped + lost }, .recording .panicked)
  | .recording o => ({ s with outcome := some o }, .reporting)
  | .reporting => (s, .returned s.report)
  | .returned r => (s, .returned r)

def advanceCaller (i : Nat) (s : Logger) : Logger :=
  match s.callers[i]? with
  | some c =>
    let (s, c) := s.advance c
    { s with callers := s.callers.setIfInBounds i c }
  | none => s

def returned? (i : Nat) (s : Logger) : Option (Except Failure Stats) :=
  match s.callers[i]? with
  | some (.returned r) => some r
  | _ => none

/-! ## Any thread's step -/

inductive Act
  | submit (line : String)
  | countRefused
  | work (r : Sink.Result)
  | call
  | advance (i : Nat)
  deriving DecidableEq, Repr

def step (a : Act) (s : Logger) : Logger :=
  match a with
  | .submit line => (s.submit line).1
  | .countRefused => s.countRefused
  | .work r => s.work r
  | .call => s.call.1
  | .advance i => s.advanceCaller i

end Logger

end Conduit.Log
