import Conduit.Pipeline.Options
import Conduit.Ring.Ends

/-!
# One producer, one consumer

The producer pushes the numbers from zero into a ring, each until it is
accepted; the consumer takes as many values as were asked for. A step is one
step of one of the two.
-/

namespace Conduit.Pipeline

inductive Sender
  | next (i : Int64)
  /-- Pushes what a full ring gave back. -/
  | again (i back : Int64)
  | pushing (i : Int64)
  | tracing (i : Int64)
  | ended
  deriving DecidableEq, Repr

inductive Receiver
  | asking
  | popping
  | ended
  deriving DecidableEq, Repr

structure Relay where
  system : Ring.System Int64
  sender : Sender := .next 0
  receiver : Receiver := .asking
  popped : Array Int64 := #[]
  traces : Array Int64 := #[]

inductive RelayThread
  | sender
  | receiver
  deriving DecidableEq, Repr

def traceMessage (v : Int64) : String := "producer value " ++ toString v

namespace Relay

/-- The ring has one slot more than values it must hold. -/
def start? (o : Options) : Option Relay :=
  (Ring.Buffer.new? (o.capacity + 1).toNat).map fun buffer => { system := { buffer } }

def bound (o : Options) : Int64 := o.count.toInt64

def afterValue (o : Options) (i : Int64) : Sender :=
  if o.traceValues then .tracing i else .next (i + 1)

def pushProgress (o : Options) (i : Int64) : Option (Ring.Answer Int64) → Sender
  | some .accepted => afterValue o i
  | some (.rejected back) => .again i back
  | _ => .pushing i

/-- The next step of the sender; nothing changes after its end. -/
def stepSender (o : Options) (r : Relay) : Relay :=
  match r with
  | ⟨system, sender, receiver, popped, traces⟩ =>
    match sender with
    | .next i =>
      if i < bound o then ⟨system.enterProducer (.push i), .pushing i, receiver, popped, traces⟩
      else ⟨system, .ended, receiver, popped, traces⟩
    | .again i back => ⟨system.enterProducer (.push back), .pushing i, receiver, popped, traces⟩
    | .pushing i =>
      let (system, a) := system.advanceProducer
      ⟨system, pushProgress o i a, receiver, popped, traces⟩
    | .tracing i => ⟨system, .next (i + 1), receiver, popped, traces.push i⟩
    | .ended => ⟨system, .ended, receiver, popped, traces⟩

def stepReceiver (o : Options) (r : Relay) : Relay :=
  match r with
  | ⟨system, sender, receiver, popped, traces⟩ =>
    match receiver with
    | .asking =>
      if popped.size < o.count.toNat then ⟨system.enterConsumer .pop, sender, .popping, popped, traces⟩
      else ⟨system, sender, .ended, popped, traces⟩
    | .popping =>
      match system.advanceConsumer with
      | (system, some (.value v)) => ⟨system, sender, .asking, popped.push v, traces⟩
      | (system, some _) => ⟨system, sender, .asking, popped, traces⟩
      | (system, none) => ⟨system, sender, .popping, popped, traces⟩
    | .ended => ⟨system, sender, .ended, popped, traces⟩

def step (o : Options) (t : RelayThread) (r : Relay) : Relay :=
  match t with
  | .sender => r.stepSender o
  | .receiver => r.stepReceiver o

def isDone (r : Relay) : Bool := r.sender == .ended && r.receiver == .ended

def report (name : String) (o : Options) (r : Relay) : Report :=
  .ofSequence name o.count.toNat r.popped.toList

/-! ## Taking turns -/

def round (o : Options) (r : Relay) : Relay := (r.step o .sender).step o .receiver

def rounds (o : Options) : Nat → Relay → Relay
  | 0, r => r
  | n + 1, r => if r.isDone then r else rounds o n (r.round o)

/-- Each value takes a few steps on either side. -/
def patience (o : Options) : Nat := 32 * (o.count.toNat + 1)

def run (o : Options) : Option Relay :=
  (start? o).bind fun r =>
    let r := rounds o (patience o) r
    if r.isDone then some r else none

end Relay

end Conduit.Pipeline
