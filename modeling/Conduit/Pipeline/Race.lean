import Conduit.Pipeline.Channel
import Conduit.Pipeline.Options

/-!
# Many producers, many consumers

Producers push their values into one channel and consumers take them out.
Each value has a number of its own. The producer that ends last pushes one
token for each consumer, which ends when it takes it. A step is one step of
one thread.
-/

namespace Conduit.Pipeline

/-- Stands for the end of the values; it is below all of them. -/
def token : Int64 := Int64.minValue

def valueOf (o : Options) (p i : UInt64) : Int64 := (p * o.count + i).toInt64

inductive Producer
  | next (i : UInt64)
  | pushing (i : UInt64)
  | tracing (i : UInt64)
  /-- All pushed: takes itself off the count of active producers. -/
  | leaving
  /-- The last one: pushes so many tokens. -/
  | closing (left : Nat)
  | pushingToken (left : Nat)
  | ended
  deriving DecidableEq, Repr

inductive Consumer
  | asking
  | popping
  | tracing (v : Int64)
  | ended
  deriving DecidableEq, Repr

inductive Trace
  | produced (p : Nat) (v : Int64)
  | consumed (c : Nat) (v : Int64)
  deriving DecidableEq, Repr

def Trace.message : Trace → String
  | .produced p v => "producer " ++ toString p ++ " value " ++ toString v
  | .consumed c v => "consumer " ++ toString c ++ " value " ++ toString v

structure Race (σ : Type) where
  channel : σ
  producers : Array Producer
  consumers : Array Consumer
  /-- Producers that have not taken themselves off yet. -/
  active : UInt64
  shares : Array (Array Int64)
  traces : Array Trace

inductive Thread
  | producer (p : Nat)
  | consumer (c : Nat)
  deriving DecidableEq, Repr

namespace Race

variable {σ : Type}

def start (o : Options) (channel : σ) : Race σ where
  channel
  producers := Array.replicate o.producers.toNat (.next 0)
  consumers := Array.replicate o.consumers.toNat .asking
  active := o.producers
  shares := Array.replicate o.consumers.toNat #[]
  traces := #[]

def afterValue (o : Options) (i : UInt64) : Producer :=
  if o.traceValues then .tracing i else .next (i + 1)

def valueProgress (o : Options) (i : UInt64) : Progress → Producer
  | .accepted => afterValue o i
  | .underWay => .pushing i
  | _ => .leaving

def tokenProgress (left : Nat) : Progress → Producer
  | .underWay => .pushingToken left
  | _ => .closing left

/-- The next step of a producer; nothing changes while it sleeps and after its end. -/
def stepProducer [Channel σ] (o : Options) (pick p : Nat) (r : Race σ) : Race σ :=
  match r with
  | ⟨channel, producers, consumers, active, shares, traces⟩ =>
    match producers[p]? with
    | none | some .ended => ⟨channel, producers, consumers, active, shares, traces⟩
    | some (.next i) =>
      if i < o.count then
        let (channel, a) := Channel.push pick p (valueOf o (.ofNat p) i) channel
        ⟨channel, producers.setIfInBounds p (valueProgress o i a), consumers, active, shares, traces⟩
      else ⟨channel, producers.setIfInBounds p .leaving, consumers, active, shares, traces⟩
    | some (.pushing i) =>
      let (channel, a) := Channel.goOn pick p channel
      ⟨channel, producers.setIfInBounds p (valueProgress o i a), consumers, active, shares, traces⟩
    | some (.tracing i) =>
      ⟨channel, producers.setIfInBounds p (.next (i + 1)), consumers, active, shares,
        traces.push (.produced p (valueOf o (.ofNat p) i))⟩
    | some .leaving =>
      let stage := if active = 1 then .closing o.consumers.toNat else .ended
      ⟨channel, producers.setIfInBounds p stage, consumers, active - 1, shares, traces⟩
    | some (.closing 0) => ⟨channel, producers.setIfInBounds p .ended, consumers, active, shares, traces⟩
    | some (.closing (left + 1)) =>
      let (channel, a) := Channel.push pick p token channel
      ⟨channel, producers.setIfInBounds p (tokenProgress left a), consumers, active, shares, traces⟩
    | some (.pushingToken left) =>
      let (channel, a) := Channel.goOn pick p channel
      ⟨channel, producers.setIfInBounds p (tokenProgress left a), consumers, active, shares, traces⟩

/-- A consumer that has come so far with a pop, and the value it has taken, if any. -/
def popProgress (o : Options) : Progress → Consumer × Option Int64
  | .value v =>
    if v = token then (.ended, none)
    else if o.traceValues then (.tracing v, none)
    else (.asking, some v)
  | .nothing => (.asking, none)
  | .closed => (.ended, none)
  | _ => (.popping, none)

def keep (c : Nat) (v : Option Int64) (shares : Array (Array Int64)) : Array (Array Int64) :=
  match v with
  | some v => shares.modify c (·.push v)
  | none => shares

/-- The number by which the channel knows a consumer. -/
def consumerThread (r : Race σ) (c : Nat) : Nat := r.producers.size + c

def stepConsumer [Channel σ] (o : Options) (pick c : Nat) (r : Race σ) : Race σ :=
  let t := r.consumerThread c
  match r with
  | ⟨channel, producers, consumers, active, shares, traces⟩ =>
    match consumers[c]? with
    | none | some .ended => ⟨channel, producers, consumers, active, shares, traces⟩
    | some .asking =>
      let (channel, a) := Channel.pop pick t channel
      let (stage, v) := popProgress o a
      ⟨channel, producers, consumers.setIfInBounds c stage, active, keep c v shares, traces⟩
    | some .popping =>
      let (channel, a) := Channel.goOn pick t channel
      let (stage, v) := popProgress o a
      ⟨channel, producers, consumers.setIfInBounds c stage, active, keep c v shares, traces⟩
    | some (.tracing v) =>
      ⟨channel, producers, consumers.setIfInBounds c .asking, active, keep c (some v) shares,
        traces.push (.consumed c v)⟩

def step [Channel σ] (o : Options) (pick : Nat) (t : Thread) (r : Race σ) : Race σ :=
  match t with
  | .producer p => r.stepProducer o pick p
  | .consumer c => r.stepConsumer o pick c

def share (c : Nat) (r : Race σ) : List Int64 := (r.shares[c]?.getD #[]).toList

def isDone (r : Race σ) : Bool :=
  r.producers.all (· == .ended) && r.consumers.all (· == .ended)

def report (name : String) (o : Options) (r : Race σ) : Report :=
  .ofShares name (o.producers * o.count).toNat (r.shares.toList.map Array.toList)

/-! ## Taking turns -/

def round [Channel σ] (o : Options) (r : Race σ) : Race σ :=
  let r := Nat.fold r.producers.size (fun p _ r => r.step o 0 (.producer p)) r
  Nat.fold r.consumers.size (fun c _ r => r.step o 0 (.consumer c)) r

def rounds [Channel σ] (o : Options) : Nat → Race σ → Race σ
  | 0, r => r
  | n + 1, r => if r.isDone then r else rounds o n (r.round o)

/-- Each push and each pop takes a few steps, and no round passes in which none comes further. -/
def patience (o : Options) : Nat :=
  let values := o.producers.toNat * o.count.toNat
  16 * (2 * (values + o.consumers.toNat) + o.producers.toNat + o.consumers.toNat + 1)

/-- Runs a race to its end. Nothing if it has none. -/
def run [Channel σ] (o : Options) (channel : σ) : Option (Race σ) :=
  let r := rounds o (patience o) (start o channel)
  if r.isDone then some r else none

end Race

end Conduit.Pipeline
