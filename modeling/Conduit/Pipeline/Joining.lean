import Conduit.Pipeline.Race
import Conduit.Pipeline.Relay
import Conduit.Text.Time

/-!
# Joining

The threads of a pipeline are started by one more thread. It joins them one after another, keeps
what each of them hands over, and then logs the line that sums the run up. All lines go to one
log; a step is one step of one thread.
-/

namespace Conduit.Pipeline

/-- The threads to join. -/
structure Crew (ρ ε : Type) where
  next : ε → ρ → ρ
  /-- The threads in the order in which they are joined: what each hands over, once it has ended. -/
  handles : ρ → List (Option (List Int64))
  lines : ρ → List String
  report : List (List Int64) → Report
  summary : Report → Text.Nanos → String

/-- What the thread that joins the others does next. -/
inductive Joiner
  /-- Waits for the next thread; these are the shares of those before it. -/
  | joining (shares : List (List Int64))
  | summing (r : Report)
  | ended (r : Report)
  deriving DecidableEq, Repr

structure Whole (ρ : Type) where
  crew : ρ
  joiner : Joiner := .joining []
  log : List String := []

inductive Move (ε : Type)
  | crew (e : ε)
  | joiner (t : Text.Nanos)

namespace Crew

variable {ρ ε : Type}

def stepCrew (C : Crew ρ ε) (e : ε) (w : Whole ρ) : Whole ρ :=
  let crew := C.next e w.crew
  { w with crew, log := w.log ++ (C.lines crew).drop (C.lines w.crew).length }

/-- Nothing changes while it waits and after its end. -/
def stepJoiner (C : Crew ρ ε) (t : Text.Nanos) (w : Whole ρ) : Whole ρ :=
  match w.joiner with
  | .joining shares =>
    match (C.handles w.crew)[shares.length]? with
    | some (some share) => { w with joiner := .joining (shares ++ [share]) }
    | some none => w
    | none => { w with joiner := .summing (C.report shares) }
  | .summing r => { w with joiner := .ended r, log := w.log ++ [C.summary r t] }
  | .ended _ => w

def step (C : Crew ρ ε) (m : Move ε) (w : Whole ρ) : Whole ρ :=
  match m with
  | .crew e => C.stepCrew e w
  | .joiner t => C.stepJoiner t w

def join (C : Crew ρ ε) : Nat → Whole ρ → Whole ρ
  | 0, w => w
  | n + 1, w => C.join n (C.stepJoiner 0 w)

end Crew

/-! ## Pipelines -/

inductive Kind
  | bounded
  | lockFree
  | ring
  deriving DecidableEq, Repr

namespace Kind

def name : Kind → String
  | bounded => "bounded-blocking"
  | lockFree => "lock-free"
  | ring => "spsc-ring"

def summary (k : Kind) (o : Options) (r : Report) (t : Text.Nanos) : String :=
  match k with
  | .ring => k.name ++ ": " ++ toString r.received ++ " values in " ++ Text.elapsed t
  | _ =>
    k.name ++ ": " ++ toString r.received ++ " values through " ++ toString o.producers ++ " producers / "
      ++ toString o.consumers ++ " consumers in " ++ Text.elapsed t

end Kind

/-- The producers are joined first, then the consumers, which hand over their values. -/
def Race.crew {σ : Type} [Channel σ] (k : Kind) (o : Options) : Crew (Race σ) (Nat × Thread) where
  next e r := r.step o e.1 e.2
  handles r :=
    r.producers.toList.map (fun stage => if stage = .ended then some [] else none) ++
      r.consumers.toList.mapIdx fun c stage => if stage = .ended then some (share c r) else none
  lines r := r.traces.toList.map Trace.message
  report := .ofShares k.name (o.producers * o.count).toNat
  summary := k.summary o

/-- The thread that joins is itself the receiver before it joins the sender. -/
def Relay.crew (o : Options) : Crew Relay RelayThread where
  next t r := r.step o t
  handles r :=
    [if r.receiver = .ended then some r.popped.toList else none, if r.sender = .ended then some [] else none]
  lines r := r.traces.toList.map traceMessage
  report shares := .ofSequence Kind.ring.name o.count.toNat shares.flatten
  summary := Kind.ring.summary o

end Conduit.Pipeline
