import Conduit.Blocking.Threads
import Conduit.Linked.Threads

/-!
# Channels

What a pipeline needs of a queue that many threads share: to begin a push or
a pop, and to go on with one. A thread is known by its number and is in one
call at most.
-/

namespace Conduit.Pipeline

inductive Progress
  | underWay
  | accepted
  | refused
  | value (v : Int64)
  /-- The queue is down and gives no more values. -/
  | closed
  | nothing
  deriving DecidableEq, Repr

/-- `pick` says which sleeper a wake-up reaches, where there are sleepers. -/
class Channel (σ : Type) where
  push : Nat → Nat → Int64 → σ → σ × Progress
  pop : Nat → Nat → σ → σ × Progress
  /-- Changes nothing while the thread sleeps. -/
  goOn : Nat → Nat → σ → σ × Progress
  asleep : Nat → σ → Bool

def Progress.ofBlocking : Blocking.Answer Int64 → Progress
  | .accepted => .accepted
  | .refused _ => .refused
  | .value v => .value v
  | .closed => .closed
  | _ => .underWay

instance : Channel (Blocking.System Int64) where
  push pick t v s := (s.runPush pick t v).map id .ofBlocking
  pop pick t s := (s.runPop pick t).map id .ofBlocking
  goOn pick t s :=
    match (s.resumePush pick t).or (s.resumePop pick t) with
    | some (s, a) => (s, .ofBlocking a)
    | none => (s, .underWay)
  asleep t s := s.data.waiting.contains t || s.space.waiting.any (·.1 == t)

def Progress.ofLinked : Option (Linked.Answer Int64) → Progress
  | none => .underWay
  | some .pushed => .accepted
  | some (.value v) => .value v
  | some _ => .nothing

instance : Channel (Linked.System Int64) where
  push _ t v s := (s.enter t (.push v), .underWay)
  pop _ t s := (s.enter t .pop, .underWay)
  goOn _ t s := (s.advance t).map id .ofLinked
  asleep _ _ := false

end Conduit.Pipeline
