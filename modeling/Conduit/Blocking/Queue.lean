import Conduit.Fifo

/-!
# The bounded blocking queue

The state behind the lock, what one holder of the lock does to it, and the conditions that calls
wait for. A queue of limit zero accepts nothing. Once it is down it stays down: nothing is
accepted or popped any more, and what is left can only be drained.
-/

namespace Conduit.Blocking

inductive Phase
  | active
  /-- Down, with calls still inside their wait. -/
  | shuttingDown
  | stopped
  deriving DecidableEq, Repr

structure Queue (α : Type) where
  limit : Nat
  items : Fifo α := .empty
  down : Bool := false
  parkedPushers : Nat := 0
  parkedPoppers : Nat := 0

/-- What a queue tells at the moment it goes down. -/
structure Signal where
  remaining : Nat
  parkedPushers : Nat
  parkedPoppers : Nat
  deriving DecidableEq, Repr

/-- The limit of a queue that is never full. -/
def unlimited : Nat := 18446744073709551615

namespace Queue

variable {α : Type}

def unbounded : Queue α := { limit := unlimited }

def isFull (q : Queue α) : Bool := q.limit ≤ q.items.size

def isEmpty (q : Queue α) : Bool := q.items.isEmpty

def parked (q : Queue α) : Nat := q.parkedPushers + q.parkedPoppers

def phase (q : Queue α) : Phase :=
  if !q.down then .active else if q.parked = 0 then .stopped else .shuttingDown

def holdsPush (q : Queue α) : Bool := q.isFull && !q.down

def holdsPop (q : Queue α) : Bool := q.isEmpty && !q.down

def tryPush (v : α) (q : Queue α) : Option (Queue α) :=
  if q.down || q.isFull then none else some { q with items := q.items.push v }

def tryPop (q : Queue α) : Option (α × Queue α) :=
  if q.down then none else q.items.pop?.map fun (v, items) => (v, { q with items })

def drain (q : Queue α) : List α × Queue α := (q.items.toList, { q with items := .empty })

def signal (q : Queue α) : Signal := ⟨q.items.size, q.parkedPushers, q.parkedPoppers⟩

def shutDown (q : Queue α) : Queue α := { q with down := true }

/-- What is told when a queue is dropped, if anything is left in it. -/
def dropNote (q : Queue α) : Option Nat := if q.isEmpty then none else some q.items.size

end Queue

/-! ## Conditions -/

structure Condition (β : Type) where
  /-- Asleep, in the order they went to sleep. -/
  waiting : List β := []
  woken : List β := []
  deriving Repr

namespace Condition

variable {β : Type}

def park (b : β) (c : Condition β) : Condition β := { c with waiting := c.waiting ++ [b] }

/-- Wakes one sleeper, any one as `pick` says; `0` is the one that sleeps longest. -/
def notifyOne (pick : Nat) (c : Condition β) : Condition β :=
  match c.waiting[pick % c.waiting.length]? with
  | none => c
  | some b => ⟨c.waiting.eraseIdx (pick % c.waiting.length), c.woken ++ [b]⟩

def notifyAll (c : Condition β) : Condition β := ⟨[], c.woken ++ c.waiting⟩

/-- Sleepers once, woken calls twice: each run of a woken call makes this smaller. -/
def load (c : Condition β) : Nat := c.waiting.length + 2 * c.woken.length

theorem load_park (b : β) (c : Condition β) : (c.park b).load = c.load + 1 := by
  simp [load, park]; omega

theorem load_notifyOne (pick : Nat) (c : Condition β) : (c.notifyOne pick).load ≤ c.load + 1 := by
  unfold notifyOne
  split
  · omega
  · rename_i h
    obtain ⟨hi, -⟩ := List.getElem?_eq_some_iff.mp h
    simp only [load, List.length_eraseIdx, hi, if_true, List.length_append, List.length_singleton]
    omega

end Condition

/-! ## Refusals -/

structure PushRefused (α : Type) where
  item : α
  deriving DecidableEq, Repr

inductive PopRefused
  | mk
  deriving DecidableEq, Repr

def refusalMessage : String := "queue is shutting down"

namespace PushRefused

variable {α : Type}

def message (_ : PushRefused α) : String := refusalMessage

def debugText (_ : PushRefused α) : String := "PushShutDown(..)"

def toPopRefused (_ : PushRefused α) : PopRefused := .mk

end PushRefused

def PopRefused.message (_ : PopRefused) : String := refusalMessage

def PopRefused.debugText (_ : PopRefused) : String := "QueueShutDown"

end Conduit.Blocking
