/-!
# The linked queue

An unbounded queue without locks, as a chain of nodes. The head is a node
whose value is gone; the values are those of the nodes after it. Each step of
a call makes one access to shared memory: it reads one pointer, or replaces
one pointer if it still is what the call saw. Nodes are never reused.
-/

namespace Conduit.Linked

structure Node (α : Type) where
  value : Option α
  next : Option Nat
  deriving Repr

structure Heap (α : Type) where
  nodes : Array (Node α)
  head : Nat
  tail : Nat

/-- Where a call stands: the access it makes next, and what it has seen. -/
inductive Stage (α : Type)
  /-- Makes its node and reads the tail. -/
  | push (v : α)
  | pushLook (node tail : Nat)
  /-- Moves the tail on, past a node that another push linked. -/
  | pushHelp (node tail next : Nat)
  | pushLink (node tail : Nat)
  | pushSwing (node tail : Nat)
  | pop
  | popTail (head : Nat)
  | popLook (head tail : Nat)
  /-- Moves a tail that lags on, before the head can pass it. -/
  | popHelp (tail next : Nat)
  /-- Moves the head on, and so takes the value there. -/
  | popClaim (head next : Nat)
  | ask
  | askLook (head : Nat)
  deriving DecidableEq, Repr

inductive Answer (α : Type)
  | pushed
  | value (v : α)
  | nothing
  | empty (b : Bool)
  deriving DecidableEq, Repr

inductive Outcome (α : Type)
  | goOn (stage : Stage α)
  | done (a : Answer α)
  deriving DecidableEq, Repr

namespace Heap

variable {α : Type}

def new : Heap α := ⟨#[⟨none, none⟩], 0, 0⟩

instance : Inhabited (Heap α) := ⟨new⟩

def next? (n : Nat) (h : Heap α) : Option Nat := h.nodes[n]?.bind Node.next

def value? (n : Nat) (h : Heap α) : Option α := h.nodes[n]?.bind Node.value

def moveTail (old new : Nat) (h : Heap α) : Heap α :=
  if h.tail = old then { h with tail := new } else h

/-- One access of a call. -/
def step (h : Heap α) (stage : Stage α) : Heap α × Outcome α :=
  match stage with
  | .push v =>
    match h with
    | ⟨nodes, head, tail⟩ =>
      let node := nodes.size
      (⟨nodes.push ⟨some v, none⟩, head, tail⟩, .goOn (.pushLook node tail))
  | .pushLook node tail =>
    match h.next? tail with
    | some next => (h, .goOn (.pushHelp node tail next))
    | none => (h, .goOn (.pushLink node tail))
  | .pushHelp node tail next => (h.moveTail tail next, .goOn (.pushLook node next))
  | .pushLink node tail =>
    match h.next? tail with
    | some next => (h, .goOn (.pushHelp node tail next))
    | none =>
      match h with
      | ⟨nodes, head, last⟩ =>
        (⟨nodes.modify tail fun n => { n with next := some node }, head, last⟩,
          .goOn (.pushSwing node tail))
  | .pushSwing node tail => (h.moveTail tail node, .done .pushed)
  | .pop => (h, .goOn (.popTail h.head))
  | .popTail head => (h, .goOn (.popLook head h.tail))
  | .popLook head tail =>
    match h.next? head with
    | none => (h, .done .nothing)
    | some next =>
      if head = tail then (h, .goOn (.popHelp tail next)) else (h, .goOn (.popClaim head next))
  | .popHelp tail next => (h.moveTail tail next, .goOn .pop)
  | .popClaim head next =>
    if h.head = head then
      let a := match h.value? next with
        | some v => .value v
        | none => .nothing
      ({ h with head := next }, .done a)
    else (h, .goOn .pop)
  | .ask => (h, .goOn (.askLook h.head))
  | .askLook head => (h, .done (.empty (h.next? head).isNone))

/-! ## A call on its own -/

def run : Nat → Heap α → Stage α → Heap α × Answer α
  | 0, h, _ => (h, .nothing)
  | n + 1, h, stage =>
    match h.step stage with
    | (h, .goOn stage) => run n h stage
    | (h, .done a) => (h, a)

/-- Enough accesses for a call that nothing interferes with, however far the tail lags. -/
def patience (h : Heap α) : Nat := 3 * h.nodes.size + 12

def push (v : α) (h : Heap α) : Heap α := (h.run h.patience (.push v)).1

def pop? (h : Heap α) : Option (α × Heap α) :=
  match h.run h.patience .pop with
  | (h, .value v) => some (v, h)
  | _ => none

def isEmpty (h : Heap α) : Bool :=
  match (h.run h.patience .ask).2 with
  | .empty b => b
  | _ => true

/-- Pops until nothing is left, at most so often; oldest value first. -/
def popUpTo : Nat → Heap α → Array α → Array α × Heap α
  | 0, h, vs => (vs, h)
  | n + 1, h, vs =>
    match h.pop? with
    | some (v, h) => popUpTo n h (vs.push v)
    | none => (vs, h)

/-- What is destroyed with the queue. -/
def drop (h : Heap α) : Array α := (h.popUpTo h.nodes.size #[]).1

end Heap

end Conduit.Linked
