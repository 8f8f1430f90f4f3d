/-!
# The ring

A bounded queue between one producer and one consumer. The head belongs to
the consumer and the tail to the producer; both wrap by comparison, so the
number of slots need not be a power of two. One slot always stays free, which
is how a full ring differs from an empty one. Each step of a call reads or
writes one index or one slot.
-/

namespace Conduit.Ring

/-- A slot holds a value from when it is written until it is read. Slots that
were never written are not there yet. -/
structure Buffer (α : Type) where
  size : Nat
  head : Nat := 0
  tail : Nat := 0
  slots : Array (Option α) := #[]

/-- Where a call stands: the access it makes next, and what it has seen. -/
inductive Stage (α : Type)
  /-- Reads the tail, its own index. -/
  | push (v : α)
  | pushLook (v : α) (tail : Nat)
  | pushWrite (v : α) (tail : Nat)
  | pushPublish (next : Nat)
  /-- Reads the head, its own index. -/
  | pop
  | popLook (head : Nat)
  | popRead (head : Nat)
  | popPublish (v : α) (next : Nat)
  | length
  | lengthFrom (head : Nat)
  deriving DecidableEq, Repr

inductive Answer (α : Type)
  | accepted
  | rejected (v : α)
  | value (v : α)
  | nothing
  | length (n : Nat)
  deriving DecidableEq, Repr

inductive Outcome (α : Type)
  | goOn (stage : Stage α)
  | done (a : Answer α)
  deriving DecidableEq, Repr

namespace Buffer

variable {α : Type}

/-- A ring needs two slots to hold anything. -/
def new? (size : Nat) : Option (Buffer α) := if 1 < size then some { size } else none

def tooSmallMessage : String := "ring size must be > 1"

def capacity (b : Buffer α) : Nat := b.size - 1

def increment (b : Buffer α) (i : Nat) : Nat := if i + 1 = b.size then 0 else i + 1

/-- Unread values between two indices. -/
def distance (b : Buffer α) (head tail : Nat) : Nat :=
  if head ≤ tail then tail - head else b.size - head + tail

def write (i : Nat) (v : α) : Buffer α → Buffer α
  | ⟨size, head, tail, slots⟩ =>
    if i < slots.size then ⟨size, head, tail, slots.setIfInBounds i (some v)⟩
    else ⟨size, head, tail, (slots ++ Array.replicate (i - slots.size) none).push (some v)⟩

def take (i : Nat) : Buffer α → Option α × Buffer α
  | ⟨size, head, tail, slots⟩ => (slots[i]?.join, ⟨size, head, tail, slots.setIfInBounds i none⟩)

/-- One access of a call. -/
def step (b : Buffer α) (stage : Stage α) : Buffer α × Outcome α :=
  match stage with
  | .push v => (b, .goOn (.pushLook v b.tail))
  | .pushLook v tail =>
    if b.increment tail = b.head then (b, .done (.rejected v)) else (b, .goOn (.pushWrite v tail))
  | .pushWrite v tail => let next := b.increment tail; (b.write tail v, .goOn (.pushPublish next))
  | .pushPublish next => ({ b with tail := next }, .done .accepted)
  | .pop => (b, .goOn (.popLook b.head))
  | .popLook head => if head = b.tail then (b, .done .nothing) else (b, .goOn (.popRead head))
  | .popRead head =>
    let next := b.increment head
    match b.take head with
    | (some v, b) => (b, .goOn (.popPublish v next))
    | (none, b) => (b, .done .nothing)
  | .popPublish v next => ({ b with head := next }, .done (.value v))
  | .length => (b, .goOn (.lengthFrom b.head))
  | .lengthFrom head => (b, .done (.length (b.distance head b.tail)))

/-! ## A call on its own -/

def run : Nat → Buffer α → Stage α → Buffer α × Answer α
  | 0, b, _ => (b, .nothing)
  | n + 1, b, stage =>
    match b.step stage with
    | (b, .goOn stage) => run n b stage
    | (b, .done a) => (b, a)

def accesses : Nat := 4

def push (v : α) (b : Buffer α) : Buffer α × Answer α := b.run accesses (.push v)

def pop (b : Buffer α) : Buffer α × Answer α := b.run accesses .pop

def length (b : Buffer α) : Nat :=
  match (b.run accesses .length).2 with
  | .length n => n
  | _ => 0

def isEmpty (b : Buffer α) : Bool := b.length = 0

def isFull (b : Buffer α) : Bool := b.length = b.capacity

def valuesFrom (b : Buffer α) : Nat → Nat → List α
  | 0, _ => []
  | n + 1, i =>
    if i = b.tail then []
    else (b.slots[i]?.join).toList ++ b.valuesFrom n (b.increment i)

/-- The values that are destroyed with the ring, oldest first. -/
def unread (b : Buffer α) : List α := b.valuesFrom b.size b.head

end Buffer

end Conduit.Ring
