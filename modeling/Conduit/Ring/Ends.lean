import Conduit.Ring.Buffer

/-!
# The two ends of a ring

The producer and the consumer each hold the ring, and it goes when both have
let go of it. While both are there they may work at the same time, one access
each in turn.
-/

namespace Conduit.Ring

structure Ends (α : Type) where
  buffer : Buffer α
  producer : Bool := true
  consumer : Bool := true

namespace Ends

variable {α : Type}

/-- Lets go of the producer's end. Gives what is destroyed by that. -/
def dropProducer (e : Ends α) : List α × Ends α :=
  (if e.consumer then [] else e.buffer.unread, { e with producer := false })

def dropConsumer (e : Ends α) : List α × Ends α :=
  (if e.producer then [] else e.buffer.unread, { e with consumer := false })

end Ends

/-- The ring with a call in flight at either end. -/
structure System (α : Type) where
  buffer : Buffer α
  producer : Option (Stage α) := none
  consumer : Option (Stage α) := none

namespace System

variable {α : Type}

def enterProducer (stage : Stage α) (s : System α) : System α := { s with producer := some stage }

def enterConsumer (stage : Stage α) (s : System α) : System α := { s with consumer := some stage }

def advanceProducer : System α → System α × Option (Answer α)
  | ⟨buffer, some stage, consumer⟩ =>
    match buffer.step stage with
    | (buffer, .goOn stage) => (⟨buffer, some stage, consumer⟩, none)
    | (buffer, .done a) => (⟨buffer, none, consumer⟩, some a)
  | s => (s, none)

def advanceConsumer : System α → System α × Option (Answer α)
  | ⟨buffer, producer, some stage⟩ =>
    match buffer.step stage with
    | (buffer, .goOn stage) => (⟨buffer, producer, some stage⟩, none)
    | (buffer, .done a) => (⟨buffer, producer, none⟩, some a)
  | s => (s, none)

end System

/-! ## A transfer -/

/-- A producer pushes a list of values, each until it is accepted, while a
consumer pops so many. -/
structure Transfer (α : Type) where
  system : System α
  todo : List α
  wanted : Nat
  popped : Array α := #[]

namespace Transfer

variable {α : Type}

def producerTurn : Transfer α → Transfer α
  | ⟨system, todo, wanted, popped⟩ =>
    match system.producer with
    | some _ =>
      match system.advanceProducer with
      | (system, some .accepted) => ⟨system, todo.tail, wanted, popped⟩
      | (system, _) => ⟨system, todo, wanted, popped⟩
    | none =>
      match todo with
      | v :: _ => ⟨system.enterProducer (.push v), todo, wanted, popped⟩
      | [] => ⟨system, todo, wanted, popped⟩

def consumerTurn : Transfer α → Transfer α
  | ⟨system, todo, wanted, popped⟩ =>
    match system.consumer with
    | some _ =>
      match system.advanceConsumer with
      | (system, some (.value v)) => ⟨system, todo, wanted - 1, popped.push v⟩
      | (system, _) => ⟨system, todo, wanted, popped⟩
    | none =>
      if wanted = 0 then ⟨system, todo, wanted, popped⟩
      else ⟨system.enterConsumer .pop, todo, wanted, popped⟩

def isDone (t : Transfer α) : Bool :=
  t.todo.isEmpty && t.wanted == 0 && t.system.producer.isNone && t.system.consumer.isNone

def rounds : Nat → Transfer α → Transfer α
  | 0, t => t
  | n + 1, t => if t.isDone then t else rounds n t.producerTurn.consumerTurn

end Transfer

/-- Moves values through the ring, after those that are in it already. Gives
what was popped, in order. -/
def Buffer.transfer {α : Type} (values : List α) (b : Buffer α) : List α × Buffer α :=
  let wanted := b.length + values.length
  let t := Transfer.rounds (16 * wanted + 16) ⟨{ buffer := b }, values, wanted, #[]⟩
  (t.popped.toList, t.system.buffer)

end Conduit.Ring
