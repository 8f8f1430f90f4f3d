import Conduit.Linked.Heap

/-!
# Threads at a linked queue

Threads make their calls at the same time. A schedule is the order in which
threads make their accesses; here every thread with a call takes its turn.
-/

namespace Conduit.Linked

structure System (α : Type) where
  heap : Heap α
  calls : Array (Option (Stage α))

namespace System

variable {α : Type}

def start (threads : Nat) (h : Heap α) : System α := ⟨h, Array.replicate threads none⟩

/-- A thread enters a call, without an access yet. -/
def enter (t : Nat) (stage : Stage α) : System α → System α
  | ⟨heap, calls⟩ => ⟨heap, calls.setIfInBounds t (some stage)⟩

def advance (t : Nat) : System α → System α × Option (Answer α)
  | ⟨heap, calls⟩ =>
    match calls[t]? with
    | some (some stage) =>
      match heap.step stage with
      | (heap, .goOn stage) => (⟨heap, calls.setIfInBounds t (some stage)⟩, none)
      | (heap, .done a) => (⟨heap, calls.setIfInBounds t none⟩, some a)
    | _ => (⟨heap, calls⟩, none)

end System

/-! ## Taking turns -/

/-- What the threads do: each has calls to make, one after the other, and keeps the answers. -/
structure Work (α : Type) where
  system : System α
  todo : Array (List (Stage α))
  answers : Array (Array (Answer α))

namespace Work

variable {α : Type}

def start (h : Heap α) (todo : Array (List (Stage α))) : Work α :=
  ⟨.start todo.size h, todo, Array.replicate todo.size #[]⟩

/-- One access of a thread, which first enters its next call if it is in none. -/
def turn (again : Answer α → Option (Stage α)) (t : Nat) : Work α → Work α
  | ⟨system, todo, answers⟩ =>
    match system.calls[t]? with
    | some (some _) =>
      match system.advance t with
      | (system, none) => ⟨system, todo, answers⟩
      | (system, some a) =>
        let todo := match again a with
          | some stage => todo.modify t (stage :: ·)
          | none => todo
        ⟨system, todo, answers.modify t (·.push a)⟩
    | _ =>
      match todo[t]? with
      | some (stage :: rest) => ⟨system.enter t stage, todo.setIfInBounds t rest, answers⟩
      | _ => ⟨system, todo, answers⟩

def isDone (w : Work α) : Bool := w.system.calls.all Option.isNone && w.todo.all List.isEmpty

/-- Everybody takes turns until all is done, at most so many rounds. `again`
says which answers make a thread call once more. -/
def rounds (again : Answer α → Option (Stage α)) : Nat → Work α → Work α
  | 0, w => w
  | n + 1, w =>
    if w.isDone then w
    else rounds again n (Nat.fold w.todo.size (fun t _ w => w.turn again t) w)

end Work

def pushTogether {α : Type} (values : Array (List α)) (h : Heap α) : Heap α :=
  let calls := (values.map List.length).foldl (· + ·) 0
  let work := Work.start h (values.map (·.map Stage.push))
  (work.rounds (fun _ => none) (16 * calls + 3 * h.nodes.size + 16)).system.heap

def popTogether {α : Type} (threads : Nat) (h : Heap α) : Array (List α) × Heap α :=
  let work := Work.start h (Array.replicate threads [Stage.pop])
  let again : Answer α → Option (Stage α)
    | .value _ => some .pop
    | _ => none
  let work := work.rounds again (16 * (h.nodes.size + threads) + 16)
  let valueOf : Answer α → Option α
    | .value v => some v
    | _ => none
  (work.answers.map fun answers => answers.toList.filterMap valueOf, work.system.heap)

end Conduit.Linked
