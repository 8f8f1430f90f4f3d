import Conduit.Sink.Writer

/-!
# Sinks to try things with

Sinks that keep their lines in memory: clones share one buffer, so what was written through one
is read back from another. A gate in front of a sink lets a line pass for a permit, unless it is
open; what the line does to the sink may be laid down by the number of the call.
-/

namespace Conduit.Sink

/-! ## Memory -/

structure Memory where
  buffers : Array (Array String)
  /-- The buffer that each sink writes to. -/
  sinks : Array Nat
  deriving Repr

namespace Memory

def start : Memory := ⟨#[#[]], #[0]⟩

def buffer? (i : Nat) (m : Memory) : Option Nat := m.sinks[i]?

def fresh (m : Memory) : Memory × Nat :=
  (⟨m.buffers.push #[], m.sinks.push m.buffers.size⟩, m.sinks.size)

/-- Adds a sink that shares another's buffer; gives its number. -/
def clone (i : Nat) (m : Memory) : Memory × Nat :=
  ({ m with sinks := m.sinks.push ((m.buffer? i).getD 0) }, m.sinks.size)

def writeLine (i : Nat) (line : String) (m : Memory) : Memory :=
  match m.buffer? i with
  | some b => { m with buffers := m.buffers.modify b (·.push line) }
  | none => m

def lines (i : Nat) (m : Memory) : List String :=
  match (m.buffer? i).bind (m.buffers[·]?) with
  | some b => b.toList
  | none => []

end Memory

/-! ## Gates -/

structure Gate where
  isOpen : Bool := false
  permits : Nat := 0
  passed : Nat := 0
  lineScript : List (Nat × Result) := []
  flushResult : Result := .done
  deriving Repr

namespace Gate

def wide : Gate := { isOpen := true }

def permit (n : Nat) (g : Gate) : Gate := { g with permits := g.permits + n }

def throwOpen (g : Gate) : Gate := { g with isOpen := true }

def letsPass (g : Gate) : Bool := g.isOpen || 0 < g.permits

/-- What the next line does to the sink. -/
def nextResult (g : Gate) : Result := (g.lineScript.lookup g.passed).getD .done

def pass (g : Gate) : Gate :=
  { g with passed := g.passed + 1, permits := if g.isOpen then g.permits else g.permits - 1 }

end Gate

end Conduit.Sink
