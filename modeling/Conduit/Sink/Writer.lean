/-!
# Lines through a writer

A sink answers to a line or a flush: it is done, it fails with a reason, or it brings down the
thread that called it. A writer may take only part of what it is given, or be interrupted;
writing all of a text goes on where the writer stopped, and starts again after an interruption.
In front of a file a buffer holds text back until its room is used up.
-/

namespace Conduit.Sink

/-! ## Failures -/

inductive FailureKind
  | notFound
  | permissionDenied
  | brokenPipe
  | writeZero
  | timedOut
  | interrupted
  | other
  deriving DecidableEq, Repr, Inhabited

structure Failure where
  kind : FailureKind
  message : String
  deriving DecidableEq, Repr, Inhabited

def Failure.nothingTaken : Failure := ⟨.writeZero, "failed to write whole buffer"⟩

inductive Result
  | done
  | failed (f : Failure)
  | panicked
  deriving DecidableEq, Repr, Inhabited

/-! ## Writers -/

/-- A writer with limits: `chunk` bytes a call and `limit` bytes in all. -/
structure Writer where
  chunk : Option Nat := none
  limit : Option Nat := none
  /-- Given when no byte can be taken; without it the writer says it took none. -/
  failure : Option Failure := none
  failsOnFlush : Bool := false
  /-- The next so many calls are interrupted. -/
  interrupts : Nat := 0
  taken : Array UInt8 := #[]
  flushes : Nat := 0
  deriving Repr

inductive Written
  | took (n : Nat)
  | interrupted
  | failed (f : Failure)
  deriving DecidableEq, Repr

namespace Writer

def atMost (bound : Option Nat) (n : Nat) : Nat :=
  match bound with
  | some b => min b n
  | none => n

/-- How many of so many bytes the next call takes. -/
def room (w : Writer) (n : Nat) : Nat :=
  atMost w.chunk (atMost (w.limit.map (· - w.taken.size)) n)

def write (bytes : List UInt8) (w : Writer) : Writer × Written :=
  if 0 < w.interrupts then ({ w with interrupts := w.interrupts - 1 }, .interrupted)
  else if w.room bytes.length = 0 then
    match w.failure with
    | some f => (w, .failed f)
    | none => (w, .took 0)
  else
    let n := w.room bytes.length
    ({ w with taken := w.taken.appendList (bytes.take n) }, .took n)

theorem write_interrupted {bytes : List UInt8} {w w' : Writer}
    (h : w.write bytes = (w', .interrupted)) : w'.interrupts < w.interrupts := by
  unfold write at h
  split at h
  · cases h; simp only; omega
  · split at h
    · split at h <;> cases h
    · cases h

theorem write_took {bytes : List UInt8} {w w' : Writer} {n : Nat}
    (h : w.write bytes = (w', .took n)) : w'.interrupts = w.interrupts := by
  unfold write at h
  split at h
  · cases h
  · split at h
    · split at h <;> cases h
      rfl
    · cases h; rfl

def writeAll (bytes : List UInt8) (w : Writer) : Writer × Except Failure Unit :=
  match bytes with
  | [] => (w, .ok ())
  | b :: bytes =>
    match _h : w.write (b :: bytes) with
    | (w', .interrupted) => w'.writeAll (b :: bytes)
    | (w', .took 0) => (w', .error .nothingTaken)
    | (w', .took (n + 1)) => w'.writeAll (bytes.drop n)
    | (w', .failed f) => (w', .error f)
termination_by bytes.length + w.interrupts
decreasing_by
  · have := write_interrupted _h; simp only [List.length_cons] at *; omega
  · have := write_took _h; simp only [List.length_cons, List.length_drop]; omega

def newline : List UInt8 := [10]

def writeLine (line : String) (w : Writer) : Writer × Except Failure Unit :=
  match w.writeAll line.toUTF8.toList with
  | (w, .ok ()) => w.writeAll newline
  | failed => failed

def flush (w : Writer) : Writer × Except Failure Unit :=
  let w := { w with flushes := w.flushes + 1 }
  match w.failsOnFlush, w.failure with
  | true, some f => (w, .error f)
  | _, _ => (w, .ok ())

end Writer

/-! ## Buffers -/

structure Buffer where
  room : Nat := 8192
  held : String := ""
  deriving DecidableEq, Repr, Inhabited

namespace Buffer

def spare (b : Buffer) : Nat := b.room - b.held.utf8ByteSize

/-- Passes on all that is held; gives what is passed on. -/
def flush (b : Buffer) : Buffer × String := ({ b with held := "" }, b.held)

/-- Takes a piece; gives what is passed on now. -/
def write (piece : String) (b : Buffer) : Buffer × String :=
  if piece.utf8ByteSize < b.spare then ({ b with held := b.held ++ piece }, "")
  else
    let (b, passed) := if b.spare < piece.utf8ByteSize then b.flush else (b, "")
    if b.room ≤ piece.utf8ByteSize then (b, passed ++ piece) else ({ b with held := b.held ++ piece }, passed)

end Buffer

end Conduit.Sink
