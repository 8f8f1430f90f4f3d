import Conduit.Files
import Conduit.Log.Config
import Conduit.Sink.Writer

/-!
# Where lines go

The places a logger can write to, and what has been written there, which is
text. Opening a file of the tree creates it if it is missing and empties it
unless it is appended to, and a write to it does not fail; a line goes to its
place with a newline after it.
-/

namespace Conduit.Log

structure Surroundings where
  stdout : String := ""
  stderr : String := ""
  files : Files := {}
  deriving Repr, Inhabited

inductive Outlet
  | stdout
  | stderr
  | file (p : Path)
  | nowhere
  deriving DecidableEq, Repr

inductive StartFault
  | failure (f : Failure)
  /-- The bytes of a thread name with a NUL among them. -/
  | nulInName (name : List UInt8)
  deriving DecidableEq, Repr

namespace StartFault

def nameMessage (name : List UInt8) : String :=
  "thread name may not contain interior null bytes: NulError(" ++ toString (name.idxOf 0) ++ ", ["
    ++ ", ".intercalate (name.map toString) ++ "])"

def message : StartFault → String
  | .failure f => f.message
  | .nulInName name => nameMessage name

end StartFault

def Target.open? (t : Target) (s : Surroundings) : Except Failure (Surroundings × Outlet) :=
  match t with
  | .stdout => .ok (s, .stdout)
  | .stderr => .ok (s, .stderr)
  | .null => .ok (s, .nowhere)
  | .file path append =>
    match s.files.openFile path append with
    | .ok (files, p) => .ok ({ s with files }, .file p)
    | .error e => .error (.config e.message ["opening log file " ++ path])

def Config.checkName (c : Config) : Except StartFault Unit :=
  if c.threadName.toList.contains '\x00' then .error (.nulInName c.threadName.toUTF8.toList) else .ok ()

/-- Opens the place a logger is to write to; then its thread gets its name. A bad name comes
too late for the place, which stays as it was opened. -/
def Config.launch (c : Config) (s : Surroundings) : Surroundings × Except StartFault Outlet :=
  match c.sink.open? s with
  | .error f => (s, .error (.failure f))
  | .ok (s, outlet) => (s, c.checkName.map fun _ => outlet)

def Config.start (c : Config) (s : Surroundings) : Except StartFault (Surroundings × Outlet) :=
  match c.launch s with
  | (s, .ok outlet) => .ok (s, outlet)
  | (_, .error fault) => .error fault

def Outlet.write (text : String) (s : Surroundings) : Outlet → Surroundings
  | .stdout => { s with stdout := s.stdout ++ text }
  | .stderr => { s with stderr := s.stderr ++ text }
  | .file p => { s with files := s.files.appendTo p text }
  | .nowhere => s

def textOf (lines : List String) : String := lines.foldl (fun text line => text ++ line ++ "\n") ""

/-! ## Files behind a buffer -/

/-- A sink that writes to an opened file through a buffer. -/
structure FileSink where
  place : Path
  buffer : Sink.Buffer := {}
  around : Surroundings

namespace FileSink

def pass (p : Sink.Buffer × String) (k : FileSink) : FileSink :=
  { k with
    buffer := p.1
    around := if p.2 = "" then k.around else (Outlet.file k.place).write p.2 k.around }

def write (piece : String) (k : FileSink) : FileSink := k.pass (k.buffer.write piece)

def writeLine (line : String) (k : FileSink) : FileSink := (k.write line).write "\n"

def flush (k : FileSink) : FileSink := k.pass k.buffer.flush

end FileSink

def Outlet.writeLines (lines : List String) (s : Surroundings) (o : Outlet) : Surroundings :=
  match o with
  | .file place => (lines.foldl (fun k line => k.writeLine line) { place, around := s : FileSink }).flush.around
  | _ => o.write (textOf lines) s

end Conduit.Log
