import Conduit.CommandLine.Run
import Conduit.Text.Time
import Std.Time.DateTime.Timestamp

/-!
# The program

Reads the arguments, the environment, the configuration file and the clock,
and writes what a run leaves behind.
-/

namespace Conduit.Program

open CommandLine

/-! ## Reading -/

def environment : IO (List (String × String)) := do
  let bytes ← try IO.FS.readBinFile "/proc/self/environ" catch _ => pure .empty
  let entries := ((String.fromUTF8? bytes).getD "").splitOn "\x00"
  return entries.filterMap fun entry =>
    match entry.splitOn "=" with
    | name :: value@(_ :: _) => some (name, "=".intercalate value)
    | _ => none

def readTexts (paths : List String) : IO (List (String × String)) := do
  let mut texts := []
  for path in paths do
    try texts := (path, ← IO.FS.readFile path) :: texts
    catch _ => pure ()
  return texts

def timeNow : IO String := do
  let now ← Std.Time.Timestamp.now
  return Text.stamp (now.toNanosecondsSinceUnixEpoch.val.toNat / 1000)

/-! ## Writing -/

def openMessage : IO.Error → String
  | .noFileOrDirectory _ code details | .inappropriateType _ code details
  | .invalidArgument _ code details | .permissionDenied _ code details
  | .resourceExhausted _ code details | .noSuchThing _ code details
  | .alreadyExists _ code details | .interrupted _ code details
  | .otherError code details | .resourceBusy code details
  | .unsupportedOperation code details =>
    details ++ " (os error " ++ toString code ++ ")"
  | e => toString e

/-- Opens the place where lines go; without one they are forgotten. -/
def openTarget : Log.Target → IO (Except Log.Failure (Option IO.FS.Stream))
  | .stdout => return .ok (some (← IO.getStdout))
  | .stderr => return .ok (some (← IO.getStderr))
  | .null => return .ok none
  | .file path append => do
    try
      let handle ← IO.FS.Handle.mk path (if append then .append else .write)
      return .ok (some (.ofHandle handle))
    catch e => return .error (.config (openMessage e) ["opening log file " ++ path])

def finish (e : Ending) : IO UInt32 := do
  (← IO.getStdout).putStr e.stdout
  (← IO.getStdout).flush
  (← IO.getStderr).putStr e.stderr
  return e.exitCode.toUInt32

/-! ## Running -/

/-- The pause that the producers of a pipeline make in all, in milliseconds. -/
def pause (o : Pipeline.Options) : Pipeline.Kind → Nat
  | .ring => 0
  | _ => o.workMs.toNat * o.count.toNat

def runPipeline (config : Log.Config) (o : Pipeline.Options) (k : Pipeline.Kind) (w : Work) : IO Work := do
  if w.trouble.isSome then return w
  let started ← IO.monoNanosNow
  match k.begin? o with
  | .error e => return w.conclude k o (.error e) 0 id
  | .ok f =>
    IO.sleep (min (pause o k) 4294967295).toUInt32
    let ended ← IO.monoNanosNow
    return w.conclude k o (.ok f) (ended - started) (config.line (← timeNow))

def runRounds (config : Log.Config) (c : Command) (w : Work) : IO Work := do
  let mut w := w
  for _ in [0:c.repeats] do
    for k in c.task.kinds do
      w ← runPipeline config c.options k w
  return w

def runWith (config : Log.Config) (c : Command) (colours : Bool) : IO UInt32 := do
  match ← openTarget config.sink with
  | .error f => finish (startFailure (.failure f))
  | .ok target =>
    match config.checkName with
    | .error fault => finish (startFailure fault)
    | .ok () =>
      let work ← runRounds config c (.start config)
      let (lines, ending) := work.close colours
      if let some stream := target then
        stream.putStr (Log.textOf lines)
        stream.flush
      finish ending

def run (arguments : List String) : IO UInt32 := do
  let vars ← environment
  match readCommand (vars.lookup configVariable) arguments with
  | .error u => finish (.ofUsage u)
  | .ok c =>
    let texts ← readTexts ((c.config.map Settings.candidates).getD [])
    match loadConfig (texts.lookup ·) vars c with
    | .error e => finish e
    | .ok config => runWith config c (usesColours vars (← (← IO.getStdout).isTty))

end Conduit.Program

def main (arguments : List String) : IO UInt32 := Conduit.Program.run arguments
