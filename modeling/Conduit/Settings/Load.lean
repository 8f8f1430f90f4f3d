import Conduit.Settings.Document
import Conduit.Settings.Layers
import Conduit.Text.Lowercase

/-!
# Configuration from layers

A configuration is assembled from an optional file and the environment. The
three plain settings are converted from any scalar that makes sense, since
the environment holds texts only; nothing inside the sink is converted.
-/

namespace Conduit.Settings

/-- A fault with the key it concerns, and where the value came from if that is known. -/
inductive Misfit
  | at (fault : Fault) (key : String) (origin : Option Origin)
  | missing (key : String)
  deriving DecidableEq, Repr

def Origin.phrase : Origin → String
  | .file name => name
  | .environment => "the environment"

def Misfit.message : Misfit → String
  | .at fault key origin =>
    fault.message ++ " for key " ++ marked key ++ (origin.map fun o => " in " ++ o.phrase).getD ""
  | .missing key => "missing configuration field " ++ Text.quoted key

/-! ## Reading the layers -/

namespace Layered

def found : Layered → Found
  | .nothing => .nothing
  | .text s _ => .text s
  | .whole n _ => .whole n
  | .real x _ => .real x
  | .truth b _ => .truth b
  | .array .. => .sequence
  | .table _ => .map

def origin : Layered → Option Origin
  | .text _ o | .whole _ o | .real _ o | .truth _ o => some o
  | .array _ o => o
  | .nothing | .table _ => none

def item : Layered → Item
  | .text s _ => .text s
  | .truth b _ => .truth b
  | v => .other v.found

end Layered

inductive LoadError
  | notFound (path : String)
  | malformed
  | unfit (misfit : Misfit)
  deriving DecidableEq, Repr

def LoadError.context : LoadError → String
  | .notFound _ | .malformed => "building logger configuration"
  | .unfit _ => "deserializing logger configuration"

def LoadError.cause : LoadError → String
  | .notFound path => "configuration file " ++ Text.quoted path ++ " not found"
  | .malformed => "not a TOML document"
  | .unfit misfit => misfit.message

/-- A fault anywhere inside the sink is told of the sink, and a missing field of the field. -/
def misfitInSink : Fault → Misfit
  | .missing name => .missing ("sink." ++ name)
  | f => .at f "sink" none

namespace Layering

def format (L : Layering) : Format Layered Misfit where
  entries := byKey
  shape
    | .table es => .table es
    | .array vs _ => .array vs
    | v => .other v.found
  capacity v := (L.capacity v).mapError fun f => .at f Setting.capacity.key v.origin
  timestamps v := (L.timestamps v).mapError fun f => .at f Setting.timestamps.key v.origin
  threadName v := (L.threadName v).mapError fun f => .at f Setting.threadName.key v.origin
  kind
    | .entry, v => v.item.kind.mapError fun f => .at f "sink.kind" none
    | .front, v => v.item.kind.mapError fun f => .at f "sink[0]" none
  keep v := .ok v.item
  skip _ := .ok ()
  duplicate key := .at (.duplicate key) key none
  inSink := misfitInSink

def sink (L : Layering) (v : Layered) : Except Misfit Log.Target := L.format.sink L.derived v

def config (L : Layering) (layers : Layers) : Except Misfit Log.Config := L.format.config L.derived layers

def file (L : Layering) (source : Source) : Except LoadError Layers :=
  match L.table? source.text with
  | none => .error .malformed
  | some t => .ok (layeredEntries (.file source.name) t)

def gather (L : Layering) (source : Option Source) (vars : List (String × String)) : Except LoadError Layers := do
  let file ← match source with
    | none => .ok []
    | some s => L.file s
  return L.add (L.environment vars) (L.add file [])

def load (L : Layering) (source : Option Source) (vars : List (String × String)) : Except LoadError Log.Config := do
  (L.config (← L.gather source vars)).mapError .unfit

end Layering

/-! ## Key paths and names -/

def Layered.items : Layered → List Layered
  | .array vs _ => vs
  | _ => []

/-- Makes room for an index, at the end or, for a negative one, in front. -/
def reach (vs : List Layered) (i : Int) : List Layered × Nat :=
  if 0 ≤ i then (vs ++ List.replicate (i.toNat + 1 - vs.length) .nothing, i.toNat)
  else if i.natAbs ≤ vs.length then (vs, vs.length - i.natAbs)
  else (List.replicate (i.natAbs - vs.length) .nothing ++ vs, 0)

/-- Changes the value at the end of the steps. What is in the way and no
table or array, as the step asks, is replaced by an empty one. -/
def Layered.alterAt (f : Layered → Layered) : List PathStep → Layered → Layered
  | [], v => f v
  | .key name :: steps, v => .table (Layers.alter name (Layered.alterAt f steps) v.entries)
  | .index i :: steps, v =>
    let (vs, n) := reach v.items i
    let origin := match v with
      | .array _ origin => origin
      | _ => none
    .array (vs.modify n (Layered.alterAt f steps)) origin

def Layers.set (key : String) (v : Layered) (layers : Layers) : Layers :=
  let path := KeyPath.read key
  layers.alter path.root (Layered.alterAt v.over path.steps)

def variableStart : String := "pipeq_logger__"

def dotted : List Char → List Char
  | '_' :: '_' :: r => '.' :: dotted r
  | c :: r => c :: dotted r
  | [] => []

def variableKey (name : String) : Option String :=
  let cs := (Text.lower name).toList
  let start := variableStart.toList
  if start.isPrefixOf cs then some (String.ofList (dotted (cs.drop start.length))) else none

/-! ## Scalars -/

/-- The decimal text of a word, a plus sign allowed. -/
def readWord (s : String) : Option Nat :=
  let ds := match s.toList with
    | '+' :: r => r
    | r => r
  if ds.isEmpty || !ds.all Toml.isDigit then none
  else if Toml.decimalOf ds ≤ wordLimit then some (Toml.decimalOf ds) else none

def yesWords : List String := ["true", "on", "yes"]

def noWords : List String := ["false", "off", "no"]

def toCapacity : Layered → Except Fault Nat
  | .whole n _ => if n < 0 then .error (.wrongType (.word n) .natural) else .ok n.toNat
  | .real x _ => .ok (x.toNatWithin wordLimit)
  | .truth b _ => .ok b.toNat
  | .text s _ =>
    if yesWords.contains (Text.lower s) then .ok 1
    else if noWords.contains (Text.lower s) then .ok 0
    else
      match readWord s with
      | some n => .ok n
      | none => .error (.wrongType (.text s) .whole)
  | v => .error (.wrongType v.found .whole)

def toTruth : Layered → Except Fault Bool
  | .truth b _ => .ok b
  | .whole n _ => .ok (n != 0)
  | .real x _ => .ok !x.isZero
  | .text s _ =>
    let l := Text.lower s
    if l = "1" || yesWords.contains l then .ok true
    else if l = "0" || noWords.contains l then .ok false
    else .error (.wrongType (.text l) .truth)
  | v => .error (.wrongType v.found .truth)

def toText : Layered → Except Fault String
  | .text s _ => .ok s
  | .truth b _ => .ok (if b then "true" else "false")
  | .whole n _ => .ok (toString n)
  | .real x _ => .ok x.text
  | v => .error (.wrongType v.found .text)

/-- The whole numbers of a file must fit a signed word. -/
def plainTable (text : String) : Option Toml.Table := (Toml.read text).filter Toml.Table.isPlain

def layering : Layering where
  table? := plainTable
  variableKey := variableKey
  set := Layers.set
  capacity := toCapacity
  timestamps := toTruth
  threadName := toText
  derived := derived

/-! ## Finding the file

The path itself is tried first and then the path with `.toml` added. The
file is known by its path without needless parts.
-/

/-- A path without empty and `.` parts. -/
def plainPath (path : String) : String :=
  let plain := "/".intercalate ((path.splitOn "/").filter fun n => n ≠ "" ∧ n ≠ ".")
  if path.toList.head? = some '/' then "/" ++ plain else plain

def candidates (path : String) : List String := [path, plainPath path ++ ".toml"]

/-- Finds the file, where `read` gives the text of a file that is there. -/
def findSource (read : String → Option String) (path : String) : Except LoadError Source :=
  match read path with
  | some text => .ok ⟨plainPath path, text⟩
  | none =>
    let longer := plainPath path ++ ".toml"
    match read longer with
    | some text => if plainPath path = "" then .error (.notFound path) else .ok ⟨longer, text⟩
    | none => .error (.notFound path)

def loadFrom (read : String → Option String) (path : Option String) (vars : List (String × String)) :
    Except LoadError Log.Config := do
  let source ← match path with
    | none => .ok none
    | some p => (findSource read p).map some
  layering.load source vars

end Conduit.Settings
