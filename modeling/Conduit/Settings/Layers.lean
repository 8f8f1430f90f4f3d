import Conduit.Settings.KeyPath
import Conduit.Settings.Record
import Conduit.Settings.Fault
import Conduit.Toml.Value

/-!
# Layers

Settings come from an optional file and then from the environment, the later
layer winning. Tables of two layers are merged key by key; anything else is
replaced. A value keeps where it came from, except a table, which may have
parts from both. What is relied on of the sources and of the conversion of
their scalars is said by `Layering.Lawful`.
-/

namespace Conduit.Settings

inductive Origin
  | file (name : String)
  | environment
  deriving DecidableEq, Repr

inductive Layered
  | nothing
  | text (s : String) (origin : Origin)
  | whole (n : Int) (origin : Origin)
  | real (x : Double) (origin : Origin)
  | truth (b : Bool) (origin : Origin)
  | array (vs : List Layered) (origin : Option Origin)
  | table (es : List (String × Layered))
  deriving Repr, Inhabited

abbrev Layers := List (String × Layered)

/-! ## Merging -/

def Layers.alter (key : String) (f : Layered → Layered) : Layers → Layers
  | [] => [(key, f .nothing)]
  | (k, v) :: es => if k = key then (k, f v) :: es else (k, v) :: Layers.alter key f es

def Layered.entries : Layered → Layers
  | .table es => es
  | _ => []

mutual
/-- A table is merged into a table; anything else takes the place of what was there. -/
def Layered.over (new : Layered) (old : Layered) : Layered :=
  match new with
  | .table es => .table (entriesOver es old.entries)
  | v => v
def entriesOver : List (String × Layered) → Layers → Layers
  | [], old => old
  | (key, v) :: es, old => entriesOver es (old.alter key v.over)
end

/-! ## Sources -/

mutual
/-- The values of a document; a date or a time is its text. -/
def Layered.ofToml (origin : Origin) : Toml.Value → Layered
  | .text s => .text s origin
  | .whole n => .whole n origin
  | .real x => .real x origin
  | .truth b => .truth b origin
  | .moment m => .text m.text origin
  | .array vs => .array (layeredItems origin vs) (some origin)
  | .table es => .table (layeredEntries origin es)
def layeredItems (origin : Origin) : List Toml.Value → List Layered
  | [] => []
  | v :: vs => Layered.ofToml origin v :: layeredItems origin vs
def layeredEntries (origin : Origin) : List (String × Toml.Value) → Layers
  | [] => []
  | (key, v) :: es => (key, Layered.ofToml origin v) :: layeredEntries origin es
end

structure Source where
  name : String
  text : String
  deriving DecidableEq, Repr

structure Layering where
  table? : String → Option Toml.Table
  variableKey : String → Option String
  set : String → Layered → Layers → Layers
  capacity : Layered → Except Fault Nat
  timestamps : Layered → Except Fault Bool
  threadName : Layered → Except Fault String
  derived : Derived

def variableKeys : List (String × String) :=
  [("PIPEQ_LOGGER__CAPACITY", "capacity"), ("PIPEQ_LOGGER__TIMESTAMPS", "timestamps"),
   ("PIPEQ_LOGGER__THREAD_NAME", "thread_name"), ("PIPEQ_LOGGER__SINK__KIND", "sink.kind"),
   ("PIPEQ_LOGGER__SINK__PATH", "sink.path"), ("PIPEQ_LOGGER__SINK__APPEND", "sink.append")]

/-- A file has each key of a table once. Names of variables are lowered and lead into tables. A
later value is put over an earlier one, in the table of the sink too. A truth value is told from
its text. -/
structure Layering.Lawful (L : Layering) : Prop where
  derived : L.derived.Lawful
  distinct : ∀ {s : String} {t : Toml.Table}, L.table? s = some t → (Toml.Value.table t).Distinct
  variableKey_name : ∀ e ∈ variableKeys, L.variableKey e.1 = some e.2
  set_bare : ∀ {key : String} (v : Layered) (layers : Layers), isBare key = true →
    L.set key v layers = layers.alter key v.over
  set_under : ∀ {root name : String} (v : Layered) (layers : Layers), isBare root = true → isBare name = true →
    L.set (root ++ "." ++ name) v layers = layers.alter root fun old => .table (Layers.alter name v.over old.entries)
  timestamps_text : ∀ (b : Bool) (o : Origin), L.timestamps (.text (toString b) o) = .ok b

namespace Layering

def add (L : Layering) (layer layers : Layers) : Layers :=
  layer.foldl (fun acc (key, v) => L.set key v acc) layers

def environment (L : Layering) (vars : List (String × String)) : Layers :=
  vars.filterMap fun (name, value) => (L.variableKey name).map fun key => (key, .text value .environment)

end Layering

end Conduit.Settings
