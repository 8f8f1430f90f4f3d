import Conduit.Log.Config
import Conduit.Settings.Fault
import Conduit.Settings.Record

/-!
# Sink settings

A sink is a table with a kind and the fields of that kind, or an array of the
kind followed by those fields. The fields are read once the kind is known,
from what was kept of the other entries.
-/

namespace Conduit.Settings

inductive Kind
  | stdout
  | stderr
  | file
  | null
  deriving DecidableEq, Repr

def Kind.ofName (name : String) : Except Fault Kind :=
  match name with
  | "stdout" => .ok .stdout
  | "stderr" => .ok .stderr
  | "file" => .ok .file
  | "null" => .ok .null
  | _ => .error (.unknownKind name)

/-- A value that was kept aside, as a reader of sinks sees it. -/
inductive Item
  | text (s : String)
  | truth (b : Bool)
  | other (found : Found)
  deriving DecidableEq, Repr

def Item.found : Item → Found
  | .text s => .text s
  | .truth b => .truth b
  | .other f => f

def Item.kind : Item → Except Fault Kind
  | .text s => Kind.ofName s
  | i => .error (.wrongType i.found .kind)

def Item.path : Item → Except Fault String
  | .text s => .ok s
  | i => .error (.wrongType i.found .path)

def Item.truth? : Item → Except Fault Bool
  | .truth b => .ok b
  | i => .error (.wrongType i.found .truth)

def Item.append (item : Option Item) : Except Fault Bool :=
  match item with
  | none => .ok true
  | some i => i.truth?

inductive FileField
  | path
  | append
  deriving DecidableEq, Repr

abbrev FileField.Content : FileField → Type
  | .path => String
  | .append => Bool

def fileRecord : Record FileField.Content Item Fault where
  fields := [.append, .path]
  key
    | .path => "path"
    | .append => "append"
  read
    | .path => Item.path
    | .append => Item.truth?
  skip _ := .ok ()
  duplicate := .duplicate

def fileTarget (slots : Slots FileField.Content) : Except Fault Log.Target :=
  match slots .path with
  | none => .error (.missing "path")
  | some path => .ok (.file path ((slots .append).getD true))

/-- A kind without fields passes over all entries. -/
def bareRecord : Record (fun _ : Empty => Empty) Item Fault where
  fields := []
  key := nofun
  read := nofun
  skip _ := .ok ()
  duplicate := .duplicate

def bareTarget (D : Derived) (target : Log.Target) (kept : List (String × Item)) : Except Fault Log.Target := do
  let _ ← D.record bareRecord .blank kept
  return target

def targetOfKept (D : Derived) (kind : Kind) (kept : List (String × Item)) : Except Fault Log.Target :=
  match kind with
  | .stdout => bareTarget D .stdout kept
  | .stderr => bareTarget D .stderr kept
  | .null => bareTarget D .null kept
  | .file => do fileTarget (← D.record fileRecord .blank kept)

def targetOfItems (kind : Kind) (items : List Item) : Except Fault Log.Target :=
  let bare (t : Log.Target) : Except Fault Log.Target :=
    if items.isEmpty then .ok t else .error (.tooLong items.length 0)
  match kind with
  | .stdout => bare .stdout
  | .stderr => bare .stderr
  | .null => bare .null
  | .file =>
    match items with
    | [] => .error .noPath
    | path :: rest => do
      let path ← path.path
      let append ← Item.append rest.head?
      if rest.length ≤ 1 then .ok (.file path append) else .error (.tooLong items.length 2)

end Conduit.Settings
