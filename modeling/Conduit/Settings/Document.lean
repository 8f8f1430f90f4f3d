import Conduit.Settings.Format
import Conduit.Toml.Reader

/-!
# Configuration from a document

A TOML document gives a log configuration without any conversion: each key must hold a value of
its own type. What is relied on of the reader of documents and of their format is said by
`Reading.Lawful`. A configuration is written in the keys that are read.
-/

namespace Conduit.Settings

inductive Refusal
  | malformed
  | unfit (fault : Fault)
  deriving DecidableEq, Repr

def Refusal.context : String := "parsing logger configuration"

def wordLimit : Nat := 18446744073709551615

/-- Its whole numbers are those of a word of 64 bits, with or without a sign. -/
def FitsWord (v : Toml.Value) : Prop := v.within (-9223372036854775808) wordLimit = true

def FitsLongWord (v : Toml.Value) : Prop :=
  v.within (-170141183460469231731687303715884105728) 340282366920938463463374607431768211455 = true

instance (v : Toml.Value) : Decidable (FitsWord v) := inferInstanceAs (Decidable (_ = true))

instance (v : Toml.Value) : Decidable (FitsLongWord v) := inferInstanceAs (Decidable (_ = true))

/-- How documents are read: the table of a text, the format of its values and the derived readers. -/
structure Reading where
  table? : String → Option Toml.Table
  format : Format Toml.Value Fault
  derived : Derived

/-- A document has each key of a table once, and its entries are handed on in some order, each
once. Any value is passed over, and any value of a sink is kept aside, up to a width of numbers. -/
structure Reading.Lawful (R : Reading) : Prop where
  derived : R.derived.Lawful
  distinct : ∀ {s : String} {t : Toml.Table}, R.table? s = some t → (Toml.Value.table t).Distinct
  entries_perm : ∀ {es : Toml.Table}, (es.map Prod.fst).Nodup → (R.format.entries es).Perm es
  shape_table : ∀ es : Toml.Table, R.format.shape (.table es) = .table es
  skip_iff : ∀ v : Toml.Value, R.format.skip v = .ok () ↔ FitsLongWord v
  keep_iff : ∀ v : Toml.Value, (∃ i, R.format.keep v = .ok i) ↔ FitsWord v

namespace Reading

/-- A document whose numbers fit no signed word is refused as a whole once anything is wrong with it. -/
def config (R : Reading) (t : Toml.Table) : Except Refusal Log.Config :=
  (R.format.config R.derived t).mapError fun f => if t.isPlain then .unfit f else .malformed

def document (R : Reading) (s : String) : Except Refusal Log.Config :=
  match R.table? s with
  | none => .error .malformed
  | some t => R.config t

end Reading

/-! ## TOML -/

def foundIn : Toml.Value → Found
  | .text s => .text s
  | .whole n => .whole n
  | .real x => .real x
  | .truth b => .truth b
  | .array _ => .sequence
  | .moment _ | .table _ => .map

def itemOf : Toml.Value → Item
  | .text s => .text s
  | .truth b => .truth b
  | v => .other (foundIn v)

def readCapacity : Toml.Value → Except Fault Nat
  | .whole n =>
    if n < 0 then .error (.wrongValue (.whole n) .capacity)
    else if n ≤ wordLimit then .ok n.toNat
    else .error (.wrongType (.whole n) .capacity)
  | v => .error (.wrongType (foundIn v) .capacity)

def readTruth : Toml.Value → Except Fault Bool
  | .truth b => .ok b
  | v => .error (.wrongType (foundIn v) .truth)

def readText : Toml.Value → Except Fault String
  | .text s => .ok s
  | v => .error (.wrongType (foundIn v) .text)

/-- A date or a time is handed on as a table with an entry of its own. -/
def shapeOf : Toml.Value → Shape Toml.Value
  | .table es => .table es
  | .moment m => .table [("moment", .text m.text)]
  | .array vs => .array vs
  | v => .other (foundIn v)

def tomlFormat : Format Toml.Value Fault where
  entries := byKey
  shape := shapeOf
  capacity := readCapacity
  timestamps := readTruth
  threadName := readText
  kind _ v := (itemOf v).kind
  keep v := if FitsWord v then .ok (itemOf v) else .error .tooWide
  skip v := if FitsLongWord v then .ok () else .error .tooWide
  duplicate := .duplicate
  inSink f := f

def reading : Reading where
  table? := Toml.read
  format := tomlFormat
  derived := derived

def configOfDocument (s : String) : Except Refusal Log.Config := reading.document s

/-! ## Writing a configuration -/

def eightDigits (n : Nat) : List Char :=
  let ds := Nat.toDigits 16 n
  List.replicate (8 - ds.length) '0' ++ ds

/-- Quotes and backslashes are escaped, and controls are given by their number. -/
def basicChar (c : Char) : List Char :=
  if c = '"' ∨ c = '\\' then ['\\', c]
  else if Toml.isText c then [c]
  else '\\' :: 'U' :: eightDigits c.toNat

def basicText (s : String) : String :=
  String.ofList ('"' :: s.toList.flatMap basicChar ++ ['"'])

def truthText (b : Bool) : String := if b then "true" else "false"

def sinkLines : Log.Target → List String
  | .file path append =>
    ["kind = \"file\"", "path = " ++ basicText path, "append = " ++ truthText append]
  | t => ["kind = " ++ basicText t.kind]

def document (c : Log.Config) : String :=
  "\n".intercalate (
    ["capacity = " ++ toString c.capacity,
     "timestamps = " ++ truthText c.timestamps,
     "thread_name = " ++ basicText c.threadName,
     "",
     "[sink]"] ++ sinkLines c.sink ++ [""])

/-- Reading back what was written gives the same configuration. -/
def survives (c : Log.Config) : Bool :=
  match configOfDocument (document c) with
  | .ok c' => c' == c
  | .error _ => false

end Conduit.Settings
