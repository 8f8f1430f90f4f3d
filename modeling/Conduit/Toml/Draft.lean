import Conduit.Toml.Value

/-!
# Tables under construction

While a document is read, each table remembers how it came to be, which
decides what later lines may still add to it: a header opens a table once, a
dotted key extends only tables that no header opened, and nothing extends a
value, a static array or an inline table.
-/

namespace Conduit.Toml

inductive Opened
  /-- On the way to a header, without a header of its own. -/
  | implied
  | dotted
  | headed
  deriving DecidableEq, Repr

inductive Draft
  | closed (v : Value)
  | table (by' : Opened) (es : List (String × Draft))
  /-- An array of tables, the newest first. -/
  | tables (newest : List (String × Draft)) (older : List (List (String × Draft)))

abbrev Entries := List (String × Draft)

def Entries.put (key : String) (d : Draft) : Entries → Entries
  | [] => [(key, d)]
  | (k, e) :: es => if k = key then (key, d) :: es else (k, e) :: Entries.put key d es

/-- Applies `f` to the table at the end of a path, creating what is missing.
A path through an array of tables goes on in its newest table. -/
def Entries.at (dotted : Bool) (f : Opened → Entries → Option Entries) :
    List String → Opened → Entries → Option Entries
  | [], by', es => f by' es
  | key :: path, _, es =>
    match List.lookup key es with
    | none => do
      let fresh := if dotted then .dotted else .implied
      let inner ← Entries.at dotted f path fresh []
      some (es.put key (.table fresh inner))
    | some (.table by' old) => do
      guard (¬ (dotted ∧ by' = .headed))
      let inner ← Entries.at dotted f path by' old
      some (es.put key (.table by' inner))
    | some (.tables newest older) => do
      let inner ← Entries.at dotted f path .headed newest
      some (es.put key (.tables inner older))
    | some (.closed _) => none

def splitPath (path : List String) : Option (List String × String) :=
  path.getLast?.map fun key => (path.dropLast, key)

/-- `path = v` inside the current table: the key must be new, and a dotted
path must end in a table that dotted keys opened. -/
def Entries.assign (path : List String) (v : Value) (es : Entries) : Option Entries := do
  let (tables, key) ← splitPath path
  let insert (by' : Opened) (inner : Entries) : Option Entries :=
    if (by' == .dotted) == !tables.isEmpty && (List.lookup key inner).isNone
    then some (inner.put key (.closed v)) else none
  Entries.at true insert tables .headed es

/-- `[path]` -/
def Entries.header (path : List String) (es : Entries) : Option Entries := do
  let (tables, key) ← splitPath path
  let insert (_ : Opened) (inner : Entries) : Option Entries :=
    match List.lookup key inner with
    | none => some (inner.put key (.table .headed []))
    | some (.table .implied old) => some (inner.put key (.table .headed old))
    | some _ => none
  Entries.at false insert tables .headed es

/-- `[[path]]` -/
def Entries.arrayHeader (path : List String) (es : Entries) : Option Entries := do
  let (tables, key) ← splitPath path
  let insert (_ : Opened) (inner : Entries) : Option Entries :=
    match List.lookup key inner with
    | none => some (inner.put key (.tables [] []))
    | some (.tables newest older) => some (inner.put key (.tables [] (newest :: older)))
    | some _ => none
  Entries.at false insert tables .headed es

def Entries.assignUnder (header path : List String) (v : Value) (es : Entries) : Option Entries :=
  Entries.at false (fun _ inner => inner.assign path v) header .headed es

mutual
def Draft.finish : Draft → Value
  | .closed v => v
  | .table _ es => .table (finishEntries es)
  | .tables newest older => .array ((finishTables older).reverse ++ [.table (finishEntries newest)])
def finishEntries : List (String × Draft) → List (String × Value)
  | [] => []
  | (k, d) :: es => (k, d.finish) :: finishEntries es
def finishTables : List (List (String × Draft)) → List Value
  | [] => []
  | t :: ts => .table (finishEntries t) :: finishTables ts
end

end Conduit.Toml
