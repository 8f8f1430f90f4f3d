/-!
# Key paths

The key of a layered setting names a place in nested tables and arrays:
`sink.kind`, `sink[0]`, `a[-1].b`. A text that is no such path is a key of
its own at the root.
-/

namespace Conduit.Settings

inductive PathStep
  | key (name : String)
  /-- Counted from the end when negative. -/
  | index (i : Int)
  deriving DecidableEq, Repr

structure KeyPath where
  root : String
  steps : List PathStep
  deriving DecidableEq, Repr

def isNameChar (c : Char) : Bool := c.isAlphanum || c == '_' || c == '-'

/-- A key that a document needs no quotes for: it is no path but names an entry of the root. -/
def isBare (key : String) : Bool := key.toList.all isNameChar && !key.toList.isEmpty

def readName (s : List Char) : Option (String × List Char) :=
  let cs := s.takeWhile isNameChar
  if cs.isEmpty then none else some (String.ofList cs, s.dropWhile isNameChar)

/-- `3]`, `-1 ]` -/
def readIndex (s : List Char) : Option (Int × List Char) := do
  let s := s.dropWhile (· == ' ')
  let (negative, s) := match s with
    | '-' :: r => (true, r)
    | r => (false, r)
  let ds := s.takeWhile Char.isDigit
  guard (ds ≠ [])
  let n : Nat := ds.foldl (fun n d => 10 * n + (d.toNat - 48)) 0
  match (s.dropWhile Char.isDigit).dropWhile (· == ' ') with
  | ']' :: r => some (if negative then -(n : Int) else n, r)
  | _ => none

/-- The steps of a path; the count bounds them and is at least the number of characters. -/
def readSteps : Nat → List Char → Option (List PathStep)
  | _, [] => some []
  | 0, _ :: _ => none
  | n + 1, '.' :: r => do
    let (name, r) ← readName r
    return .key name :: (← readSteps n r)
  | n + 1, '[' :: r => do
    let (i, r) ← readIndex r
    return .index i :: (← readSteps n r)
  | _ + 1, _ :: _ => none

def KeyPath.read? (s : String) : Option KeyPath := do
  let (root, r) ← readName s.toList
  return ⟨root, ← readSteps r.length r⟩

/-- A path, or the whole text as a key of the root. -/
def KeyPath.read (s : String) : KeyPath := (KeyPath.read? s).getD ⟨s, []⟩

end Conduit.Settings
