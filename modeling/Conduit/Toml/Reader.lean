import Conduit.Toml.Draft
import Conduit.Toml.Lexeme

/-!
# Reading TOML

A document is read line by line into a draft. Text that is not TOML 1.1, or
that defines something twice, gives nothing: no caller tells one such fault
from another. Brackets may nest eighty deep, and a key may have eighty parts
before its last.
-/

namespace Conduit.Toml

def depthLimit : Nat := 80

/-- Items up to the closing bracket, with a comma after each but perhaps the
last. The count bounds the items and is at least the number of characters. -/
def arrayItems (item : List Char → Option (Value × List Char)) :
    Nat → List Char → Option (List Value × List Char)
  | 0, _ => none
  | n + 1, s => do
    match ← skipTrivia false s with
    | ']' :: r => some ([], r)
    | r => do
      let (v, r) ← item r
      match ← skipTrivia false r with
      | ',' :: r =>
        let (vs, r) ← arrayItems item n r
        some (v :: vs, r)
      | ']' :: r => some ([v], r)
      | _ => none

def assignment (item : List Char → Option (Value × List Char)) (s : List Char) :
    Option ((List String × Value) × List Char) := do
  let (path, r) ← dottedKey depthLimit s
  let '=' :: r := skipBlanks r | none
  let (v, r) ← item (skipBlanks r)
  some ((path, v), r)

def inlineEntries (item : List Char → Option (Value × List Char)) :
    Nat → Entries → List Char → Option (Entries × List Char)
  | 0, _, _ => none
  | n + 1, es, s => do
    match ← skipTrivia false s with
    | '\x7d' :: r => some (es, r)
    | r => do
      let ((path, v), r) ← assignment item r
      let es ← es.assign path v
      match ← skipTrivia false r with
      | ',' :: r => inlineEntries item n es r
      | '\x7d' :: r => some (es, r)
      | _ => none

/-- A value with at most `depth` brackets open at once. -/
def value : Nat → List Char → Option (Value × List Char)
  | depth, s =>
    match s, depth with
    | '[' :: r, depth + 1 => (arrayItems (value depth) s.length r).map fun (vs, r) => (.array vs, r)
    | '\x7b' :: r, depth + 1 =>
      (inlineEntries (value depth) s.length [] r).map fun (es, r) => (.table (finishEntries es), r)
    | '"' :: _, _ | '\'' :: _, _ => (anyString s).map fun (t, r) => (.text t, r)
    | _, _ =>
      let (cs, r) := word s
      (wordValue cs).map fun v => (v, r)

def headerPath (s : List Char) : Option (List String × List Char) := do
  let (path, r) ← dottedKey depthLimit (skipBlanks s)
  some (path, skipBlanks r)

/-- The lines of a document under the header in force, each taking at least one character. -/
def documentLines : Nat → List String → Entries → List Char → Option Entries
  | 0, _, es, s => if s.isEmpty then some es else none
  | n + 1, header, es, s =>
    match skipBlanks s with
    | [] => some es
    | '[' :: '[' :: r => do
      let (path, r) ← headerPath r
      let ']' :: ']' :: r := r | none
      documentLines n path (← es.arrayHeader path) (← endLine r)
    | '[' :: r => do
      let (path, r) ← headerPath r
      let ']' :: r := r | none
      documentLines n path (← es.header path) (← endLine r)
    | c :: r => do
      if c = '#' ∨ c = '\n' ∨ c = '\r' then documentLines n header es (← endLine (c :: r))
      else
        let ((path, v), r) ← assignment (value depthLimit) (c :: r)
        documentLines n header (← es.assignUnder header path v) (← endLine r)

/-- The table of a document; a byte order mark in front is skipped. -/
def read (s : String) : Option Table :=
  let cs :=
    match s.toList with
    | '\ufeff' :: r => r
    | cs => cs
  (documentLines (cs.length + 1) [] [] cs).map finishEntries

end Conduit.Toml
