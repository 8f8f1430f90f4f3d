import Conduit.Number.Double
import Conduit.Text.Quoted

/-!
# Faults of a setting

Why a value cannot be a setting, and the one text for each cause.
-/

namespace Conduit.Settings

/-- What stood where something else was wanted. -/
inductive Found
  | whole (n : Int)
  | word (n : Int)
  | real (x : Double)
  | text (s : String)
  | truth (b : Bool)
  | sequence
  | map
  | nothing
  deriving DecidableEq, Repr

inductive Wanted
  | capacity
  | whole
  | natural
  | truth
  | text
  | path
  | kind
  | sink
  deriving DecidableEq, Repr

inductive Fault
  | wrongType (found : Found) (wanted : Wanted)
  | wrongValue (found : Found) (wanted : Wanted)
  | missing (field : String)
  | duplicate (field : String)
  /-- A number that no word holds, where any value would do. -/
  | tooWide
  | unknownKind (name : String)
  /-- A sink given as an array has too many items after its kind. -/
  | tooLong (items wanted : Nat)
  | noPath
  deriving DecidableEq, Repr

def marked (s : String) : String := "\x60" ++ s ++ "\x60"

def Found.phrase : Found → String
  | .whole n => "integer " ++ marked (toString n)
  | .word n => "64-bit integer " ++ marked (toString n)
  | .real x => "floating point " ++ marked x.pointed
  | .text s => "string " ++ Text.quoted s
  | .truth b => "boolean " ++ marked (if b then "true" else "false")
  | .sequence => "sequence"
  | .map => "map"
  | .nothing => "unit value"

def Wanted.phrase : Wanted → String
  | .capacity => "usize"
  | .whole => "an integer"
  | .natural => "an unsigned 64 bit or less integer"
  | .truth => "a boolean"
  | .text => "a string"
  | .path => "path string"
  | .kind => "variant identifier"
  | .sink => "internally tagged enum SinkConfig"

def Fault.message : Fault → String
  | .wrongType found wanted => "invalid type: " ++ found.phrase ++ ", expected " ++ wanted.phrase
  | .wrongValue found wanted => "invalid value: " ++ found.phrase ++ ", expected " ++ wanted.phrase
  | .missing field => "missing field " ++ marked field
  | .duplicate field => "duplicate field " ++ marked field
  | .tooWide => "integer number overflowed"
  | .unknownKind name =>
    "unknown variant " ++ marked name ++ ", expected one of " ++
      ", ".intercalate (["stdout", "stderr", "file", "null"].map marked)
  | .tooLong items wanted =>
    "invalid length " ++ toString items ++ ", expected " ++ toString wanted ++ " elements in sequence"
  | .noPath => "invalid length 0, expected struct variant SinkConfig::File with 2 elements"

end Conduit.Settings
