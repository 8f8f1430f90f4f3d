import Std.Data.HashSet

/-!
# Options and reports

The settings of a pipeline, and which of them are refused before anything is started. What came
of a pipeline: how many values were expected and received, how many came twice and how many out
of order.
-/

namespace Conduit.Pipeline

structure Options where
  producers : UInt64 := 1
  consumers : UInt64 := 5
  count : UInt64 := 1000
  capacity : UInt64 := 64
  /-- The pause of a producer after each push, in milliseconds. -/
  workMs : UInt64 := 0
  /-- Whether each value is logged on both sides. -/
  traceValues : Bool := false
  deriving DecidableEq, Repr, Inhabited

inductive OptionsFault
  | noCapacity
  | tooLarge (capacity : UInt64)
  | tooMany (producers count : UInt64)
  deriving DecidableEq, Repr

def OptionsFault.message : OptionsFault → String
  | .noCapacity => "queue capacity must be at least 1"
  | .tooLarge capacity => "queue capacity " ++ toString capacity ++ " is too large"
  | .tooMany producers count =>
    toString producers ++ " producers x " ++ toString count ++ " values does not fit the value range"

def checkedMul (a b : UInt64) : Option UInt64 :=
  if a.toNat * b.toNat < UInt64.size then some (a * b) else none

def toSigned? (n : UInt64) : Option Int64 :=
  if n ≤ Int64.maxValue.toUInt64 then some n.toInt64 else none

namespace Options

/-- All values together, if their numbers have room. -/
def total? (o : Options) : Option Int64 := (checkedMul o.producers o.count).bind toSigned?

def validate (o : Options) : Except OptionsFault Unit :=
  if o.capacity < 1 then .error .noCapacity
  else if o.capacity = UInt64.ofNatLT (UInt64.size - 1) (by decide) then .error (.tooLarge o.capacity)
  else if o.total?.isNone then .error (.tooMany o.producers o.count)
  else .ok ()

end Options

/-! ## Reports -/

structure Report where
  queue : String
  expected : Nat
  received : Nat
  duplicates : Nat
  outOfOrder : Nat
  deriving DecidableEq, Repr

namespace Report

def isClean (r : Report) : Bool :=
  r.expected == r.received && r.duplicates == 0 && r.outOfOrder == 0

def complaint (r : Report) : String :=
  r.queue ++ ": expected " ++ toString r.expected ++ " values, received " ++ toString r.received ++ " ("
    ++ toString r.duplicates ++ " duplicates, " ++ toString r.outOfOrder ++ " out of order)"

def check (r : Report) : Except Report Report := if r.isClean then .ok r else .error r

/-- From the values that each consumer received. -/
def ofShares (queue : String) (expected : Nat) (shares : List (List Int64)) : Report :=
  let values := shares.flatten
  let distinct := Std.HashSet.ofList values
  { queue, expected, received := values.length, duplicates := values.length - distinct.size, outOfOrder := 0 }

/-- Values that differ from the number of those before them. -/
def misplaced (values : List Int64) : Nat :=
  values.zipIdx.countP fun (v, i) => v != Int64.ofNat i

def ofSequence (queue : String) (expected : Nat) (values : List Int64) : Report :=
  { queue, expected, received := values.length, duplicates := 0, outOfOrder := misplaced values }

end Report

end Conduit.Pipeline
