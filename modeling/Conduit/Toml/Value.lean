import Conduit.Number.Double
import Conduit.Toml.Moment

/-!
# TOML values

A table is the list of its entries. A document read from text has distinct
keys in every table; order carries no meaning, so readers of a table look
keys up.
-/

namespace Conduit.Toml

inductive Value
  | text (s : String)
  | whole (n : Int)
  | real (x : Double)
  | truth (b : Bool)
  | moment (m : Moment)
  | array (vs : List Value)
  | table (es : List (String × Value))
  deriving Repr, Inhabited

mutual
def Value.same : Value → Value → Bool
  | .text s, .text t => s == t
  | .whole m, .whole n => m == n
  | .real x, .real y => x == y
  | .truth b, .truth c => b == c
  | .moment m, .moment n => m == n
  | .array vs, .array ws => allSame vs ws
  | .table es, .table fs => entriesSame es fs
  | _, _ => false
def allSame : List Value → List Value → Bool
  | [], [] => true
  | v :: vs, w :: ws => v.same w && allSame vs ws
  | _, _ => false
def entriesSame : List (String × Value) → List (String × Value) → Bool
  | [], [] => true
  | (key, v) :: es, (key', w) :: fs => key == key' && v.same w && entriesSame es fs
  | _, _ => false
end

mutual
theorem Value.same_iff : ∀ v w : Value, v.same w = true ↔ v = w
  | .text s, w | .whole s, w | .real s, w | .truth s, w | .moment s, w => by cases w <;> simp [Value.same]
  | .array vs, w => by cases w <;> simp [Value.same, allSame_iff vs]
  | .table es, w => by cases w <;> simp [Value.same, entriesSame_iff es]
theorem allSame_iff : ∀ vs ws : List Value, allSame vs ws = true ↔ vs = ws
  | [], ws => by cases ws <;> simp [allSame]
  | v :: vs, ws => by cases ws <;> simp [allSame, v.same_iff, allSame_iff vs]
theorem entriesSame_iff : ∀ es fs : List (String × Value), entriesSame es fs = true ↔ es = fs
  | [], fs => by cases fs <;> simp [entriesSame]
  | (key, v) :: es, fs => by
    cases fs <;> simp [entriesSame, v.same_iff, entriesSame_iff es, Prod.ext_iff, and_assoc]
end

instance : DecidableEq Value := fun v w => decidable_of_iff _ (v.same_iff w)

abbrev Table := List (String × Value)

/-- Every table has each of its keys once, those inside other values included. -/
inductive Value.Distinct : Value → Prop
  | text (s : String) : Value.Distinct (.text s)
  | whole (n : Int) : Value.Distinct (.whole n)
  | real (x : Double) : Value.Distinct (.real x)
  | truth (b : Bool) : Value.Distinct (.truth b)
  | moment (m : Moment) : Value.Distinct (.moment m)
  | array {vs : List Value} (items : ∀ v ∈ vs, Value.Distinct v) : Value.Distinct (.array vs)
  | table {es : List (String × Value)} (keys : (es.map Prod.fst).Nodup)
      (values : ∀ e ∈ es, Value.Distinct e.2) : Value.Distinct (.table es)

def Table.get? (t : Table) (key : String) : Option Value := List.lookup key t

mutual
def Value.within (low high : Int) : Value → Bool
  | .whole n => low ≤ n && n ≤ high
  | .array vs => allWithin low high vs
  | .table es => entriesWithin low high es
  | _ => true
def allWithin (low high : Int) : List Value → Bool
  | [] => true
  | v :: vs => v.within low high && allWithin low high vs
def entriesWithin (low high : Int) : List (String × Value) → Bool
  | [] => true
  | (_, v) :: es => v.within low high && entriesWithin low high es
end

/-- Every whole number in the table fits a signed word of 64 bits. -/
def Table.isPlain (t : Table) : Bool :=
  entriesWithin (-9223372036854775808) 9223372036854775807 t

end Conduit.Toml
