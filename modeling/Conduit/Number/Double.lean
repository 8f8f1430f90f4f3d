/-!
# Doubles

A double is kept exactly, as a sign, a whole mantissa and a power of two.
Reading a decimal rounds to the nearest double, ties to the even mantissa;
writing one gives the fewest digits that read back as the same double.
-/

namespace Conduit

/-- A finite value is `± mantissa · 2 ^ exponent`, with the mantissa below
`2 ^ 53` and the exponent at least `-1074` when it comes from a reader. -/
inductive Double
  | finite (negative : Bool) (mantissa : Nat) (exponent : Int)
  | infinite (negative : Bool)
  | nan
  deriving DecidableEq, Repr, Inhabited

namespace Double

/-! ## Reading -/

/-- The nearest whole number to `num / den`, a half going to the even one. -/
def roundHalfEven (num den : Nat) : Nat :=
  let q := num / den
  let r := num % den
  if 2 * r < den then q else if den < 2 * r then q + 1 else q + q % 2

def scale (num den : Nat) (e : Int) : Nat × Nat :=
  if 0 ≤ e then (num, den <<< e.toNat) else (num <<< (-e).toNat, den)

def ofFraction (negative : Bool) (num den : Nat) : Double :=
  let guess := (num.log2 : Int) - den.log2 - 53
  let start := max guess (-1074)
  let (a, b) := scale num den start
  let e := if a / b < 9007199254740992 then start else start + 1
  let (a, b) := scale num den e
  let m := roundHalfEven a b
  let (m, e) := if m = 9007199254740992 then (4503599627370496, e + 1) else (m, e)
  if 971 < e then .infinite negative else .finite negative m e

def ofDecimal (negative : Bool) (digits : Nat) (power : Int) : Double :=
  let width : Int := (Nat.toDigits 10 digits).length
  if digits = 0 ∨ width + power < -330 then .finite negative 0 (-1074)
  else if 310 < width + power then .infinite negative
  else if 0 ≤ power then ofFraction negative (digits * Nat.pow 10 power.toNat) 1
  else ofFraction negative digits (Nat.pow 10 (-power).toNat)

/-! ## Writing -/

/-- `n · 2 ^ e` in units of `10 ^ p`, as a fraction. -/
def inUnits (n : Nat) (e p : Int) : Nat × Nat :=
  let num := if 0 ≤ e then n <<< e.toNat else n
  let den := if 0 ≤ e then 1 else 1 <<< (-e).toNat
  if 0 ≤ p then (num, den * Nat.pow 10 p.toNat) else (num * Nat.pow 10 (-p).toNat, den)

/-- The whole number of units `10 ^ p` that reads back as `mantissa · 2 ^ exponent`
and lies nearest to it, if there is one. -/
def onGrid (mantissa : Nat) (exponent p : Int) : Option Nat :=
  -- in quarters of the last place, so that both half-way points are whole
  let e := exponent - 2
  let below := if mantissa = 4503599627370496 ∧ -1074 < exponent then 1 else 2
  let (v, den) := inUnits (4 * mantissa) e p
  let (lo, _) := inUnits (4 * mantissa - below) e p
  let (hi, _) := inUnits (4 * mantissa + 2) e p
  let readsBack (c : Nat) : Bool :=
    if mantissa % 2 = 0 then lo ≤ c * den ∧ c * den ≤ hi else lo < c * den ∧ c * den < hi
  let c := v / den
  match 0 < c && readsBack c, readsBack (c + 1) with
  | true, true => if 2 * (v % den) < den then some c else some (c + 1)
  | true, false => some c
  | false, true => some (c + 1)
  | false, false => none

def firstGrid (mantissa : Nat) (exponent : Int) : Nat → Int → Nat × Int
  | 0, p => (0, p)
  | n + 1, p =>
    match onGrid mantissa exponent p with
    | some c => (c, p)
    | none => firstGrid mantissa exponent n (p - 1)

/-- The fewest digits that read back, with their power of ten. -/
def shortest (mantissa : Nat) (exponent : Int) : Nat × Int :=
  if mantissa = 0 then (0, 0)
  else firstGrid mantissa exponent 24 (((mantissa.log2 : Int) + 1 + exponent) * 30103 / 100000 + 2)

def positional (digits : Nat) (power : Int) : String :=
  let ds := Nat.toDigits 10 digits
  if 0 ≤ power then String.ofList (ds ++ List.replicate power.toNat '0')
  else
    let places := (-power).toNat
    let padded := List.replicate (places + 1 - ds.length) '0' ++ ds
    String.ofList (padded.take (padded.length - places) ++ '.' :: padded.drop (padded.length - places))

/-- The decimal text, never with an exponent: `1`, `0.5`, `-0`, `inf`, `NaN`. -/
def text : Double → String
  | .nan => "NaN"
  | .infinite negative => if negative then "-inf" else "inf"
  | .finite negative m e =>
    let (digits, power) := shortest m e
    (if negative then "-" else "") ++ positional digits power

/-- The decimal text of a finite double always shows a point: `1.0`. -/
def pointed (x : Double) : String :=
  match x with
  | .finite _ m e => if 0 ≤ (shortest m e).2 then x.text ++ ".0" else x.text
  | _ => x.text

/-! ## Conversions -/

def isZero : Double → Bool
  | .finite _ m _ => m == 0
  | _ => false

/-- The nearest whole number in `0 .. limit`, a half going away from zero. -/
def toNatWithin (limit : Nat) : Double → Nat
  | .nan => 0
  | .infinite negative => if negative then 0 else limit
  | .finite negative m e =>
    if negative then 0
    else if 0 ≤ e then min limit (m <<< e.toNat)
    else min limit ((2 * m + (1 <<< (-e).toNat)) / (2 <<< (-e).toNat))

end Double

end Conduit
