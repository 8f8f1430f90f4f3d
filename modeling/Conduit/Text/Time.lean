/-!
# Times as text

A span of time is shown in the largest of the units s, ms, µs and ns of which it has at least
one, with all its decimals or rounded, a half to the even neighbour. A time in UTC is shown to
the microsecond, as in `2024-01-02T03:04:05.678901Z`.
-/

namespace Conduit.Text

/-! ## Spans -/

abbrev Nanos := Nat

/-- The unit a span is shown in: its length in nanoseconds, its decimals, its name. -/
def spanUnit (t : Nanos) : Nat × Nat × String :=
  if 1000000000 ≤ t then (1000000000, 9, "s")
  else if 1000000 ≤ t then (1000000, 6, "ms")
  else if 1000 ≤ t then (1000, 3, "µs")
  else (1, 0, "ns")

def decimals (n width : Nat) : String :=
  let digits := toString n
  String.ofList (List.replicate (width - digits.length) '0') ++ digits

def trimZeros (digits : String) : String :=
  String.ofList (digits.toList.reverse.dropWhile (· == '0')).reverse

/-- With all the decimals it takes. -/
def elapsed (t : Nanos) : String :=
  let (unit, places, name) := spanUnit t
  let rest := if t % unit = 0 then "" else "." ++ trimZeros (decimals (t % unit) places)
  toString (t / unit) ++ rest ++ name

def roundHalfEven (n d : Nat) : Nat :=
  let q := n / d
  let twice := 2 * (n % d)
  if twice < d then q else if d < twice then q + 1 else if q % 2 = 0 then q else q + 1

def elapsedShort (t : Nanos) : String :=
  let (unit, _, name) := spanUnit t
  let hundredths := roundHalfEven (t * 100) unit
  toString (hundredths / 100) ++ "." ++ decimals (hundredths % 100) 2 ++ name

def padLeft (width : Nat) (text : String) : String :=
  String.ofList (List.replicate (width - text.length) ' ') ++ text

def padRight (width : Nat) (text : String) : String :=
  text ++ String.ofList (List.replicate (width - text.length) ' ')

/-! ## Stamps -/

/-- Year, month and day so many days after the first of January 1970. Years
are counted from March, so that the leap day is the last of its year. -/
def civilDate (days : Nat) : Nat × Nat × Nat :=
  let day := days + 719468
  let era := day / 146097
  let ofEra := day % 146097
  let yearOfEra := (ofEra - ofEra / 1460 + ofEra / 36524 - ofEra / 146096) / 365
  let ofYear := ofEra - (365 * yearOfEra + yearOfEra / 4 - yearOfEra / 100)
  let march := (5 * ofYear + 2) / 153
  let month := if march < 10 then march + 3 else march - 9
  let year := yearOfEra + era * 400 + if month ≤ 2 then 1 else 0
  (year, month, ofYear - (153 * march + 2) / 5 + 1)

def stamp (micros : Nat) : String :=
  let seconds := micros / 1000000
  let (year, month, day) := civilDate (seconds / 86400)
  let ofDay := seconds % 86400
  decimals year 4 ++ "-" ++ decimals month 2 ++ "-" ++ decimals day 2 ++ "T"
    ++ decimals (ofDay / 3600) 2 ++ ":" ++ decimals (ofDay / 60 % 60) 2 ++ ":" ++ decimals (ofDay % 60) 2
    ++ "." ++ decimals (micros % 1000000) 6 ++ "Z"

end Conduit.Text
