/-!
# Dates and times

The four kinds of TOML date-time are a date, a time, both, or both with an
offset from UTC. A moment is read from one word and written back in the same
form, the fraction of a second without its trailing zeros.
-/

namespace Conduit.Toml

structure Date where
  year : Nat
  month : Nat
  day : Nat
  deriving DecidableEq, Repr

/-- A time of day; the second and its fraction in nanoseconds may be missing. -/
structure Clock where
  hour : Nat
  minute : Nat
  second : Option Nat
  nanosecond : Option Nat
  deriving DecidableEq, Repr

inductive Offset
  | utc
  | minutes (fromUtc : Int)
  deriving DecidableEq, Repr

structure Moment where
  date : Option Date
  clock : Option Clock
  offset : Option Offset
  deriving DecidableEq, Repr

/-! ## Reading -/

def isDigit (c : Char) : Bool := '0' ≤ c && c ≤ '9'

def decimalOf (ds : List Char) : Nat := ds.foldl (fun n d => 10 * n + (d.toNat - 48)) 0

def twoDigits : List Char → Option (Nat × List Char)
  | a :: b :: r => if isDigit a && isDigit b then some (decimalOf [a, b], r) else none
  | _ => none

def isLeap (year : Nat) : Bool := year % 4 == 0 && (year % 100 != 0 || year % 400 == 0)

def daysIn (year month : Nat) : Nat :=
  if month = 2 then if isLeap year then 29 else 28
  else if month = 4 ∨ month = 6 ∨ month = 9 ∨ month = 11 then 30
  else 31

/-- The calendar must have the day. -/
def readDate (s : List Char) : Option (Date × List Char) :=
  match s with
  | a :: b :: c :: d :: '-' :: r => do
    guard ([a, b, c, d].all isDigit)
    let year := decimalOf [a, b, c, d]
    let (month, r) ← twoDigits r
    let '-' :: r := r | none
    let (day, r) ← twoDigits r
    guard (1 ≤ month ∧ month ≤ 12 ∧ 1 ≤ day ∧ day ≤ daysIn year month)
    some (⟨year, month, day⟩, r)
  | _ => none

/-- Nine places count, further ones are cut. -/
def nanoseconds (ds : List Char) : Nat := decimalOf ((ds ++ List.replicate 9 '0').take 9)

def readClock (s : List Char) : Option (Clock × List Char) := do
  let (hour, r) ← twoDigits s
  let ':' :: r := r | none
  let (minute, r) ← twoDigits r
  guard (hour ≤ 23 ∧ minute ≤ 59)
  match r with
  | ':' :: r =>
    let (second, r) ← twoDigits r
    guard (second ≤ 60)
    match r with
    | '.' :: r =>
      let ds := r.takeWhile isDigit
      guard (ds ≠ [])
      some (⟨hour, minute, some second, some (nanoseconds ds)⟩, r.dropWhile isDigit)
    | _ => some (⟨hour, minute, some second, none⟩, r)
  | _ => some (⟨hour, minute, none, none⟩, r)

def readOffset (s : List Char) : Option (Option Offset) :=
  match s with
  | [] => some none
  | ['Z'] | ['z'] => some (some .utc)
  | sign :: r => do
    guard (sign = '+' ∨ sign = '-')
    let (hour, r) ← twoDigits r
    let ':' :: r := r | none
    let (minute, r) ← twoDigits r
    guard (r = [] ∧ hour ≤ 23 ∧ minute ≤ 59)
    let total : Int := hour * 60 + minute
    some (some (.minutes (if sign = '-' then -total else total)))

def Moment.read (s : List Char) : Option Moment :=
  match readDate s with
  | some (date, []) => some ⟨some date, none, none⟩
  | some (date, c :: r) => do
    guard (c = 'T' ∨ c = 't' ∨ c = ' ')
    let (clock, r) ← readClock r
    let offset ← readOffset r
    some ⟨some date, some clock, offset⟩
  | none => do
    let (clock, r) ← readClock s
    guard (r = [])
    some ⟨none, some clock, none⟩

/-! ## Writing -/

def padded (width n : Nat) : String :=
  let ds := Nat.toDigits 10 n
  String.ofList (List.replicate (width - ds.length) '0' ++ ds)

def Date.text (d : Date) : String :=
  padded 4 d.year ++ "-" ++ padded 2 d.month ++ "-" ++ padded 2 d.day

def fractionText (nanosecond : Nat) : String :=
  let ds := (padded 9 nanosecond).toList.reverse.dropWhile (· == '0')
  if ds.isEmpty then "0" else String.ofList ds.reverse

def Clock.text (c : Clock) : String :=
  padded 2 c.hour ++ ":" ++ padded 2 c.minute ++
    match c.second, c.nanosecond with
    | some s, some n => ":" ++ padded 2 s ++ "." ++ fractionText n
    | some s, none => ":" ++ padded 2 s
    | none, _ => ""

def Offset.text : Offset → String
  | .utc => "Z"
  | .minutes m =>
    (if m < 0 then "-" else "+") ++ padded 2 (m.natAbs / 60) ++ ":" ++ padded 2 (m.natAbs % 60)

def Moment.text (m : Moment) : String :=
  (m.date.map Date.text).getD "" ++
    (if m.date.isSome && m.clock.isSome then "T" else "") ++
    (m.clock.map Clock.text).getD "" ++ (m.offset.map Offset.text).getD ""

end Conduit.Toml
