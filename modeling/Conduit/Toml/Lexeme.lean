import Conduit.Toml.Value

/-!
# Lexemes

Blanks, comments, strings, keys, numbers and dates. Each reader takes the
characters ahead and gives what it read with the rest, or nothing if the text
is not TOML 1.1.
-/

namespace Conduit.Toml

/-! ## Between lexemes -/

def isBlank (c : Char) : Bool := c == ' ' || c == '\t'

/-- Characters that comments and literal strings may hold. -/
def isText (c : Char) : Bool := c == '\t' || (32 ≤ c.toNat && c.toNat != 127)

def skipBlanks (s : List Char) : List Char := s.dropWhile isBlank

/-- Blanks and a comment up to the end of the line, and the line break itself. -/
def endLine (s : List Char) : Option (List Char) :=
  let rest :=
    match skipBlanks s with
    | '#' :: r => r.dropWhile isText
    | r => r
  match rest with
  | [] => some []
  | '\n' :: r => some r
  | '\r' :: '\n' :: r => some r
  | _ => none

def skipTrivia (inComment : Bool) : List Char → Option (List Char)
  | [] => some []
  | '\n' :: r => skipTrivia false r
  | '\r' :: '\n' :: r => skipTrivia false r
  | c :: r =>
    if inComment then if isText c then skipTrivia true r else none
    else if isBlank c then skipTrivia false r
    else if c = '#' then skipTrivia true r
    else some (c :: r)

/-! ## Strings -/

def hexDigit (c : Char) : Option Nat :=
  if isDigit c then some (c.toNat - 48)
  else if 'a' ≤ c ∧ c ≤ 'f' then some (c.toNat - 87)
  else if 'A' ≤ c ∧ c ≤ 'F' then some (c.toNat - 55)
  else none

def hexOf (ds : List Char) : Option Nat :=
  ds.foldlM (fun n d => (hexDigit d).map (16 * n + ·)) 0

/-- The character of a number; surrogates and numbers past the last plane have none. -/
def charOf (n : Nat) : Option Char :=
  if n < 0xD800 ∨ (0xDFFF < n ∧ n < 0x110000) then some (Char.ofNat n) else none

def escape (s : List Char) : Option (Char × List Char) :=
  match s with
  | 'b' :: r => some ('\x08', r)
  | 't' :: r => some ('\t', r)
  | 'n' :: r => some ('\n', r)
  | 'f' :: r => some ('\x0c', r)
  | 'r' :: r => some ('\r', r)
  | 'e' :: r => some ('\x1b', r)
  | '"' :: r => some ('"', r)
  | '\\' :: r => some ('\\', r)
  | 'x' :: a :: b :: r => do
    let c ← charOf (← hexOf [a, b])
    some (c, r)
  | 'u' :: a :: b :: c :: d :: r => do
    let c ← charOf (← hexOf [a, b, c, d])
    some (c, r)
  | 'U' :: a :: b :: c :: d :: e :: f :: g :: h :: r => do
    let c ← charOf (← hexOf [a, b, c, d, e, f, g, h])
    some (c, r)
  | _ => none

theorem escape_length {s r : List Char} {c : Char} (h : escape s = some (c, r)) :
    r.length < s.length := by
  unfold escape at h
  split at h <;> simp [Option.bind_eq_some_iff] at h
  all_goals first
    | (obtain ⟨_, rfl⟩ := h; simp)
    | (obtain ⟨_, _, _, _, _, rfl⟩ := h; simp; omega)

def basicString (s : List Char) : Option (List Char × List Char) :=
  match s with
  | [] => none
  | '"' :: r => some ([], r)
  | '\\' :: r =>
    match _h : escape r with
    | some (c, r) => (basicString r).map fun (cs, r) => (c :: cs, r)
    | none => none
  | c :: r => if isText c then (basicString r).map fun (cs, r) => (c :: cs, r) else none
termination_by s.length
decreasing_by
  · have := escape_length _h; simp; omega
  · simp

def literalString (s : List Char) : Option (List Char × List Char) :=
  match s.dropWhile (fun c => isText c && c != '\'') with
  | '\'' :: r => some (s.takeWhile (fun c => isText c && c != '\''), r)
  | _ => none

/-- A line break right after the opening quotes does not count. -/
def skipFirstBreak : List Char → List Char
  | '\n' :: r => r
  | '\r' :: '\n' :: r => r
  | s => s

def isSpace (c : Char) : Bool := isBlank c || c == '\n' || c == '\r'

/-- A backslash before a line break takes all white space with it. -/
def skipJoined (s : List Char) : Option (List Char) :=
  match skipBlanks s with
  | '\n' :: r => some (r.dropWhile isSpace)
  | '\r' :: '\n' :: r => some (r.dropWhile isSpace)
  | _ => none

theorem skipJoined_length {s r : List Char} (h : skipJoined s = some r) : r.length < s.length := by
  have drop (p : Char → Bool) (l : List Char) : (l.dropWhile p).length ≤ l.length :=
    (List.dropWhile_sublist p).length_le
  unfold skipJoined skipBlanks at h
  have h₁ := drop isBlank s
  split at h
  case h_3 => cases h
  all_goals
    rename_i r' hr
    have h₂ := drop isSpace r'
    rw [hr] at h₁
    cases h
    simp only [List.length_cons] at h₁
    omega

/-- The rest of a multi-line basic string. Up to two quotes may stand before the closing three. -/
def basicLines (s : List Char) : Option (List Char × List Char) :=
  let next (c : Char) : Option (List Char × List Char) → Option (List Char × List Char) :=
    Option.map fun (cs, r) => (c :: cs, r)
  match s with
  | [] => none
  | '"' :: '"' :: '"' :: '"' :: '"' :: r => some (['"', '"'], r)
  | '"' :: '"' :: '"' :: '"' :: r => some (['"'], r)
  | '"' :: '"' :: '"' :: r => some ([], r)
  | '\\' :: r =>
    if (r.head?.map isSpace).getD false then
      match _h : skipJoined r with
      | some r => basicLines r
      | none => none
    else
      match _h : escape r with
      | some (c, r) => next c (basicLines r)
      | none => none
  | '\n' :: r => next '\n' (basicLines r)
  | '\r' :: '\n' :: r => next '\r' (next '\n' (basicLines r))
  | c :: r => if isText c then next c (basicLines r) else none
termination_by s.length
decreasing_by
  · have := skipJoined_length _h; simp only [List.length_cons]; omega
  · have := escape_length _h; simp only [List.length_cons]; omega
  · simp
  · simp only [List.length_cons]; omega
  · simp

def literalLines (s : List Char) : Option (List Char × List Char) :=
  let next (c : Char) : Option (List Char × List Char) → Option (List Char × List Char) :=
    Option.map fun (cs, r) => (c :: cs, r)
  match s with
  | [] => none
  | '\'' :: '\'' :: '\'' :: '\'' :: '\'' :: r => some (['\'', '\''], r)
  | '\'' :: '\'' :: '\'' :: '\'' :: r => some (['\''], r)
  | '\'' :: '\'' :: '\'' :: r => some ([], r)
  | '\n' :: r => next '\n' (literalLines r)
  | '\r' :: '\n' :: r => next '\r' (next '\n' (literalLines r))
  | c :: r => if isText c then next c (literalLines r) else none

def lineString : List Char → Option (String × List Char)
  | '"' :: r => (basicString r).map fun (cs, r) => (String.ofList cs, r)
  | '\'' :: r => (literalString r).map fun (cs, r) => (String.ofList cs, r)
  | _ => none

def anyString : List Char → Option (String × List Char)
  | '"' :: '"' :: '"' :: r => (basicLines (skipFirstBreak r)).map fun (cs, r) => (String.ofList cs, r)
  | '\'' :: '\'' :: '\'' :: r => (literalLines (skipFirstBreak r)).map fun (cs, r) => (String.ofList cs, r)
  | s => lineString s

/-! ## Keys -/

def isKeyChar (c : Char) : Bool := c.isAlphanum || c == '_' || c == '-'

def simpleKey (s : List Char) : Option (String × List Char) :=
  match s with
  | '"' :: _ | '\'' :: _ => lineString s
  | _ =>
    let cs := s.takeWhile isKeyChar
    if cs.isEmpty then none else some (String.ofList cs, s.dropWhile isKeyChar)

/-- A dotted key of at most `more + 1` parts, blanks allowed around the dots. -/
def dottedKey (more : Nat) (s : List Char) : Option (List String × List Char) := do
  let (key, r) ← simpleKey s
  match more, skipBlanks r with
  | more + 1, '.' :: r => do
    let (keys, r) ← dottedKey more (skipBlanks r)
    some (key :: keys, r)
  | 0, '.' :: _ => none
  | _, r => some ([key], r)

/-! ## Numbers, dates and constants -/

/-- Digits with single underscores between them; gives the digits alone. -/
def digitGroups (isDigit : Char → Bool) : List Char → Option (List Char)
  | [] => none
  | [c] => if isDigit c then some [c] else none
  | c :: '_' :: r => if isDigit c then (digitGroups isDigit r).map (c :: ·) else none
  | c :: r => if isDigit c then (digitGroups isDigit r).map (c :: ·) else none

def decimalDigits (s : List Char) : Option (List Char) := do
  let ds ← digitGroups isDigit s
  if ds.head? = some '0' ∧ ds ≠ ['0'] then none else some ds

def sign : List Char → Bool × List Char
  | '-' :: r => (true, r)
  | '+' :: r => (false, r)
  | s => (false, s)

def digitsIn (base : Nat) (s : List Char) : Option Int := do
  let ds ← digitGroups (fun c => ((hexDigit c).map fun d => decide (d < base)).getD false) s
  some (ds.foldl (fun n d => base * n + (hexDigit d).getD 0) 0 : Nat)

def wholeNumber (s : List Char) : Option Int :=
  match s with
  | '0' :: 'x' :: r => digitsIn 16 r
  | '0' :: 'o' :: r => digitsIn 8 r
  | '0' :: 'b' :: r => digitsIn 2 r
  | _ =>
    let (negative, r) := sign s
    (decimalDigits r).map fun ds => if negative then -(decimalOf ds : Int) else decimalOf ds

/-- Splits at the first of the given characters, which is dropped. -/
def splitAtFirst (p : Char → Bool) (s : List Char) : List Char × Option (List Char) :=
  (s.takeWhile (!p ·), (s.dropWhile (!p ·)).tail?)

/-- A number with a fraction, an exponent or both; too large a value is refused. -/
def realNumber (s : List Char) : Option Double := do
  let (negative, r) := sign s
  if r = ['i', 'n', 'f'] then return .infinite negative
  if r = ['n', 'a', 'n'] then return .nan
  let (mantissa, exponent) := splitAtFirst (fun c => c == 'e' || c == 'E') r
  let (whole, fraction) := splitAtFirst (· == '.') mantissa
  guard (fraction.isSome ∨ exponent.isSome)
  let whole ← decimalDigits whole
  let places ← match fraction with
    | some f => digitGroups isDigit f
    | none => some []
  let power ← match exponent with
    | some e =>
      let (down, ds) := sign e
      (digitGroups isDigit ds).map fun ds => if down then -(decimalOf ds : Int) else decimalOf ds
    | none => some 0
  match Double.ofDecimal negative (decimalOf (whole ++ places)) (power - places.length) with
  | .infinite _ => none
  | x => some x

def isWordChar (c : Char) : Bool :=
  c.isAlphanum || c == '_' || c == '+' || c == '-' || c == '.' || c == ':'

/-- The word ahead; a date and a time may have one blank between them. -/
def word (s : List Char) : List Char × List Char :=
  let cs := s.takeWhile isWordChar
  let r := s.dropWhile isWordChar
  match readDate cs, r with
  | some (_, []), ' ' :: d :: _ =>
    if isDigit d then
      let r := r.tail
      (cs ++ ' ' :: r.takeWhile isWordChar, r.dropWhile isWordChar)
    else (cs, r)
  | _, _ => (cs, r)

def wordValue (cs : List Char) : Option Value :=
  if cs = ['t', 'r', 'u', 'e'] then some (.truth true)
  else if cs = ['f', 'a', 'l', 's', 'e'] then some (.truth false)
  else
    match Moment.read cs, wholeNumber cs, realNumber cs with
    | some m, _, _ => some (.moment m)
    | none, some n, _ => some (.whole n)
    | none, none, some x => some (.real x)
    | none, none, none => none

end Conduit.Toml
