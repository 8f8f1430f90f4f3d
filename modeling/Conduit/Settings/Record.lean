/-!
# Records

A record is read from the entries of a table, which are handed to its reader one after another.
The value of a field fills that field's slot, and the value of any other entry is passed over. A
tagged variant is read by taking the tag out of the entries, wherever it stands, and keeping the
others aside until it is known what they are. Both readers are derived from a declaration;
`Derived.Lawful` says what is relied on of them.
-/

namespace Conduit.Settings

abbrev Slots {F : Type} (C : F → Type) : Type := (f : F) → Option (C f)

/-- The fields of a record, and how the value of each is read. -/
structure Record {F : Type} (C : F → Type) (V E : Type) where
  fields : List F
  key : F → String
  read : (f : F) → V → Except E (C f)
  skip : V → Except E Unit
  duplicate : String → E

section
variable {F : Type} {C : F → Type} {V E : Type}

def Slots.blank : Slots C := fun _ => none

def Slots.fill [DecidableEq F] (slots : Slots C) (f : F) (a : C f) : Slots C :=
  fun g => if h : f = g then some (h ▸ a) else slots g

def Record.field? (R : Record C V E) (key : String) : Option F := R.fields.find? fun f => R.key f == key

end

/-- A tag among the entries of a table, and how the others are kept aside. -/
structure Tag (V E K I : Type) where
  name : String
  read : V → Except E K
  keep : V → Except E I
  duplicate : E

structure Derived where
  record : {F : Type} → [DecidableEq F] → {C : F → Type} → {V E : Type} →
    Record C V E → Slots C → List (String × V) → Except E (Slots C)
  tagged : {V E K I : Type} → Tag V E K I → Option K → List (String × I) → List (String × V) →
    Except E (Option K × List (String × I))

/-- Entries are taken one after another. A field is read into its slot, once; an entry that is no
field is passed over. A tag is read where it stands, once; every other entry is kept as it is. -/
structure Derived.Lawful (D : Derived) : Prop where
  record_nil : ∀ {F : Type} [DecidableEq F] {C : F → Type} {V E : Type} (R : Record C V E) (slots : Slots C),
    D.record R slots [] = .ok slots
  record_field : ∀ {F : Type} [DecidableEq F] {C : F → Type} {V E : Type} (R : Record C V E) {slots : Slots C}
    {key : String} {f : F} (v : V) (es : List (String × V)), R.field? key = some f → slots f = none →
      D.record R slots ((key, v) :: es) = R.read f v >>= fun a => D.record R (slots.fill f a) es
  record_again : ∀ {F : Type} [DecidableEq F] {C : F → Type} {V E : Type} (R : Record C V E) {slots : Slots C}
    {key : String} {f : F} (v : V) (es : List (String × V)), R.field? key = some f → (slots f).isSome →
      D.record R slots ((key, v) :: es) = .error (R.duplicate key)
  record_other : ∀ {F : Type} [DecidableEq F] {C : F → Type} {V E : Type} (R : Record C V E) (slots : Slots C)
    {key : String} (v : V) (es : List (String × V)), R.field? key = none →
      D.record R slots ((key, v) :: es) = R.skip v >>= fun _ => D.record R slots es
  tagged_nil : ∀ {V E K I : Type} (T : Tag V E K I) (tag : Option K) (kept : List (String × I)),
    D.tagged T tag kept [] = .ok (tag, kept)
  tagged_tag : ∀ {V E K I : Type} (T : Tag V E K I) (kept : List (String × I)) (v : V) (es : List (String × V)),
    D.tagged T none kept ((T.name, v) :: es) = T.read v >>= fun k => D.tagged T (some k) kept es
  tagged_again : ∀ {V E K I : Type} (T : Tag V E K I) (k : K) (kept : List (String × I)) (v : V)
    (es : List (String × V)), D.tagged T (some k) kept ((T.name, v) :: es) = .error T.duplicate
  tagged_other : ∀ {V E K I : Type} (T : Tag V E K I) (tag : Option K) (kept : List (String × I)) {key : String}
    (v : V) (es : List (String × V)), key ≠ T.name →
      D.tagged T tag kept ((key, v) :: es) = T.keep v >>= fun i => D.tagged T tag (kept ++ [(key, i)]) es

/-! ## The readers -/

def Record.visit {F : Type} [DecidableEq F] {C : F → Type} {V E : Type} (R : Record C V E) :
    Slots C → List (String × V) → Except E (Slots C)
  | slots, [] => .ok slots
  | slots, (key, v) :: es =>
    match R.field? key with
    | none => do
      R.skip v
      R.visit slots es
    | some f =>
      if (slots f).isSome then .error (R.duplicate key)
      else do R.visit (slots.fill f (← R.read f v)) es

def Tag.split {V E K I : Type} (T : Tag V E K I) :
    Option K → List (String × I) → List (String × V) → Except E (Option K × List (String × I))
  | tag, kept, [] => .ok (tag, kept)
  | tag, kept, (key, v) :: es =>
    if key = T.name then
      if tag.isSome then .error T.duplicate else do T.split (some (← T.read v)) kept es
    else do T.split tag (kept ++ [(key, ← T.keep v)]) es

def derived : Derived where
  record := Record.visit
  tagged := Tag.split

theorem lawful_derived : derived.Lawful where
  record_nil _ _ := rfl
  record_field R slots key f v es hf hslot := by
    simp [derived, Record.visit, hf, hslot]
  record_again R slots key f v es hf hslot := by
    simp [derived, Record.visit, hf, hslot]
  record_other R slots key v es hkey := by
    simp [derived, Record.visit, hkey]
  tagged_nil _ _ _ := rfl
  tagged_tag T kept v es := by
    simp [derived, Tag.split]
  tagged_again T k kept v es := by
    simp [derived, Tag.split]
  tagged_other T tag kept key v es hkey := by
    simp [derived, Tag.split, hkey]

/-! ## Entries in order -/

section
variable {V : Type}

/-- Puts an entry into its place among entries in the order of their keys, instead of one with its key. -/
def insertByKey (e : String × V) : List (String × V) → List (String × V)
  | [] => [e]
  | f :: es => if e.1 < f.1 then e :: f :: es else if e.1 = f.1 then e :: es else f :: insertByKey e es

def byKey (es : List (String × V)) : List (String × V) := es.foldr insertByKey []

end

end Conduit.Settings
