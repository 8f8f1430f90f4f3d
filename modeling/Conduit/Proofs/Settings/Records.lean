import Conduit.Proofs.Lists
import Conduit.Settings.Format
import Mathlib.Data.String.Basic

/-!
# Reading records

The readers take one entry after another, so what they do is shown by induction on the entries.
What a record is read from turns out to be the entries of its fields by key: neither their order
nor any other entry is seen, but for values that cannot be passed over or kept aside.
-/

namespace Conduit.Settings

/-! ## Entries in the order of their keys -/

section
variable {V : Type} {es es' : List (String × V)} {e : String × V} {key : String}

theorem lookup_cons_if (e : String × V) (es : List (String × V)) (key : String) :
    List.lookup key (e :: es) = if key = e.1 then some e.2 else List.lookup key es := by
  obtain ⟨k, v⟩ := e
  by_cases h : key = k
  · simp [h]
  · rw [if_neg h, lookup_cons_ne h]

theorem lookup_insertByKey (e : String × V) (es : List (String × V)) (key : String) :
    List.lookup key (insertByKey e es) = if key = e.1 then some e.2 else List.lookup key es := by
  induction es with
  | nil => rw [insertByKey, lookup_cons_if]
  | cons f es ih =>
    unfold insertByKey
    split
    · rw [lookup_cons_if]
    · split
      · next _ heq =>
        rw [lookup_cons_if, lookup_cons_if, heq]
        split <;> rfl
      · next _ hne =>
        rw [lookup_cons_if, lookup_cons_if, ih]
        by_cases hf : key = f.1
        · simp [hf, Ne.symm hne]
        · simp [hf]

@[simp]
theorem lookup_byKey (es : List (String × V)) (key : String) : List.lookup key (byKey es) = List.lookup key es := by
  induction es with
  | nil => rfl
  | cons e es ih =>
    rw [byKey, List.foldr_cons, lookup_insertByKey, lookup_cons_if]
    exact if_congr Iff.rfl rfl ih

abbrev Sorted (es : List (String × V)) : Prop := es.Pairwise fun e f => e.1 < f.1

theorem mem_insertByKey {f : String × V} (h : f ∈ insertByKey e es) : f = e ∨ f ∈ es := by
  induction es with
  | nil => simpa [insertByKey] using h
  | cons g es ih =>
    unfold insertByKey at h
    split at h
    · simpa using h
    · split at h
      · rcases List.mem_cons.mp h with rfl | h <;> simp_all
      · rcases List.mem_cons.mp h with rfl | h
        · simp
        · rcases ih h with rfl | h <;> simp_all

theorem Sorted.insertByKey (h : Sorted es) (e : String × V) : Sorted (insertByKey e es) := by
  induction es with
  | nil => simp [Settings.insertByKey]
  | cons f es ih =>
    obtain ⟨hf, hes⟩ := List.pairwise_cons.mp h
    unfold Settings.insertByKey
    split
    · next hlt =>
      refine List.pairwise_cons.mpr ⟨fun g hg => ?_, h⟩
      rcases List.mem_cons.mp hg with rfl | hg
      · exact hlt
      · exact lt_trans hlt (hf g hg)
    · next hlt =>
      split
      · next heq => exact List.pairwise_cons.mpr ⟨fun g hg => heq ▸ hf g hg, hes⟩
      · next hne =>
        refine List.pairwise_cons.mpr ⟨fun g hg => ?_, ih hes⟩
        rcases mem_insertByKey hg with rfl | hg
        · exact lt_of_le_of_ne (not_lt.mp hlt) (Ne.symm hne)
        · exact hf g hg

theorem sorted_byKey (es : List (String × V)) : Sorted (byKey es) := by
  induction es with
  | nil => exact .nil
  | cons e es ih => exact ih.insertByKey e

theorem Sorted.nodup (h : Sorted es) : (es.map Prod.fst).Nodup :=
  List.pairwise_map.mpr (h.imp fun hlt => ne_of_lt hlt)

theorem nodup_byKey (es : List (String × V)) : ((byKey es).map Prod.fst).Nodup := (sorted_byKey es).nodup

theorem perm_of_lookup (h : (es.map Prod.fst).Nodup) (h' : (es'.map Prod.fst).Nodup)
    (hsame : ∀ key, List.lookup key es = List.lookup key es') : es.Perm es' := by
  rw [List.perm_ext_iff_of_nodup (.of_map _ h) (.of_map _ h')]
  intro e
  rw [← lookup_eq_some_iff_mem (a := e.1) (b := e.2) h, hsame, lookup_eq_some_iff_mem h']

theorem Sorted.ext (h : Sorted es) (h' : Sorted es') (hsame : ∀ key, List.lookup key es = List.lookup key es') :
    es = es' :=
  (perm_of_lookup h.nodup h'.nodup hsame).eq_of_pairwise (fun _ _ _ _ hlt hgt => absurd hgt (lt_asymm hlt)) h h'

theorem Sorted.filter (h : Sorted es) (p : String × V → Bool) : Sorted (es.filter p) :=
  List.Pairwise.filter p h

end

/-! ## Records -/

namespace Record

variable {F : Type} {C : F → Type} {V E : Type} {R : Record C V E} {f g : F} {key : String}

structure WellFormed (R : Record C V E) : Prop where
  complete : ∀ f, f ∈ R.fields
  injective : ∀ f g, R.key f = R.key g → f = g
  sorted : R.fields.Pairwise fun f g => R.key f < R.key g

theorem field?_eq_some (hR : R.WellFormed) : R.field? key = some f ↔ R.key f = key := by
  constructor
  · intro h
    simpa using List.find?_some h
  · rintro rfl
    cases h : R.field? (R.key f) with
    | none => simpa using List.find?_eq_none.mp h f (hR.complete f)
    | some g =>
      have hg : R.key g = R.key f := by simpa using List.find?_some h
      rw [hR.injective g f hg]

/-- What a slot holds after the entries have been read. -/
def slot (R : Record C V E) (slots : Slots C) (es : List (String × V)) (f : F) : Except E (Option (C f)) :=
  (List.lookup (R.key f) es).elim (.ok (slots f)) fun v => (R.read f v).map some

variable {slots slots' : Slots C} {es : List (String × V)} {v : V} {a : C f}

variable [DecidableEq F]

end Record

section
variable {F : Type} {C : F → Type} {V E : Type} {R : Record C V E}

def entriesOf (R : Record C V E) (es : List (String × V)) (fs : List F) : List (String × V) :=
  fs.filterMap fun f => (List.lookup (R.key f) es).map fun v => (R.key f, v)

theorem lookup_entriesOf {key : String} (es : List (String × V)) (fs : List F) :
    List.lookup key (entriesOf R es fs) = if ∃ f ∈ fs, R.key f = key then List.lookup key es else none := by
  induction fs with
  | nil => simp [entriesOf]
  | cons f fs ih =>
    by_cases hf : R.key f = key
    · subst hf
      rw [if_pos ⟨f, List.mem_cons_self, rfl⟩]
      cases h : List.lookup (R.key f) es with
      | none =>
        rw [entriesOf, List.filterMap_cons, h, Option.map_none]
        exact ih.trans (by simp [h])
      | some v => simp [entriesOf, h]
    · have hiff : (∃ g ∈ f :: fs, R.key g = key) ↔ ∃ g ∈ fs, R.key g = key := by simp [hf]
      rw [if_congr hiff rfl rfl, ← ih]
      cases h : List.lookup (R.key f) es with
      | none => simp [entriesOf, h]
      | some v => simp [entriesOf, h, lookup_cons_ne (Ne.symm hf)]

theorem sorted_entriesOf (hR : R.WellFormed) (es : List (String × V)) : Sorted (entriesOf R es R.fields) := by
  refine List.pairwise_filterMap.mpr (hR.sorted.imp fun {f g} hlt e he e' he' => ?_)
  simp only [Option.map_eq_some_iff] at he he'
  obtain ⟨v, -, rfl⟩ := he
  obtain ⟨v', -, rfl⟩ := he'
  exact hlt

end

section
variable {F : Type} [DecidableEq F] {C : F → Type} {V E : Type} {D : Derived} {R : Record C V E}
  {slots slots' : Slots C} {f : F} {fs : List F} {es : List (String × V)}

/-- Entries that can be passed over leave no trace, not even in which fault is found first. -/
theorem record_filter (hD : D.Lawful) (hR : R.WellFormed)
    (hskip : ∀ e ∈ es, R.field? e.1 = none → R.skip e.2 = .ok ()) :
    D.record R slots es = D.record R slots (es.filter fun e => (R.field? e.1).isSome) := by
  induction es generalizing slots with
  | nil => rfl
  | cons e es ih =>
    obtain ⟨key, v⟩ := e
    obtain ⟨hv, hrest⟩ := List.forall_mem_cons.mp hskip
    cases hf : R.field? key with
    | none =>
      rw [hD.record_other R slots v es hf, hv hf, List.filter_cons_of_neg (by simp [hf])]
      exact ih hrest
    | some f =>
      obtain rfl := (Record.field?_eq_some hR).mp hf
      rw [List.filter_cons_of_pos (by simp [hf])]
      cases hslot : slots f with
      | none =>
        rw [hD.record_field R v _ hf hslot, hD.record_field R v _ hf hslot]
        exact congrArg (R.read f v >>= ·) (funext fun a => ih hrest)
      | some a =>
        have hslot : (slots f).isSome := by simp [hslot]
        rw [hD.record_again R v _ hf hslot, hD.record_again R v _ hf hslot]

theorem record_byKey (hD : D.Lawful) (hR : R.WellFormed) (hskip : ∀ v, R.skip v = .ok ()) (es : List (String × V)) :
    D.record R slots (byKey es) = D.record R slots (entriesOf R es R.fields) := by
  rw [record_filter hD hR fun e _ _ => hskip e.2]
  refine congrArg _ (((sorted_byKey es).filter _).ext (sorted_entriesOf hR es) fun key => ?_)
  have hfields : (∃ f ∈ R.fields, R.key f = key) ↔ (R.field? key).isSome := by
    simp [Option.isSome_iff_exists, Record.field?_eq_some hR, hR.complete]
  rw [lookup_filter (fun key => (R.field? key).isSome), lookup_byKey, lookup_entriesOf, if_congr hfields rfl rfl]

def fill? (slots : Slots C) (f : F) : Option (C f) → Slots C
  | none => slots
  | some a => slots.fill f a

theorem record_entriesOf_cons (hD : D.Lawful) (hR : R.WellFormed) (hslot : slots f = none) :
    D.record R slots (entriesOf R es (f :: fs)) =
      R.slot .blank es f >>= fun a => D.record R (fill? slots f a) (entriesOf R es fs) := by
  cases h : List.lookup (R.key f) es with
  | none =>
    simp only [entriesOf, List.filterMap_cons, Record.slot, h]
    rfl
  | some v =>
    simp only [entriesOf, List.filterMap_cons, Record.slot, h, Option.map_some, Option.elim_some]
    rw [hD.record_field R v _ ((Record.field?_eq_some hR).mpr rfl) hslot]
    cases R.read f v <;> rfl

end

end Conduit.Settings
