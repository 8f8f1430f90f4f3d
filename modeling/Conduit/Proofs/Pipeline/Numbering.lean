import Conduit.Proofs.Pipeline.Race
import Mathlib

/-!
# Values and their numbers

A value's number is made, in words, of its producer and of its place with that producer,
and then read as a number with a sign. Options are refused for their range when all values
together are more than there are numbers from zero up; the capacity is looked at before. With
options that are allowed nothing is cut off on the way, and every number below the total
belongs to one value (`numbers_are_safe`).
-/

namespace Conduit.Pipeline

variable {o : Options} {a b m p i w : UInt64}

/-! ## What is refused -/

theorem checkedMul_eq_some : checkedMul a b = some m ↔ m.toNat = a.toNat * b.toNat := by
  unfold checkedMul
  by_cases h : a.toNat * b.toNat < UInt64.size
  · rw [if_pos h, Option.some.injEq, ← UInt64.toNat_inj, UInt64.toNat_mul, Nat.mod_eq_of_lt h]
    exact eq_comm
  · have hm : m.toNat < UInt64.size := m.toNat_lt
    rw [if_neg h]
    constructor
    · nofun
    · omega

theorem isSome_toSigned? : (toSigned? a).isSome = true ↔ a.toNat < 2 ^ 63 := by
  have hmax : Int64.maxValue.toUInt64.toNat = 2 ^ 63 - 1 := by decide
  unfold toSigned?
  by_cases h : a ≤ Int64.maxValue.toUInt64
  · have hle := UInt64.le_iff_toNat_le.mp h
    simp only [h, if_true, Option.isSome_some, true_iff]
    omega
  · have hlt := UInt64.lt_iff_toNat_lt.mp (UInt64.not_le.mp h)
    simp only [h, if_false, Option.isSome_none, Bool.false_eq_true, false_iff]
    omega

namespace Options

/-- The product is taken in words first; one that is no word is no number with a sign either. -/
theorem isSome_total? : o.total?.isSome = true ↔ o.Fits := by
  unfold total? Fits
  cases hm : checkedMul o.producers o.count with
  | some m => rw [Option.bind_some, isSome_toSigned?, checkedMul_eq_some.mp hm]
  | none =>
    have hbig : ¬ o.producers.toNat * o.count.toNat < UInt64.size := by
      intro h
      simp [checkedMul, h] at hm
    have hsize : UInt64.size = 2 ^ 64 := rfl
    simp only [Option.bind_none, Option.isSome_none, Bool.false_eq_true, false_iff]
    omega

/-- The queue can hold a value, and a ring for it can have one slot more. -/
def Roomy (o : Options) : Prop := 1 ≤ o.capacity.toNat ∧ o.capacity.toNat + 1 < UInt64.size

theorem validate_of_not_roomy (h : ¬ o.Roomy) :
    o.validate = .error .noCapacity ∨ o.validate = .error (.tooLarge o.capacity) := by
  unfold validate
  by_cases hz : o.capacity < 1
  · exact .inl (if_pos hz)
  · right
    have hone := UInt64.le_iff_toNat_le.mp (UInt64.not_lt.mp hz)
    have hlast : o.capacity = UInt64.ofNatLT (UInt64.size - 1) (by decide) := by
      apply UInt64.toNat_inj.mp
      have hlt : o.capacity.toNat < UInt64.size := o.capacity.toNat_lt
      have hnot : ¬ o.capacity.toNat + 1 < UInt64.size := fun hc => h ⟨hone, hc⟩
      rw [UInt64.toNat_ofNatLT]
      omega
    rw [if_neg hz, if_pos hlast]

theorem validate_of_roomy (h : o.Roomy) :
    o.validate = if o.total?.isNone then .error (.tooMany o.producers o.count) else .ok () := by
  unfold validate
  have hz : ¬ o.capacity < 1 := UInt64.not_lt.mpr (UInt64.le_iff_toNat_le.mpr h.1)
  have hlast : o.capacity ≠ UInt64.ofNatLT (UInt64.size - 1) (by decide) := by
    intro he
    have hsize := h.2
    rw [he, UInt64.toNat_ofNatLT] at hsize
    omega
  rw [if_neg hz, if_neg hlast]

theorem validate_eq_ok : o.validate = .ok () ↔ o.Roomy ∧ o.Fits := by
  by_cases h : o.Roomy
  · rw [validate_of_roomy h, ← isSome_total?]
    cases o.total? <;> simp [h]
  · rcases validate_of_not_roomy h with he | he <;> simp [he, h]

theorem validate_eq_tooMany :
    o.validate = .error (.tooMany a b) ↔ o.Roomy ∧ ¬ o.Fits ∧ a = o.producers ∧ b = o.count := by
  by_cases h : o.Roomy
  · rw [validate_of_roomy h, ← isSome_total?]
    cases o.total? <;> simp [h, eq_comm]
  · rcases validate_of_not_roomy h with he | he <;> simp [he, h]

theorem fits_of_validate (h : o.validate = .ok ()) : 1 ≤ o.capacity.toNat ∧ o.Fits :=
  ⟨(validate_eq_ok.mp h).1.1, (validate_eq_ok.mp h).2⟩

/-! ## Words -/

theorem Fits.total (h : o.Fits) : (o.producers * o.count).toNat = o.producers.toNat * o.count.toNat := by
  rw [UInt64.toNat_mul]
  exact Nat.mod_eq_of_lt (Nat.lt_trans h (by decide))

theorem number_lt_words (hp : p < o.producers) (hi : i < o.count) :
    p.toNat * o.count.toNat + i.toNat < o.producers.toNat * o.count.toNat :=
  number_lt_total (UInt64.lt_iff_toNat_lt.mp hp) (UInt64.lt_iff_toNat_lt.mp hi)

theorem Fits.toNat_number (h : o.Fits) (hp : p < o.producers) (hi : i < o.count) :
    (p * o.count + i).toNat = p.toNat * o.count.toNat + i.toNat := by
  have hlt : p.toNat * o.count.toNat + i.toNat < 2 ^ 63 := Nat.lt_trans (number_lt_words hp hi) h
  rw [UInt64.toNat_add, UInt64.toNat_mul, Nat.mod_add_mod]
  exact Nat.mod_eq_of_lt (by omega)

theorem Fits.toInt_valueOf (h : o.Fits) (hp : p < o.producers) (hi : i < o.count) :
    (valueOf o p i).toInt = (p * o.count + i).toNat := by
  have hlt := Nat.lt_trans (number_lt_words hp hi) h
  have hnumber : valueOf o p i = o.number p.toNat i.toNat := by rw [← valueOf_ofNat, UInt64.ofNat_toNat]
  rw [hnumber, number, Int64.toInt_ofNat_of_lt hlt, h.toNat_number hp hi]

/-! ## One number for each value -/

def places (o : Options) : Set (UInt64 × UInt64) := {x | x.1 < o.producers ∧ x.2 < o.count}

/-- A number is split again by the count: the producer is the quotient and the place the rest. -/
theorem divMod_number {n c i : Nat} (hi : i < c) : (n * c + i) / c = n ∧ (n * c + i) % c = i := by
  constructor
  · rw [Nat.mul_comm, Nat.mul_add_div (by omega), Nat.div_eq_of_lt hi, Nat.add_zero]
  · rw [Nat.mul_comm, Nat.mul_add_mod, Nat.mod_eq_of_lt hi]

theorem Fits.mapsTo_number (h : o.Fits) :
    Set.MapsTo (fun x => x.1 * o.count + x.2) o.places {w | w < o.producers * o.count} := by
  rintro ⟨p, i⟩ ⟨hp, hi⟩
  apply UInt64.lt_iff_toNat_lt.mpr
  rw [h.toNat_number hp hi, h.total]
  exact number_lt_words hp hi

theorem Fits.injOn_number (h : o.Fits) : Set.InjOn (fun x => x.1 * o.count + x.2) o.places := by
  rintro ⟨p, i⟩ ⟨hp, hi⟩ ⟨p', i'⟩ ⟨hp', hi'⟩ he
  have heq := congrArg UInt64.toNat he
  simp only [h.toNat_number hp hi, h.toNat_number hp' hi'] at heq
  obtain ⟨hdiv, hmod⟩ := divMod_number (n := p.toNat) (UInt64.lt_iff_toNat_lt.mp hi)
  obtain ⟨hdiv', hmod'⟩ := divMod_number (n := p'.toNat) (UInt64.lt_iff_toNat_lt.mp hi')
  rw [heq] at hdiv hmod
  exact Prod.ext (UInt64.toNat_inj.mp (hdiv.symm.trans hdiv')) (UInt64.toNat_inj.mp (hmod.symm.trans hmod'))

theorem Fits.surjOn_number (h : o.Fits) :
    Set.SurjOn (fun x => x.1 * o.count + x.2) o.places {w | w < o.producers * o.count} := by
  intro w hw
  have hlt := UInt64.lt_iff_toNat_lt.mp hw
  rw [h.total] at hlt
  -- there is a number below the total, so the count is not zero
  have hpos : 0 < o.count.toNat := by
    by_contra hz
    simp [Nat.eq_zero_of_not_pos hz] at hlt
  have hp : w / o.count < o.producers := by
    apply UInt64.lt_iff_toNat_lt.mpr
    rw [UInt64.toNat_div]
    exact Nat.div_lt_of_lt_mul (by rwa [Nat.mul_comm])
  have hi : w % o.count < o.count := UInt64.mod_lt _ (UInt64.lt_iff_toNat_lt.mpr hpos)
  refine ⟨(w / o.count, w % o.count), ⟨hp, hi⟩, ?_⟩
  apply UInt64.toNat_inj.mp
  rw [h.toNat_number hp hi, UInt64.toNat_div, UInt64.toNat_mod]
  exact Nat.div_add_mod' _ _

theorem Fits.bijOn_number (h : o.Fits) :
    Set.BijOn (fun x => x.1 * o.count + x.2) o.places {w | w < o.producers * o.count} :=
  ⟨h.mapsTo_number, h.injOn_number, h.surjOn_number⟩

theorem bijOn_toNat (w : UInt64) :
    Set.BijOn (fun v : UInt64 => (v.toNat : Int)) {v | v < w} (Set.Ico 0 (w.toNat : Int)) := by
  refine ⟨?_, ?_, ?_⟩
  · intro v hv
    exact ⟨Int.natCast_nonneg _, Int.ofNat_lt.mpr (UInt64.lt_iff_toNat_lt.mp hv)⟩
  · intro v _ v' _ he
    exact UInt64.toNat_inj.mp (Int.ofNat.inj he)
  · rintro z ⟨hz, hlt⟩
    obtain ⟨n, rfl⟩ := Int.eq_ofNat_of_zero_le hz
    have hn : n < w.toNat := Int.ofNat_lt.mp hlt
    have hword : (UInt64.ofNat n).toNat = n := UInt64.toNat_ofNat_of_lt' (Nat.lt_trans hn w.toNat_lt)
    refine ⟨.ofNat n, ?_, congrArg Int.ofNat hword⟩
    apply UInt64.lt_iff_toNat_lt.mpr
    rwa [hword]

theorem Fits.bijOn_value (h : o.Fits) : Set.BijOn (fun x => (valueOf o x.1 x.2).toInt) o.places
    (Set.Ico 0 (o.producers.toNat * o.count.toNat : Nat)) := by
  have hsigned : Set.EqOn (fun x => (valueOf o x.1 x.2).toInt) (fun x => ((x.1 * o.count + x.2).toNat : Int))
      o.places := fun _ hx => h.toInt_valueOf hx.1 hx.2
  rw [← h.total]
  exact hsigned.bijOn_iff.mpr ((bijOn_toNat _).comp h.bijOn_number)

structure Numbered (o : Options) : Prop where
  word : ∀ p i, p < o.producers → i < o.count → (p * o.count + i).toNat = p.toNat * o.count.toNat + i.toNat
  signed : ∀ p i, p < o.producers → i < o.count → (valueOf o p i).toInt = (p * o.count + i).toNat
  apart : ∀ p i, p < o.producers → i < o.count → 0 ≤ valueOf o p i ∧ valueOf o p i ≠ token
  words : Set.BijOn (fun x => x.1 * o.count + x.2) o.places {w | w < o.producers * o.count}
  values : Set.BijOn (fun x => (valueOf o x.1 x.2).toInt) o.places
    (Set.Ico 0 (o.producers.toNat * o.count.toNat : Nat))
  total : (o.producers * o.count).toNat = o.producers.toNat * o.count.toNat

theorem Fits.numbered (h : o.Fits) : o.Numbered := by
  refine ⟨fun _ _ => h.toNat_number, fun _ _ => h.toInt_valueOf, ?_, h.bijOn_number, h.bijOn_value, h.total⟩
  intro p i hp hi
  have hint := h.toInt_valueOf hp hi
  constructor
  · apply Int64.le_iff_toInt_le.mpr
    rw [hint]
    exact Int.natCast_nonneg _
  · intro he
    have hneg : token.toInt < 0 := by decide
    rw [he] at hint
    omega

end Options

/-- With options that are allowed every value has a number of its own, and a report knows how
many there are. They are refused for their range just when the product, of any size, is no
number with a sign and the capacity is in order. -/
theorem numbers_are_safe (o : Options) :
    (o.validate = .ok () → o.Numbered ∧
      ∀ {σ : Type} (r : Race σ) (name : String),
        (r.report name o).expected = o.producers.toNat * o.count.toNat) ∧
    (∀ a b, o.validate = .error (.tooMany a b) ↔
      o.Roomy ∧ 2 ^ 63 ≤ o.producers.toNat * o.count.toNat ∧ a = o.producers ∧ b = o.count) ∧
    (2 ^ 63 ≤ o.producers.toNat * o.count.toNat → o.validate ≠ .ok ()) := by
  have hrange : ¬ o.Fits ↔ 2 ^ 63 ≤ o.producers.toNat * o.count.toNat := Nat.not_lt
  refine ⟨?_, ?_, ?_⟩
  · intro hv
    obtain ⟨-, hf⟩ := Options.fits_of_validate hv
    exact ⟨hf.numbered, fun _ _ => hf.total⟩
  · intro a b
    rw [← hrange]
    exact Options.validate_eq_tooMany
  · intro hbig hv
    exact hrange.mpr hbig (Options.fits_of_validate hv).2

/-- All numbers from zero up are given out, with the largest capacity there is. -/
def brimful : Options := { producers := 7, count := 1317624576693539401, capacity := 18446744073709551614 }

/-- The product is no word, and cut off it would be zero. -/
def overflowing : Options := { producers := 2, count := 9223372036854775808 }

theorem numbers_are_safe_brimful : brimful.validate = .ok () ∧ brimful.Numbered ∧
    (valueOf brimful 6 1317624576693539400).toInt = 9223372036854775806 ∧
    overflowing.producers * overflowing.count = 0 ∧
    overflowing.validate = .error (.tooMany 2 9223372036854775808) := by
  have hv : brimful.validate = .ok () := by decide
  obtain ⟨hn, -⟩ := (numbers_are_safe brimful).1 hv
  have hsigned := hn.signed 6 1317624576693539400 (by decide) (by decide)
  have hrefused := ((numbers_are_safe overflowing).2.1 2 9223372036854775808).mpr
    ⟨⟨by decide, by decide⟩, by decide, rfl, rfl⟩
  exact ⟨hv, hn, hsigned.trans (by decide), by decide, hrefused⟩

def roomless : Options := { overflowing with capacity := 0 }

/-- The capacity is looked at first. -/
theorem refused_for_capacity_first : 2 ^ 63 ≤ roomless.producers.toNat * roomless.count.toNat ∧
    roomless.validate = .error .noCapacity ∧ ¬ ∃ a b, roomless.validate = .error (.tooMany a b) := by
  have hv : roomless.validate = .error .noCapacity := by decide
  refine ⟨by decide, hv, ?_⟩
  rintro ⟨a, b, he⟩
  rw [hv] at he
  cases he

end Conduit.Pipeline
