import Conduit.Proofs.Pipeline.Delivery
import Conduit.Proofs.Pipeline.Handover
import Mathlib.Data.List.Dedup
import Mathlib.Data.List.Perm.Subperm

/-!
# What a clean report proves

Of the values of a race a report knows two numbers only: how many there are, and how many
of them are distinct. If nothing can come but the numbers that are due, these two tell a
complete delivery from every other one, however the values are shared out: equally many
values that are all distinct leave no room for a loss. A relay is judged value by value.
-/

namespace Conduit.Pipeline

/-! ## Counting values -/

section
variable {vs ws : List Int64} {v : Int64}

theorem size_ofList (vs : List Int64) : (Std.HashSet.ofList vs).size = vs.dedup.length := by
  rw [← Std.HashSet.length_toList]
  refine List.Perm.length_eq ((List.perm_ext_iff_of_nodup ?_ (List.nodup_dedup vs)).mpr ?_)
  · exact Std.HashSet.distinct_toList.imp fun hne => by simpa using hne
  · intro v
    rw [Std.HashSet.mem_toList, Std.HashSet.mem_ofList, List.contains_iff_mem, List.mem_dedup]

theorem nodup_of_size (h : vs.length ≤ (Std.HashSet.ofList vs).size) : vs.Nodup := by
  rw [size_ofList] at h
  have hall : vs.dedup = vs := (List.dedup_sublist vs).eq_of_length_le h
  rw [← hall]
  exact List.nodup_dedup vs

theorem perm_iff_count_eq_one (hws : ws.Nodup) (hsub : vs ⊆ ws) : vs.Perm ws ↔ ∀ v ∈ ws, vs.count v = 1 := by
  constructor
  · intro hperm v hv
    rw [hperm.count_eq, List.count_eq_one_of_mem hws hv]
  · intro hone
    refine List.perm_iff_count.mpr fun v => ?_
    by_cases hv : v ∈ ws
    · rw [hone v hv, List.count_eq_one_of_mem hws hv]
    · rw [List.count_eq_zero_of_not_mem hv, List.count_eq_zero_of_not_mem fun hvs => hv (hsub hvs)]

/-- No loss can be made up for by a value that comes twice. -/
theorem perm_of_distinct (hsub : vs ⊆ ws) (hlen : ws.length = vs.length)
    (hsize : vs.length ≤ (Std.HashSet.ofList vs).size) : vs.Perm ws :=
  (List.subperm_of_subset (nodup_of_size hsize) hsub).perm_of_length_le (Nat.le_of_eq hlen)

end

/-! ## Reports -/

theorem Report.check_eq_ok {r : Report} :
    r.check = .ok r ↔ r.expected = r.received ∧ r.duplicates = 0 ∧ r.outOfOrder = 0 := by
  have hclean : r.isClean = true ↔ r.expected = r.received ∧ r.duplicates = 0 ∧ r.outOfOrder = 0 := by
    simp [isClean, and_assoc]
  rw [← hclean, check]
  by_cases h : r.isClean = true
  · simp [h]
  · simp [h]

theorem misplaced_eq_zero {vs : List Int64} : Report.misplaced vs = 0 ↔ vs = numbers vs.length := by
  constructor
  · intro h
    rw [Report.misplaced, List.countP_eq_zero] at h
    refine List.ext_getElem (length_numbers _).symm fun i hi _ => ?_
    have hplace := h (vs[i], i) (List.mem_zipIdx_iff_getElem?.mpr (List.getElem?_eq_getElem hi))
    simpa [numbers] using hplace
  · intro h
    rw [h, misplaced_numbers]

namespace Race

variable {σ : Type} {o : Options} {r : Race σ}

def collected (r : Race σ) : List Int64 := (r.shares.toList.map Array.toList).flatten

theorem check_iff_perm (hf : o.Fits) (hsub : r.collected ⊆ o.numbers) (name : String) :
    (r.report name o).check = .ok (r.report name o) ↔ r.collected.Perm o.numbers := by
  rw [Report.check_eq_ok]
  constructor
  · rintro ⟨hreceived, hdistinct, -⟩
    have hlen : o.numbers.length = r.collected.length := by
      rw [Options.numbers, List.length_map, List.length_range, ← hf.total]
      exact hreceived
    exact perm_of_distinct hsub hlen (Nat.sub_eq_zero_iff_le.mp hdistinct)
  · intro hperm
    rw [report_of_perm hf hperm]
    exact ⟨rfl, rfl, rfl⟩

end Race

namespace Relay

variable {o : Options} {r : Relay}

theorem check_iff_numbers (hsize : r.popped.size = o.count.toNat) (name : String) :
    (r.report name o).check = .ok (r.report name o) ↔ r.popped.toList = numbers o.count.toNat := by
  have hlen : r.popped.toList.length = o.count.toNat := hsize
  rw [Report.check_eq_ok, ← hlen, ← misplaced_eq_zero]
  constructor
  · exact fun h => h.2.2
  · exact fun h => ⟨hlen.symm, rfl, h⟩

end Relay

theorem eq_numbers_iff {vs : List Int64} {n : Nat} (h : n < 2 ^ 63) :
    vs = numbers n ↔ vs.map Int64.toInt = (List.range n).map Int.ofNat := by
  have hnumbers : (numbers n).map Int64.toInt = (List.range n).map Int.ofNat := by
    rw [numbers, List.map_map]
    refine List.map_congr_left fun i hi => ?_
    exact Int64.toInt_ofNat_of_lt (Nat.lt_trans (List.mem_range.mp hi) h)
  have hinj : Function.Injective Int64.toInt := fun _ _ he => Int64.toInt_inj.mp he
  rw [← hnumbers, (List.map_injective_iff.mpr hinj).eq_iff]

/-- The values of a race are judged clean exactly when each that is due was collected once, by
one consumer, and those of a relay exactly when they are the numbers from zero in their order. -/
theorem verdict_iff_delivered :
    (∀ {σ : Type} (o : Options) (r : Race σ) (name : String), o.validate = .ok () →
      (∀ v ∈ r.collected, ∃ n < o.producers.toNat * o.count.toNat, v = Int64.ofNat n) →
      (Std.HashSet.ofList r.collected).size ≤ (r.report name o).received ∧
      ((r.report name o).check = .ok (r.report name o) ↔
        ∀ n < o.producers.toNat * o.count.toNat, r.collected.count (Int64.ofNat n) = 1)) ∧
    ∀ (o : Options) (r : Relay) (name : String), o.count.toNat < 2 ^ 63 → r.popped.size = o.count.toNat →
      ((r.report name o).check = .ok (r.report name o) ↔
        r.popped.toList.map Int64.toInt = (List.range o.count.toNat).map Int.ofNat) := by
  constructor
  · intro σ o r name hv hdue
    obtain ⟨-, hf⟩ := Options.fits_of_validate hv
    have hsub : r.collected ⊆ o.numbers := by
      intro v hv
      obtain ⟨n, hn, rfl⟩ := hdue v hv
      exact List.mem_map_of_mem (List.mem_range.mpr hn)
    refine ⟨Std.HashSet.size_ofList_le, ?_⟩
    rw [Race.check_iff_perm hf hsub, perm_iff_count_eq_one hf.nodup_numbers hsub]
    simp [Options.numbers]
  · intro o r name hcount hsize
    rw [Relay.check_iff_numbers hsize, eq_numbers_iff hcount]

def fourValues : Options := { producers := 2, consumers := 2, count := 2 }

def sharedOut (shares : Array (Array Int64)) : Race Unit :=
  { channel := (), producers := #[], consumers := #[], active := 0, shares, traces := #[] }

def relayed (values : Array Int64) : Relay := { system := { buffer := { size := 65 } }, popped := values }

/-- A value that comes twice makes up for the number of values when another is lost, and is
noticed all the same; so are two that have changed places. -/
theorem verdict_iff_delivered_offset :
    ((sharedOut #[#[3, 0], #[2, 1]]).report "race" fourValues).check =
      .ok ((sharedOut #[#[3, 0], #[2, 1]]).report "race" fourValues) ∧
    ((sharedOut #[#[3, 0], #[3, 1]]).report "race" fourValues).check ≠
      .ok ((sharedOut #[#[3, 0], #[3, 1]]).report "race" fourValues) ∧
    ((relayed #[0, 1]).report "relay" fourValues).check = .ok ((relayed #[0, 1]).report "relay" fourValues) ∧
    ((relayed #[1, 0]).report "relay" fourValues).check ≠ .ok ((relayed #[1, 0]).report "relay" fourValues) := by
  obtain ⟨race, relay⟩ := verdict_iff_delivered
  have hv : fourValues.validate = .ok () := rfl
  have hdue : ∀ shares, (sharedOut shares).collected.all (numbers 4).contains = true →
      ∀ v ∈ (sharedOut shares).collected,
        ∃ n < fourValues.producers.toNat * fourValues.count.toNat, v = Int64.ofNat n := by
    intro shares h v hv
    obtain ⟨n, hn, rfl⟩ := List.mem_map.mp (List.contains_iff_mem.mp (List.all_eq_true.mp h v hv))
    exact ⟨n, List.mem_range.mp hn, rfl⟩
  have hshared := race fourValues (sharedOut #[#[3, 0], #[2, 1]]) "race" hv (hdue _ (by decide))
  have hoffset := race fourValues (sharedOut #[#[3, 0], #[3, 1]]) "race" hv (hdue _ (by decide))
  have hplain := relay fourValues (relayed #[0, 1]) "relay" (by decide) rfl
  have hchanged := relay fourValues (relayed #[1, 0]) "relay" (by decide) rfl
  refine ⟨hshared.2.mpr (by decide), ?_, hplain.mpr (by decide), ?_⟩
  · rw [ne_eq, hoffset.2]
    decide
  · rw [ne_eq, hchanged]
    decide

end Conduit.Pipeline
