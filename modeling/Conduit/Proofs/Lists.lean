import Mathlib.Algebra.Ring.Nat
import Mathlib.Data.List.Nodup

/-!
# Lists and results

Where keys are distinct an entry is looked up by what it is, not by where it stands, so a lookup
sees neither the order of the entries nor those of other keys. Sums over threads say what changes
when one thread makes a step.
-/

namespace Conduit

/-! ## Entries by key -/

section
variable {α β : Type} [BEq α] [LawfulBEq α] {l l' l₁ l₂ : List (α × β)} {a a' : α} {b : β}

theorem mem_of_lookup (h : List.lookup a l = some b) : (a, b) ∈ l := by
  obtain ⟨l₁, l₂, rfl, -⟩ := List.lookup_eq_some_iff.mp h
  simp

theorem lookup_eq_some_iff_mem (hl : (l.map Prod.fst).Nodup) : List.lookup a l = some b ↔ (a, b) ∈ l := by
  refine ⟨mem_of_lookup, fun h => ?_⟩
  obtain ⟨l₁, l₂, rfl⟩ := List.append_of_mem h
  refine List.lookup_eq_some_iff.mpr ⟨l₁, l₂, rfl, fun e he => bne_iff_ne.mpr fun heq => ?_⟩
  rw [List.map_append] at hl
  exact List.disjoint_of_nodup_append hl (List.mem_map.mpr ⟨e, he, heq.symm⟩) List.mem_cons_self

theorem lookup_perm (hl : (l.map Prod.fst).Nodup) (h : l.Perm l') (a : α) : List.lookup a l' = List.lookup a l := by
  have hl' : (l'.map Prod.fst).Nodup := (h.map Prod.fst).nodup_iff.mp hl
  ext b
  rw [lookup_eq_some_iff_mem hl', lookup_eq_some_iff_mem hl, h.mem_iff]

theorem lookup_cons_ne (h : a ≠ a') (b : β) (l : List (α × β)) : List.lookup a ((a', b) :: l) = List.lookup a l := by
  rw [List.lookup_cons, beq_false_of_ne h]

theorem lookup_insert_ne (h : a ≠ a') (l₁ : List (α × β)) (b : β) (l₂ : List (α × β)) :
    List.lookup a (l₁ ++ (a', b) :: l₂) = List.lookup a (l₁ ++ l₂) := by
  rw [List.lookup_append, List.lookup_append, lookup_cons_ne h]

theorem lookup_insert (hl : ((l₁ ++ (a, b) :: l₂).map Prod.fst).Nodup) :
    List.lookup a (l₁ ++ (a, b) :: l₂) = some b :=
  (lookup_eq_some_iff_mem hl).mpr (List.mem_append_right _ List.mem_cons_self)

theorem lookup_filter (p : α → Bool) (a : α) (l : List (α × β)) :
    List.lookup a (l.filter fun e => p e.1) = if p a then List.lookup a l else none := by
  induction l with
  | nil => simp
  | cons e l ih =>
    obtain ⟨a', b⟩ := e
    rw [List.filter_cons]
    by_cases h : a = a'
    · subst h
      split
      · rw [List.lookup_cons_self, List.lookup_cons_self]
      · next hp => rw [ih, if_neg hp]
    · rw [lookup_cons_ne h]
      split
      · rw [lookup_cons_ne h, ih]
      · exact ih

end

/-! ## Sums -/

theorem sum_map_set {α : Type} (f : α → Nat) {l : List α} {i : Nat} {a : α} (h : l[i]? = some a) (b : α) :
    ((l.set i b).map f).sum + f a = (l.map f).sum + f b := by
  induction l generalizing i with
  | nil => cases h
  | cons x l ih =>
    cases i with
    | zero =>
      obtain rfl : x = a := by simpa using h
      simp only [List.set_cons_zero, List.map_cons, List.sum_cons]
      omega
    | succ i =>
      have := ih (i := i) (by simpa using h)
      simp only [List.set_cons_succ, List.map_cons, List.sum_cons]
      omega

theorem sum_of_le {f : Nat → Nat} {n k : Nat} (h : ∀ i < n, f i ≤ k) :
    ((List.range n).map f).sum ≤ n * k ∧ (((List.range n).map f).sum = n * k ↔ ∀ i < n, f i = k) := by
  induction n with
  | zero => simp
  | succ n ih =>
    obtain ⟨hle, hiff⟩ := ih fun i hi => h i (Nat.lt_succ_of_lt hi)
    have hn := h n (Nat.lt_succ_self n)
    have hsum : ((List.range (n + 1)).map f).sum = ((List.range n).map f).sum + f n := by
      simp [List.range_succ]
    rw [hsum, Nat.succ_mul]
    refine ⟨by omega, fun hs i hi => ?_, fun hall => ?_⟩
    · rcases Nat.lt_succ_iff_lt_or_eq.mp hi with hi | rfl
      · exact hiff.mp (by omega) i hi
      · omega
    · have := hiff.mpr fun i hi => hall i (Nat.lt_succ_of_lt hi)
      have := hall n (Nat.lt_succ_self n)
      omega

/-! ## Results -/

section
variable {ε ε' α β : Type} {x : Except ε α}

theorem bind_eq_ok {f : α → Except ε β} {b : β} : (x >>= f) = .ok b ↔ ∃ a, x = .ok a ∧ f a = .ok b := by
  cases x with
  | error e => simp [bind, Except.bind]
  | ok a => simp [bind, Except.bind]

theorem mapError_eq_ok {f : ε → ε'} {a : α} : x.mapError f = .ok a ↔ x = .ok a := by
  cases x <;> simp [Except.mapError]

end

end Conduit
