import Conduit.Proofs.Linked.Chain
import Mathlib.Data.List.Perm.Subperm

/-!
# Popping what is left

A pop that nothing interferes with takes the node after the head, so a queue
that is destroyed gives up the values along the chain, one after the other.
-/

namespace Conduit.Linked

namespace Heap

variable {α : Type}

def after (h : Heap α) : Nat → Nat → List Nat
  | 0, _ => []
  | fuel + 1, n =>
    match h.next? n with
    | some m => m :: after h fuel m
    | none => []

def values (h : Heap α) : List α := (h.after h.nodes.size h.head).filterMap fun n => h.value? n

end Heap

section
variable {α : Type} {ns : List Nat} {i j k n : Nat} {h : Heap α} {v : α}

/-! ## The nodes after the head -/

theorem Shape.length_le (hs : Shape ns i j h) : ns.length ≤ h.nodes.size := by
  have hsub : ns ⊆ List.range h.nodes.size := fun n hn => List.mem_range.mpr (hs.bound n hn)
  have := (List.subperm_of_subset hs.nodup hsub).length_le
  rwa [List.length_range] at this

theorem Shape.after_eq (hs : Shape ns i j h) (hk : ns[k]? = some n) (fuel : Nat) :
    h.after fuel n = (ns.drop (k + 1)).take fuel := by
  induction fuel generalizing k n with
  | zero => rw [Heap.after, List.take_zero]
  | succ fuel ih =>
    rw [Heap.after, hs.next_at hk]
    cases hc : ns[k + 1]? with
    | none =>
      rw [List.drop_eq_nil_of_le (List.getElem?_eq_none_iff.mp hc)]
      rfl
    | some m =>
      obtain ⟨hlt, rfl⟩ := List.getElem?_eq_some_iff.mp hc
      rw [List.drop_eq_getElem_cons hlt, List.take_succ_cons, ← ih hc]

theorem Shape.values_eq (hs : Shape ns i j h) : h.values = (ns.drop (i + 1)).filterMap fun n => h.value? n := by
  rw [Heap.values, hs.after_eq hs.head, List.take_of_length_le]
  rw [List.length_drop]
  exact Nat.le_trans (Nat.sub_le _ _) hs.length_le

/-! ## A pop on its own -/

theorem Shape.pop?_of_last (hs : Shape ns i j h) (hlast : ns.length = i + 1) : h.pop? = none := by
  have hnext : h.next? h.head = none := by
    rw [hs.next_at hs.head]
    exact List.getElem?_eq_none (Nat.le_of_eq hlast)
  have hrun : h.run h.patience .pop = (h, .nothing) := by
    show h.run (3 * h.nodes.size + 9 + 3) .pop = _
    simp only [Heap.run, Heap.step, hnext]
  rw [Heap.pop?, hrun]

theorem Shape.pop?_of_next (hs : Shape ns i j h) (hij : i < j) (hn : ns[i + 1]? = some n)
    (hv : h.value? n = some v) :
    h.pop? = some (v, { h with head := n }) ∧ Shape ns (i + 1) j { h with head := n } := by
  have hnext : h.next? h.head = some n := by rw [hs.next_at hs.head, hn]
  have hne : h.head ≠ h.tail := by
    intro e
    have := hs.place_inj (e ▸ hs.head) hs.tail
    omega
  have hrun : h.run h.patience .pop = ({ h with head := n }, .value v) := by
    show h.run (3 * h.nodes.size + 8 + 4) .pop = _
    simp only [Heap.run, Heap.step, hnext, if_neg hne, if_pos, hv]
  refine ⟨?_, hs.nodup, hs.bound, hs.next, hn, hs.tail, hij, hs.lag⟩
  rw [Heap.pop?, hrun]

/-! ## All of them -/

theorem Shape.popUpTo_eq {fuel : Nat} (hs : Shape ns i j h) (hlast : ns.length = j + 1)
    (hv : ∀ n ∈ ns.drop (i + 1), ∃ v, h.value? n = some v) (hfuel : ns.length ≤ i + 1 + fuel) (vs : Array α) :
    (h.popUpTo fuel vs).1.toList = vs.toList ++ (ns.drop (i + 1)).filterMap fun n => h.value? n := by
  induction fuel generalizing i h vs with
  | zero =>
    rw [List.drop_eq_nil_of_le hfuel]
    exact (List.append_nil _).symm
  | succ fuel ih =>
    by_cases hlt : i + 1 < ns.length
    · have hc : ns[i + 1]? = some ns[i + 1] := List.getElem?_eq_getElem hlt
      have hdrop : ns.drop (i + 1) = ns[i + 1] :: ns.drop (i + 2) := List.drop_eq_getElem_cons hlt
      rw [hdrop] at hv ⊢
      obtain ⟨v, hval⟩ := hv _ List.mem_cons_self
      obtain ⟨hpop, hs'⟩ := hs.pop?_of_next (by omega) hc hval
      have hvals : (ns[i + 1] :: ns.drop (i + 2)).filterMap (fun n => h.value? n) =
          v :: (ns.drop (i + 2)).filterMap fun n => h.value? n := List.filterMap_cons_some hval
      rw [hvals]
      simp only [Heap.popUpTo, hpop]
      rw [ih hs' (fun n hn => hv n (List.mem_cons_of_mem _ hn)) (by omega) (vs.push v),
        Array.toList_push, List.append_assoc]
      rfl
    · have hi := (List.getElem?_eq_some_iff.mp hs.head).1
      have hpop : h.pop? = none := hs.pop?_of_last (by omega)
      rw [List.drop_eq_nil_of_le (by omega)]
      simp only [Heap.popUpTo, hpop]
      exact (List.append_nil _).symm

/-- With the tail at the end, what is destroyed with the queue is what is left in it. -/
theorem Shape.drop_eq (hs : Shape ns i j h) (hlast : ns.length = j + 1)
    (hv : ∀ n ∈ ns.drop (i + 1), ∃ v, h.value? n = some v) : h.drop.toList = h.values := by
  rw [Heap.drop, hs.popUpTo_eq hlast hv (by have := hs.length_le; omega), hs.values_eq]
  rfl

end

end Conduit.Linked
