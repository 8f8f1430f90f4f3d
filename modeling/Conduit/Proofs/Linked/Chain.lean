import Conduit.Proofs.Linked.Steps
import Mathlib.Data.List.Nodup

/-!
# The chain

All nodes that were ever linked form one chain. The head and the tail are two
places on it, the head not past the tail and the tail at most one short of the
end, and whatever a thread has seen are places that the roots have reached.
-/

namespace Conduit.Linked

/-! ## Places -/

/-- `ns` is the chain, with the head at place `i` and the tail at place `j`. -/
structure Shape {α : Type} (ns : List Nat) (i j : Nat) (h : Heap α) : Prop where
  nodup : ns.Nodup
  bound : ∀ n ∈ ns, n < h.nodes.size
  next : ∀ n m, h.next? n = some m ↔ ∃ k, ns[k]? = some n ∧ ns[k + 1]? = some m
  head : ns[i]? = some h.head
  tail : ns[j]? = some h.tail
  head_le : i ≤ j
  lag : ns.length ≤ j + 2

/-- What a call has seen of the chain. A pop that is about to move the head on
has seen the tail past it. -/
def Sees {α : Type} (ns : List Nat) (i j : Nat) : Stage α → Prop
  | .push _ | .pop | .ask => True
  | .pushLook _ tail | .pushLink _ tail => ∃ k ≤ j, ns[k]? = some tail
  | .pushHelp _ tail next | .popHelp tail next =>
    ∃ k ≤ j, ns[k]? = some tail ∧ ns[k + 1]? = some next
  | .pushSwing node tail => ∃ k ≤ j, ns[k]? = some tail ∧ ns[k + 1]? = some node
  | .popTail head | .askLook head => ∃ k ≤ i, ns[k]? = some head
  | .popLook head tail => ∃ k ≤ i, ns[k]? = some head ∧ ∃ l ≤ j, k ≤ l ∧ ns[l]? = some tail
  | .popClaim head next => ∃ k ≤ i, k < j ∧ ns[k]? = some head ∧ ns[k + 1]? = some next

section
variable {α : Type} {ns : List Nat} {i j k l : Nat} {h : Heap α} {n m : Nat}

theorem sees_of_opens {stage : Stage α} (ho : stage.opens = true) : Sees ns i j stage := by
  cases stage <;> trivial

theorem at_append {d : List Nat} (hk : ns[k]? = some n) : (ns ++ d)[k]? = some n := by
  obtain ⟨hlt, -⟩ := List.getElem?_eq_some_iff.mp hk
  rw [List.getElem?_append_left hlt, hk]

theorem Sees.mono {d : List Nat} {i' j' : Nat} {stage : Stage α} (hv : Sees ns i j stage)
    (hi : i ≤ i') (hj : j ≤ j') : Sees (ns ++ d) i' j' stage := by
  cases stage with
  | push | pop | ask => trivial
  | pushLook | pushLink =>
    obtain ⟨k, hk, ht⟩ := hv
    exact ⟨k, by omega, at_append ht⟩
  | pushHelp | popHelp | pushSwing =>
    obtain ⟨k, hk, ht, hn⟩ := hv
    exact ⟨k, by omega, at_append ht, at_append hn⟩
  | popTail | askLook =>
    obtain ⟨k, hk, hh⟩ := hv
    exact ⟨k, by omega, at_append hh⟩
  | popLook =>
    obtain ⟨k, hk, hh, l, hl, hkl, ht⟩ := hv
    exact ⟨k, by omega, at_append hh, l, by omega, hkl, at_append ht⟩
  | popClaim =>
    obtain ⟨k, hk, hkj, hh, hn⟩ := hv
    exact ⟨k, by omega, by omega, at_append hh, at_append hn⟩

theorem Shape.place_inj (hs : Shape ns i j h) (hk : ns[k]? = some n) (hl : ns[l]? = some n) : k = l := by
  obtain ⟨hlt, hk⟩ := List.getElem?_eq_some_iff.mp hk
  obtain ⟨hlt', hl⟩ := List.getElem?_eq_some_iff.mp hl
  exact (hs.nodup.getElem_inj_iff).mp (hk.trans hl.symm)

theorem Shape.next_at (hs : Shape ns i j h) (hk : ns[k]? = some n) : h.next? n = ns[k + 1]? := by
  cases hn : h.next? n with
  | some m =>
    obtain ⟨l, hl, hm⟩ := (hs.next n m).mp hn
    rw [hs.place_inj hk hl, hm]
  | none =>
    cases hc : ns[k + 1]? with
    | none => rfl
    | some m =>
      have := (hs.next n m).mpr ⟨k, hk, hc⟩
      rw [hn] at this
      cases this

theorem Shape.last_of_next_none (hs : Shape ns i j h) (hk : ns[k]? = some n) (hn : h.next? n = none) :
    ns.length = k + 1 := by
  rw [hs.next_at hk] at hn
  obtain ⟨hlt, -⟩ := List.getElem?_eq_some_iff.mp hk
  have := List.getElem?_eq_none_iff.mp hn
  omega

/-! ## What an access does -/

theorem Shape.alloc (hs : Shape ns i j h) (v : α) :
    Shape ns i j (h.alloc v) where
  nodup := hs.nodup
  bound n hn := by
    have := hs.bound n hn
    rw [Heap.alloc, Array.size_push]
    exact Nat.lt_succ_of_lt this
  next n m := by rw [Heap.next?_alloc]; exact hs.next n m
  head := hs.head
  tail := hs.tail
  head_le := hs.head_le
  lag := hs.lag

theorem Shape.moveTail (hs : Shape ns i j h) (hk : k ≤ j) (hn : ns[k]? = some n) (hm : ns[k + 1]? = some m) :
    ∃ j', j ≤ j' ∧ k + 1 ≤ j' ∧ Shape ns i j' (h.moveTail n m) := by
  by_cases ht : h.tail = n
  · have hj : j = k := hs.place_inj (ht ▸ hs.tail) hn
    subst hj
    refine ⟨j + 1, by omega, by omega, hs.nodup, ?_, ?_, ?_, ?_, ?_, ?_⟩
    · simpa using hs.bound
    · simpa [Heap.next?] using hs.next
    · simpa using hs.head
    · rw [Heap.tail_moveTail, if_pos ht, hm]
    · have := hs.head_le; omega
    · have := hs.lag; omega
  · have hne : k ≠ j := by
      intro e
      subst e
      exact ht (Option.some.inj (hs.tail.symm.trans hn))
    refine ⟨j, by omega, by omega, ?_⟩
    rw [show h.moveTail n m = h from if_neg ht]
    exact hs

/-- A node can only be linked behind the last one, and then the tail is there too. -/
theorem Shape.link (hs : Shape ns i j h) {tail node : Nat} (hk : k ≤ j) (ht : ns[k]? = some tail)
    (hn : h.next? tail = none) (hnode : node ∉ ns) (hlt : node < h.nodes.size) :
    ns.length = j + 1 ∧ h.tail = tail ∧
    Shape (ns ++ [node]) i j (h.link tail node) := by
  have hlen := hs.last_of_next_none ht hn
  have hj : j = k := by
    obtain ⟨hlt', -⟩ := List.getElem?_eq_some_iff.mp hs.tail
    omega
  subst hj
  refine ⟨hlen, Option.some.inj (hs.tail.symm.trans ht), ?_, ?_, ?_, at_append hs.head,
    at_append hs.tail, hs.head_le, ?_⟩
  · refine List.nodup_append.mpr ⟨hs.nodup, List.nodup_singleton node, ?_⟩
    intro a ha b hb e
    rw [List.mem_singleton.mp hb] at e
    exact hnode (e ▸ ha)
  · intro n hn
    rw [Heap.size_link]
    rcases List.mem_append.mp hn with hn | hn
    · exact hs.bound n hn
    · rw [List.mem_singleton.mp hn]
      exact hlt
  · intro n m
    have htl : tail < h.nodes.size := hs.bound tail (List.mem_of_getElem? ht)
    rw [Heap.next?_link htl]
    by_cases hnt : n = tail
    · subst hnt
      rw [if_pos rfl]
      constructor
      · intro e
        refine ⟨j, at_append ht, ?_⟩
        rw [← hlen, List.getElem?_concat_length, Option.some.inj e]
      · rintro ⟨l, hl, hm⟩
        obtain rfl : l = j := by
          refine hs.place_inj ?_ ht
          rwa [List.getElem?_append_left] at hl
          obtain ⟨hlt, -⟩ := List.getElem?_eq_some_iff.mp hm
          simp only [List.length_append, List.length_singleton] at hlt
          omega
        rwa [← hlen, List.getElem?_concat_length] at hm
    · rw [if_neg hnt, hs.next n m]
      constructor
      · rintro ⟨l, hl, hm⟩
        exact ⟨l, at_append hl, at_append hm⟩
      · rintro ⟨l, hl, hm⟩
        have hlt : l + 1 < ns.length + 1 := by
          obtain ⟨hlt, -⟩ := List.getElem?_eq_some_iff.mp hm
          simpa using hlt
        rw [List.getElem?_append_left (by omega)] at hl
        have hlj : l ≠ j := by
          intro e
          subst e
          exact hnt (Option.some.inj (hl.symm.trans ht))
        rw [List.getElem?_append_left (by omega)] at hm
        exact ⟨l, hl, hm⟩
  · simp only [List.length_append, List.length_singleton]
    omega

/-- After the access `e` the chain has grown by what it linked, the head has moved
by what it claimed, the tail has not moved back, and what the call has seen then
are places again. -/
def Follows (ns : List Nat) (i j : Nat) (h' : Heap α) (e : Event α) : Prop :=
  ∃ j', j ≤ j' ∧ Shape (ns ++ e.linked) (i + e.claimed) j' h' ∧
    ∀ stage, e.outcome = .goOn stage → Sees (ns ++ e.linked) (i + e.claimed) j' stage

theorem Shape.follows {h' : Heap α} {e : Event α} {j' : Nat} (hs : Shape ns i j' h') (hj : j ≤ j')
    (hl : e.linked = []) (hc : e.claimed = 0) (hv : ∀ stage, e.outcome = .goOn stage → Sees ns i j' stage) :
    Follows ns i j h' e := by
  refine ⟨j', hj, ?_⟩
  rw [hl, hc, List.append_nil]
  exact ⟨hs, hv⟩

theorem Shape.goesOn {e : Event α} {stage : Stage α} (hs : Shape ns i j h) (ho : e.outcome = .goOn stage)
    (hl : e.linked = []) (hc : e.claimed = 0) (hv : Sees ns i j stage) : Follows ns i j h e := by
  refine hs.follows (Nat.le_refl _) hl hc ?_
  intro stage' ho'
  obtain rfl := Outcome.goOn.inj (ho.symm.trans ho')
  exact hv

theorem Shape.ends {e : Event α} {a : Answer α} (hs : Shape ns i j h) (ho : e.outcome = .done a)
    (hl : e.linked = []) (hc : e.claimed = 0) : Follows ns i j h e := by
  refine hs.follows (Nat.le_refl _) hl hc ?_
  intro stage ho'
  cases ho.symm.trans ho'

theorem Shape.follows_moveTail {e : Event α} (hs : Shape ns i j h) (hk : k ≤ j) (hn : ns[k]? = some n)
    (hm : ns[k + 1]? = some m) (hl : e.linked = []) (hc : e.claimed = 0)
    (hv : ∀ j', k + 1 ≤ j' → ∀ stage, e.outcome = .goOn stage → Sees ns i j' stage) :
    Follows ns i j (h.moveTail n m) e := by
  obtain ⟨j', hj, hkj, hs'⟩ := hs.moveTail hk hn hm
  exact hs'.follows hj hl hc (hv j' hkj)

section
variable {h' : Heap α} {t : Nat} {outcome : Outcome α}

theorem Shape.step_pushLink {node tail : Nat} (he : h.step (.pushLink node tail) = (h', outcome))
    (hs : Shape ns i j h) (hv : Sees ns i j (.pushLink node tail : Stage α)) (hfresh : node ∉ ns)
    (hlt : node < h.nodes.size) : Follows ns i j h' ⟨t, .pushLink node tail, outcome⟩ := by
  obtain ⟨k, hk, ht⟩ := hv
  cases hn : h.next? tail with
  | some next =>
    rw [Heap.step_pushLink_of_some node hn] at he
    cases he
    exact hs.goesOn rfl rfl rfl ⟨k, hk, ht, by rw [← hs.next_at ht, hn]⟩
  | none =>
    rw [Heap.step_pushLink_of_none node hn] at he
    cases he
    obtain ⟨hlen, htail, hs'⟩ := hs.link hk ht hn hfresh hlt
    refine ⟨j, Nat.le_refl _, hs', ?_⟩
    intro _ ho
    cases ho
    refine ⟨j, Nat.le_refl _, at_append (htail ▸ hs.tail), ?_⟩
    rw [← hlen]
    exact List.getElem?_concat_length

theorem Shape.step_popLook {head tail : Nat} (he : h.step (.popLook head tail) = (h', outcome))
    (hs : Shape ns i j h) (hv : Sees ns i j (.popLook head tail : Stage α)) :
    Follows ns i j h' ⟨t, .popLook head tail, outcome⟩ := by
  obtain ⟨k, hk, hh, l, hl, hkl, ht⟩ := hv
  cases hn : h.next? head with
  | none =>
    simp only [Heap.step, hn] at he
    cases he
    exact hs.ends rfl rfl rfl
  | some next =>
    have hnext : ns[k + 1]? = some next := by rw [← hs.next_at hh, hn]
    simp only [Heap.step, hn] at he
    by_cases e : head = tail
    · rw [if_pos e] at he
      cases he
      exact hs.goesOn rfl rfl rfl ⟨k, by omega, e ▸ hh, hnext⟩
    · rw [if_neg e] at he
      cases he
      -- the tail was read after the head, so another place is a later one
      have hne : k ≠ l := by
        intro hkl'
        subst hkl'
        exact e (Option.some.inj (hh.symm.trans ht))
      exact hs.goesOn rfl rfl rfl ⟨k, hk, by omega, hh, hnext⟩

theorem Shape.step_popClaim {head next : Nat} (he : h.step (.popClaim head next) = (h', outcome))
    (hs : Shape ns i j h) (hv : Sees ns i j (.popClaim head next : Stage α)) :
    Follows ns i j h' ⟨t, .popClaim head next, outcome⟩ := by
  obtain ⟨k, hk, hkj, hh, hn⟩ := hv
  by_cases e : h.head = head
  · simp only [Heap.step, if_pos e] at he
    cases he
    have hik : i = k := hs.place_inj (e ▸ hs.head) hh
    subst hik
    refine ⟨j, Nat.le_refl _, ?_, ?_⟩
    · show Shape (ns ++ []) (i + 1) j _
      rw [List.append_nil]
      exact ⟨hs.nodup, hs.bound, hs.next, hn, hs.tail, hkj, hs.lag⟩
    · intro _ ho
      cases ho
  · simp only [Heap.step, if_neg e] at he
    cases he
    exact hs.goesOn rfl rfl rfl trivial

end

theorem Shape.step {h' : Heap α} {e : Event α} (he : h.step e.stage = (h', e.outcome))
    (hs : Shape ns i j h) (hv : Sees ns i j e.stage)
    (hp : ∀ n, e.stage.owned? = some n → n ∉ ns ∧ n < h.nodes.size) : Follows ns i j h' e := by
  obtain ⟨t, stage, outcome⟩ := e
  simp only at he hv hp
  cases stage with
  | push v =>
    cases he
    exact (hs.alloc v).goesOn rfl rfl rfl ⟨j, Nat.le_refl _, hs.tail⟩
  | pushLook node tail =>
    obtain ⟨k, hk, ht⟩ := hv
    cases hn : h.next? tail with
    | some next =>
      simp only [Heap.step, hn] at he
      cases he
      exact hs.goesOn rfl rfl rfl ⟨k, hk, ht, by rw [← hs.next_at ht, hn]⟩
    | none =>
      simp only [Heap.step, hn] at he
      cases he
      exact hs.goesOn rfl rfl rfl ⟨k, hk, ht⟩
  | pushHelp node tail next =>
    obtain ⟨k, hk, ht, hn⟩ := hv
    cases he
    refine hs.follows_moveTail hk ht hn rfl rfl ?_
    intro j' hj _ ho
    cases ho
    exact ⟨k + 1, hj, hn⟩
  | pushLink node tail =>
    obtain ⟨hfresh, hlt⟩ := hp node rfl
    exact hs.step_pushLink he hv hfresh hlt
  | pushSwing node tail =>
    obtain ⟨k, hk, ht, hn⟩ := hv
    cases he
    refine hs.follows_moveTail hk ht hn rfl rfl ?_
    intro _ _ _ ho
    cases ho
  | pop =>
    cases he
    exact hs.goesOn rfl rfl rfl ⟨i, Nat.le_refl _, hs.head⟩
  | popTail head =>
    obtain ⟨k, hk, hh⟩ := hv
    cases he
    exact hs.goesOn rfl rfl rfl ⟨k, hk, hh, j, Nat.le_refl _, Nat.le_trans hk hs.head_le, hs.tail⟩
  | popLook head tail => exact hs.step_popLook he hv
  | popHelp tail next =>
    obtain ⟨k, hk, ht, hn⟩ := hv
    cases he
    refine hs.follows_moveTail hk ht hn rfl rfl ?_
    intro j' _ _ ho
    cases ho
    trivial
  | popClaim head next => exact hs.step_popClaim he hv
  | ask =>
    cases he
    exact hs.goesOn rfl rfl rfl ⟨i, Nat.le_refl _, hs.head⟩
  | askLook head =>
    cases he
    exact hs.ends rfl rfl rfl

end

end Conduit.Linked
