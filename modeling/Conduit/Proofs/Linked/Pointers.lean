import Conduit.Proofs.Linked.Tame
import Mathlib.Logic.Relation

/-!
# Where the pointers lead

The nodes that the head reaches are the rest of the chain. The nodes before it
were passed once each, and neither root leads back to them.
-/

namespace Conduit.Linked

def Heap.Reaches {α : Type} (h : Heap α) : Nat → Nat → Prop :=
  Relation.ReflTransGen fun n m => h.next? n = some m

section
variable {α : Type} {ns : List Nat} {i j k : Nat} {h : Heap α} {n m : Nat}

/-! ## Reaching and places -/

theorem Shape.reaches_iff (hs : Shape ns i j h) (hk : ns[k]? = some n) :
    h.Reaches n m ↔ ∃ l, k ≤ l ∧ ns[l]? = some m := by
  constructor
  · intro hr
    induction hr with
    | refl => exact ⟨k, Nat.le_refl k, hk⟩
    | tail _ hnext ih =>
      obtain ⟨l, hl, hb⟩ := ih
      rw [hs.next_at hb] at hnext
      exact ⟨l + 1, by omega, hnext⟩
  · rintro ⟨l, hl, hm⟩
    induction hl generalizing m with
    | refl =>
      rw [hk] at hm
      cases hm
      exact Relation.ReflTransGen.refl
    | @step l hl ih =>
      obtain ⟨hlt, -⟩ := List.getElem?_eq_some_iff.mp hm
      have hl' : ns[l]? = some ns[l] := List.getElem?_eq_getElem (Nat.lt_of_succ_lt hlt)
      exact (ih hl').tail ((hs.next _ _).mpr ⟨l, hl', hm⟩)

theorem Shape.reaches_of_le {l : Nat} (hs : Shape ns i j h) (hk : ns[k]? = some n) (hl : ns[l]? = some m)
    (hle : k ≤ l) : h.Reaches n m := (hs.reaches_iff hk).mpr ⟨l, hle, hl⟩

theorem Shape.reaches_iff_mem_drop (hs : Shape ns i j h) (hk : ns[k]? = some n) :
    h.Reaches n m ↔ m ∈ ns.drop k := by
  rw [hs.reaches_iff hk, List.mem_iff_getElem?]
  constructor
  · rintro ⟨l, hl, hm⟩
    refine ⟨l - k, ?_⟩
    rw [List.getElem?_drop, Nat.add_sub_cancel' hl]
    exact hm
  · rintro ⟨l, hm⟩
    rw [List.getElem?_drop] at hm
    exact ⟨k + l, by omega, hm⟩

theorem Shape.chain_from (hs : Shape ns i j h) (hk : ns[k]? = some n) :
    (ns.drop k).Nodup ∧ (ns.drop k).head? = some n ∧
    (ns.drop k).IsChain (fun n m => h.next? n = some m) ∧
    (∃ last, (ns.drop k).getLast? = some last ∧ h.next? last = none) ∧
    ∀ m, h.Reaches n m ↔ m ∈ ns.drop k := by
  obtain ⟨hlt, -⟩ := List.getElem?_eq_some_iff.mp hk
  refine ⟨hs.nodup.sublist (List.drop_sublist k ns), ?_, ?_, ?_, ?_⟩
  · rw [List.head?_drop, hk]
  · rw [List.isChain_iff_getElem]
    intro l hl
    rw [List.length_drop] at hl
    rw [List.getElem_drop, List.getElem_drop]
    refine (hs.next _ _).mpr ⟨k + l, List.getElem?_eq_getElem _, ?_⟩
    exact List.getElem?_eq_getElem _
  · have hlast : ns[ns.length - 1]? = some ns[ns.length - 1] := List.getElem?_eq_getElem (by omega)
    refine ⟨ns[ns.length - 1], ?_, ?_⟩
    · rw [List.getLast?_drop, if_neg (by omega), List.getLast?_eq_getElem?, hlast]
    · rw [hs.next_at hlast, Nat.sub_add_cancel (by omega)]
      exact List.getElem?_eq_none (Nat.le_refl _)
  · intro m
    exact hs.reaches_iff_mem_drop hk

end

/-! ## The log and the chain -/

section
variable {α : Type} {past more : List (Event α)} {s s' : System α} {j t n m threads : Nat} {e : Event α}

/-- The nodes that the head was moved past, in order. -/
def retired (past : List (Event α)) : List Nat := (claims past).map Prod.fst

theorem chain_append (more past : List (Event α)) :
    chain (more ++ past) = chain past ++ (links more).map Prod.snd := by
  simp only [chain, links, List.reverse_append, List.filterMap_append, List.map_append, List.cons_append]

theorem Steps.retired_eq (h : Steps (.start threads .new) past s) :
    retired past = (chain past).take (claims past).length := by
  have hlen := congrArg List.length h.links_fst
  have hle := h.claims_le_links.length_le
  rw [List.length_map, List.length_dropLast] at hlen
  rw [retired, List.prefix_iff_eq_take.mp h.claims_le_links, List.map_take, h.links_fst, List.dropLast_eq_take,
    List.take_take, List.length_take]
  congr 1
  omega

/-! ## The pointers of a reachable state -/

structure Intact (past : List (Event α)) (s : System α) : Prop where
  chain : ∃ nodes : List Nat, nodes.Nodup ∧ nodes.head? = some s.heap.head ∧
    nodes.IsChain (fun n m => s.heap.next? n = some m) ∧
    (∃ last, nodes.getLast? = some last ∧ s.heap.next? last = none) ∧
    (∀ n, s.heap.Reaches s.heap.head n ↔ n ∈ nodes) ∧ ∀ n ∈ nodes, n < s.heap.nodes.size
  ahead : s.heap.Reaches s.heap.head s.heap.tail
  lag : s.heap.next? s.heap.tail = none ∨
    ∃ last, s.heap.next? s.heap.tail = some last ∧ s.heap.next? last = none
  forward : ∀ more s', Steps s more s' → s'.heap.Reaches s.heap.tail s'.heap.tail
  behind : ∀ t stage n, s.At t stage → stage.localTail? = some n → s.heap.Reaches n s.heap.tail
  written : ∀ n m, s.heap.next? n = some m ↔ (n, m) ∈ links past
  written_once : ((links past).map Prod.fst).Nodup
  retired_once : (retired past).Nodup
  retired_iff : ∀ n, n ∈ retired past ↔ s.heap.Reaches 0 n ∧ ¬ s.heap.Reaches s.heap.head n
  retired_apart : ∀ n ∈ retired past, ¬ s.heap.Reaches s.heap.tail n
  settled : (∀ t stage, s.At t stage → stage.isPush = false) → s.heap.next? s.heap.tail = none

theorem Tame.lag (ht : Tame past s j) : s.heap.next? s.heap.tail = none ∨
    ∃ last, s.heap.next? s.heap.tail = some last ∧ s.heap.next? last = none := by
  have hnext := ht.shape.next_at ht.shape.tail
  cases hc : (chain past)[j + 1]? with
  | none => exact Or.inl (hnext.trans hc)
  | some last =>
    refine Or.inr ⟨last, hnext.trans hc, ?_⟩
    rw [ht.shape.next_at hc]
    exact List.getElem?_eq_none ht.shape.lag

theorem Tame.forward (ht : Tame past s j) (h : Steps s more s') : s'.heap.Reaches s.heap.tail s'.heap.tail := by
  obtain ⟨j', hj, ht'⟩ := ht.steps h
  have hk : (chain (more ++ past))[j]? = some s.heap.tail := by
    rw [chain_append]
    exact at_append ht.shape.tail
  exact ht'.shape.reaches_of_le hk ht'.shape.tail hj

theorem Tame.behind (ht : Tame past s j) {stage : Stage α} (h : s.At t stage)
    (hn : stage.localTail? = some n) : s.heap.Reaches n s.heap.tail := by
  have hv := ht.sees t stage h
  have hk : ∃ k ≤ j, (chain past)[k]? = some n := by
    cases stage <;> cases hn
    · exact hv
    · obtain ⟨k, hk, ht, -⟩ := hv
      exact ⟨k, hk, ht⟩
    · exact hv
    · obtain ⟨k, hk, ht, -⟩ := hv
      exact ⟨k, hk, ht⟩
  obtain ⟨k, hk, hn⟩ := hk
  exact ht.shape.reaches_of_le hn ht.shape.tail hk

theorem Tame.settled (ht : Tame past s j) (hq : ∀ t stage, s.At t stage → stage.isPush = false) :
    s.heap.next? s.heap.tail = none := by
  rw [ht.shape.next_at ht.shape.tail]
  apply List.getElem?_eq_none
  by_contra hlt
  have hlen : (chain past).length = j + 2 := by
    have := ht.shape.lag
    omega
  obtain ⟨t, node, h⟩ := ht.swing hlen
  cases hq t _ h

theorem Tame.retired_iff (ht : Tame past s j)
    (hr : retired past = (chain past).take (claims past).length) :
    n ∈ retired past ↔ s.heap.Reaches 0 n ∧ ¬ s.heap.Reaches s.heap.head n := by
  have hzero : (chain past)[0]? = some 0 := rfl
  rw [ht.shape.reaches_iff_mem_drop hzero, ht.shape.reaches_iff_mem_drop ht.shape.head, hr, List.drop_zero]
  have hsplit := ht.shape.nodup
  rw [← List.take_append_drop (claims past).length (chain past)] at hsplit
  constructor
  · intro hn
    exact ⟨List.mem_of_mem_take hn, fun hn' => (List.nodup_append.mp hsplit).2.2 n hn n hn' rfl⟩
  · rintro ⟨hn, hn'⟩
    rw [← List.take_append_drop (claims past).length (chain past)] at hn
    exact (List.mem_append.mp hn).resolve_right hn'

/-- The head leads over all nodes that are left to their end. The tail is one of the last two,
and some push is about to move it if it lags; no thread's own tail is past it. What the head has
passed is behind both roots for good. -/
theorem pointers_intact (h : Steps (.start threads .new) past s) : Intact past s := by
  obtain ⟨j, ht⟩ := h.tame
  have ahead : s.heap.Reaches s.heap.head s.heap.tail :=
    ht.shape.reaches_of_le ht.shape.head ht.shape.tail ht.shape.head_le
  refine ⟨?_, ahead, ht.lag, fun more s' => ht.forward, fun t stage n => ht.behind, ?_, ?_, ?_, ?_, ?_,
    ht.settled⟩
  · obtain ⟨hnodup, hhead, hnext, hlast, hmem⟩ := ht.shape.chain_from ht.shape.head
    refine ⟨_, hnodup, hhead, hnext, hlast, hmem, ?_⟩
    intro n hn
    exact ht.shape.bound n (List.mem_of_mem_drop hn)
  · intro n m
    rw [ht.shape.next n m, List.mem_iff_getElem?]
    exact exists_congr fun k => h.links_at.symm
  · rw [h.links_fst]
    exact ht.shape.nodup.sublist (List.dropLast_sublist _)
  · rw [h.retired_eq]
    exact ht.shape.nodup.sublist (List.take_sublist _ _)
  · intro n
    exact ht.retired_iff h.retired_eq
  · intro n hn hr
    exact ((ht.retired_iff h.retired_eq).mp hn).2 (ahead.trans hr)

end

/-- A pop helps the tail past a node whose push has not moved it yet, and takes
its value; then the tail lags again behind the next push. -/
def laggingLog : List (Event Nat) :=
  [⟨1, .pushLink 2 1, .goOn (.pushSwing 2 1)⟩, ⟨1, .pushLook 2 1, .goOn (.pushLink 2 1)⟩,
    ⟨1, .push 8, .goOn (.pushLook 2 1)⟩, ⟨1, .popClaim 0 1, .done (.value 7)⟩,
    ⟨1, .popLook 0 1, .goOn (.popClaim 0 1)⟩, ⟨1, .popTail 0, .goOn (.popLook 0 1)⟩,
    ⟨1, .pop, .goOn (.popTail 0)⟩, ⟨1, .popHelp 0 1, .goOn .pop⟩,
    ⟨1, .popLook 0 0, .goOn (.popHelp 0 1)⟩, ⟨1, .popTail 0, .goOn (.popLook 0 0)⟩,
    ⟨1, .pop, .goOn (.popTail 0)⟩, ⟨0, .pushLink 1 0, .goOn (.pushSwing 1 0)⟩,
    ⟨0, .pushLook 1 0, .goOn (.pushLink 1 0)⟩, ⟨0, .push 7, .goOn (.pushLook 1 0)⟩]

theorem pointers_intact_lagging : ∃ s : System Nat, Steps (.start 2 .new) laggingLog s ∧
    s.heap.head = 1 ∧ s.heap.tail = 1 ∧ s.heap.next? 1 = some 2 ∧ retired laggingLog = [0] ∧
    s.At 0 (.pushSwing 1 0) ∧ s.heap.Reaches 0 s.heap.tail ∧ ¬ s.heap.Reaches s.heap.tail 0 := by
  have called : Steps (.start 2 .new) _ (_ : System Nat) := .enter 0 (.push 7) .refl rfl rfl
  have linked := ((called.access 0 rfl).access 0 rfl).access 0 rfl
  have popping := linked.enter 1 .pop rfl rfl
  have helped := (((popping.access 1 rfl).access 1 rfl).access 1 rfl).access 1 rfl
  have popped := (((helped.access 1 rfl).access 1 rfl).access 1 rfl).access 1 rfl
  have pushing := popped.enter 1 (.push 8) rfl rfl
  have run : Steps (.start 2 .new) laggingLog (_ : System Nat) :=
    ((pushing.access 1 rfl).access 1 rfl).access 1 rfl
  have h := pointers_intact run
  exact ⟨_, run, rfl, rfl, rfl, rfl, rfl, h.behind 0 (.pushSwing 1 0) 0 rfl rfl,
    h.retired_apart 0 (by decide)⟩

end Conduit.Linked
