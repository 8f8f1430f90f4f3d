import Conduit.Proofs.Linked.Chain

/-!
# All threads at once

What holds of the chain and of every thread in every reachable state: each
thread has seen places of the chain, the nodes that are not linked yet belong
to one push each, and where the tail lags some push is about to move it.
-/

namespace Conduit.Linked

section
variable {α : Type} {h : Heap α} {past more : List (Event α)} {s s' : System α} {e : Event α}
  {stage : Stage α} {j t n : Nat} {p : Nat × Nat}

structure Tame (past : List (Event α)) (s : System α) (j : Nat) : Prop where
  shape : Shape (chain past) (claims past).length j s.heap
  sees : ∀ t stage, s.At t stage → Sees (chain past) (claims past).length j stage
  fresh : ∀ t n, s.owned? t = some n → n ∉ chain past ∧ n < s.heap.nodes.size
  apart : ∀ t t' n, s.owned? t = some n → s.owned? t' = some n → t = t'
  swing : (chain past).length = j + 2 → ∃ t node, s.At t (.pushSwing node s.heap.tail)

/-! ## The start, and a call entered -/

theorem shape_new : Shape [0] 0 0 (Heap.new : Heap α) where
  nodup := List.nodup_singleton 0
  bound n hn := by rw [List.mem_singleton.mp hn]; exact Nat.zero_lt_one
  next n m := by
    constructor
    · intro hn
      cases n with
      | zero => cases hn
      | succ n => simp [Heap.next?, Heap.new] at hn
    · rintro ⟨k, -, hm⟩
      simp at hm
  head := rfl
  tail := rfl
  head_le := Nat.le_refl 0
  lag := Nat.le_succ 1

theorem System.join_start (threads t : Nat) (h : Heap α) : (System.start threads h).calls[t]?.join = none := by
  rw [start, Array.getElem?_replicate]
  split <;> rfl

theorem tame_start (threads : Nat) : Tame [] (.start threads .new : System α) 0 where
  shape := shape_new
  sees t stage ha := by
    have hc : ((System.start threads .new : System α).calls[t]?).join = some stage := by
      rw [show _ = some (some stage) from ha]
      rfl
    rw [System.join_start] at hc
    cases hc
  fresh t n hn := by
    rw [System.owned?, System.join_start] at hn
    cases hn
  apart t t' n hn := by
    rw [System.owned?, System.join_start] at hn
    cases hn
  swing hl := by cases hl

theorem Tame.enter (ht : Tame past s j) (hc : s.calls[t]? = some none) (ho : stage.opens = true) :
    Tame past (s.enter t stage) j := by
  refine ⟨ht.shape, ?_, ?_, ?_, ?_⟩
  · intro t' stage' ha
    rcases ha.entered with ⟨-, rfl⟩ | ha
    · exact sees_of_opens ho
    · exact ht.sees t' stage' ha
  · intro t' n hn
    rw [System.owned?_enter hc ho] at hn
    exact ht.fresh t' n hn
  · intro t₁ t₂ n h₁ h₂
    rw [System.owned?_enter hc ho] at h₁ h₂
    exact ht.apart t₁ t₂ n h₁ h₂
  · intro hl
    obtain ⟨t', node, ha⟩ := ht.swing hl
    exact ⟨t', node, ha.enter hc⟩

/-! ## One access -/

/-- A push keeps the node it made until it links it, and a new node is at an
index that was not used before. -/
theorem Tame.owned_back (ht : Tame past s j) (ha : Access s e s') (hn : s'.owned? t = some n) :
    n ∉ e.linked ∧ (s.owned? t = some n ∨
      t = e.thread ∧ n = s.heap.nodes.size ∧ s'.heap.nodes.size = s.heap.nodes.size + 1) := by
  by_cases hte : t = e.thread
  · subst hte
    rw [ha.owned?_self] at hn
    rcases nodes_cases ha.step with ⟨v, hv, hh, ho⟩ | ⟨p, -, -, -, ho⟩ | ⟨-, hl, -, ho⟩
    · rw [ho] at hn
      rw [linked_eq_nil (link?_of_push hv), hh, Heap.alloc, Array.size_push]
      exact ⟨List.not_mem_nil, Or.inr ⟨rfl, (Option.some.inj hn).symm, rfl⟩⟩
    · rw [ho] at hn
      cases hn
    · rw [linked_eq_nil hl, ha.owned?_was, ← ho]
      exact ⟨List.not_mem_nil, Or.inl hn⟩
  · rw [ha.owned?_other hte] at hn
    refine ⟨?_, Or.inl hn⟩
    intro hm
    exact hte (ht.apart t e.thread n hn (ha.owned?_was.trans (owned?_of_mem_linked hm)))

theorem Tame.fresh_access (ht : Tame past s j) (ha : Access s e s') (hn : s'.owned? t = some n) :
    n ∉ chain (e :: past) ∧ n < s'.heap.nodes.size := by
  rw [chain_cons, List.mem_append, not_or]
  obtain ⟨hl, hown | ⟨-, rfl, hsize⟩⟩ := ht.owned_back ha hn
  · obtain ⟨hfresh, hlt⟩ := ht.fresh t n hown
    exact ⟨⟨hfresh, hl⟩, Nat.lt_of_lt_of_le hlt (size_step ha.step)⟩
  · exact ⟨⟨fun hm => Nat.lt_irrefl _ (ht.shape.bound _ hm), hl⟩, by omega⟩

theorem Tame.apart_access (ht : Tame past s j) (ha : Access s e s') {t₁ t₂ : Nat}
    (h₁ : s'.owned? t₁ = some n) (h₂ : s'.owned? t₂ = some n) : t₁ = t₂ := by
  rcases (ht.owned_back ha h₁).2 with h₁ | ⟨rfl, hn, -⟩
  · rcases (ht.owned_back ha h₂).2 with h₂ | ⟨-, hn, -⟩
    · exact ht.apart t₁ t₂ n h₁ h₂
    · have := (ht.fresh t₁ n h₁).2
      omega
  · rcases (ht.owned_back ha h₂).2 with h₂ | ⟨rfl, -, -⟩
    · have := (ht.fresh t₂ n h₂).2
      omega
    · rfl

theorem Tame.seen (ht : Tame past s j) (ha : Access s e s') (hs : e.stage = stage) :
    Sees (chain past) (claims past).length j stage := hs ▸ ht.sees e.thread e.stage ha.was

theorem Tame.link_at (ht : Tame past s j) (ha : Access s e s') (hp : e.link? = some p) :
    (chain past).length = j + 1 ∧ s.heap.tail = p.1 := by
  obtain ⟨hnone, -⟩ := link_of_step ha.step hp
  obtain ⟨k, hk, hpk⟩ := ht.seen ha (link?_eq_some hp)
  have hlast := ht.shape.last_of_next_none hpk hnone
  obtain ⟨hjlt, -⟩ := List.getElem?_eq_some_iff.mp ht.shape.tail
  obtain rfl : j = k := by omega
  exact ⟨hlast, Option.some.inj (ht.shape.tail.symm.trans hpk)⟩

theorem Tame.claim_at (ht : Tame past s j) (ha : Access s e s') (hp : e.claim? = some p) :
    (chain past)[(claims past).length]? = some p.1 ∧ (chain past)[(claims past).length + 1]? = some p.2 := by
  have hhead := (claim_of_step ha.step hp).1
  obtain ⟨k, -, -, hk, hk'⟩ := ht.seen ha (claim?_eq_some hp).1
  have hi : (claims past).length = k := ht.shape.place_inj (hhead ▸ ht.shape.head) hk
  rw [hi]
  exact ⟨hk, hk'⟩

/-- The push that has just linked its node is the one that is going to move the tail. -/
theorem Tame.swing_of_link (ht : Tame past s j) (ha : Access s e s') (hp : e.link? = some p) :
    s'.At e.thread (.pushSwing p.2 s'.heap.tail) := by
  obtain ⟨-, hh, ho⟩ := link_of_step ha.step hp
  have htail : s'.heap.tail = p.1 := by
    rw [hh]
    exact (ht.link_at ha hp).2
  rw [htail]
  exact ha.goOn ho

theorem Tame.ne_of_swing (ht : Tame past s j) (ha : Access s e s') (htail : s'.heap.tail = s.heap.tail)
    {node : Nat} (h : s.At t (.pushSwing node s.heap.tail)) : t ≠ e.thread := by
  intro hte
  subst hte
  have hstage : e.stage = .pushSwing node s.heap.tail := Option.some.inj (Option.some.inj (ha.was.symm.trans h))
  obtain ⟨k, -, hk, hk'⟩ := ht.sees e.thread _ h
  have hheap : s.heap.moveTail s.heap.tail node = s'.heap := by
    have hstep := ha.step
    rw [hstage] at hstep
    exact (Prod.mk.inj hstep).1
  have hnode : node = s.heap.tail := by
    rw [← htail, ← hheap, Heap.tail_moveTail, if_pos rfl]
  rw [hnode] at hk'
  have := ht.shape.place_inj hk hk'
  omega

theorem Tame.access (ht : Tame past s j) (ha : Access s e s') : ∃ j', j ≤ j' ∧ Tame (e :: past) s' j' := by
  obtain ⟨j', hj, hs', hv'⟩ := Shape.step ha.step ht.shape (ht.sees _ _ ha.was)
    (fun n hn => ht.fresh e.thread n (ha.owned?_was.trans hn))
  rw [← chain_cons, ← length_claims_cons] at hs' hv'
  refine ⟨j', hj, hs', ?_, ?_, ?_, ?_⟩
  · intro t stage h
    rcases ha.back h with ⟨-, ho⟩ | ⟨-, h⟩
    · exact hv' stage ho
    · rw [chain_cons, length_claims_cons]
      exact (ht.sees t stage h).mono (Nat.le_add_right _ _) hj
  · intro t n hn
    exact ht.fresh_access ha hn
  · intro t₁ t₂ n h₁ h₂
    exact ht.apart_access ha h₁ h₂
  · intro hlen
    cases hl : e.link? with
    | some p => exact ⟨e.thread, p.2, ht.swing_of_link ha hl⟩
    | none =>
      -- the chain is as long as before, so the tail lags as before
      have hchain : chain (e :: past) = chain past := by
        rw [chain_cons, Event.linked, hl]
        exact List.append_nil _
      rw [hchain] at hlen hs'
      obtain rfl : j' = j := by
        have := ht.shape.lag
        omega
      have htail : s'.heap.tail = s.heap.tail := Option.some.inj (hs'.tail.symm.trans ht.shape.tail)
      obtain ⟨t, node, h⟩ := ht.swing hlen
      rw [htail]
      exact ⟨t, node, ha.keep (ht.ne_of_swing ha htail h) h⟩

theorem Tame.steps (ht : Tame past s j) (h : Steps s more s') : ∃ j', j ≤ j' ∧ Tame (more ++ past) s' j' := by
  induction h with
  | refl => exact ⟨j, Nat.le_refl _, ht⟩
  | enter _ _ _ hc ho ih =>
    obtain ⟨j', hj, ih⟩ := ih
    exact ⟨j', hj, ih.enter hc ho⟩
  | access _ _ hc ih =>
    obtain ⟨j', hj, ih⟩ := ih
    obtain ⟨j'', hj', ih⟩ := ih.access (System.access_advance hc)
    exact ⟨j'', Nat.le_trans hj hj', ih⟩

theorem Steps.tame {threads : Nat} (h : Steps (.start threads .new) past s) : ∃ j, Tame past s j := by
  obtain ⟨j, -, ht⟩ := (tame_start threads).steps h
  rw [List.append_nil] at ht
  exact ⟨j, ht⟩

/-- What holds at the start, and is kept by each access to a reachable state and
by entering a call, holds of every run. -/
theorem Steps.invariant {threads : Nat} {P : List (Event α) → System α → Prop}
    (h : Steps (.start threads .new) past s) (start : P [] (.start threads .new))
    (enter : ∀ past s t stage, P past s → s.calls[t]? = some none → stage.opens = true →
      P past (s.enter t stage))
    (access : ∀ past s j e s', Steps (.start threads .new) past s → Tame past s j → Access s e s' →
      P past s → P (e :: past) s') : P past s := by
  induction h with
  | refl => exact start
  | enter _ _ _ hc ho ih => exact enter _ _ _ _ ih hc ho
  | access _ h hc ih =>
    obtain ⟨j, ht⟩ := h.tame
    exact access _ _ j _ _ h ht (System.access_advance hc) ih

/-! ## The log and the chain -/

variable {threads : Nat}

theorem Steps.links_fst (h : Steps (.start threads .new) past s) :
    (links past).map Prod.fst = (chain past).dropLast := by
  refine h.invariant (P := fun past _ => (links past).map Prod.fst = (chain past).dropLast) rfl
    (fun _ _ _ _ ih _ _ => ih) ?_
  intro past s j e s' _ ht ha ih
  rw [links_cons, chain_cons, Event.linked]
  cases hp : e.link? with
  | none =>
    show List.map Prod.fst (links past ++ []) = (chain past ++ []).dropLast
    rw [List.append_nil, List.append_nil]
    exact ih
  | some p =>
    show List.map Prod.fst (links past ++ [p]) = (chain past ++ [p.2]).dropLast
    rw [List.map_append, ih, List.dropLast_concat]
    obtain ⟨hlen, htail⟩ := ht.link_at ha hp
    refine List.dropLast_append_getLast? p.1 ?_
    rw [List.getLast?_eq_getElem?, hlen]
    exact htail ▸ ht.shape.tail

theorem Steps.links_at (h : Steps (.start threads .new) past s) {k : Nat} :
    (links past)[k]? = some (n, m) ↔ (chain past)[k]? = some n ∧ (chain past)[k + 1]? = some m := by
  have hsnd : (chain past)[k + 1]? = (links past)[k]?.map Prod.snd := by
    rw [chain, List.getElem?_cons_succ, List.getElem?_map]
  have hfst : ∀ p, (links past)[k]? = some p → (chain past)[k]? = some p.1 := by
    intro p hp
    have hlt : k < (chain past).length - 1 := by
      have := (List.getElem?_eq_some_iff.mp hp).1
      simpa [chain] using this
    have hk : ((links past).map Prod.fst)[k]? = some p.1 := by rw [List.getElem?_map, hp]; rfl
    rw [h.links_fst, List.getElem?_dropLast, if_pos hlt] at hk
    exact hk
  constructor
  · intro hp
    exact ⟨hfst _ hp, by rw [hsnd, hp]; rfl⟩
  · rintro ⟨hn, hm⟩
    rw [hsnd, Option.map_eq_some_iff] at hm
    obtain ⟨⟨n', m'⟩, hp, rfl⟩ := hm
    have := hfst _ hp
    rw [hn] at this
    cases this
    exact hp

theorem Steps.claims_le_links (h : Steps (.start threads .new) past s) : claims past <+: links past := by
  refine h.invariant (P := fun past _ => claims past <+: links past) (List.prefix_refl [])
    (fun _ _ _ _ ih _ _ => ih) ?_
  intro past s j e s' h ht ha ih
  rw [claims_cons, links_cons]
  cases hp : e.claim? with
  | none =>
    show claims past ++ [] <+: _
    rw [List.append_nil]
    exact ih.trans (List.prefix_append _ _)
  | some p =>
    have hl : (links past)[(claims past).length]? = some p := h.links_at.mpr (ht.claim_at ha hp)
    show claims past ++ [p] <+: _
    have hnext : claims past ++ [p] = (links past).take ((claims past).length + 1) := by
      rw [List.take_add_one, hl, ← List.prefix_iff_eq_take.mp ih]
      rfl
    rw [hnext]
    exact (List.take_prefix _ _).trans (List.prefix_append _ _)

end

end Conduit.Linked
