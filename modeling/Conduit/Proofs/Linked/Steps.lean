import Conduit.Linked.Threads
import Mathlib.Data.List.Basic

/-!
# Runs of a linked queue

Any number of threads, one access at a time in any order, a new call whenever
a thread is in none. The log keeps every access with what the thread saw; the
successful replacements of a next pointer and of the head are read off it.
-/

namespace Conduit.Linked

/-! ## Stages -/

namespace Stage

variable {α : Type}

def opens : Stage α → Bool
  | .push _ | .pop | .ask => true
  | _ => false

/-- The node that a push has made and not linked yet. -/
def owned? : Stage α → Option Nat
  | .pushLook node _ | .pushHelp node _ _ | .pushLink node _ => some node
  | _ => none

/-- The tail that a push last saw or moved on to. -/
def localTail? : Stage α → Option Nat
  | .pushLook _ tail | .pushHelp _ tail _ | .pushLink _ tail | .pushSwing _ tail => some tail
  | _ => none

def isPush : Stage α → Bool
  | .push _ | .pushLook .. | .pushHelp .. | .pushLink .. | .pushSwing .. => true
  | _ => false

theorem owned?_of_opens {stage : Stage α} (h : stage.opens = true) : stage.owned? = none := by
  cases stage <;> first | rfl | cases h

end Stage

def Outcome.stage? {α : Type} : Outcome α → Option (Stage α)
  | .goOn stage => some stage
  | .done _ => none

/-! ## Memory -/

namespace Heap

variable {α : Type} {h : Heap α} {stage stage' : Stage α} {tail node n : Nat}

def alloc (v : α) (h : Heap α) : Heap α := { h with nodes := h.nodes.push ⟨some v, none⟩ }

def link (tail node : Nat) (h : Heap α) : Heap α :=
  { h with nodes := h.nodes.modify tail fun x => { x with next := some node } }

@[simp] theorem next?_alloc (v : α) (h : Heap α) (n : Nat) : (h.alloc v).next? n = h.next? n := by
  simp only [alloc, next?, Array.getElem?_push]
  split
  · rename_i hn; simp [hn]
  · rfl

theorem value?_alloc (v : α) (h : Heap α) (n : Nat) :
    (h.alloc v).value? n = if n = h.nodes.size then some v else h.value? n := by
  simp only [alloc, value?, Array.getElem?_push]
  split <;> rfl

theorem next?_link (ht : tail < h.nodes.size) (node n : Nat) :
    (h.link tail node).next? n = if n = tail then some node else h.next? n := by
  simp only [link, next?, Array.getElem?_modify]
  by_cases hn : n = tail
  · subst hn; simp [ht]
  · simp [hn, Ne.symm hn]

@[simp] theorem value?_link (tail node : Nat) (h : Heap α) (n : Nat) :
    (h.link tail node).value? n = h.value? n := by
  simp only [link, value?, Array.getElem?_modify]
  split
  · cases h.nodes[n]? <;> rfl
  · rfl

@[simp] theorem size_link (tail node : Nat) (h : Heap α) :
    (h.link tail node).nodes.size = h.nodes.size := Array.size_modify

@[simp] theorem nodes_moveTail (old new : Nat) (h : Heap α) : (h.moveTail old new).nodes = h.nodes := by
  unfold moveTail; split <;> rfl

@[simp] theorem head_moveTail (old new : Nat) (h : Heap α) : (h.moveTail old new).head = h.head := by
  unfold moveTail; split <;> rfl

theorem tail_moveTail (old new : Nat) (h : Heap α) :
    (h.moveTail old new).tail = if h.tail = old then new else h.tail := by
  unfold moveTail; split <;> rfl

theorem step_pushLink_of_none (node : Nat) (ht : h.next? tail = none) :
    h.step (.pushLink node tail) = (h.link tail node, .goOn (.pushSwing node tail)) := by
  simp only [step, ht]
  rfl

theorem step_pushLink_of_some (node : Nat) (ht : h.next? tail = some n) :
    h.step (.pushLink node tail) = (h, .goOn (.pushHelp node tail n)) := by
  simp only [step, ht]

end Heap

/-! ## Runs -/

structure Event (α : Type) where
  thread : Nat
  stage : Stage α
  outcome : Outcome α

section
variable {α : Type}

inductive Steps (s : System α) : List (Event α) → System α → Prop
  | refl : Steps s [] s
  | enter {past : List (Event α)} {s₁ : System α} (t : Nat) (stage : Stage α) :
      Steps s past s₁ → s₁.calls[t]? = some none → stage.opens = true → Steps s past (s₁.enter t stage)
  | access {past : List (Event α)} {s₁ : System α} (t : Nat) {stage : Stage α} :
      Steps s past s₁ → s₁.calls[t]? = some (some stage) →
      Steps s (⟨t, stage, (s₁.heap.step stage).2⟩ :: past) (s₁.advance t).1

def System.At (s : System α) (t : Nat) (stage : Stage α) : Prop := s.calls[t]? = some (some stage)

/-! ## One access, one call entered -/

/-- What `e` did to memory and to the call of its thread; no other thread moved. -/
structure Access (s : System α) (e : Event α) (s' : System α) : Prop where
  was : s.At e.thread e.stage
  step : s.heap.step e.stage = (s'.heap, e.outcome)
  self : s'.calls[e.thread]? = some e.outcome.stage?
  other : ∀ t, t ≠ e.thread → s'.calls[t]? = s.calls[t]?

variable {s s' : System α} {e : Event α} {t t' : Nat} {stage stage' : Stage α}

theorem System.access_advance (h : s.At t stage) :
    Access s ⟨t, stage, (s.heap.step stage).2⟩ (s.advance t).1 := by
  obtain ⟨heap, calls⟩ := s
  have hc : calls[t]? = some (some stage) := h
  have hlt : t < calls.size := (Array.getElem?_eq_some_iff.mp hc).1
  simp only [advance, hc]
  rcases hs : heap.step stage with ⟨heap', stage' | a⟩
  · refine ⟨hc, hs, Array.getElem?_setIfInBounds_self_of_lt hlt, ?_⟩
    intro t' hne
    exact Array.getElem?_setIfInBounds_ne (Ne.symm hne)
  · refine ⟨hc, hs, Array.getElem?_setIfInBounds_self_of_lt hlt, ?_⟩
    intro t' hne
    exact Array.getElem?_setIfInBounds_ne (Ne.symm hne)

theorem Access.goOn (ha : Access s e s') (ho : e.outcome = .goOn stage) : s'.At e.thread stage := by
  unfold System.At
  rw [ha.self, ho]
  rfl

theorem Access.keep (ha : Access s e s') (hne : t ≠ e.thread) (h : s.At t stage) : s'.At t stage := by
  unfold System.At
  rw [ha.other t hne]
  exact h

theorem Access.back (ha : Access s e s') (h : s'.At t stage) :
    (t = e.thread ∧ e.outcome = .goOn stage) ∨ (t ≠ e.thread ∧ s.At t stage) := by
  unfold System.At at h
  by_cases ht : t = e.thread
  · subst ht
    rw [ha.self] at h
    cases ho : e.outcome with
    | goOn st => rw [ho] at h; cases h; exact Or.inl ⟨rfl, rfl⟩
    | done a => rw [ho] at h; cases h
  · rw [ha.other t ht] at h
    exact Or.inr ⟨ht, h⟩

def System.owned? (s : System α) (t : Nat) : Option Nat := s.calls[t]?.join.bind Stage.owned?

theorem Access.owned?_was (ha : Access s e s') : s.owned? e.thread = e.stage.owned? := by
  have hc : s.calls[e.thread]? = some (some e.stage) := ha.was
  rw [System.owned?, hc]
  rfl

theorem Access.owned?_self (ha : Access s e s') : s'.owned? e.thread = e.outcome.stage?.bind Stage.owned? := by
  rw [System.owned?, ha.self]
  rfl

theorem Access.owned?_other (ha : Access s e s') (hne : t ≠ e.thread) : s'.owned? t = s.owned? t := by
  rw [System.owned?, ha.other t hne, System.owned?]

theorem System.At.entered (h : (s.enter t stage).At t' stage') : (t' = t ∧ stage' = stage) ∨ s.At t' stage' := by
  obtain ⟨heap, calls⟩ := s
  simp only [At, enter, Array.getElem?_setIfInBounds] at h
  split at h
  · rename_i ht
    split at h
    · cases h; exact Or.inl ⟨ht.symm, rfl⟩
    · cases h
  · exact Or.inr h

theorem System.At.enter (h : s.At t' stage') (hc : s.calls[t]? = some none) : (s.enter t stage).At t' stage' := by
  obtain ⟨heap, calls⟩ := s
  have hne : t ≠ t' := by
    intro e
    subst e
    cases hc.symm.trans h
  simp only [At, System.enter]
  rw [Array.getElem?_setIfInBounds_ne hne]
  exact h

theorem System.owned?_enter (hc : s.calls[t]? = some none) (ho : stage.opens = true) (t' : Nat) :
    (s.enter t stage).owned? t' = s.owned? t' := by
  obtain ⟨heap, calls⟩ := s
  simp only [owned?, System.enter, Array.getElem?_setIfInBounds]
  split
  · rename_i ht
    subst ht
    have hc : calls[t]? = some none := hc
    rw [if_pos (Array.getElem?_eq_some_iff.mp hc).1, hc]
    exact Stage.owned?_of_opens ho
  · rfl

/-! ## Reading the log -/

def Event.link? : Event α → Option (Nat × Nat)
  | ⟨_, .pushLink node tail, .goOn (.pushSwing _ _)⟩ => some (tail, node)
  | _ => none

def Event.claim? : Event α → Option (Nat × Nat)
  | ⟨_, .popClaim head next, .done _⟩ => some (head, next)
  | _ => none

/-- What an access adds to the chain. -/
def Event.linked (e : Event α) : List Nat := (e.link?.map Prod.snd).toList

def Event.claimed (e : Event α) : Nat := e.claim?.toList.length

def links (past : List (Event α)) : List (Nat × Nat) := past.reverse.filterMap Event.link?

def claims (past : List (Event α)) : List (Nat × Nat) := past.reverse.filterMap Event.claim?

/-- Every node that was ever part of the queue, in order. -/
def chain (past : List (Event α)) : List Nat := 0 :: (links past).map Prod.snd

theorem links_cons (e : Event α) (past : List (Event α)) :
    links (e :: past) = links past ++ e.link?.toList := by
  simp only [links, List.reverse_cons, List.filterMap_append]
  cases h : e.link? <;> simp [h]

theorem claims_cons (e : Event α) (past : List (Event α)) :
    claims (e :: past) = claims past ++ e.claim?.toList := by
  simp only [claims, List.reverse_cons, List.filterMap_append]
  cases h : e.claim? <;> simp [h]

theorem chain_cons (e : Event α) (past : List (Event α)) : chain (e :: past) = chain past ++ e.linked := by
  simp only [chain, links_cons, Event.linked, List.map_append, List.cons_append]
  cases e.link? <;> rfl

theorem length_claims_cons (e : Event α) (past : List (Event α)) :
    (claims (e :: past)).length = (claims past).length + e.claimed := by
  rw [claims_cons, List.length_append, Event.claimed]

theorem link?_eq_some {p : Nat × Nat} (hp : e.link? = some p) : e.stage = .pushLink p.2 p.1 := by
  unfold Event.link? at hp
  split at hp
  · cases hp
    rfl
  · cases hp

theorem link?_of_push {v : α} (hv : e.stage = .push v) : e.link? = none := by
  cases hl : e.link? with
  | none => rfl
  | some p => cases hv.symm.trans (link?_eq_some hl)

theorem claim?_eq_some {p : Nat × Nat} (hp : e.claim? = some p) :
    e.stage = .popClaim p.1 p.2 ∧ ∃ a, e.outcome = .done a := by
  unfold Event.claim? at hp
  split at hp
  · cases hp
    exact ⟨rfl, _, rfl⟩
  · cases hp

theorem linked_eq_nil (hl : e.link? = none) : e.linked = [] := by
  rw [Event.linked, hl]
  rfl

theorem owned?_of_mem_linked {n : Nat} (hn : n ∈ e.linked) : e.stage.owned? = some n := by
  unfold Event.linked at hn
  rw [Option.mem_toList, Option.map_eq_some_iff] at hn
  obtain ⟨p, hp, rfl⟩ := hn
  rw [link?_eq_some hp]
  rfl

/-! ## What an access does to the nodes -/

variable {h h' : Heap α}

theorem nodes_cases (he : h.step e.stage = (h', e.outcome)) :
    (∃ v, e.stage = .push v ∧ h' = h.alloc v ∧ e.outcome = .goOn (.pushLook h.nodes.size h.tail)) ∨
    (∃ p, e.link? = some p ∧ h.next? p.1 = none ∧ h' = h.link p.1 p.2 ∧
      e.outcome = .goOn (.pushSwing p.2 p.1)) ∨
    ((∀ v, e.stage ≠ .push v) ∧ e.link? = none ∧ h'.nodes = h.nodes ∧
      e.outcome.stage?.bind Stage.owned? = e.stage.owned?) := by
  obtain ⟨t, st, outcome⟩ := e
  simp only at he
  cases st with
  | push v =>
    cases he
    exact Or.inl ⟨v, rfl, rfl, rfl⟩
  | pushLink node tail =>
    right
    cases hn : h.next? tail with
    | none =>
      rw [Heap.step_pushLink_of_none node hn] at he
      cases he
      exact Or.inl ⟨(tail, node), rfl, hn, rfl, rfl⟩
    | some m =>
      rw [Heap.step_pushLink_of_some node hn] at he
      cases he
      exact Or.inr ⟨nofun, rfl, rfl, rfl⟩
  | pushHelp | pushSwing | popHelp =>
    cases he
    exact Or.inr (Or.inr ⟨nofun, rfl, Heap.nodes_moveTail .., rfl⟩)
  | pushLook | popLook | popClaim =>
    refine Or.inr (Or.inr ⟨nofun, rfl, ?_⟩)
    simp only [Heap.step] at he
    (repeat' split at he) <;> cases he <;> exact ⟨rfl, rfl⟩
  | pop | popTail | ask | askLook =>
    cases he
    exact Or.inr (Or.inr ⟨nofun, rfl, rfl, rfl⟩)

theorem link_of_step (he : h.step e.stage = (h', e.outcome)) {p : Nat × Nat} (hp : e.link? = some p) :
    h.next? p.1 = none ∧ h' = h.link p.1 p.2 ∧ e.outcome = .goOn (.pushSwing p.2 p.1) := by
  rcases nodes_cases he with ⟨v, hv, -⟩ | ⟨p', hp', hcases⟩ | ⟨-, hl, -⟩
  · cases hv.symm.trans (link?_eq_some hp)
  · cases hp.symm.trans hp'
    exact hcases
  · cases hp.symm.trans hl

theorem claim_of_step (he : h.step e.stage = (h', e.outcome)) {p : Nat × Nat} (hp : e.claim? = some p) :
    h.head = p.1 ∧ ∀ v, h.value? p.2 = some v → e.outcome = .done (.value v) := by
  obtain ⟨hstage, a, ho⟩ := claim?_eq_some hp
  rw [hstage] at he
  simp only [Heap.step] at he
  split at he
  · rename_i hhead
    refine ⟨hhead, ?_⟩
    intro v hv
    rw [hv] at he
    exact (Prod.mk.inj he).2.symm
  · rw [ho] at he
    cases (Prod.mk.inj he).2

/-- How a call ends: a pop by a move of the head, or where nothing follows the head it saw. -/
theorem answer_cases (he : h.step e.stage = (h', e.outcome)) {a : Answer α} (ho : e.outcome = .done a) :
    (∃ p, e.claim? = some p) ∨ a = .pushed ∨ (∃ b, a = .empty b) ∨
      a = .nothing ∧ ∃ head tail, e.stage = .popLook head tail ∧ h.next? head = none := by
  obtain ⟨t, st, outcome⟩ := e
  simp only at he ho
  subst ho
  cases st with
  | popClaim head next => exact Or.inl ⟨(head, next), rfl⟩
  | pushSwing =>
    cases he
    exact Or.inr (Or.inl rfl)
  | askLook head =>
    cases he
    exact Or.inr (Or.inr (Or.inl ⟨_, rfl⟩))
  | popLook head tail =>
    cases hn : h.next? head with
    | none =>
      simp only [Heap.step, hn] at he
      cases he
      exact Or.inr (Or.inr (Or.inr ⟨rfl, head, tail, rfl, hn⟩))
    | some m =>
      simp only [Heap.step, hn] at he
      split at he <;> cases he
  | pushLook node tail | pushLink node tail =>
    simp only [Heap.step] at he
    split at he <;> cases he
  | push | pushHelp | pop | popTail | popHelp | ask => cases he

theorem size_step (he : h.step e.stage = (h', e.outcome)) : h.nodes.size ≤ h'.nodes.size := by
  rcases nodes_cases he with ⟨v, -, rfl, -⟩ | ⟨p, -, -, rfl, -⟩ | ⟨-, -, hnodes, -⟩
  · rw [Heap.alloc, Array.size_push]
    exact Nat.le_succ _
  · exact Nat.le_of_eq (Heap.size_link ..).symm
  · exact Nat.le_of_eq (congrArg Array.size hnodes).symm

theorem value?_step (he : h.step e.stage = (h', e.outcome)) {n : Nat} (hn : n < h.nodes.size) :
    h'.value? n = h.value? n := by
  rcases nodes_cases he with ⟨v, -, rfl, -⟩ | ⟨p, -, -, rfl, -⟩ | ⟨-, -, hnodes, -⟩
  · rw [Heap.value?_alloc, if_neg (Nat.ne_of_lt hn)]
  · rw [Heap.value?_link]
  · rw [Heap.value?, hnodes, Heap.value?]

end

end Conduit.Linked
