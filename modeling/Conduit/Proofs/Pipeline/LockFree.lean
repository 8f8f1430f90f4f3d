import Conduit.Proofs.Linked.Order
import Conduit.Proofs.Pipeline.Channel

/-!
# The linked queue as a channel

A push adds its value to the list in the access that links its node, one access
before its last at the earliest; a pop takes the oldest value in the access that
moves the head on. No other access changes the list.
-/

namespace Conduit.Linked

section
variable {α : Type} {past : List (Event α)} {s s' : System α} {stage : Stage α} {t t' threads : Nat}

/-! ## One access -/

def Outcome.answer? : Outcome α → Option (Answer α)
  | .goOn _ => none
  | .done a => some a

theorem eq_goOn {o : Outcome α} (h : o.stage? = some stage) : o = .goOn stage := by
  cases o with
  | goOn stage' => exact congrArg _ (Option.some.inj h)
  | done a => cases h

theorem System.advance_answer (h : s.At t stage) : (s.advance t).2 = (s.heap.step stage).2.answer? := by
  obtain ⟨heap, calls⟩ := s
  have hc : calls[t]? = some (some stage) := h
  simp only [advance, hc]
  rcases heap.step stage with ⟨heap', stage' | a⟩ <;> rfl

theorem System.calls_enter_self (hc : s.calls[t]? = some none) : (s.enter t stage).At t stage :=
  Array.getElem?_setIfInBounds_self_of_lt (Array.getElem?_eq_some_iff.mp hc).1

theorem System.calls_enter_of_ne (hne : t' ≠ t) (stage : Stage α) (s : System α) :
    (s.enter t stage).calls[t']? = s.calls[t']? := Array.getElem?_setIfInBounds_ne (Ne.symm hne)

/-- What the access answers and then the values after it are the values before it
and then what it links. -/
theorem Steps.values_step (h : Steps (.start threads .new) past s) (ha : s.At t stage) :
    (s.heap.step stage).2.value?.toList ++ (s.advance t).1.heap.values =
      s.heap.values ++ ((Event.entry? ⟨t, stage, (s.heap.step stage).2⟩ past).map Entry.value).toList := by
  have hafter := (h.access t ha).fifo
  rw [returned_cons, pushed, List.map_append, ← h.fifo, List.append_assoc, List.append_assoc] at hafter
  have := List.append_cancel_left hafter
  rw [this]
  congr 1
  cases Event.entry? ⟨t, stage, (s.heap.step stage).2⟩ past <;> rfl

/-! ## Pops -/

def Stage.isPop : Stage α → Bool
  | .pop | .popTail _ | .popLook .. | .popHelp .. | .popClaim .. => true
  | _ => false

theorem pop_cases (h : Heap α) (hp : stage.isPop = true) :
    (∃ stage', (h.step stage).2 = .goOn stage' ∧ stage'.isPop = true) ∨
    (∃ v, (h.step stage).2 = .done (.value v)) ∨ (h.step stage).2 = .done .nothing := by
  cases stage with
  | pop | popTail | popHelp => exact .inl ⟨_, rfl, rfl⟩
  | popLook head tail =>
    simp only [Heap.step]
    split
    · exact .inr (.inr rfl)
    · split
      · exact .inl ⟨_, rfl, rfl⟩
      · exact .inl ⟨_, rfl, rfl⟩
  | popClaim head next =>
    simp only [Heap.step]
    split
    · cases h.value? next with
      | some v => exact .inr (.inl ⟨v, rfl⟩)
      | none => exact .inr (.inr rfl)
    · exact .inl ⟨_, rfl, rfl⟩
  | _ => cases hp

end

end Conduit.Linked

namespace Conduit.Pipeline

open Linked

instance linkedContents : Contents (System Int64) where
  contents s := s.heap.values

/-- A push owns its node from its first access until it links it. -/
def LinkedAt (s : System Int64) (t : Nat) : Call → Prop
  | .idle => s.calls[t]? = some none
  | .offering v => s.At t (.push v) ∨ ∃ n, s.owned? t = some n ∧ s.heap.value? n = some v
  | .offered => ∃ node tail, s.At t (.pushSwing node tail)
  | .seeking => ∃ stage, s.At t stage ∧ stage.isPop = true

def LinkedValid (n : Nat) (s : System Int64) : Prop := ∃ past, Steps (.start n .new) past s

variable {s s' : System Int64} {t n j : Nat} {stage : Stage Int64} {v : Int64} {c : Call}
  {past : List (Event Int64)}

theorem LinkedAt.of_eq (ha : LinkedAt s t c) (hc : s'.calls[t]? = s.calls[t]?)
    (hv : ∀ n, s.owned? t = some n → s'.heap.value? n = s.heap.value? n) : LinkedAt s' t c := by
  cases c with
  | idle => exact hc.trans ha
  | offering v =>
    rcases ha with ha | ⟨n, hn, hval⟩
    · exact .inl (hc.trans ha)
    · refine .inr ⟨n, ?_, (hv n hn).trans hval⟩
      rw [System.owned?, hc]
      exact hn
  | offered =>
    obtain ⟨node, tail, ha⟩ := ha
    exact ⟨node, tail, hc.trans ha⟩
  | seeking =>
    obtain ⟨stage, ha, hp⟩ := ha
    exact ⟨stage, hc.trans ha, hp⟩

/-! ## A call entered -/

theorem stepped_enter (h : LinkedValid n s) (hc : s.calls[t]? = some none) (ho : stage.opens = true)
    (ha : LinkedAt (s.enter t stage) t c) (hne : c ≠ .idle) :
    Stepped (LinkedValid n) LinkedAt t c s (s.enter t stage, .underWay) := by
  obtain ⟨past, h⟩ := h
  refine ⟨⟨past, h.enter t stage hc ho⟩, ⟨c, ha, .wait hne⟩, ?_⟩
  intro t' c' hne ha
  exact ha.of_eq (System.calls_enter_of_ne hne stage s) fun _ _ => rfl

/-! ## An access -/

theorem stepped_access (h : Steps (.start n .new) past s) (hat : s.At t stage)
    (hm : ∃ c', LinkedAt (s.advance t).1 t c' ∧
      Moved c s.heap.values (.ofLinked (s.heap.step stage).2.answer?) c' (s.advance t).1.heap.values) :
    Stepped (LinkedValid n) LinkedAt t c s (Channel.goOn 0 t s) := by
  refine ⟨⟨_, h.access t hat⟩, ?_, ?_⟩
  · rw [← System.advance_answer hat] at hm
    exact hm
  · intro t' c' hne ha
    have hacc := System.access_advance hat
    obtain ⟨j, ht⟩ := h.tame
    exact ha.of_eq (hacc.other t' hne) fun m hm => value?_step hacc.step (ht.fresh t' m hm).2

theorem values_of_quiet (h : Steps (.start n .new) past s) (hat : s.At t stage)
    (hl : Event.link? ⟨t, stage, (s.heap.step stage).2⟩ = none) :
    (s.heap.step stage).2.value?.toList ++ (s.advance t).1.heap.values = s.heap.values := by
  rw [h.values_step hat, Event.entry?, hl]
  exact List.append_nil _

theorem moved_offering (h : Steps (.start n .new) past s) (hat : s.At t stage)
    (ha : stage = .push v ∨ ∃ m, stage.owned? = some m ∧ s.heap.value? m = some v) :
    ∃ c', LinkedAt (s.advance t).1 t c' ∧
      Moved (.offering v) s.heap.values (.ofLinked (s.heap.step stage).2.answer?) c' (s.advance t).1.heap.values := by
  have hacc := System.access_advance hat
  obtain ⟨j, ht⟩ := h.tame
  rcases nodes_cases hacc.step with ⟨w, hw, hheap, ho⟩ | ⟨p, hl, -, -, ho⟩ | ⟨hpush, hl, -, howned⟩
  · -- the first access makes the node
    obtain rfl : stage = .push w := hw
    have hwv : w = v := by
      rcases ha with ha | ⟨m, hm, -⟩
      · exact Stage.push.inj ha
      · cases hm
    have hvalues := values_of_quiet h hat rfl
    refine ⟨.offering v, .inr ⟨s.heap.nodes.size, ?_, ?_⟩, ?_⟩
    · rw [hacc.owned?_self]; rfl
    · rw [hheap, Heap.value?_alloc, if_pos rfl, hwv]
    · rw [← hvalues]
      exact .wait nofun
  · -- the link
    obtain rfl : stage = .pushLink p.2 p.1 := link?_eq_some hl
    have hown : s.owned? t = some p.2 := hacc.owned?_was
    have hval : s.heap.value? p.2 = some v := by
      rcases ha with ha | ⟨m, hm, hv⟩
      · cases ha
      · rw [Option.some.inj hm]
        exact hv
    have hvalues := h.values_step hat
    rw [Event.entry?, hl, h.kept.last_started hown hval,
      show (s.heap.step (.pushLink p.2 p.1)).2 = _ from ho] at hvalues
    refine ⟨.offered, ⟨p.2, p.1, hacc.goOn ho⟩, ?_⟩
    rw [show (s.heap.step (.pushLink p.2 p.1)).2 = _ from ho, show (s.advance t).1.heap.values = _ from hvalues]
    exact .put
  · obtain ⟨m, hm, hv⟩ : ∃ m, stage.owned? = some m ∧ s.heap.value? m = some v := by
      rcases ha with ha | ha
      · exact absurd ha (hpush v)
      · exact ha
    obtain ⟨stage', ho, hm'⟩ := Option.bind_eq_some_iff.mp (howned.trans hm)
    have hgo : (s.heap.step stage).2 = .goOn stage' := eq_goOn ho
    have hvalues := values_of_quiet h hat hl
    rw [hgo] at hvalues
    have hlt := (ht.fresh t m (hacc.owned?_was.trans hm)).2
    refine ⟨.offering v, .inr ⟨m, ?_, (value?_step hacc.step hlt).trans hv⟩, ?_⟩
    · rw [hacc.owned?_self]
      exact howned.trans hm
    · rw [hgo, ← hvalues]
      exact .wait nofun

theorem moved_offered (h : Steps (.start n .new) past s) {node tail : Nat} (hat : s.At t (.pushSwing node tail)) :
    ∃ c', LinkedAt (s.advance t).1 t c' ∧
      Moved .offered s.heap.values (.ofLinked (s.heap.step (.pushSwing node tail)).2.answer?) c'
        (s.advance t).1.heap.values := by
  have hvalues : (s.advance t).1.heap.values = s.heap.values ++ [] := h.values_step hat
  rw [List.append_nil] at hvalues
  refine ⟨.idle, (System.access_advance hat).self, ?_⟩
  rw [hvalues]
  exact .returned

theorem moved_seeking (h : Steps (.start n .new) past s) (hat : s.At t stage) (hp : stage.isPop = true) :
    ∃ c', LinkedAt (s.advance t).1 t c' ∧
      Moved .seeking s.heap.values (.ofLinked (s.heap.step stage).2.answer?) c' (s.advance t).1.heap.values := by
  have hacc := System.access_advance hat
  have hl : Event.link? ⟨t, stage, (s.heap.step stage).2⟩ = none := by
    cases stage with
    | pushLink => cases hp
    | _ => rfl
  have hvalues := values_of_quiet h hat hl
  have hself := hacc.self
  rcases pop_cases s.heap hp with ⟨stage', ho, hp'⟩ | ⟨v, ho⟩ | ho
  · rw [ho] at hvalues ⊢
    refine ⟨.seeking, ⟨stage', hacc.goOn ho, hp'⟩, ?_⟩
    rw [← hvalues]
    exact .wait nofun
  · rw [ho] at hvalues hself ⊢
    refine ⟨.idle, hself, ?_⟩
    rw [← hvalues]
    exact .value
  · rw [ho] at hvalues hself ⊢
    refine ⟨.idle, hself, ?_⟩
    rw [← hvalues]
    exact .nothing

theorem stepped_advance (pick : Nat) (h : LinkedValid n s) (ha : LinkedAt s t c) (hc : c ≠ .idle) :
    Stepped (LinkedValid n) LinkedAt t c s (Channel.goOn pick t s) := by
  obtain ⟨past, h⟩ := h
  cases c with
  | idle => exact absurd rfl hc
  | offering v =>
    rcases ha with ha | ⟨m, hm, hv⟩
    · exact stepped_access h ha (moved_offering h ha (.inl rfl))
    · obtain ⟨stage, hat, hown⟩ : ∃ stage, s.At t stage ∧ stage.owned? = some m := by
        obtain ⟨stage, hjoin, hown⟩ := Option.bind_eq_some_iff.mp hm
        exact ⟨stage, Option.join_eq_some_iff.mp hjoin, hown⟩
      exact stepped_access h hat (moved_offering h hat (.inr ⟨m, hown, hv⟩))
  | offered =>
    obtain ⟨node, tail, hat⟩ := ha
    exact stepped_access h hat (moved_offered h hat)
  | seeking =>
    obtain ⟨stage, hat, hp⟩ := ha
    exact stepped_access h hat (moved_seeking h hat hp)

instance linkedFaithful : Faithful (System Int64) where
  Valid := LinkedValid
  At := LinkedAt
  push _ _ h _ ha := stepped_enter h ha rfl (.inl (System.calls_enter_self ha)) nofun
  pop _ h _ ha := stepped_enter h ha rfl ⟨.pop, System.calls_enter_self ha, rfl⟩ nofun
  goOn pick h ha hc := stepped_advance pick h ha hc

end Conduit.Pipeline
