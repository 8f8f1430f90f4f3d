import Conduit.Proofs.Linked.Order

/-!
# From the start of a call to its answer

While a thread is in a call the others go on. A pop that finds nothing, and a
question that is answered with yes, see in their last access that the head they
read is the last node, and the head cannot have left it. A question that is
answered with no may be late, but then a value was taken since it read the head.
So every answer was right at some instant of the call (`answered_in_time`).
-/

namespace Conduit.Linked

section
variable {α : Type}

/-- Where an access leads that does not end its call. -/
inductive Leads (h : Heap α) : Stage α → Stage α → Prop
  | made (v : α) : Leads h (.push v) (.pushLook h.nodes.size h.tail)
  | lagging {node tail next : Nat} : h.next? tail = some next →
      Leads h (.pushLook node tail) (.pushHelp node tail next)
  | last {node tail : Nat} : h.next? tail = none → Leads h (.pushLook node tail) (.pushLink node tail)
  | helped {node tail next : Nat} : Leads h (.pushHelp node tail next) (.pushLook node next)
  | lost {node tail next : Nat} : h.next? tail = some next →
      Leads h (.pushLink node tail) (.pushHelp node tail next)
  | linked {node tail : Nat} : h.next? tail = none → Leads h (.pushLink node tail) (.pushSwing node tail)
  | headRead : Leads h .pop (.popTail h.head)
  | tailRead {head : Nat} : Leads h (.popTail head) (.popLook head h.tail)
  | together {head next : Nat} : h.next? head = some next → Leads h (.popLook head head) (.popHelp head next)
  | apart {head tail next : Nat} : h.next? head = some next → head ≠ tail →
      Leads h (.popLook head tail) (.popClaim head next)
  | moved {tail next : Nat} : Leads h (.popHelp tail next) .pop
  | taken {head next : Nat} : h.head ≠ head → Leads h (.popClaim head next) .pop
  | asked : Leads h .ask (.askLook h.head)

/-- Thread `t` is in one call all along a run, and stands at `stage` now. -/
inductive Inside (t : Nat) (s : System α) : List (Event α) → System α → Stage α → Prop
  | start {stage : Stage α} : s.At t stage → Inside t s [] s stage
  | enter {more : List (Event α)} {s₁ : System α} {stage : Stage α} (t' : Nat) (stage' : Stage α) :
      Inside t s more s₁ stage → s₁.calls[t']? = some none → stage'.opens = true →
      Inside t s more (s₁.enter t' stage') stage
  | other {more : List (Event α)} {s₁ : System α} {stage : Stage α} (t' : Nat) {stage' : Stage α} :
      Inside t s more s₁ stage → t' ≠ t → s₁.At t' stage' →
      Inside t s (⟨t', stage', (s₁.heap.step stage').2⟩ :: more) (s₁.advance t').1 stage
  | own {more : List (Event α)} {s₁ : System α} {stage stage' : Stage α} :
      Inside t s more s₁ stage → (s₁.heap.step stage).2 = .goOn stage' →
      Inside t s (⟨t, stage, .goOn stage'⟩ :: more) (s₁.advance t).1 stage'

def AtSome (P : System α → Prop) (s : System α) (more : List (Event α)) (s' : System α) : Prop :=
  ∃ earlier later s₁, more = later ++ earlier ∧ Steps s earlier s₁ ∧ Steps s₁ later s' ∧ P s₁

variable {past more during : List (Event α)} {s s' s'' : System α} {e : Event α} {stage stage' call : Stage α}
  {h : Heap α} {a : Answer α} {P : System α → Prop} {i j k t t' n threads : Nat}

theorem Steps.trans (h : Steps s past s') (h' : Steps s' more s'') : Steps s (more ++ past) s'' := by
  induction h' with
  | refl => exact h
  | enter t stage _ hc ho ih => exact .enter t stage ih hc ho
  | access t _ hc ih => exact .access t ih hc

/-! ## Inside a call -/

theorem leads_of_step (ho : (h.step stage).2 = .goOn stage') : Leads h stage stage' := by
  cases stage with
  | push v =>
    cases ho
    exact .made v
  | pushLook node tail =>
    simp only [Heap.step] at ho
    split at ho <;> cases ho
    · exact .lagging ‹_›
    · exact .last ‹_›
  | pushHelp =>
    cases ho
    exact .helped
  | pushLink node tail =>
    simp only [Heap.step] at ho
    split at ho <;> cases ho
    · exact .lost ‹_›
    · exact .linked ‹_›
  | pop =>
    cases ho
    exact .headRead
  | popTail =>
    cases ho
    exact .tailRead
  | popLook head tail =>
    simp only [Heap.step] at ho
    split at ho
    · cases ho
    · split at ho <;> cases ho
      · rename_i heq
        subst heq
        exact .together ‹_›
      · exact .apart ‹_› ‹_›
  | popHelp =>
    cases ho
    exact .moved
  | popClaim head next =>
    simp only [Heap.step] at ho
    split at ho <;> cases ho
    exact .taken ‹_›
  | ask =>
    cases ho
    exact .asked
  | pushSwing | askLook => cases ho

theorem System.access_own (h : s.At t stage) (ho : (s.heap.step stage).2 = .goOn stage') :
    Access s ⟨t, stage, .goOn stage'⟩ (s.advance t).1 := ho ▸ System.access_advance h

theorem System.at_enter (hc : s.calls[t]? = some none) : (s.enter t call).At t call := by
  obtain ⟨heap, calls⟩ := s
  exact Array.getElem?_setIfInBounds_self_of_lt (Array.getElem?_eq_some_iff.mp hc).1

theorem System.At.inj (ha : s.At t stage) (ha' : s.At t stage') : stage = stage' :=
  Option.some.inj (Option.some.inj (ha.symm.trans ha'))

theorem Inside.at (h : Inside t s more s' stage) : s'.At t stage := by
  induction h with
  | start ha => exact ha
  | enter t' stage' _ hc _ ih => exact ih.enter hc
  | other t' _ hne hs ih => exact (System.access_advance hs).keep hne.symm ih
  | own _ ho ih => exact (System.access_own ih ho).goOn rfl

theorem Inside.steps (h : Inside t s more s' stage) : Steps s more s' := by
  induction h with
  | start => exact .refl
  | enter t' stage' _ hc ho ih => exact .enter t' stage' ih hc ho
  | other t' _ _ hs ih => exact .access t' ih hs
  | own h ho ih => exact ho ▸ Steps.access _ ih h.at

theorem Steps.inside (h : Steps s during s') (ha : s.At t call)
    (hgo : ∀ e ∈ during, e.thread = t → ∀ a, e.outcome ≠ .done a) : ∃ stage, Inside t s during s' stage := by
  induction h with
  | refl => exact ⟨call, .start ha⟩
  | enter t' stage' _ hc ho ih =>
    obtain ⟨stage, hin⟩ := ih hgo
    exact ⟨stage, hin.enter t' stage' hc ho⟩
  | @access during s₁ t' stage' _ hc ih =>
    obtain ⟨hlast, hgo⟩ := List.forall_mem_cons.mp hgo
    obtain ⟨stage, hin⟩ := ih hgo
    by_cases ht : t' = t
    · subst ht
      cases hin.at.inj hc
      cases ho : (s₁.heap.step stage').2 with
      | goOn next => exact ⟨next, hin.own ho⟩
      | done a => exact absurd ho (hlast rfl a)
    · exact ⟨stage, hin.other t' ht hc⟩

/-! ## Instants -/

theorem AtSome.last (h : Steps s more s') (hp : P s') : AtSome P s more s' := ⟨more, [], s', rfl, h, .refl, hp⟩

theorem AtSome.append (h : AtSome P s more s') (h' : Steps s' during s'') : AtSome P s (during ++ more) s'' := by
  obtain ⟨earlier, later, s₁, rfl, he, hl, hp⟩ := h
  exact ⟨earlier, during ++ later, s₁, (List.append_assoc _ _ _).symm, he, hl.trans h', hp⟩

/-! ## An empty queue -/

theorem Steps.values_eq_nil_iff (h : Steps (.start threads .new) past s) :
    s.heap.values = [] ↔ (chain past).length = (claims past).length + 1 := by
  obtain ⟨j, ht⟩ := h.tame
  have hlen := h.kept.length_pushed
  have hlt := (List.getElem?_eq_some_iff.mp ht.shape.head).1
  rw [h.kept.values_left ht, List.map_eq_nil_iff, List.drop_eq_nil_iff]
  omega

/-- The head has not moved back, so a head that was seen and is the last node is the head still. -/
theorem Tame.length_chain_of_last (ht : Tame past s j) (hk : k ≤ (claims past).length)
    (hn : (chain past)[k]? = some n) (hnext : s.heap.next? n = none) :
    (chain past).length = (claims past).length + 1 := by
  have hlast := ht.shape.last_of_next_none hn hnext
  have hlt := (List.getElem?_eq_some_iff.mp ht.shape.head).1
  omega

theorem head_of_claim_none {h h' : Heap α} (he : h.step e.stage = (h', e.outcome)) (hp : e.claim? = none) :
    h'.head = h.head := by
  obtain ⟨t, st, outcome⟩ := e
  simp only at he
  cases st with
  | popClaim head next =>
    simp only [Heap.step] at he
    split at he
    · cases he
      cases hp
    · cases he
      rfl
  | pushHelp | pushSwing | popHelp =>
    cases he
    exact Heap.head_moveTail ..
  | pushLook | pushLink | popLook =>
    simp only [Heap.step] at he
    (repeat' split at he) <;> cases he <;> rfl
  | push | pop | popTail | ask | askLook =>
    cases he
    rfl

theorem empty_cases {h h' : Heap α} {b : Bool} (he : h.step e.stage = (h', e.outcome))
    (ho : e.outcome = .done (.empty b)) : ∃ head, e.stage = .askLook head ∧ b = (h.next? head).isNone := by
  obtain ⟨t, st, outcome⟩ := e
  simp only at he ho
  subst ho
  cases st with
  | askLook head =>
    cases he
    exact ⟨head, rfl, rfl⟩
  | pushLook | pushLink | popLook =>
    simp only [Heap.step] at he
    (repeat' split at he) <;> cases he
  | popClaim head next =>
    simp only [Heap.step] at he
    split at he
    · have hans := (Prod.mk.inj he).2
      split at hans <;> cases hans
    · cases he
  | push | pushHelp | pushSwing | pop | popTail | popHelp | ask => cases he

theorem values_of_nothing (h : Steps (.start threads .new) past s) (hs : s.At t stage)
    (ha : (s.heap.step stage).2 = .done .nothing) : s.heap.values = [] := by
  obtain ⟨j, ht⟩ := h.tame
  have hlen := h.kept.nothing ht (System.access_advance hs) ha
  rw [h.values_eq_nil_iff, ← h.kept.length_pushed, hlen]

theorem values_of_empty (h : Steps (.start threads .new) past s) (hs : s.At t stage)
    (ha : (s.heap.step stage).2 = .done (.empty true)) : s.heap.values = [] := by
  obtain ⟨j, ht⟩ := h.tame
  have hacc := System.access_advance hs
  obtain ⟨head, rfl, hb⟩ := empty_cases hacc.step ha
  obtain ⟨k, hk, hn⟩ := ht.sees t _ hs
  exact h.values_eq_nil_iff.mpr (ht.length_chain_of_last hk hn (Option.isNone_iff_eq_none.mp hb.symm))

/-! ## A queue that is not empty -/

theorem values_of_claim (h : Steps (.start threads .new) past s) (ha : Access s e s') {p : Nat × Nat}
    (hp : e.claim? = some p) : s.heap.values ≠ [] := by
  obtain ⟨j, ht⟩ := h.tame
  have hlt := (List.getElem?_eq_some_iff.mp (ht.claim_at ha hp).2).1
  rw [Ne, h.values_eq_nil_iff]
  omega

/-- The head that a question has read is still the head, or there was a value since. -/
theorem Inside.asked (h : Steps (.start threads .new) past s) (hin : Inside t s during s' stage)
    (hs : ∀ head, ¬ s.At t (.askLook head)) {head : Nat} (hh : stage = .askLook head) :
    AtSome (fun s => s.heap.values ≠ []) s during s' ∨ s'.heap.head = head := by
  induction hin with
  | start ha => exact absurd (hh ▸ ha) (hs head)
  | enter t' stage' hin hc ho ih =>
    rcases ih hh with hsome | hhead
    · exact .inl (hsome.append (.enter t' stage' .refl hc ho))
    · exact .inr hhead
  | other t' hin _ hs' ih =>
    have hacc := System.access_advance hs'
    rcases ih hh with hsome | hhead
    · exact .inl (hsome.append (.access t' .refl hs'))
    · cases hp : Event.claim? ⟨t', _, _⟩ with
      | some p =>
        have hvalues := values_of_claim (h.trans hin.steps) hacc hp
        exact .inl ((AtSome.last hin.steps hvalues).append (.access t' .refl hs'))
      | none => exact .inr ((head_of_claim_none hacc.step hp).trans hhead)
  | own hin ho ih =>
    subst hh
    -- only reading the head leads there
    cases leads_of_step ho with
    | asked =>
      have hstep := (System.access_own hin.at ho).step
      exact .inr (congrArg Heap.head (Prod.mk.inj hstep).1).symm

theorem values_of_filled (h : Steps (.start threads .new) past s) (hin : Inside t s during s' stage)
    (hs : ∀ head, ¬ s.At t (.askLook head)) (ha : (s'.heap.step stage).2 = .done (.empty false)) :
    AtSome (fun s => s.heap.values ≠ []) s during s' := by
  obtain ⟨head, rfl, hb⟩ := empty_cases (System.access_advance hin.at).step ha
  rcases hin.asked h hs rfl with hsome | hhead
  · exact hsome
  · refine .last hin.steps ?_
    have h' := h.trans hin.steps
    obtain ⟨j, ht⟩ := h'.tame
    have hnext := ht.shape.next_at ht.shape.head
    rw [hhead] at hnext
    intro hnil
    rw [List.getElem?_eq_none (Nat.le_of_eq (h'.values_eq_nil_iff.mp hnil))] at hnext
    rw [hnext] at hb
    cases hb

/-! ## A push that is over -/

theorem Steps.linked_of_pushed (h : Steps (.start threads .new) past s) : ∀ e ∈ past, ∀ node tail,
    e.stage = .pushSwing node tail → node ∈ (links past).map Prod.snd := by
  refine h.invariant (P := fun past _ => ∀ e ∈ past, ∀ node tail, e.stage = .pushSwing node tail →
    node ∈ (links past).map Prod.snd) nofun (fun _ _ _ _ ih _ _ => ih) ?_
  intro past s j e s' _ ht ha ih e' he' node tail hstage
  rw [links_cons, List.map_append, List.mem_append]
  left
  rcases List.mem_cons.mp he' with rfl | hold
  · obtain ⟨k, -, -, hnode⟩ := ht.seen ha hstage
    rw [chain, List.getElem?_cons_succ] at hnode
    exact List.mem_of_getElem? hnode
  · exact ih e' hold node tail hstage

theorem Steps.claimed_of_values_nil (h : Steps (.start threads .new) past s) (hnil : s.heap.values = []) :
    claims past = links past := by
  have hlen := h.values_eq_nil_iff.mp hnil
  rw [chain, List.length_cons, List.length_map] at hlen
  exact h.claims_le_links.eq_of_length (by omega)

theorem mem_claims {p : Nat × Nat} (hp : p ∈ claims past) : ∃ e ∈ past, e.claim? = some p := by
  obtain ⟨e, he, hp⟩ := List.mem_filterMap.mp hp
  exact ⟨e, List.mem_reverse.mp he, hp⟩

/-! ## Answers -/

/-- The answer `a` to a call that was entered in `s` and gives it in `s'`. -/
structure InTime (past : List (Event α)) (s : System α) (during : List (Event α)) (s' : System α)
    (a : Answer α) : Prop where
  nothing : a = .nothing → AtSome (fun s => s.heap.values = []) s during s'
  empty : a = .empty true → AtSome (fun s => s.heap.values = []) s during s'
  filled : a = .empty false → AtSome (fun s => s.heap.values ≠ []) s during s'
  pushed : ∀ e ∈ past, ∀ node tail, e.stage = .pushSwing node tail →
    (∀ e' ∈ during ++ past, ∀ p, e'.claim? = some p → p.2 ≠ node) → a ≠ .nothing

theorem answered_in_time (h : Steps (.start threads .new) past s) (hc : s.calls[t]? = some none)
    (ho : call.opens = true) (hin : Inside t (s.enter t call) during s' stage)
    (ha : (s'.heap.step stage).2 = .done a) : InTime past (s.enter t call) during s' a := by
  have h₀ : Steps (.start threads .new) past (s.enter t call) := .enter t call h hc ho
  have h' := h₀.trans hin.steps
  have hs : ∀ head, ¬ (s.enter t call).At t (.askLook head) := by
    intro head hat
    cases (System.at_enter hc).inj hat
    cases ho
  constructor
  · rintro rfl
    exact .last hin.steps (values_of_nothing h' hin.at ha)
  · rintro rfl
    exact .last hin.steps (values_of_empty h' hin.at ha)
  · rintro rfl
    exact values_of_filled h₀ hin hs ha
  · rintro e he node tail hstage hfree rfl
    have hlinked := h'.linked_of_pushed e (List.mem_append_right _ he) node tail hstage
    rw [← h'.claimed_of_values_nil (values_of_nothing h' hin.at ha)] at hlinked
    obtain ⟨p, hp, hnode⟩ := List.mem_map.mp hlinked
    obtain ⟨e', he', hp'⟩ := mem_claims hp
    exact hfree e' he' p hp' hnode

end

/-- A value is pushed before the question, and taken after the head was read for it. -/
def pushedLog : List (Event Nat) :=
  [⟨0, .pushSwing 1 0, .done .pushed⟩, ⟨0, .pushLink 1 0, .goOn (.pushSwing 1 0)⟩,
    ⟨0, .pushLook 1 0, .goOn (.pushLink 1 0)⟩, ⟨0, .push 7, .goOn (.pushLook 1 0)⟩]

def pushedOnce : System Nat := ⟨⟨#[⟨none, some 1⟩, ⟨some 7, none⟩], 0, 1⟩, #[none, none]⟩

def askedLog : List (Event Nat) :=
  [⟨0, .popClaim 0 1, .done (.value 7)⟩, ⟨0, .popLook 0 1, .goOn (.popClaim 0 1)⟩,
    ⟨0, .popTail 0, .goOn (.popLook 0 1)⟩, ⟨0, .pop, .goOn (.popTail 0)⟩, ⟨1, .ask, .goOn (.askLook 0)⟩]

theorem answered_in_time_late : ∃ s s' : System Nat, Steps (.start 2 .new) pushedLog s ∧
    s.calls[1]? = some none ∧ Inside 1 (s.enter 1 .ask) askedLog s' (.askLook 0) ∧
    (s'.heap.step (.askLook 0)).2 = .done (.empty false) ∧ s'.heap.values = [] ∧
    AtSome (fun s => s.heap.values ≠ []) (s.enter 1 .ask) askedLog s' := by
  have called : Steps (.start 2 .new) _ (_ : System Nat) := .enter 0 (.push 7) .refl rfl rfl
  have pushed : Steps (.start 2 .new) pushedLog pushedOnce :=
    (((called.access 0 rfl).access 0 rfl).access 0 rfl).access 0 rfl
  have asked : Inside 1 (pushedOnce.enter 1 .ask) _ (_ : System Nat) _ := .own (.start rfl) rfl
  have popping := asked.enter 0 .pop rfl rfl
  have late : Inside 1 _ askedLog (_ : System Nat) _ :=
    (((popping.other 0 (by decide) rfl).other 0 (by decide) rfl).other 0 (by decide) rfl).other 0 (by decide) rfl
  exact ⟨_, _, pushed, rfl, late, rfl, rfl, (answered_in_time pushed rfl rfl late rfl).filled rfl⟩

end Conduit.Linked
