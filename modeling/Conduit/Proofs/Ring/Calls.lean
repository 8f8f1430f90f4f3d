import Conduit.Proofs.Ring.Slots

/-!
# Calls that are under way

While one side is in a call the other goes on. What the call has seen is known
from its stage, and meanwhile its side ends no other call, so an index that only
this side stores stands still.
-/

namespace Conduit.Ring

section
variable {α : Type}

def madeBy (side : Side) (past : List (Event α)) : Nat := past.countP (·.side = side)

/-- Where an access leads that does not end its call. -/
inductive Leads (b : Buffer α) : Stage α → Stage α → Prop
  | tailRead (v : α) : Leads b (.push v) (.pushLook v b.tail)
  | room {v : α} {tail : Nat} : b.increment tail ≠ b.head → Leads b (.pushLook v tail) (.pushWrite v tail)
  | written {v : α} {tail : Nat} : Leads b (.pushWrite v tail) (.pushPublish (b.increment tail))
  | headRead : Leads b .pop (.popLook b.head)
  | filled {head : Nat} : head ≠ b.tail → Leads b (.popLook head) (.popRead head)
  | taken {v : α} {head : Nat} : Leads b (.popRead head) (.popPublish v (b.increment head))
  | asked : Leads b .length (.lengthFrom b.head)

/-- One side is in one call all along a run, and stands at `stage` now. -/
inductive Inside (side : Side) (s : System α) : List (Event α) → System α → Stage α → Prop
  | start {stage : Stage α} : s.call? side = some stage → Inside side s [] s stage
  | enter {more : List (Event α)} {s₁ : System α} {stage : Stage α} (side' : Side) (stage' : Stage α) :
      Inside side s more s₁ stage → s₁.call? side' = none → side'.opens stage' = true →
      Inside side s more (s₁.enter side' stage') stage
  | other {more : List (Event α)} {s₁ : System α} {stage : Stage α} (side' : Side) {stage' : Stage α} :
      Inside side s more s₁ stage → side' ≠ side → s₁.call? side' = some stage' →
      Inside side s (⟨side', stage', (s₁.buffer.step stage').2⟩ :: more) (s₁.advance side') stage
  | own {more : List (Event α)} {s₁ : System α} {stage stage' : Stage α} :
      Inside side s more s₁ stage → (s₁.buffer.step stage).2 = .goOn stage' →
      Inside side s (⟨side, stage, .goOn stage'⟩ :: more) (s₁.advance side) stage'

/-- A call that was entered in `s` goes on in `s'`, with the access at `stage` to be made next. -/
structure During (side : Side) (call : Stage α) (s : System α) (during : List (Event α)) (s' : System α)
    (stage : Stage α) : Prop where
  idle : s.call? side = none
  opens : side.opens call = true
  inside : Inside side (s.enter side call) during s' stage

inductive Pushes (v : α) : Stage α → Prop
  | push : Pushes v (.push v)
  | pushLook (tail : Nat) : Pushes v (.pushLook v tail)
  | pushWrite (tail : Nat) : Pushes v (.pushWrite v tail)
  | pushPublish (next : Nat) : Pushes v (.pushPublish next)

inductive Pops : Stage α → Prop
  | pop : Pops .pop
  | popLook (head : Nat) : Pops (.popLook head)
  | popRead (head : Nat) : Pops (.popRead head)
  | popPublish (v : α) (next : Nat) : Pops (.popPublish v next)

variable {size : Nat} {side side' : Side} {b : Buffer α} {s s' : System α} {stage stage' call : Stage α}
  {e : Event α} {past more during : List (Event α)} {v : α}

/-! ## Inside a call -/

theorem leads_of_step (ho : (b.step stage).2 = .goOn stage') : Leads b stage stage' := by
  cases stage with
  | push v =>
    cases ho
    exact .tailRead v
  | pushLook v tail =>
    simp only [Buffer.step] at ho
    split at ho <;> cases ho
    exact .room ‹_›
  | pushWrite v tail =>
    cases ho
    exact .written
  | pop =>
    cases ho
    exact .headRead
  | popLook head =>
    simp only [Buffer.step] at ho
    split at ho <;> cases ho
    exact .filled ‹_›
  | popRead head =>
    simp only [Buffer.step] at ho
    split at ho <;> cases ho
    exact .taken
  | length =>
    cases ho
    exact .asked
  | pushPublish | popPublish | lengthFrom => cases ho

theorem Leads.pushes (h : Leads b stage stage') (hp : Pushes v stage) : Pushes v stage' := by
  cases hp with
  | push =>
    cases h
    exact .pushLook _
  | pushLook tail =>
    cases h
    exact .pushWrite _
  | pushWrite tail =>
    cases h
    exact .pushPublish _
  | pushPublish => cases h

theorem Leads.pops (h : Leads b stage stage') (hp : Pops stage) : Pops stage' := by
  cases hp with
  | pop =>
    cases h
    exact .popLook _
  | popLook head =>
    cases h
    exact .popRead _
  | popRead head =>
    cases h
    exact .popPublish _ _
  | popPublish => cases h

theorem System.call?_enter (s : System α) (side : Side) (stage : Stage α) :
    (s.enter side stage).call? side = some stage := by
  cases side <;> rfl

theorem System.call?_enter_ne (s : System α) (stage : Stage α) (h : side' ≠ side) :
    (s.enter side' stage).call? side = s.call? side := by
  cases side <;> cases side' <;> first | exact absurd rfl h | rfl

theorem System.call?_advance (h : s.call? side = some stage) :
    (s.advance side).call? side = (s.buffer.step stage).2.stage? := by
  cases side with
  | producer => rw [System.advance_producer h]; rfl
  | consumer => rw [System.advance_consumer h]; rfl

theorem System.call?_advance_ne (hc : s.call? side' = some stage) (h : side' ≠ side) :
    (s.advance side').call? side = s.call? side := by
  cases side' with
  | producer =>
    cases side with
    | producer => exact absurd rfl h
    | consumer => rw [System.advance_producer hc]; rfl
  | consumer =>
    cases side with
    | producer => rw [System.advance_consumer hc]; rfl
    | consumer => exact absurd rfl h

theorem Inside.at (h : Inside side s during s' stage) : s'.call? side = some stage := by
  induction h with
  | start hc => exact hc
  | enter side' stage' _ hc _ ih =>
    refine (System.call?_enter_ne _ _ ?_).trans ih
    rintro rfl
    rw [hc] at ih
    cases ih
  | other side' _ hne hc ih => exact (System.call?_advance_ne hc hne).trans ih
  | own _ ho ih => rw [System.call?_advance ih, ho]; rfl

theorem Inside.steps (h : Inside side s during s' stage) : Steps s during s' := by
  induction h with
  | start => exact .refl
  | enter side' stage' _ hc ho ih => exact ih.enter side' stage' hc ho
  | other side' _ _ hc ih => exact ih.access side' hc
  | own h ho ih => exact ho ▸ Steps.access side ih h.at

theorem Steps.inside (h : Steps s during s') (hc : s.call? side = some call)
    (hgo : ∀ e ∈ during, e.side = side → e.outcome.answer? = none) : ∃ stage, Inside side s during s' stage := by
  induction h with
  | refl => exact ⟨call, .start hc⟩
  | enter side' stage' _ hc' ho ih =>
    obtain ⟨stage, hin⟩ := ih hgo
    exact ⟨stage, hin.enter side' stage' hc' ho⟩
  | @access during s₁ side' stage' _ hc' ih =>
    obtain ⟨hlast, hgo⟩ := List.forall_mem_cons.mp hgo
    obtain ⟨stage, hin⟩ := ih hgo
    by_cases hs : side' = side
    · subst hs
      obtain rfl : stage = stage' := Option.some.inj (hin.at.symm.trans hc')
      cases ho : (s₁.buffer.step stage).2 with
      | goOn next => exact ⟨next, hin.own ho⟩
      | done a =>
        have hnone := hlast rfl
        rw [ho] at hnone
        cases hnone
    · exact ⟨stage, hin.other side' hs hc'⟩

theorem Inside.unanswered (h : Inside side s during s' stage) :
    ∀ e ∈ during, e.side = side → e.outcome.answer? = none := by
  induction h with
  | start => exact nofun
  | enter _ _ _ _ _ ih => exact ih
  | other side' _ hne _ ih => exact List.forall_mem_cons.mpr ⟨fun h => absurd h hne, ih⟩
  | own _ _ ih => exact List.forall_mem_cons.mpr ⟨fun _ => rfl, ih⟩

theorem madeBy_own (stage : Stage α) (o : Outcome α) :
    madeBy side (⟨side, stage, o⟩ :: past) = madeBy side past + 1 := by
  rw [madeBy, List.countP_cons_of_pos (by simp), madeBy]

theorem madeBy_other (h : e.side ≠ side) : madeBy side (e :: past) = madeBy side past := by
  rw [madeBy, List.countP_cons_of_neg (by simpa using h), madeBy]

theorem Inside.made (h : Inside side s during s' stage) (hc : s.call? side = some call) :
    madeBy side during + call.made = stage.made := by
  induction h with
  | start hc' =>
    obtain rfl := Option.some.inj (hc.symm.trans hc')
    exact Nat.zero_add _
  | enter _ _ _ _ _ ih => exact ih
  | other side' _ hne _ ih => rwa [madeBy_other hne]
  | own _ ho ih =>
    rw [madeBy_own, Buffer.made_step ho, ← ih]
    omega

theorem Inside.pushes (h : Inside side s during s' stage) (hc : s.call? side = some (.push v)) :
    Pushes v stage := by
  induction h with
  | start hc' =>
    obtain rfl := Option.some.inj (hc.symm.trans hc')
    exact .push
  | enter _ _ _ _ _ ih => exact ih
  | other _ _ _ _ ih => exact ih
  | own _ ho ih => exact (leads_of_step ho).pushes ih

theorem Inside.pops (h : Inside side s during s' stage) (hc : s.call? side = some .pop) : Pops stage := by
  induction h with
  | start hc' =>
    obtain rfl := Option.some.inj (hc.symm.trans hc')
    exact .pop
  | enter _ _ _ _ _ ih => exact ih
  | other _ _ _ _ ih => exact ih
  | own _ ho ih => exact (leads_of_step ho).pops ih

/-- Where a question stands: it has read nothing, or the head at some instant of the call. -/
theorem Inside.asks (h : Inside side s during s' stage) (hc : s.call? side = some .length) :
    madeBy side during = 0 ∧ stage = .length ∨
      ∃ later s₁ earlier, during = later ++ ⟨side, .length, .goOn (.lengthFrom s₁.buffer.head)⟩ :: earlier ∧
        Steps s earlier s₁ ∧ stage = .lengthFrom s₁.buffer.head := by
  induction h with
  | start hc' => exact .inl ⟨rfl, (Option.some.inj (hc.symm.trans hc')).symm⟩
  | enter _ _ _ _ _ ih => exact ih
  | other side' _ hne _ ih =>
    rcases ih with ⟨hmade, rfl⟩ | ⟨later, s₁, earlier, rfl, hsteps, rfl⟩
    · exact .inl ⟨(madeBy_other hne).trans hmade, rfl⟩
    · exact .inr ⟨_ :: later, s₁, earlier, rfl, hsteps, rfl⟩
  | own hin ho ih =>
    rcases ih with ⟨-, rfl⟩ | ⟨later, s₁, earlier, -, -, rfl⟩
    · cases ho
      exact .inr ⟨[], _, _, rfl, hin.steps, rfl⟩
    · cases ho

/-! ## The other side -/

theorem pushed_append (h : ∀ e ∈ more, e.published = false) : pushed (more ++ past) = pushed past := by
  induction more with
  | nil => rfl
  | cons e more ih =>
    obtain ⟨he, hmore⟩ := List.forall_mem_cons.mp h
    rw [List.cons_append, pushed, he, ih hmore]
    rfl

theorem popped_append (h : ∀ e ∈ more, e.popped? = none) : popped (more ++ past) = popped past := by
  induction more with
  | nil => rfl
  | cons e more ih =>
    obtain ⟨he, hmore⟩ := List.forall_mem_cons.mp h
    rw [List.cons_append, popped, he]
    exact ih hmore

theorem length_pushed_le (more past : List (Event α)) : (pushed past).length ≤ (pushed (more ++ past)).length := by
  induction more with
  | nil => exact Nat.le_refl _
  | cons e more ih =>
    refine ih.trans ?_
    rw [List.cons_append, pushed]
    split
    · rw [List.length_append]; omega
    · exact Nat.le_refl _

theorem length_popped_le (more past : List (Event α)) : (popped past).length ≤ (popped (more ++ past)).length := by
  induction more with
  | nil => exact Nat.le_refl _
  | cons e more ih =>
    refine ih.trans ?_
    rw [List.cons_append, popped]
    split
    · rw [List.length_append]; omega
    · exact Nat.le_refl _

theorem Steps.made_mem (h : Steps s past s') (he : e ∈ past) : ∃ earlier s₁, Steps s earlier s₁ ∧
    s₁.call? e.side = some e.stage ∧ e.outcome = (s₁.buffer.step e.stage).2 := by
  obtain ⟨later, earlier, rfl⟩ := List.append_of_mem he
  exact ⟨earlier, h.made (List.suffix_append _ _)⟩

theorem Event.published_cases (h : e.published = true) :
    ∃ next, e.stage = .pushPublish next ∧ e.outcome = .done .accepted := by
  obtain ⟨side, stage, outcome⟩ := e
  simp only [published] at h
  split at h
  · exact ⟨_, rfl, rfl⟩
  · cases h

theorem Event.popped_cases (h : e.popped? = some v) : e.outcome = .done (.value v) := by
  obtain ⟨side, stage, outcome⟩ := e
  simp only [popped?] at h
  split at h
  · cases h
    rfl
  · cases h

theorem Steps.producer_of_published (hsize : 0 < size) (h : Steps { buffer := { size } } past s) (he : e ∈ past)
    (hp : e.published = true) : e.side = .producer := by
  obtain ⟨earlier, s₁, h₁, hc, -⟩ := h.made_mem he
  obtain ⟨next, hstage, -⟩ := Event.published_cases hp
  cases hside : e.side with
  | producer => rfl
  | consumer =>
    have hcons := (h₁.kept hsize).consumer
    rw [hside, hstage] at hc
    rw [show s₁.consumer = _ from hc] at hcons
    exact hcons.elim

theorem Steps.consumer_of_popped (hsize : 0 < size) (h : Steps { buffer := { size } } past s) (he : e ∈ past)
    (hp : e.popped? = some v) : e.side = .consumer := by
  obtain ⟨earlier, s₁, h₁, hc, ho⟩ := h.made_mem he
  rw [Event.popped_cases hp] at ho
  cases hside : e.side with
  | consumer => rfl
  | producer =>
    have hprod := (h₁.kept hsize).producer
    rw [hside] at hc
    rw [show s₁.producer = _ from hc] at hprod
    cases hstage : e.stage with
    | popPublish | popRead | popLook | pop =>
      rw [hstage] at hprod
      exact hprod.elim
    | pushLook =>
      rw [hstage, Buffer.step] at ho
      split at ho <;> cases ho
    | push | pushWrite | pushPublish | length | lengthFrom =>
      rw [hstage] at ho
      cases ho

theorem Inside.unpublished (hsize : 0 < size) (h : Steps { buffer := { size } } past s)
    (hin : Inside .producer s during s' stage) : ∀ e ∈ during, e.published = false := by
  intro e he
  rw [← Bool.not_eq_true]
  intro hp
  have hside := (h.trans hin.steps).producer_of_published hsize (List.mem_append_left _ he) hp
  have hnone := hin.unanswered e he hside
  obtain ⟨next, -, ho⟩ := Event.published_cases hp
  rw [ho] at hnone
  cases hnone

theorem Inside.unpopped (hsize : 0 < size) (h : Steps { buffer := { size } } past s)
    (hin : Inside .consumer s during s' stage) : ∀ e ∈ during, e.popped? = none := by
  intro e he
  rw [Option.eq_none_iff_forall_ne_some]
  intro v hp
  have hside := (h.trans hin.steps).consumer_of_popped hsize (List.mem_append_left _ he) hp
  have hnone := hin.unanswered e he hside
  rw [Event.popped_cases hp] at hnone
  cases hnone

end

end Conduit.Ring
