import Conduit.Ring.Ends
import Mathlib.Data.List.Basic
import Mathlib.Data.Nat.ModEq

/-!
# Runs of a ring

The producer and the consumer, one access of one of them at a time in any
order, a new call whenever a side is in none. The log keeps every access with
what came of it; what was written to and read from the slots, and what the two
indices have passed, are read off it.
-/

namespace Conduit.Ring

/-! ## Slots -/

namespace Buffer

variable {α : Type} {b : Buffer α} {i j : Nat}

def slot (b : Buffer α) (i : Nat) : Option α := b.slots[i]?.join

theorem slot_write (b : Buffer α) (i j : Nat) (v : α) :
    (b.write i v).slot j = if j = i then some v else b.slot j := by
  obtain ⟨size, head, tail, slots⟩ := b
  simp only [write, slot]
  by_cases hi : i < slots.size
  · rw [if_pos hi, Array.getElem?_setIfInBounds]
    by_cases hj : i = j
    · subst hj; simp [hi]
    · simp [hj, Ne.symm hj]
  · -- the array is made as long as it has to be, with nothing in between
    rw [if_neg hi, Array.getElem?_push]
    have hsize : (slots ++ Array.replicate (i - slots.size) none).size = i := by
      rw [Array.size_append, Array.size_replicate]; omega
    rw [hsize]
    by_cases hj : j = i
    · rw [if_pos hj, if_pos hj]; rfl
    · rw [if_neg hj, if_neg hj, Array.getElem?_append]
      split
      · rfl
      · rename_i hlt
        rw [Array.getElem?_replicate, Array.getElem?_eq_none (by omega)]
        split <;> rfl

theorem slot_take (b : Buffer α) (i j : Nat) : (b.take i).2.slot j = if j = i then none else b.slot j := by
  obtain ⟨size, head, tail, slots⟩ := b
  simp only [take, slot, Array.getElem?_setIfInBounds]
  by_cases hj : i = j
  · subst hj; rw [if_pos rfl]; split <;> simp
  · simp [hj, Ne.symm hj]

theorem step_popRead {v : α} (h : b.slot i = some v) :
    b.step (.popRead i) = ((b.take i).2, .goOn (.popPublish v (b.increment i))) := by
  have htake : (b.take i).1 = some v := h
  simp only [step]
  rcases hb : b.take i with ⟨v', b'⟩
  rw [hb] at htake
  subst htake
  rfl

theorem write_indices (b : Buffer α) (i : Nat) (v : α) :
    (b.write i v).size = b.size ∧ (b.write i v).head = b.head ∧ (b.write i v).tail = b.tail := by
  obtain ⟨size, head, tail, slots⟩ := b
  simp only [write]
  split <;> exact ⟨rfl, rfl, rfl⟩

/-- The slots are used in turn, so the one after the `n`-th use is that of the next use. -/
theorem increment_mod (h : 0 < b.size) (n : Nat) : b.increment (n % b.size) = (n + 1) % b.size := by
  have hlt := Nat.mod_lt n h
  rw [← Nat.mod_add_mod n b.size 1, increment]
  split
  · rename_i hlast
    rw [hlast, Nat.mod_self]
  · exact (Nat.mod_eq_of_lt (by omega)).symm

end Buffer

theorem eq_of_mod_eq {size a i j : Nat} (hi : a ≤ i) (hi' : i < a + size) (hj : a ≤ j) (hj' : j < a + size)
    (h : i % size = j % size) : i = j := by
  refine Nat.ModEq.eq_of_abs_lt h ?_
  rw [abs_lt]
  omega

/-! ## Runs -/

inductive Side
  | producer
  | consumer
  deriving DecidableEq, Repr

namespace Side

variable {α : Type}

def opens : Side → Stage α → Bool
  | .producer, .push _ | .consumer, .pop | _, .length => true
  | _, _ => false

end Side

def Outcome.stage? {α : Type} : Outcome α → Option (Stage α)
  | .goOn stage => some stage
  | .done _ => none

def Outcome.answer? {α : Type} : Outcome α → Option (Answer α)
  | .goOn _ => none
  | .done a => some a

def Stage.made {α : Type} : Stage α → Nat
  | .push _ | .pop | .length => 0
  | .pushLook _ _ | .popLook _ | .lengthFrom _ => 1
  | .pushWrite _ _ | .popRead _ => 2
  | .pushPublish _ | .popPublish _ _ => 3

theorem Buffer.made_step {α : Type} {b : Buffer α} {stage stage' : Stage α} (h : (b.step stage).2 = .goOn stage') :
    stage'.made = stage.made + 1 := by
  cases stage with
  | push | pushWrite | pop | length =>
    cases h
    rfl
  | pushLook | popLook =>
    simp only [step] at h
    split at h <;> cases h
    rfl
  | popRead head =>
    simp only [step] at h
    split at h <;> cases h
    rfl
  | pushPublish | popPublish | lengthFrom => cases h

namespace System

variable {α : Type}

def call? (s : System α) : Side → Option (Stage α)
  | .producer => s.producer
  | .consumer => s.consumer

def enter (side : Side) (stage : Stage α) (s : System α) : System α :=
  match side with
  | .producer => s.enterProducer stage
  | .consumer => s.enterConsumer stage

def advance (side : Side) (s : System α) : System α :=
  match side with
  | .producer => s.advanceProducer.1
  | .consumer => s.advanceConsumer.1

end System

structure Event (α : Type) where
  side : Side
  stage : Stage α
  outcome : Outcome α

variable {α : Type}

inductive Steps (s : System α) : List (Event α) → System α → Prop
  | refl : Steps s [] s
  | enter {past : List (Event α)} {s₁ : System α} (side : Side) (stage : Stage α) :
      Steps s past s₁ → s₁.call? side = none → side.opens stage = true → Steps s past (s₁.enter side stage)
  | access {past : List (Event α)} {s₁ : System α} (side : Side) {stage : Stage α} :
      Steps s past s₁ → s₁.call? side = some stage →
      Steps s (⟨side, stage, (s₁.buffer.step stage).2⟩ :: past) (s₁.advance side)

theorem System.advance_producer {s : System α} {stage : Stage α} (h : s.producer = some stage) :
    s.advance .producer = ⟨(s.buffer.step stage).1, (s.buffer.step stage).2.stage?, s.consumer⟩ := by
  obtain ⟨buffer, producer, consumer⟩ := s
  subst h
  simp only [advance, advanceProducer]
  rcases buffer.step stage with ⟨b, stage' | a⟩ <;> rfl

theorem System.advance_consumer {s : System α} {stage : Stage α} (h : s.consumer = some stage) :
    s.advance .consumer = ⟨(s.buffer.step stage).1, s.producer, (s.buffer.step stage).2.stage?⟩ := by
  obtain ⟨buffer, producer, consumer⟩ := s
  subst h
  simp only [advance, advanceConsumer]
  rcases buffer.step stage with ⟨b, stage' | a⟩ <;> rfl

theorem System.advanceProducer_eq {s : System α} {stage : Stage α} (h : s.producer = some stage) :
    s.advanceProducer = (s.advance .producer, (s.buffer.step stage).2.answer?) := by
  obtain ⟨buffer, producer, consumer⟩ := s
  subst h
  simp only [advance, advanceProducer]
  rcases buffer.step stage with ⟨b, stage' | a⟩ <;> rfl

theorem System.advanceConsumer_eq {s : System α} {stage : Stage α} (h : s.consumer = some stage) :
    s.advanceConsumer = (s.advance .consumer, (s.buffer.step stage).2.answer?) := by
  obtain ⟨buffer, producer, consumer⟩ := s
  subst h
  simp only [advance, advanceConsumer]
  rcases buffer.step stage with ⟨b, stage' | a⟩ <;> rfl

theorem Steps.trans {s s' s'' : System α} {past more : List (Event α)} (h : Steps s past s')
    (h' : Steps s' more s'') : Steps s (more ++ past) s'' := by
  induction h' with
  | refl => exact h
  | enter side stage _ hc ho ih => exact ih.enter side stage hc ho
  | access side _ hc ih => exact ih.access side hc

theorem Steps.made {s s' : System α} {past earlier : List (Event α)} {e : Event α} (h : Steps s past s')
    (he : e :: earlier <:+ past) : ∃ s₁, Steps s earlier s₁ ∧ s₁.call? e.side = some e.stage ∧
      e.outcome = (s₁.buffer.step e.stage).2 := by
  induction h with
  | refl => simp at he
  | enter _ _ _ _ _ ih => exact ih he
  | access side h hc ih =>
    rcases List.suffix_cons_iff.mp he with heq | hlater
    · obtain ⟨rfl, rfl⟩ := List.cons.inj heq
      exact ⟨_, h, hc, rfl⟩
    · exact ih hlater

/-! ## Reading a log -/

namespace Event

def write? (e : Event α) : Option (Nat × α) :=
  match e.stage with
  | .pushWrite v tail => some (tail, v)
  | _ => none

def read? (e : Event α) : Option (Nat × α) :=
  match e.stage, e.outcome with
  | .popRead head, .goOn (.popPublish v _) => some (head, v)
  | _, _ => none

/-- Whether the access ended a push by storing the tail. -/
def published (e : Event α) : Bool :=
  match e.stage, e.outcome with
  | .pushPublish _, .done .accepted => true
  | _, _ => false

def popped? (e : Event α) : Option α :=
  match e.outcome with
  | .done (.value v) => some v
  | _ => none

def pushes? (e : Event α) : Option α :=
  match e.stage with
  | .push v => some v
  | _ => none

end Event

def lastPush : List (Event α) → Option α
  | [] => none
  | e :: past => e.pushes?.or (lastPush past)

def pushed : List (Event α) → List α
  | [] => []
  | e :: past => if e.published then pushed past ++ (lastPush past).toList else pushed past

def popped : List (Event α) → List α
  | [] => []
  | e :: past =>
    match e.popped? with
    | some v => popped past ++ [v]
    | none => popped past

def written : List (Event α) → List α
  | [] => []
  | e :: past =>
    match e.write? with
    | some (_, v) => written past ++ [v]
    | none => written past

def reads : List (Event α) → Nat
  | [] => 0
  | e :: past =>
    match e.read? with
    | some _ => reads past + 1
    | none => reads past

def memory (i : Nat) : List (Event α) → Option α
  | [] => none
  | e :: past =>
    match e.write? with
    | some (j, v) => if i = j then some v else memory i past
    | none => memory i past

/-- What was last written to a slot, if nothing has read it since. -/
def filled (i : Nat) : List (Event α) → Option α
  | [] => none
  | e :: past =>
    match e.stage with
    | .pushWrite v j => if i = j then some v else filled i past
    | .popRead j => if i = j then none else filled i past
    | _ => filled i past

theorem slot_step (b : Buffer α) (stage : Stage α) (i : Nat) :
    (b.step stage).1.slot i =
      match stage with
      | .pushWrite v j => if i = j then some v else b.slot i
      | .popRead j => if i = j then none else b.slot i
      | _ => b.slot i := by
  cases stage with
  | pushWrite v j => exact Buffer.slot_write b j i v
  | popRead j =>
    refine Eq.trans ?_ (Buffer.slot_take b j i)
    simp only [Buffer.step]
    rcases b.take j with ⟨_ | v, b'⟩ <;> rfl
  | pushLook v j | popLook j => simp only [Buffer.step]; split <;> rfl
  | _ => rfl

theorem Steps.slot_eq_filled {size : Nat} {past : List (Event α)} {s : System α}
    (h : Steps { buffer := { size } } past s) (i : Nat) : s.buffer.slot i = filled i past := by
  induction h with
  | refl => simp [Buffer.slot, filled]
  | enter side _ _ _ _ ih => cases side <;> exact ih
  | access side _ hc ih =>
    rename_i s₁ stage _
    have hb : (s₁.advance side).buffer = (s₁.buffer.step stage).1 := by
      cases side with
      | producer => rw [System.advance_producer hc]
      | consumer => rw [System.advance_consumer hc]
    rw [hb, slot_step, filled]
    cases stage <;> simp only [ih]

end Conduit.Ring
