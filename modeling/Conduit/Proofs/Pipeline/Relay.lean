import Conduit.Pipeline.Relay
import Conduit.Proofs.Ring.Slots
import Mathlib.Data.List.Basic

/-!
# Runs of a relay

The sender and the receiver, one step of one of them at a time, in any order. A relay
makes the calls of a ring, so what a ring keeps holds of it. The sender's loop variable
is the count of the values that the ring has accepted, and these are the numbers from
zero, so the receiver gets the numbers from zero as well.
-/

namespace Conduit.Pipeline

def numbers (n : Nat) : List Int64 := (List.range n).map Int64.ofNat

theorem length_numbers (n : Nat) : (numbers n).length = n := by
  rw [numbers, List.length_map, List.length_range]

theorem numbers_succ (n : Nat) : numbers (n + 1) = numbers n ++ [.ofNat n] := by
  simp [numbers, List.range_succ]

theorem eq_numbers_of_prefix {l : List Int64} {n : Nat} (h : l <+: numbers n) : l = numbers l.length := by
  have hle := h.length_le
  rw [length_numbers] at hle
  rw [List.prefix_iff_eq_take.mp h, numbers, ← List.map_take, List.take_range, Nat.min_eq_left hle]
  simp [numbers]

namespace Relay

open Conduit.Ring (Stage Event lastPush)

/-! ## Where the two stand -/

def span (o : Options) : Nat := (bound o).toNatClampNeg

theorem lt_bound_iff {o : Options} {n : Nat} (h : n < 2 ^ 63) : Int64.ofNat n < bound o ↔ n < span o := by
  rw [Int64.lt_iff_toInt_lt, Int64.toInt_ofNat_of_lt h, span, Int64.toNatClampNeg]
  omega

theorem span_lt (o : Options) : span o < 2 ^ 63 := Int64.toNatClampNeg_lt _

theorem toInt_bound (o : Options) : (bound o).toInt = (o.count.toNat : Int).bmod (2 ^ 64) := by
  rw [bound, ← UInt64.ofNat_toNat (x := o.count), UInt64.toInt64_ofNat', Int64.toInt_ofNat', UInt64.ofNat_toNat]
  rfl

theorem span_eq {o : Options} (h : o.count.toNat < 2 ^ 63) : span o = o.count.toNat := by
  rw [span, Int64.toNatClampNeg, toInt_bound, Int.bmod_def]
  omega

theorem span_le (o : Options) : span o ≤ o.count.toNat := by
  rw [span, Int64.toNatClampNeg, toInt_bound, Int.bmod_def]
  omega

theorem span_eq_zero {o : Options} (h : 2 ^ 63 ≤ o.count.toNat) : span o = 0 := by
  have := o.count.toNat_lt
  rw [span, Int64.toNatClampNeg, toInt_bound, Int.bmod_def]
  omega

def Pushes (i : Int64) (log : List (Event Int64)) : Stage Int64 → Prop
  | .push v => v = i
  | .pushLook v _ | .pushWrite v _ => v = i ∧ lastPush log = some i
  | .pushPublish _ => lastPush log = some i
  | _ => False

/-- Where the sender stands, and its call, when the ring has accepted `n` values from it. -/
inductive Sends (o : Options) (log : List (Event Int64)) : Sender → Option (Stage Int64) → Nat → Prop
  | next {n : Nat} : n ≤ span o → Sends o log (.next (.ofNat n)) none n
  | again {n : Nat} : n < span o → Sends o log (.again (.ofNat n) (.ofNat n)) none n
  | pushing {n : Nat} {stage : Stage Int64} : n < span o → Pushes (.ofNat n) log stage →
      Sends o log (.pushing (.ofNat n)) (some stage) n
  | tracing {n : Nat} : n < span o → Sends o log (.tracing (.ofNat n)) none (n + 1)
  | ended : Sends o log .ended none (span o)

def pops : Stage Int64 → Bool
  | .pop | .popLook _ | .popRead _ | .popPublish _ _ => true
  | _ => false

inductive Receives (o : Options) (k : Nat) : Receiver → Option (Stage Int64) → Prop
  | asking : k ≤ o.count.toNat → Receives o k .asking none
  | popping {stage : Stage Int64} : k < o.count.toNat → pops stage = true → Receives o k .popping (some stage)
  | ended : k = o.count.toNat → Receives o k .ended none

/-- How far the sender is with its next value. -/
def sending (r : Relay) : Nat :=
  match r.sender, r.system.producer with
  | .next _, _ | .again _ _, _ => 1
  | .pushing _, some stage => stage.made + 2
  | _, _ => 0

def getting (r : Relay) : Nat :=
  match r.receiver, r.system.consumer with
  | .popping, some stage => stage.made + 1
  | _, _ => 0

structure Kept (o : Options) (log : List (Event Int64)) (r : Relay) (n : Nat) : Prop where
  ring : Ring.Steps { buffer := { size := o.capacity.toNat + 1 } } log r.system
  sender : Sends o log r.sender r.system.producer n
  receiver : Receives o r.popped.size r.receiver r.system.consumer
  pushed : Ring.pushed log = numbers n
  popped : Ring.popped log = r.popped.toList

/-! ## One access -/

section
variable {i : Int64} {log : List (Event Int64)} {stage : Stage Int64} {b : Ring.Buffer Int64}

/-- What an access of the sender's push comes to: it goes on, or the ring is full, or the
value is in the ring. -/
inductive Offer (i : Int64) (log : List (Event Int64)) (e : Event Int64) : Prop
  | goOn {stage : Stage Int64} : e.outcome = .goOn stage → Pushes i (e :: log) stage →
      Ring.pushed (e :: log) = Ring.pushed log → Offer i log e
  | rejected : e.outcome = .done (.rejected i) → Ring.pushed (e :: log) = Ring.pushed log → Offer i log e
  | accepted : e.outcome = .done .accepted → Ring.pushed (e :: log) = Ring.pushed log ++ [i] → Offer i log e

theorem offer_step (h : Pushes i log stage) (b : Ring.Buffer Int64) :
    Offer i log ⟨.producer, stage, (b.step stage).2⟩ ∧
      Ring.popped (⟨.producer, stage, (b.step stage).2⟩ :: log) = Ring.popped log := by
  cases stage with
  | push v =>
    obtain rfl : v = i := h
    exact ⟨.goOn rfl ⟨rfl, rfl⟩ rfl, rfl⟩
  | pushLook v tail =>
    obtain ⟨rfl, hlast⟩ : v = i ∧ lastPush log = some i := h
    simp only [Ring.Buffer.step]
    split
    · exact ⟨.rejected rfl rfl, rfl⟩
    · exact ⟨.goOn rfl ⟨rfl, hlast⟩ rfl, rfl⟩
  | pushWrite v tail => exact ⟨.goOn rfl (show lastPush log = some i from h.2) rfl, rfl⟩
  | pushPublish next =>
    refine ⟨.accepted rfl ?_, rfl⟩
    show Ring.pushed log ++ (lastPush log).toList = _
    rw [show lastPush log = some i from h]
    rfl
  | pop | popLook | popRead | popPublish | length | lengthFrom => exact h.elim

inductive Catch (log : List (Event Int64)) (e : Event Int64) : Prop
  | goOn {stage : Stage Int64} : e.outcome = .goOn stage → pops stage = true →
      Ring.popped (e :: log) = Ring.popped log → Catch log e
  | nothing : e.outcome = .done .nothing → Ring.popped (e :: log) = Ring.popped log → Catch log e
  | value {v : Int64} : e.outcome = .done (.value v) → Ring.popped (e :: log) = Ring.popped log ++ [v] → Catch log e

theorem catch_step (log : List (Event Int64)) (h : pops stage = true) (b : Ring.Buffer Int64) :
    Catch log ⟨.consumer, stage, (b.step stage).2⟩ ∧
      Ring.pushed (⟨.consumer, stage, (b.step stage).2⟩ :: log) = Ring.pushed log ∧
      lastPush (⟨.consumer, stage, (b.step stage).2⟩ :: log) = lastPush log := by
  cases stage with
  | pop => exact ⟨.goOn rfl rfl rfl, rfl, rfl⟩
  | popLook head =>
    simp only [Ring.Buffer.step]
    split
    · exact ⟨.nothing rfl rfl, rfl, rfl⟩
    · exact ⟨.goOn rfl rfl rfl, rfl, rfl⟩
  | popRead head =>
    simp only [Ring.Buffer.step]
    split
    · exact ⟨.goOn rfl rfl rfl, rfl, rfl⟩
    · exact ⟨.nothing rfl rfl, rfl, rfl⟩
  | popPublish v next => exact ⟨.value rfl rfl, rfl, rfl⟩
  | push | pushLook | pushWrite | pushPublish | length | lengthFrom => cases h

end

/-! ## One step -/

section
variable {o : Options} {log : List (Event Int64)} {r : Relay} {n : Nat}

theorem ofNat_succ (n : Nat) : Int64.ofNat n + 1 = .ofNat (n + 1) := (Int64.ofNat_add n 1).symm

theorem Sends.of_lastPush {log' : List (Event Int64)} {sender : Sender} {call : Option (Stage Int64)}
    (h : Sends o log sender call n) (hl : lastPush log' = lastPush log) : Sends o log' sender call n := by
  cases h with
  | next hn => exact .next hn
  | again hn => exact .again hn
  | tracing hn => exact .tracing hn
  | ended => exact .ended
  | @pushing _ stage hn hp =>
    refine .pushing hn ?_
    cases stage with
    | pushLook | pushWrite => exact ⟨hp.1, hl.trans hp.2⟩
    | pushPublish => exact hl.trans hp
    | _ => exact hp

theorem Kept.length_pushed (h : Kept o log r n) : (Ring.pushed log).length = n := by
  rw [h.pushed, length_numbers]

theorem Kept.length_popped (h : Kept o log r n) : (Ring.popped log).length = r.popped.size := by
  rw [h.popped, Array.length_toList]

theorem Kept.ring_kept (h : Kept o log r n) : Ring.Kept (o.capacity.toNat + 1) log r.system :=
  h.ring.kept (Nat.succ_pos _)

theorem Sends.le_span {sender : Sender} {call : Option (Stage Int64)} (h : Sends o log sender call n) :
    n ≤ span o := by
  cases h with
  | next hn => exact hn
  | again hn | pushing hn _ => exact Nat.le_of_lt hn
  | tracing hn => exact hn
  | ended => exact Nat.le_refl _

/-- What comes of a step of the sender: its next value is in the ring, or it is nearer to that
if there is room. -/
def Sent (o : Options) (r : Relay) (n : Nat) (r' : Relay) : Prop :=
  ∃ log' n', Kept o log' r' n' ∧ (n' = n + 1 ∨
    n' = n ∧ (n < span o → n < r.popped.size + o.capacity.toNat → r'.sending = r.sending + 1))

def Got (o : Options) (r : Relay) (n : Nat) (r' : Relay) : Prop :=
  ∃ log', Kept o log' r' n ∧ (r'.popped.size = r.popped.size + 1 ∨
    r'.popped.size = r.popped.size ∧ (r.popped.size < n → r'.getting = r.getting + 1))

theorem Kept.accessSender {stage : Stage Int64} (h : Kept o log r n) (hs : r.sender = .pushing (.ofNat n))
    (hcall : r.system.producer = some stage) (hn : n < span o) (hp : Pushes (.ofNat n) log stage) :
    Sent o r n (r.stepSender o) := by
  obtain ⟨⟨buffer, producer, consumer⟩, sender, receiver, popped, traces⟩ := r
  obtain rfl : sender = .pushing (.ofNat n) := hs
  obtain rfl : producer = some stage := hcall
  have haccess := h.ring.access .producer (show some stage = some stage from rfl)
  have hfull := fun v => h.ring_kept.full_of_rejected (v := v)
  have hmade : ∀ stage', (buffer.step stage).2 = .goOn stage' → stage'.made = stage.made + 1 := fun _ =>
    Ring.Buffer.made_step
  obtain ⟨hoffer, hpopped⟩ := offer_step hp buffer
  simp only [Relay.stepSender]
  rw [Ring.System.advanceProducer_eq rfl]
  rw [Ring.System.advance_producer rfl] at haccess ⊢
  dsimp only at haccess hoffer hpopped hfull ⊢
  generalize (buffer.step stage).2 = x at haccess hoffer hpopped hfull hmade ⊢
  have hpopped := hpopped.trans h.popped
  cases hoffer with
  | @goOn stage' hx hp' hpushed =>
    obtain rfl : x = _ := hx
    refine ⟨_, n, ⟨haccess, .pushing hn hp', h.receiver, hpushed.trans h.pushed, hpopped⟩, .inr ⟨rfl, fun _ _ => ?_⟩⟩
    show stage'.made + 2 = stage.made + 2 + 1
    rw [hmade stage' rfl]
  | rejected hx hpushed =>
    obtain rfl : x = _ := hx
    have hfull := hfull _ rfl
    rw [h.length_pushed, h.length_popped] at hfull
    refine ⟨_, n, ⟨haccess, .again hn, h.receiver, hpushed.trans h.pushed, hpopped⟩,
      .inr ⟨rfl, fun _ hroom => ?_⟩⟩
    -- with room for the value the ring was not full
    dsimp only at hfull hroom
    omega
  | accepted hx hpushed =>
    obtain rfl : x = _ := hx
    rw [h.pushed, ← numbers_succ] at hpushed
    refine ⟨_, n + 1, ⟨haccess, ?_, h.receiver, hpushed, hpopped⟩, .inl rfl⟩
    show Sends o _ (afterValue o (.ofNat n)) none (n + 1)
    rw [afterValue]
    split
    · exact .tracing hn
    · rw [ofNat_succ]
      exact .next hn

theorem Kept.stepSender (h : Kept o log r n) : Sent o r n (r.stepSender o) := by
  obtain ⟨⟨buffer, producer, consumer⟩, sender, receiver, popped, traces⟩ := r
  have hring := h.ring
  have hs : Sends o log sender producer n := h.sender
  cases hs with
  | next hn =>
    have hlt := lt_bound_iff (o := o) (Nat.lt_of_le_of_lt hn (span_lt o))
    by_cases hi : Int64.ofNat n < bound o
    · simp only [Relay.stepSender, if_pos hi]
      refine ⟨log, n, ⟨hring.enter .producer (.push _) rfl rfl, .pushing (hlt.mp hi) rfl, h.receiver, h.pushed,
        h.popped⟩, .inr ⟨rfl, fun _ _ => rfl⟩⟩
    · simp only [Relay.stepSender, if_neg hi]
      obtain rfl : n = span o := Nat.le_antisymm hn (Nat.not_lt.mp fun hn => hi (hlt.mpr hn))
      refine ⟨log, _, ⟨hring, .ended, h.receiver, h.pushed, h.popped⟩, .inr ⟨rfl, fun hn => ?_⟩⟩
      exact absurd hn (Nat.lt_irrefl _)
  | again hn =>
    exact ⟨log, n, ⟨hring.enter .producer (.push _) rfl rfl, .pushing hn rfl, h.receiver, h.pushed, h.popped⟩,
      .inr ⟨rfl, fun _ _ => rfl⟩⟩
  | pushing hn hp => exact h.accessSender rfl rfl hn hp
  | tracing hn =>
    simp only [Relay.stepSender, ofNat_succ]
    exact ⟨log, _, ⟨hring, .next hn, h.receiver, h.pushed, h.popped⟩, .inr ⟨rfl, fun _ _ => rfl⟩⟩
  | ended => exact ⟨log, _, h, .inr ⟨rfl, fun hn => absurd hn (Nat.lt_irrefl _)⟩⟩

theorem Kept.accessReceiver {stage : Stage Int64} (h : Kept o log r n) (hr : r.receiver = .popping)
    (hcall : r.system.consumer = some stage) (hlt : r.popped.size < o.count.toNat) (hp : pops stage = true) :
    Got o r n (r.stepReceiver o) := by
  obtain ⟨⟨buffer, producer, consumer⟩, sender, receiver, popped, traces⟩ := r
  obtain rfl : receiver = .popping := hr
  obtain rfl : consumer = some stage := hcall
  have haccess := h.ring.access .consumer (show some stage = some stage from rfl)
  have hempty := h.ring_kept.empty_of_nothing
  have hmade : ∀ stage', (buffer.step stage).2 = .goOn stage' → stage'.made = stage.made + 1 := fun _ =>
    Ring.Buffer.made_step
  obtain ⟨hcatch, hpushed, hlast⟩ := catch_step log hp buffer
  simp only [Relay.stepReceiver]
  rw [Ring.System.advanceConsumer_eq rfl]
  rw [Ring.System.advance_consumer rfl] at haccess ⊢
  dsimp only at haccess hcatch hpushed hlast hempty ⊢
  generalize (buffer.step stage).2 = x at haccess hcatch hpushed hlast hempty hmade ⊢
  have hpushed := hpushed.trans h.pushed
  have hsender := h.sender.of_lastPush hlast
  cases hcatch with
  | @goOn stage' hx hp' hpopped =>
    obtain rfl : x = _ := hx
    refine ⟨_, ⟨haccess, hsender, .popping hlt hp', hpushed, hpopped.trans h.popped⟩, .inr ⟨rfl, fun _ => ?_⟩⟩
    show stage'.made + 1 = stage.made + 1 + 1
    rw [hmade stage' rfl]
  | nothing hx hpopped =>
    obtain rfl : x = _ := hx
    have hempty := hempty rfl
    rw [h.length_pushed, h.length_popped] at hempty
    refine ⟨_, ⟨haccess, hsender, .asking (Nat.le_of_lt hlt), hpushed, hpopped.trans h.popped⟩,
      .inr ⟨rfl, fun hn => absurd hempty (Nat.ne_of_lt hn)⟩⟩
  | @value v hx hpopped =>
    obtain rfl : x = _ := hx
    have hsize : (popped.push v).size = popped.size + 1 := Array.size_push v
    refine ⟨_, ⟨haccess, hsender, .asking ?_, hpushed, ?_⟩, .inl hsize⟩
    · exact hsize ▸ hlt
    · rw [hpopped, h.popped]
      exact Array.toList_push.symm

theorem Kept.stepReceiver (h : Kept o log r n) : Got o r n (r.stepReceiver o) := by
  have hcount := Nat.le_trans h.sender.le_span (span_le o)
  obtain ⟨⟨buffer, producer, consumer⟩, sender, receiver, popped, traces⟩ := r
  have hring := h.ring
  have hr : Receives o popped.size receiver consumer := h.receiver
  cases hr with
  | asking hk =>
    simp only [Relay.stepReceiver]
    by_cases hlt : popped.size < o.count.toNat
    · rw [if_pos hlt]
      exact ⟨log, ⟨hring.enter .consumer .pop rfl rfl, h.sender, .popping hlt rfl, h.pushed, h.popped⟩,
        .inr ⟨rfl, fun _ => rfl⟩⟩
    · rw [if_neg hlt]
      have hend : popped.size = o.count.toNat := Nat.le_antisymm hk (Nat.not_lt.mp hlt)
      refine ⟨log, ⟨hring, h.sender, .ended hend, h.pushed, h.popped⟩, .inr ⟨rfl, fun hn => ?_⟩⟩
      dsimp only at hn
      omega
  | popping hlt hp => exact h.accessReceiver rfl rfl hlt hp
  | ended hk =>
    refine ⟨log, h, .inr ⟨rfl, fun hn => ?_⟩⟩
    dsimp only at hn
    omega

/-! ## What the one leaves to the other -/

theorem stepSender_frame (o : Options) (r : Relay) :
    (r.stepSender o).popped = r.popped ∧ (r.stepSender o).getting = r.getting := by
  obtain ⟨⟨buffer, producer, consumer⟩, sender, receiver, popped, traces⟩ := r
  cases sender with
  | next i =>
    simp only [Relay.stepSender]
    split <;> exact ⟨rfl, rfl⟩
  | pushing i =>
    cases producer with
    | none => exact ⟨rfl, rfl⟩
    | some stage =>
      simp only [Relay.stepSender, true_and]
      rw [Ring.System.advanceProducer_eq rfl, Ring.System.advance_producer rfl]
      rfl
  | again | tracing | ended => exact ⟨rfl, rfl⟩

theorem stepReceiver_frame (o : Options) (r : Relay) :
    (r.stepReceiver o).sender = r.sender ∧ (r.stepReceiver o).sending = r.sending := by
  obtain ⟨⟨buffer, producer, consumer⟩, sender, receiver, popped, traces⟩ := r
  cases receiver with
  | asking =>
    simp only [Relay.stepReceiver]
    split <;> exact ⟨rfl, rfl⟩
  | popping =>
    cases consumer with
    | none => exact ⟨rfl, rfl⟩
    | some stage =>
      simp only [Relay.stepReceiver]
      rw [Ring.System.advanceConsumer_eq rfl, Ring.System.advance_consumer rfl]
      rcases buffer.step stage with ⟨b, stage' | a⟩
      · exact ⟨rfl, rfl⟩
      · cases a <;> exact ⟨rfl, rfl⟩
  | ended => exact ⟨rfl, rfl⟩

/-! ## Runs -/

inductive Steps (o : Options) (r : Relay) : List RelayThread → Relay → Prop
  | refl : Steps o r [] r
  | step {past : List RelayThread} {r₁ : Relay} (t : RelayThread) :
      Steps o r past r₁ → Steps o r (t :: past) (r₁.step o t)

variable {past more : List RelayThread} {r' : Relay}

theorem Steps.kept (h : Steps o r past r') (hk : Kept o log r n) : ∃ log' n', Kept o log' r' n' := by
  induction h with
  | refl => exact ⟨log, n, hk⟩
  | step t _ ih =>
    obtain ⟨log₁, n₁, hk₁⟩ := ih
    cases t with
    | sender =>
      obtain ⟨log', n', hk', -⟩ := hk₁.stepSender
      exact ⟨log', n', hk'⟩
    | receiver =>
      obtain ⟨log', hk', -⟩ := hk₁.stepReceiver
      exact ⟨log', n₁, hk'⟩

/-- While there is room the sender comes nearer with each of its steps, until its value is in the ring. -/
theorem Steps.sending (h : Steps o r more r') (hk : Kept o log r n) (hn : n < span o)
    (hroom : n < r.popped.size + o.capacity.toNat) :
    ∃ log' n', Kept o log' r' n' ∧ r.popped.size ≤ r'.popped.size ∧
      (n < n' ∨ n' = n ∧ r'.sending = r.sending + more.count .sender) := by
  induction h with
  | refl => exact ⟨log, n, hk, Nat.le_refl _, .inr ⟨rfl, rfl⟩⟩
  | @step more r₁ t _ ih =>
    obtain ⟨log₁, n₁, hk₁, hpop, hcase⟩ := ih
    rw [List.count_cons]
    cases t with
    | sender =>
      obtain ⟨log', n', hk', hnear⟩ := hk₁.stepSender
      obtain ⟨hpopped, -⟩ := stepSender_frame o r₁
      refine ⟨log', n', hk', ?_, ?_⟩
      · show _ ≤ (r₁.stepSender o).popped.size
        rw [hpopped]
        exact hpop
      · rcases hcase with hlt | ⟨rfl, hsend⟩
        · exact .inl (by omega)
        · rcases hnear with rfl | ⟨rfl, hnear⟩
          · exact .inl (Nat.lt_succ_self _)
          · refine .inr ⟨rfl, ?_⟩
            have hnear := hnear hn (by omega)
            show (r₁.stepSender o).sending = _
            rw [hnear, hsend]
            rfl
    | receiver =>
      obtain ⟨log', hk', hnear⟩ := hk₁.stepReceiver
      obtain ⟨-, hsame⟩ := stepReceiver_frame o r₁
      refine ⟨log', n₁, hk', ?_, ?_⟩
      · show _ ≤ (r₁.stepReceiver o).popped.size
        omega
      · rcases hcase with hlt | ⟨rfl, hsend⟩
        · exact .inl hlt
        · refine .inr ⟨rfl, ?_⟩
          show (r₁.stepReceiver o).sending = _
          rw [hsame, hsend]
          rfl

theorem Steps.getting (h : Steps o r more r') (hk : Kept o log r n) (hn : r.popped.size < n) :
    ∃ log' n', Kept o log' r' n' ∧ n ≤ n' ∧ (r.popped.size < r'.popped.size ∨
      r'.popped.size = r.popped.size ∧ r'.getting = r.getting + more.count .receiver) := by
  induction h with
  | refl => exact ⟨log, n, hk, Nat.le_refl _, .inr ⟨rfl, rfl⟩⟩
  | @step more r₁ t _ ih =>
    obtain ⟨log₁, n₁, hk₁, hle, hcase⟩ := ih
    rw [List.count_cons]
    cases t with
    | sender =>
      obtain ⟨log', n', hk', hnear⟩ := hk₁.stepSender
      obtain ⟨hpopped, hsame⟩ := stepSender_frame o r₁
      refine ⟨log', n', hk', by omega, ?_⟩
      show _ < (r₁.stepSender o).popped.size ∨ (r₁.stepSender o).popped.size = _ ∧ (r₁.stepSender o).getting = _
      rw [hpopped, hsame]
      exact hcase
    | receiver =>
      obtain ⟨log', hk', hnear⟩ := hk₁.stepReceiver
      refine ⟨log', n₁, hk', hle, ?_⟩
      show _ < (r₁.stepReceiver o).popped.size ∨ (r₁.stepReceiver o).popped.size = _ ∧
        (r₁.stepReceiver o).getting = _
      rcases hnear with hgot | ⟨hsame, hnear⟩
      · exact .inl (by omega)
      · rcases hcase with hlt | ⟨heq, hget⟩
        · exact .inl (by omega)
        · refine .inr ⟨hsame.trans heq, ?_⟩
          rw [hnear (by omega), hget]
          rfl

theorem sending_le (r : Relay) : r.sending ≤ 5 := by
  rw [Relay.sending]
  split
  case h_3 stage _ _ => cases stage <;> simp [Stage.made]
  all_goals decide

theorem getting_le (r : Relay) : r.getting ≤ 4 := by
  rw [Relay.getting]
  split
  · rename_i stage _ _
    cases stage <;> simp [Stage.made]
  · decide

end

end Relay

end Conduit.Pipeline
