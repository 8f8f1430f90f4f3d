import Conduit.Proofs.Pipeline.Delivery

/-!
# Races that never end

A race that its options allow comes to a standstill in two cases. Without a
producer nobody pushes the tokens that the consumers wait for. Without a consumer
nobody makes room, and the producers stop at a full queue if they have more
values than that. In all other cases it does not (`stuck_iff`).
-/

namespace Conduit.Pipeline

open Contents (contents)

namespace Options

/-- There are consumers and nobody who could end them. -/
def Orphaned (o : Options) : Prop := o.producers = 0 ∧ 1 ≤ o.consumers

/-- There are more values than have room, and nobody to take them. -/
def Clogged (o : Options) : Prop := o.consumers = 0 ∧ o.capacity.toNat < o.producers.toNat * o.count.toNat

instance (o : Options) : Decidable o.Orphaned := inferInstanceAs (Decidable (_ ∧ _))

instance (o : Options) : Decidable o.Clogged := inferInstanceAs (Decidable (_ ∧ _))

end Options

namespace Race

/-- Some thread has not ended, and all that have not sleep. -/
def Stuck {σ : Type} [Channel σ] (r : Race σ) : Prop :=
  (∃ t, r.Unfinished t) ∧ ∀ t, r.Unfinished t → Channel.asleep (r.number t) r.channel = true

def Starved {σ : Type} [Contents σ] (r : Race σ) : Prop :=
  (∀ stage ∈ r.producers, stage = .ended) ∧ contents r.channel = [] ∧ ∃ stage ∈ r.consumers, stage ≠ .ended

/-! ## The number of threads -/

section
variable {σ : Type} [Channel σ] {o : Options} {r r' : Race σ}

theorem size_step (o : Options) (pick : Nat) (t : Thread) (r : Race σ) :
    (r.step o pick t).producers.size = r.producers.size ∧ (r.step o pick t).consumers.size = r.consumers.size := by
  obtain ⟨channel, producers, consumers, active, shares, traces⟩ := r
  cases t with
  | producer p =>
    simp only [step, stepProducer]
    split
    · exact ⟨rfl, rfl⟩
    · exact ⟨rfl, rfl⟩
    · split <;> simp
    all_goals simp
  | consumer c =>
    simp only [step, stepConsumer]
    split <;> simp

theorem Steps.size [Contents σ] {past : List Event} (h : Steps o r past r') :
    r'.producers.size = r.producers.size ∧ r'.consumers.size = r.consumers.size := by
  induction h with
  | refl => exact ⟨rfl, rfl⟩
  | @step past r₁ pick t _ ih =>
    obtain ⟨hp, hc⟩ := size_step o pick t r₁
    exact ⟨hp.trans ih.1, hc.trans ih.2⟩

end

theorem not_unfinished {σ : Type} {r : Race σ} (hp : r.producers.size = 0) (hc : r.consumers.size = 0) (t : Thread) :
    ¬ r.Unfinished t := by
  cases t with
  | producer p =>
    rintro ⟨stage, hs, -⟩
    rw [Array.eq_empty_of_size_eq_zero hp] at hs
    cases hs
  | consumer c =>
    rintro ⟨stage, hs, -⟩
    rw [Array.eq_empty_of_size_eq_zero hc] at hs
    cases hs

/-! ## Without a consumer -/

open Blocking (System)

/-- What a blocking queue is to producers alone: nobody pops and nobody is woken. -/
structure Unread (o : Options) (s : System Int64) : Prop where
  up : s.queue.down = false
  limit : s.queue.limit = o.capacity.toNat
  size : s.queue.items.size ≤ s.queue.limit
  data : s.data.calls = []
  space : s.space.woken = []

section
variable {o : Options} {s : System Int64} {pick t : Nat} {v : Int64}

theorem Unread.push (h : Unread o s) (pick t : Nat) (v : Int64) :
    Unread o (Channel.push pick t v s).1 ∧
      ((Channel.push pick t v s).2 = .underWay ∨ (Channel.push pick t v s).2 = .accepted) := by
  have hwaiting : s.data.waiting = [] := (List.append_eq_nil_iff.mp h.data).1
  show Unread o (s.runPush pick t v).1 ∧
    (Progress.ofBlocking (s.runPush pick t v).2 = _ ∨ Progress.ofBlocking (s.runPush pick t v).2 = _)
  rcases s.runPush_cases pick t v with ⟨-, -, he⟩ | ⟨hd, -⟩ | ⟨-, hf, he⟩
  · rw [he]
    exact ⟨⟨h.up, h.limit, h.size, h.data, h.space⟩, .inl rfl⟩
  · cases h.up.symm.trans hd
  · rw [he]
    refine ⟨⟨h.up, h.limit, hf, ?_, h.space⟩, .inr rfl⟩
    rw [System.accept, Blocking.Condition.notifyOne_of_waiting_nil hwaiting]
    exact h.data

theorem Unread.goOn (h : Unread o s) (pick t : Nat) : Channel.goOn pick t s = (s, .underWay) := by
  have hwoken : s.data.woken = [] := (List.append_eq_nil_iff.mp h.data).2
  have hpush : s.resumePush pick t = none := System.resumePush_of_not_mem pick (by simp [h.space])
  have hpop : s.resumePop pick t = none := System.resumePop_of_not_mem pick (by simp [hwoken])
  simp only [Channel.goOn, hpush, hpop]
  rfl

variable {r : Race (System Int64)}

theorem Unread.step (h : Unread o r.channel) (hc : r.consumers.size = 0) (pick : Nat) (t : Thread) :
    Unread o (r.step o pick t).channel := by
  obtain ⟨channel, producers, consumers, active, shares, traces⟩ := r
  cases t with
  | producer p =>
    simp only [Race.step, stepProducer]
    split
    · exact h
    · exact h
    · split
      · exact (h.push _ _ _).1
      · exact h
    · rw [h.goOn]
      exact h
    · exact h
    · exact h
    · exact h
    · exact (h.push _ _ _).1
    · rw [h.goOn]
      exact h
  | consumer c =>
    have hnone : consumers[c]? = none := Array.getElem?_eq_none (by simp only at hc; omega)
    simp only [Race.step, stepConsumer, hnone]
    exact h

theorem Kept.asleep_of_pushing {past : List Event} {closer : Option Nat} {k p : Nat} {stage : Producer}
    (h : Kept o past r closer k) (hu : Unread o r.channel) (hp : r.producers[p]? = some stage)
    (hs : (∃ i, stage = .pushing i) ∨ ∃ left, stage = .pushingToken left) : Channel.asleep p r.channel = true := by
  obtain ⟨n, call, hpos, hat, -⟩ := h.producer p stage hp
  have hsleeps : ∀ v, call = .offering v → Channel.asleep p r.channel = true := by
    rintro v rfl
    rcases List.mem_append.mp hat with hw | hw
    · exact asleep_iff.mpr (.inr ⟨v, hw⟩)
    · rw [hu.space] at hw
      cases hw
  generalize (closer == some p) = last at hpos
  generalize due closer k p = m at hpos
  cases hpos with
  | offering | offeringToken => exact hsleeps _ rfl
  | offered | offeredToken => exact hat.elim
  | _ => rcases hs with ⟨_, he⟩ | ⟨_, he⟩ <;> cases he

/-! ## Coming to a standstill -/

/-- How far a producer is from its end at most, where there is no consumer. -/
def rank (o : Options) : Producer → Nat
  | .next i => 3 * (o.count.toNat - i.toNat) + 4
  | .pushing i => 3 * (o.count.toNat - i.toNat) + 3
  | .tracing i => 3 * (o.count.toNat - i.toNat) + 2
  | .leaving => 3
  | .closing left => 2 * left + 2
  | .pushingToken left => 2 * left + 3
  | .ended => 0

theorem rank_afterValue {i : UInt64} (hi : i < o.count) : rank o (afterValue o i) < rank o (.next i) := by
  have hlt := UInt64.lt_iff_toNat_lt.mp hi
  unfold afterValue
  split
  · simp only [rank]
    omega
  · simp only [rank, (toNat_succ hi).1]
    omega

theorem Position.lt_of_tracing {p n m : Nat} {i : UInt64} {last : Bool} {call : Call}
    (h : Position o p (.tracing i) last n m call) : i < o.count := by
  cases h with
  | tracing hi => exact hi

theorem Position.left_le {p n m left : Nat} {last : Bool} {call : Call}
    (h : Position o p (.closing left) last n m call) : left ≤ o.consumers.toNat := by
  cases h with
  | closing hm => omega

theorem Kept.rank_step {past : List Event} {closer : Option Nat} {k p : Nat} {stage : Producer}
    (h : Kept o past r closer k) (hu : Unread o r.channel) (hc : o.consumers = 0)
    (hp : r.producers[p]? = some stage) (hne : stage ≠ .ended) (ha : Channel.asleep p r.channel = false) :
    ∃ stage', (r.step o 0 (.producer p)).producers = r.producers.setIfInBounds p stage' ∧
      rank o stage' < rank o stage := by
  -- in a push it would sleep, so it is before one, behind one or at its end
  have hpushing := fun hs => ha.symm.trans (h.asleep_of_pushing hu hp hs)
  obtain ⟨n, call, hpos, hat, -⟩ := h.producer p stage hp
  obtain ⟨channel, producers, consumers, active, shares, traces⟩ := r
  have hp : producers[p]? = some stage := hp
  cases stage with
  | next i =>
    simp only [Race.step, Race.stepProducer, hp]
    by_cases hi : i < o.count
    · rw [if_pos hi]
      refine ⟨_, rfl, ?_⟩
      rcases (hu.push 0 p (valueOf o (.ofNat p) i)).2 with he | he <;> rw [he]
      · exact Nat.lt_succ_self _
      · exact rank_afterValue hi
    · rw [if_neg hi]
      refine ⟨_, rfl, ?_⟩
      simp only [rank]
      omega
  | tracing i =>
    simp only [Race.step, Race.stepProducer, hp]
    refine ⟨_, rfl, ?_⟩
    have hi := hpos.lt_of_tracing
    have hlt := UInt64.lt_iff_toNat_lt.mp hi
    simp only [rank, (toNat_succ hi).1]
    omega
  | leaving =>
    simp only [Race.step, Race.stepProducer, hp]
    refine ⟨_, rfl, ?_⟩
    split
    · rw [hc]
      exact Nat.lt_succ_self _
    · exact Nat.succ_pos _
  | closing left =>
    have hleft := hpos.left_le
    rw [hc] at hleft
    obtain rfl : left = 0 := Nat.le_zero.mp hleft
    simp only [Race.step, Race.stepProducer, hp]
    exact ⟨_, rfl, Nat.succ_pos _⟩
  | pushing i => cases hpushing (.inl ⟨i, rfl⟩)
  | pushingToken left => cases hpushing (.inr ⟨left, rfl⟩)
  | ended => exact absurd rfl hne

end

/-! ### What is in the queue -/

section
variable {o : Options} {past : List Event} {r : Race (System Int64)} {closer : Option Nat} {k p : Nat}

theorem Position.le_count {n m : Nat} {stage : Producer} {last : Bool} {call : Call}
    (h : Position o p stage last n m call) : n ≤ o.count.toNat := by
  cases h with
  | next hi => exact UInt64.le_iff_toNat_le.mp hi
  | offering hi => exact Nat.le_of_lt (UInt64.lt_iff_toNat_lt.mp hi)
  | offered hi | tracing hi => exact UInt64.lt_iff_toNat_lt.mp hi
  | _ => exact Nat.le_refl _

theorem Kept.contents_eq (h : Kept o past r closer k) (hc : o.consumers = 0) :
    contents r.channel = (sent past).map Prod.snd := by
  have htaken : taken past = [] := by
    apply List.eq_nil_iff_forall_not_mem.mpr
    intro x hx
    have hlt := h.takers x hx
    rw [hc] at hlt
    exact Nat.not_lt_zero _ hlt
  rw [← h.fifo, htaken]
  rfl

theorem Kept.length_only (h : Kept o past r closer k) (hc : o.consumers = 0) {stage : Producer}
    (hp : r.producers[p]? = some stage) : ∃ last m call,
    Position o p stage last (only p (sent past)).length m call ∧ Faithful.At r.channel p call := by
  obtain ⟨n, call, hpos, hat, honly⟩ := h.producer p stage hp
  have hk := h.tokens_le
  rw [hc] at hk
  have hdue : due closer k p = 0 := by
    unfold due
    split
    · exact Nat.le_zero.mp hk
    · rfl
  have hlen : (only p (sent past)).length = n := by
    rw [honly, hdue]
    simp [Options.first]
  rw [hlen]
  exact ⟨_, _, call, hpos, hat⟩

theorem Kept.length_contents (h : Kept o past r closer k) (hc : o.consumers = 0) :
    (contents r.channel).length =
      ((List.range o.producers.toNat).map fun p => (only p (sent past)).length).sum := by
  rw [h.contents_eq hc, (perm_only h.senders).length_eq, List.length_flatMap]

theorem Kept.full_of_asleep (h : Kept o past r closer k) (hu : Unread o r.channel) (hc : o.consumers = 0)
    {stage : Producer} (hp : r.producers[p]? = some stage) (ha : Channel.asleep p r.channel = true) :
    o.capacity.toNat ≤ (contents r.channel).length ∧ (only p (sent past)).length < o.count.toNat := by
  have hvalid : BoundedValid (o.producers.toNat + o.consumers.toNat) r.channel := h.valid
  have hwaits : ∃ v, (p, v) ∈ r.channel.space.waiting := by
    rcases asleep_iff.mp ha with hw | hw
    · rw [(List.append_eq_nil_iff.mp hu.data).1] at hw
      cases hw
    · exact hw
  obtain ⟨v, hv⟩ := hwaits
  refine ⟨?_, ?_⟩
  · -- there are as many woken pushers as there is room, and none is woken
    have hle := hvalid.awake.space (List.ne_nil_of_mem hv)
    rw [hu.space, hu.limit] at hle
    rw [show (contents r.channel).length = r.channel.queue.items.size from Fifo.length_toList _]
    simp only [List.length_nil] at hle
    omega
  · obtain ⟨last, m, call, hpos, hat⟩ := h.length_only hc hp
    have hticket := mem_tickets_of_asleep ha
    have hcount := congrArg UInt64.toNat hc
    generalize (only p (sent past)).length = n at hpos ⊢
    cases hpos with
    | offering hi => exact UInt64.lt_iff_toNat_lt.mp hi
    | offeringToken hm =>
      rw [hcount, UInt64.toNat_zero] at hm
      omega
    | offered | offeredToken => exact hat.elim
    | _ => exact absurd hticket hat

theorem Kept.not_stuck_of_room (h : Kept o past r closer k) (hu : Unread o r.channel) (hc : o.consumers = 0)
    (hroom : o.producers.toNat * o.count.toNat ≤ o.capacity.toNat) : ¬ r.Stuck := by
  rintro ⟨⟨t, ht⟩, hall⟩
  cases t with
  | consumer c =>
    obtain ⟨stage, hs, -⟩ := ht
    have hlt := h.lt_of_consumer hs
    rw [hc] at hlt
    exact Nat.not_lt_zero _ hlt
  | producer p =>
    obtain ⟨stage, hs, hne⟩ := ht
    obtain ⟨hfull, hless⟩ := h.full_of_asleep hu hc hs (hall (.producer p) ⟨stage, hs, hne⟩)
    have hle : ∀ p < o.producers.toNat, (only p (sent past)).length ≤ o.count.toNat := by
      intro p hp
      obtain ⟨stage, hs⟩ := h.producer_at hp
      obtain ⟨last, m, call, hpos, -⟩ := h.length_only hc hs
      exact hpos.le_count
    -- so many values are inside that none is missing
    obtain ⟨hsum, hiff⟩ := sum_of_le hle
    rw [← h.length_contents hc] at hsum hiff
    have hall := hiff.mp (by omega) p (h.lt_of_producer hs)
    omega

theorem Kept.unfinished_of_clogged (h : Kept o past r closer k) (hu : Unread o r.channel) (hf : o.Fits)
    (hc : o.Clogged) : ∃ t, r.Unfinished t := by
  by_contra hnone
  have hended : ∀ stage ∈ r.producers, stage = .ended := by
    intro stage hmem
    by_contra hne
    obtain ⟨p, hp, hstage⟩ := Array.getElem_of_mem hmem
    exact hnone ⟨.producer p, stage, Array.getElem?_eq_some_iff.mpr ⟨hp, hstage⟩, hne⟩
  -- then all values were pushed, and they are still in the queue
  obtain ⟨-, q, hq⟩ := h.closer_of_ended hended
  have hvalues := (h.values_perm hf hq).length_eq
  have hle := List.length_filter_le (fun v => decide (v ≠ token)) ((sent past).map Prod.snd)
  rw [← h.contents_eq hc.1] at hvalues hle
  have hsize : (contents r.channel).length = r.channel.queue.items.size := Fifo.length_toList _
  have hroom := hu.size
  have hlimit := hu.limit
  have hmore := hc.2
  simp only [Options.numbers, List.length_map, List.length_range] at hvalues
  omega

end

/-! ### Whole runs -/

section
variable {o : Options} {past : List Event} {r : Race (System Int64)}

theorem Steps.unread (h : Steps o (start o (.start { limit := o.capacity.toNat } : System Int64)) past r)
    (hc : o.consumers = 0) : Unread o r.channel := by
  induction h with
  | refl => exact ⟨rfl, rfl, Nat.zero_le _, rfl, rfl⟩
  | step pick t h ih =>
    refine ih.step ?_ pick t
    rw [h.size.2, start, Array.size_replicate, hc]
    rfl

/-- Without a consumer all producers come to sleep or to their end. -/
theorem Steps.standstill (h : Steps o (start o (.start { limit := o.capacity.toNat } : System Int64)) past r)
    (hcap : 1 ≤ o.capacity.toNat) (hf : o.Fits) (hp : 1 ≤ o.producers) (hc : o.consumers = 0) :
    ∃ past r, Steps o (start o (.start { limit := o.capacity.toNat } : System Int64)) past r ∧
      ∀ t, r.Unfinished t → Channel.asleep (r.number t) r.channel = true := by
  induction hn : (r.producers.toList.map (rank o)).sum using Nat.strongRecOn generalizing past r with
  | ind n ih =>
    subst hn
    by_cases hall : ∀ t, r.Unfinished t → Channel.asleep (r.number t) r.channel = true
    · exact ⟨past, r, h, hall⟩
    · obtain ⟨t, ht⟩ := not_forall.mp hall
      obtain ⟨hun, ha⟩ := Classical.not_imp.mp ht
      obtain ⟨closer, k, hk⟩ := h.kept (fresh_bounded hcap) hf hp
      cases t with
      | consumer c =>
        obtain ⟨stage, hs, -⟩ := hun
        have hlt := hk.lt_of_consumer hs
        rw [hc] at hlt
        exact absurd hlt (Nat.not_lt_zero _)
      | producer p =>
        obtain ⟨stage, hs, hne⟩ := hun
        -- its step lowers its own rank and no other changes
        obtain ⟨stage', he, hlt⟩ := hk.rank_step (h.unread hc) hc hs hne (Bool.eq_false_iff.mpr ha)
        refine ih _ ?_ (h.step 0 (.producer p)) rfl
        have hsum := sum_map_set (rank o) (l := r.producers.toList) (by rw [Array.getElem?_toList, hs]) stage'
        rw [he, Array.toList_setIfInBounds]
        omega

theorem exists_stuck_of_clogged (hcap : 1 ≤ o.capacity.toNat) (hf : o.Fits) (hc : o.Clogged) :
    ∃ past r, Steps o (start o (.start { limit := o.capacity.toNat } : System Int64)) past r ∧ r.Stuck := by
  have hp : 1 ≤ o.producers := by
    apply UInt64.le_iff_toNat_le.mpr
    by_contra hz
    have hzero : o.producers.toNat = 0 := by simpa using hz
    have hmore := hc.2
    rw [hzero, Nat.zero_mul] at hmore
    exact Nat.not_lt_zero _ hmore
  obtain ⟨past, r, h, hall⟩ := Steps.refl.standstill hcap hf hp hc.1
  obtain ⟨closer, k, hk⟩ := h.kept (fresh_bounded hcap) hf hp
  exact ⟨past, r, h, hk.unfinished_of_clogged (h.unread hc.1) hf hc, hall⟩

end

/-! ## Without a producer -/

section
variable {o : Options} {r : Race (System Int64)} {j : Nat}

structure Parked (o : Options) (j : Nat) (r : Race (System Int64)) : Prop where
  up : r.channel.queue.down = false
  empty : r.channel.queue.items.size = 0
  producers : r.producers.size = 0
  waiting : ∀ c < j, c ∈ r.channel.data.waiting
  consumers : ∀ c, r.consumers[c]? = if c < o.consumers.toNat then some (if c < j then .popping else .asking) else none

theorem Parked.step (h : Parked o j r) (hj : j < o.consumers.toNat) : Parked o (j + 1) (r.step o 0 (.consumer j)) := by
  obtain ⟨channel, producers, consumers, active, shares, traces⟩ := r
  have hzero : producers.size = 0 := h.producers
  have hask : consumers[j]? = some .asking := by
    have hc := h.consumers j
    simpa [hj] using hc
  have hpop : Channel.pop 0 j channel = (channel.parkPop j, .underWay) := by
    show (channel.runPop 0 j).map id Progress.ofBlocking = _
    rcases channel.runPop_cases 0 j with ⟨-, -, he⟩ | ⟨hd, -⟩ | ⟨-, v, rest, hq, -⟩
    · rw [he]
      rfl
    · cases h.up.symm.trans hd
    · have hlen := congrArg List.length hq
      rw [Fifo.length_toList, show channel.queue.items.size = 0 from h.empty] at hlen
      cases hlen
  have hwait : popProgress o .underWay = (.popping, none) := rfl
  simp only [Race.step, stepConsumer, hask, consumerThread, hzero, Nat.zero_add, hpop, hwait]
  refine ⟨h.up, h.empty, hzero, ?_, ?_⟩
  · intro c hc
    apply List.mem_append.mpr
    rcases Nat.lt_succ_iff_lt_or_eq.mp hc with hlt | rfl
    · exact .inl (h.waiting c hlt)
    · exact .inr (List.mem_singleton.mpr rfl)
  · intro c
    have hc := h.consumers c
    have hsize : j < consumers.size := (Array.getElem?_eq_some_iff.mp hask).1
    rw [Array.getElem?_setIfInBounds]
    by_cases he : j = c
    · subst he
      rw [if_pos rfl, if_pos hsize, if_pos hj, if_pos (Nat.lt_succ_self j)]
    · rw [if_neg he]
      have hiff : c < j + 1 ↔ c < j := by omega
      simpa only [hiff] using hc

theorem exists_parked (o : Options) (ho : o.producers = 0) (hj : j ≤ o.consumers.toNat) :
    ∃ past r, Steps o (start o (.start { limit := o.capacity.toNat } : System Int64)) past r ∧ Parked o j r := by
  induction j with
  | zero =>
    refine ⟨_, _, .refl, rfl, rfl, ?_, nofun, ?_⟩
    · simp [start, ho]
    · intro c
      simp [start, Array.getElem?_replicate]
  | succ j ih =>
    obtain ⟨past, r, h, hp⟩ := ih (by omega)
    exact ⟨_, _, h.step 0 (.consumer j), hp.step hj⟩

theorem Parked.stuck (h : Parked o o.consumers.toNat r) (hc : 1 ≤ o.consumers) : r.Stuck := by
  have hpos : 0 < o.consumers.toNat := UInt64.le_iff_toNat_le.mp hc
  refine ⟨⟨.consumer 0, .popping, ?_, nofun⟩, ?_⟩
  · rw [h.consumers 0, if_pos hpos, if_pos hpos]
  · intro t ht
    cases t with
    | producer p =>
      obtain ⟨stage, hs, -⟩ := ht
      rw [Array.eq_empty_of_size_eq_zero h.producers] at hs
      cases hs
    | consumer c =>
      obtain ⟨stage, hs, -⟩ := ht
      have hlt : c < o.consumers.toNat := by
        by_contra hge
        rw [h.consumers c, if_neg hge] at hs
        cases hs
      apply asleep_iff.mpr
      left
      rw [number, consumerThread, h.producers, Nat.zero_add]
      exact h.waiting c hlt

theorem exists_stuck_of_orphaned (ho : o.Orphaned) :
    ∃ past r, Steps o (start o (.start { limit := o.capacity.toNat } : System Int64)) past r ∧ r.Stuck := by
  obtain ⟨past, r, h, hp⟩ := exists_parked o ho.1 (Nat.le_refl _)
  exact ⟨past, r, h, hp.stuck ho.2⟩

end

/-! ## Exactly then -/

section
variable {o : Options} {past : List Event}

theorem one_le_of_ne_zero {n : UInt64} (h : n ≠ 0) : 1 ≤ n := by
  apply UInt64.le_iff_toNat_le.mpr
  apply Nat.pos_of_ne_zero
  intro hz
  exact h (UInt64.toNat_inj.mp hz)

theorem Kept.not_stuck {r : Race (System Int64)} {closer : Option Nat} {k : Nat} (h : Kept o past r closer k)
    (hc : 1 ≤ o.consumers) : ¬ r.Stuck := by
  rintro ⟨⟨t, ht⟩, hall⟩
  have hdone := h.isDone_of_asleep (UInt64.le_iff_toNat_le.mp hc) hall
  obtain ⟨hproducers, hconsumers⟩ := isDone_iff.mp hdone
  cases t with
  | producer p =>
    obtain ⟨stage, hs, hne⟩ := ht
    exact hne (hproducers stage (Array.mem_of_getElem? hs))
  | consumer c =>
    obtain ⟨stage, hs, hne⟩ := ht
    exact hne (hconsumers stage (Array.mem_of_getElem? hs))

theorem Steps.no_threads {σ : Type} [Channel σ] [Contents σ] {channel : σ} {r : Race σ}
    (h : Steps o (start o channel) past r) (hp : o.producers = 0) (hc : o.consumers = 0) :
    r.producers.size = 0 ∧ r.consumers.size = 0 := by
  obtain ⟨hps, hcs⟩ := h.size
  rw [start, Array.size_replicate, hp] at hps
  rw [start, Array.size_replicate, hc] at hcs
  exact ⟨hps, hcs⟩

theorem Steps.unfit_of_stuck {r : Race (System Int64)}
    (h : Steps o (start o (.start { limit := o.capacity.toNat } : System Int64)) past r) (hv : o.validate = .ok ())
    (hs : r.Stuck) : o.Orphaned ∨ o.Clogged := by
  obtain ⟨hcap, hf⟩ := Options.fits_of_validate hv
  by_cases hc : o.consumers = 0
  · by_cases hp : o.producers = 0
    · obtain ⟨hps, hcs⟩ := h.no_threads hp hc
      obtain ⟨⟨t, ht⟩, -⟩ := hs
      exact absurd ht (not_unfinished hps hcs t)
    · right
      refine ⟨hc, ?_⟩
      by_contra hroom
      obtain ⟨closer, k, hk⟩ := h.kept (fresh_bounded hcap) hf (one_le_of_ne_zero hp)
      exact hk.not_stuck_of_room (h.unread hc) hc (Nat.not_lt.mp hroom) hs
  · left
    refine ⟨?_, one_le_of_ne_zero hc⟩
    by_contra hp
    obtain ⟨closer, k, hk⟩ := h.kept (fresh_bounded hcap) hf (one_le_of_ne_zero hp)
    exact hk.not_stuck (one_le_of_ne_zero hc) hs

theorem Steps.orphaned_of_starved {r : Race (Linked.System Int64)}
    (h : Steps o (start o (.start (o.producers.toNat + o.consumers.toNat) .new : Linked.System Int64)) past r)
    (hv : o.validate = .ok ()) (hs : r.Starved) : o.Orphaned := by
  obtain ⟨-, hf⟩ := Options.fits_of_validate hv
  obtain ⟨hended, hempty, stage, hmem, hne⟩ := hs
  have hp : o.producers = 0 := by
    by_contra hp
    obtain ⟨closer, k, hk⟩ := h.kept (fresh_linked o) hf (one_le_of_ne_zero hp)
    exact hne (hk.ended_of_empty hempty hended stage hmem)
  refine ⟨hp, one_le_of_ne_zero ?_⟩
  intro hc
  obtain ⟨-, hcs⟩ := h.no_threads hp hc
  rw [Array.eq_empty_of_size_eq_zero hcs] at hmem
  exact Array.not_mem_empty stage hmem

theorem starved_of_orphaned (ho : o.Orphaned) :
    (start o (.start (o.producers.toNat + o.consumers.toNat) .new : Linked.System Int64)).Starved := by
  have hpos : 0 < o.consumers.toNat := UInt64.le_iff_toNat_le.mp ho.2
  refine ⟨?_, rfl, .asking, ?_, nofun⟩
  · intro stage hs
    simp [start, ho.1] at hs
  · simp only [start]
    exact Array.mem_replicate.mpr ⟨Nat.ne_of_gt hpos, rfl⟩

/-- Over the blocking queue a race can come to a standstill if and only if there are consumers
and no producer, or more values than have room and no consumer; over the linked one a consumer
can stay without its token if and only if there are consumers and no producer. -/
theorem stuck_iff (hv : o.validate = .ok ()) :
    ((∃ past r, Steps o (start o (.start { limit := o.capacity.toNat } : System Int64)) past r ∧ r.Stuck) ↔
      o.Orphaned ∨ o.Clogged) ∧
    ((∃ past r, Steps o (start o (.start (o.producers.toNat + o.consumers.toNat) .new : Linked.System Int64)) past r ∧
      r.Starved) ↔ o.Orphaned) := by
  obtain ⟨hcap, hf⟩ := Options.fits_of_validate hv
  refine ⟨⟨?_, ?_⟩, ?_, ?_⟩
  · rintro ⟨past, r, h, hs⟩
    exact h.unfit_of_stuck hv hs
  · rintro (ho | hc)
    · exact exists_stuck_of_orphaned ho
    · exact exists_stuck_of_clogged hcap hf hc
  · rintro ⟨past, r, h, hs⟩
    exact h.orphaned_of_starved hv hs
  · intro ho
    exact ⟨_, _, .refl, starved_of_orphaned ho⟩

end

def orphans : Options := { producers := 0, count := 2 }

def overfull : Options := { consumers := 0, count := 65 }

theorem stuck_iff_narrow : narrow.validate = .ok () ∧
    (¬ ∃ past r, Steps narrow (start narrow (.start { limit := 1 } : System Int64)) past r ∧ r.Stuck) ∧
    overfull.validate = .ok () ∧
    ∃ past r, Steps overfull (start overfull (.start { limit := 64 } : System Int64)) past r ∧ r.Stuck := by
  have hnarrow : narrow.validate = .ok () := by decide
  have hover : overfull.validate = .ok () := by decide
  refine ⟨hnarrow, ?_, hover, (stuck_iff hover).1.mpr (by decide)⟩
  intro h
  exact absurd ((stuck_iff hnarrow).1.mp h) (by decide)

theorem stuck_orphans : orphans.validate = .ok () ∧
    (∃ past r, Steps orphans (start orphans (.start { limit := 64 } : System Int64)) past r ∧ r.Stuck) ∧
    ∃ past r, Steps orphans (start orphans (.start 5 .new : Linked.System Int64)) past r ∧ r.Starved :=
  ⟨by decide, exists_stuck_of_orphaned (by decide), _, _, .refl, starved_of_orphaned (by decide)⟩

end Race

end Conduit.Pipeline
