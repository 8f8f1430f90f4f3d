import Conduit.Proofs.Pipeline.Delivery

/-!
# Traces of a race

With tracing on, a producer logs a value once it has pushed it and a consumer logs one
before it puts it to its share. So what a producer has logged are the first of its values,
and what a consumer has logged is its share; in the end every value was logged once on
either side.
-/

namespace Conduit.Pipeline

namespace Race

/-! ## What was logged so far -/

def produced (traces : Array Trace) : List (Nat × Int64) :=
  traces.toList.filterMap fun
    | .produced p v => some (p, v)
    | .consumed _ _ => none

def consumed (traces : Array Trace) : List (Nat × Int64) :=
  traces.toList.filterMap fun
    | .produced _ _ => none
    | .consumed c v => some (c, v)

def logged (o : Options) : Producer → Nat
  | .next i | .pushing i | .tracing i => i.toNat
  | _ => o.count.toNat

/-- The lines are those of the values that the producers have gone past and the consumers
have put to their shares. -/
structure Traced {σ : Type} (o : Options) (r : Race σ) : Prop where
  producer : ∀ p stage, r.producers[p]? = some stage → only p (produced r.traces) = o.first p (logged o stage)
  consumer : ∀ c, only c (consumed r.traces) = share c r
  producers : ∀ x ∈ produced r.traces, x.1 < o.producers.toNat
  consumers : ∀ x ∈ consumed r.traces, x.1 < o.consumers.toNat

section
variable {traces : Array Trace} {p c : Nat} {v : Int64}

theorem produced_push_produced (traces : Array Trace) (p : Nat) (v : Int64) :
    produced (traces.push (.produced p v)) = produced traces ++ [(p, v)] := by
  simp [produced]

theorem produced_push_consumed (traces : Array Trace) (c : Nat) (v : Int64) :
    produced (traces.push (.consumed c v)) = produced traces := by
  simp [produced]

theorem consumed_push_produced (traces : Array Trace) (p : Nat) (v : Int64) :
    consumed (traces.push (.produced p v)) = consumed traces := by
  simp [consumed]

theorem consumed_push_consumed (traces : Array Trace) (c : Nat) (v : Int64) :
    consumed (traces.push (.consumed c v)) = consumed traces ++ [(c, v)] := by
  simp [consumed]

theorem length_traces (traces : Array Trace) : traces.size = (produced traces).length + (consumed traces).length := by
  rw [← Array.length_toList, produced, consumed]
  induction traces.toList with
  | nil => rfl
  | cons x l ih =>
    cases x <;> simp only [List.filterMap_cons, List.length_cons] <;> omega

theorem count_produced (traces : Array Trace) (p : Nat) (v : Int64) :
    traces.toList.count (.produced p v) = (produced traces).count (p, v) := by
  rw [produced]
  induction traces.toList with
  | nil => rfl
  | cons x l ih => cases x <;> simp [List.count_cons, ih]

theorem count_consumed (traces : Array Trace) (c : Nat) (v : Int64) :
    traces.toList.count (.consumed c v) = (consumed traces).count (c, v) := by
  rw [consumed]
  induction traces.toList with
  | nil => rfl
  | cons x l ih => cases x <;> simp [List.count_cons, ih]

theorem count_only (k : Nat) (v : Int64) (l : List (Nat × Int64)) : l.count (k, v) = (only k l).count v := by
  induction l with
  | nil => rfl
  | cons x l ih =>
    obtain ⟨j, w⟩ := x
    have hcons : only k ((j, w) :: l) = only k [(j, w)] ++ only k l := only_append k [(j, w)] l
    rw [List.count_cons, ih, hcons, List.count_append]
    by_cases hj : j = k
    · subst hj
      rw [show only j [(j, w)] = [w] from only_map_self j [w]]
      simp [List.count_singleton, Nat.add_comm]
    · rw [show only k [(j, w)] = [] from only_map_of_ne hj [w]]
      simp [hj]

end

/-! ## One step -/

section
variable {σ : Type} {o : Options} {r : Race σ} {p c : Nat}

theorem Traced.moveProducer (h : Traced o r) {stage stage' : Producer} (hp : r.producers[p]? = some stage)
    (hl : logged o stage' = logged o stage) (channel' : σ) (active' : UInt64) :
    Traced o { r with
      channel := channel'
      producers := r.producers.setIfInBounds p stage'
      active := active' } := by
  refine ⟨?_, h.consumer, h.producers, h.consumers⟩
  intro q st hq
  have hlt := (Array.getElem?_eq_some_iff.mp hp).1
  rw [Array.getElem?_setIfInBounds] at hq
  by_cases hqp : p = q
  · subst hqp
    rw [if_pos rfl, if_pos hlt] at hq
    obtain rfl := Option.some.inj hq
    rw [hl]
    exact h.producer p stage hp
  · rw [if_neg hqp] at hq
    exact h.producer q st hq

theorem Traced.logProducer (h : Traced o r) {i : UInt64} (hp : r.producers[p]? = some (.tracing i))
    (hi : i < o.count) (hlt : p < o.producers.toNat) :
    Traced o { r with
      producers := r.producers.setIfInBounds p (.next (i + 1))
      traces := r.traces.push (.produced p (valueOf o (.ofNat p) i)) } := by
  have hbound := (Array.getElem?_eq_some_iff.mp hp).1
  constructor
  · intro q st hq
    rw [produced_push_produced, only_append]
    rw [Array.getElem?_setIfInBounds] at hq
    by_cases hqp : p = q
    · subst hqp
      rw [if_pos rfl, if_pos hbound] at hq
      obtain rfl := Option.some.inj hq
      rw [h.producer p _ hp, show only p [(p, _)] = [_] from only_map_self p [_], valueOf_ofNat, logged, logged,
        (toNat_succ hi).1, Options.first_succ]
    · rw [if_neg hqp] at hq
      rw [show only q [(p, _)] = [] from only_map_of_ne hqp [_], List.append_nil]
      exact h.producer q st hq
  · intro c
    rw [consumed_push_produced]
    exact h.consumer c
  · intro x hx
    rw [produced_push_produced, List.mem_append, List.mem_singleton] at hx
    rcases hx with hx | rfl
    · exact h.producers x hx
    · exact hlt
  · rw [consumed_push_produced]
    exact h.consumers

theorem Traced.logConsumer (h : Traced o r) (v : Int64) (stage' : Consumer) (hsize : c < r.shares.size)
    (hlt : c < o.consumers.toNat) :
    Traced o { r with
      consumers := r.consumers.setIfInBounds c stage'
      shares := keep c (some v) r.shares
      traces := r.traces.push (.consumed c v) } := by
  constructor
  · intro p stage hp
    rw [produced_push_consumed]
    exact h.producer p stage hp
  · intro c'
    rw [consumed_push_consumed, only_append, h.consumer c']
    by_cases hc : c = c'
    · subst hc
      rw [show only c [(c, v)] = [v] from only_map_self c [v]]
      obtain ⟨share', hkeep, hlist⟩ := keep_self (some v) (Array.getElem?_eq_getElem hsize)
      rw [share, share, Array.getElem?_eq_getElem hsize, hkeep]
      exact hlist.symm
    · rw [show only c' [(c, v)] = [] from only_map_of_ne hc [v], List.append_nil, share, share, keep_of_ne _ hc]
  · rw [produced_push_consumed]
    exact h.producers
  · intro x hx
    rw [consumed_push_consumed, List.mem_append, List.mem_singleton] at hx
    rcases hx with hx | rfl
    · exact h.consumers x hx
    · exact hlt

theorem logged_valueProgress (ht : o.traceValues = true) (i : UInt64) {a : Progress}
    (ha : a = .underWay ∨ a = .accepted) : logged o (valueProgress o i a) = i.toNat := by
  rcases ha with rfl | rfl
  · rfl
  · rw [valueProgress, afterValue, if_pos ht]
    rfl

theorem logged_tokenProgress (left : Nat) (a : Progress) : logged o (tokenProgress left a) = o.count.toNat := by
  cases a <;> rfl

/-- A consumer that traces its values puts none to its share before it has logged it. -/
theorem popProgress_traced (ht : o.traceValues = true) (a : Progress) : (popProgress o a).2 = none := by
  cases a with
  | value v =>
    have heq : popProgress o (.value v) = if v = token then (.ended, none) else
        if o.traceValues then (.tracing v, none) else (.asking, some v) := rfl
    rw [heq, if_pos ht]
    split <;> rfl
  | _ => rfl

theorem traced_start (o : Options) (channel : σ) : Traced o (start o channel) where
  producer := by
    intro p stage hstage
    rw [start, Array.getElem?_replicate] at hstage
    split at hstage
    · obtain rfl := Option.some.inj hstage
      rfl
    · cases hstage
  consumer := by
    intro c
    rw [share, start, Array.getElem?_replicate]
    split <;> rfl
  producers := nofun
  consumers := nofun

end

section
variable {σ : Type} [Channel σ] [Contents σ] [Faithful σ] {o : Options} {past : List Event} {r : Race σ}
  {closer : Option Nat} {k : Nat}

theorem offering_progress {t : Nat} {v : Int64} {s : σ} {q : σ × Progress} (hs : Acts o t (.offering v) s q) :
    q.2 = .underWay ∨ q.2 = .accepted := by
  obtain ⟨call, -, hmoved⟩ := hs.moved
  rcases hmoved.of_offering with ⟨ha, -⟩ | ⟨ha, -⟩ | ⟨ha, -⟩
  · exact .inl ha
  · exact .inl ha
  · exact .inr ha

theorem offered_progress {t : Nat} {s : σ} {q : σ × Progress} (hs : Acts o t .offered s q) :
    q.2 = .underWay ∨ q.2 = .accepted := by
  obtain ⟨call, -, hmoved⟩ := hs.moved
  rcases hmoved.of_offered.2 with ⟨ha, -⟩ | ⟨ha, -⟩
  · exact .inl ha
  · exact .inr ha

theorem Traced.stepProducer (h : Traced o r) (hk : Kept o past r closer k) (ht : o.traceValues = true)
    (pick p : Nat) : Traced o (r.stepProducer o pick p) := by
  obtain ⟨channel, producers, consumers, active, shares, traces⟩ := r
  cases hp : producers[p]? with
  | none =>
    simp only [Race.stepProducer, hp]
    exact h
  | some stage =>
    have hp' := hk.lt_of_producer hp
    have hlt : p < o.producers.toNat + o.consumers.toNat := Nat.lt_add_right _ hp'
    cases stage with
    | next i =>
      obtain ⟨rfl, rfl, -, n, call, hpos, hat, -⟩ := hk.at_work hp rfl
      obtain ⟨hi⟩ := hpos
      simp only [Race.stepProducer, hp]
      by_cases hlast : i < o.count
      · rw [if_pos hlast]
        have hs := Faithful.push pick (valueOf o (.ofNat p) i) hk.valid hlt hat
        exact h.moveProducer hp (logged_valueProgress ht i (offering_progress hs)) _ _
      · rw [if_neg hlast]
        have hcount : i = o.count := UInt64.le_antisymm hi (UInt64.not_lt.mp hlast)
        exact h.moveProducer hp (by rw [hcount]; rfl) _ _
    | pushing i =>
      obtain ⟨rfl, rfl, -, n, call, hpos, hat, -⟩ := hk.at_work hp rfl
      simp only [Race.stepProducer, hp]
      refine h.moveProducer hp (logged_valueProgress ht i ?_) _ _
      have hbusy : call ≠ .idle := by cases hpos <;> simp
      have hs := Faithful.goOn pick hk.valid hat hbusy
      cases hpos with
      | offering _ => exact offering_progress hs
      | offered _ => exact offered_progress hs
    | tracing i =>
      obtain ⟨rfl, rfl, -, n, call, hpos, -⟩ := hk.at_work hp rfl
      simp only [Race.stepProducer, hp]
      cases hpos with
      | tracing hi => exact h.logProducer hp hi hp'
    | leaving =>
      simp only [Race.stepProducer, hp]
      refine h.moveProducer hp ?_ _ _
      split <;> rfl
    | closing left =>
      cases left with
      | zero =>
        simp only [Race.stepProducer, hp]
        exact h.moveProducer hp (show logged o .ended = logged o (.closing 0) from rfl) _ _
      | succ left =>
        simp only [Race.stepProducer, hp]
        exact h.moveProducer hp (logged_tokenProgress left _) _ _
    | pushingToken left =>
      simp only [Race.stepProducer, hp]
      exact h.moveProducer hp (logged_tokenProgress left _) _ _
    | ended =>
      simp only [Race.stepProducer, hp]
      exact h

theorem Traced.stepConsumer (h : Traced o r) (hk : Kept o past r closer k) (ht : o.traceValues = true)
    (pick c : Nat) : Traced o (r.stepConsumer o pick c) := by
  obtain ⟨channel, producers, consumers, active, shares, traces⟩ := r
  cases hc : consumers[c]? with
  | none =>
    simp only [Race.stepConsumer, hc]
    exact h
  | some stage =>
    have hlt := hk.lt_of_consumer hc
    cases stage with
    | asking | popping =>
      simp only [Race.stepConsumer, hc, popProgress_traced ht]
      exact ⟨h.producer, h.consumer, h.producers, h.consumers⟩
    | tracing v =>
      simp only [Race.stepConsumer, hc]
      exact h.logConsumer v .asking (by rw [hk.shares_size]; exact hlt) hlt
    | ended =>
      simp only [Race.stepConsumer, hc]
      exact h

theorem Steps.traced {channel : σ} (h : Steps o (start o channel) past r) (hf : Fresh o channel) (hfit : o.Fits)
    (hp : 1 ≤ o.producers) (ht : o.traceValues = true) : Traced o r := by
  induction h with
  | refl => exact traced_start o channel
  | step pick t h ih =>
    obtain ⟨closer, k, hk⟩ := h.kept hf hfit hp
    cases t with
    | producer p => exact ih.stepProducer hk ht pick p
    | consumer c => exact ih.stepConsumer hk ht pick c

/-! ## Once on either side -/

variable {p v : Nat}

theorem mem_first (hf : o.Fits) (hp : p < o.producers.toNat) (hv : v < o.producers.toNat * o.count.toNat) :
    Int64.ofNat v ∈ o.first p o.count.toNat ↔ p = v / o.count.toNat := by
  have hpos : 0 < o.count.toNat := Nat.pos_of_ne_zero fun he => by simp [he] at hv
  rw [Options.first, List.mem_map]
  constructor
  · rintro ⟨i, hi, he⟩
    have hi := List.mem_range.mp hi
    rw [← ofNat_inj (hf.number_lt hp hi) (Nat.lt_trans hv hf) he, Nat.mul_comm, Nat.mul_add_div hpos,
      Nat.div_eq_of_lt hi, Nat.add_zero]
  · rintro rfl
    refine ⟨v % o.count.toNat, List.mem_range.mpr (Nat.mod_lt v hpos), ?_⟩
    rw [Options.number, Nat.mul_comm, Nat.div_add_mod]

theorem nodup_first (hf : o.Fits) (hp : p < o.producers.toNat) : (o.first p o.count.toNat).Nodup := by
  have hnodup := hf.nodup_numbers
  rw [Options.numbers, ← Options.flatMap_first] at hnodup
  exact (List.nodup_flatMap.mp hnodup).1 p (List.mem_range.mpr hp)

theorem Traced.only_produced (h : Traced o r) (hk : Kept o past r closer k) (hp : p < o.producers.toNat)
    (hall : ∀ stage ∈ r.producers, stage = .ended) : only p (produced r.traces) = o.first p o.count.toNat := by
  obtain ⟨stage, hstage⟩ := hk.producer_at hp
  rw [h.producer p stage hstage, hall stage (Array.mem_of_getElem? hstage)]
  rfl

theorem only_of_ge {l : List (Nat × Int64)} {n : Nat} (hl : ∀ x ∈ l, x.1 < n) {k : Nat} (hk : ¬ k < n) :
    only k l = [] := by
  rw [only, List.filter_eq_nil_iff.mpr, List.map_nil]
  intro x hx hxk
  exact hk (of_decide_eq_true hxk ▸ hl x hx)

theorem Traced.count_produced (h : Traced o r) (hk : Kept o past r closer k) (hf : o.Fits)
    (hall : ∀ stage ∈ r.producers, stage = .ended) (hv : v < o.producers.toNat * o.count.toNat) (p : Nat) :
    r.traces.toList.count (.produced p (.ofNat v)) = if p = v / o.count.toNat then 1 else 0 := by
  rw [Race.count_produced, count_only]
  by_cases hp : p < o.producers.toNat
  · rw [h.only_produced hk hp hall, (nodup_first hf hp).count]
    simp only [mem_first hf hp hv]
  · have hne : p ≠ v / o.count.toNat := by
      rintro rfl
      exact hp (Nat.div_lt_of_lt_mul (Nat.mul_comm _ _ ▸ hv))
    rw [only_of_ge h.producers hp, if_neg hne]
    rfl

theorem Traced.count_consumed (h : Traced o r) (hk : Kept o past r closer k) (hf : o.Fits)
    (hpos : 0 < o.consumers.toNat) (hall : ∀ stage ∈ r.consumers, stage = .ended)
    (hv : v < o.producers.toNat * o.count.toNat) : ∃ c < o.consumers.toNat, ∀ c',
      r.traces.toList.count (.consumed c' (.ofNat v)) = if c' = c then 1 else 0 := by
  obtain ⟨c, hc, hunique⟩ := hk.once hf hpos hall hv
  have hlt : c < o.consumers.toNat := by
    by_contra hge
    rw [← h.consumer c, only_of_ge h.consumers hge] at hc
    cases hc
  refine ⟨c, hlt, fun c' => ?_⟩
  rw [Race.count_consumed, count_only, h.consumer c']
  by_cases hcc : c' = c
  · subst hcc
    -- no share has a value twice
    have hnodup := (hk.shares_perm hf hpos hall).nodup_iff.mpr hf.nodup_numbers
    have hshare := (List.nodup_flatMap.mp hnodup).1 c' (List.mem_range.mpr hlt)
    rw [hshare.count, if_pos hc, if_pos rfl]
  · rw [if_neg hcc]
    exact List.count_eq_zero.mpr fun hmem => hcc (hunique c' hmem)

theorem Traced.size_traces (h : Traced o r) (hk : Kept o past r closer k) (hf : o.Fits)
    (hpos : 0 < o.consumers.toNat) (hp : ∀ stage ∈ r.producers, stage = .ended)
    (hc : ∀ stage ∈ r.consumers, stage = .ended) :
    r.traces.size = 2 * (o.producers.toNat * o.count.toNat) := by
  have hnumbers : o.numbers.length = o.producers.toNat * o.count.toNat := by
    rw [Options.numbers, List.length_map, List.length_range]
  have hproduced : (produced r.traces).length = o.numbers.length := by
    rw [← List.length_map Prod.snd, (perm_only h.producers).length_eq, Options.numbers, ← Options.flatMap_first]
    congr 1
    exact List.flatMap_congr fun p hp' => h.only_produced hk (List.mem_range.mp hp') hp
  have hconsumed : (consumed r.traces).length = o.numbers.length := by
    rw [← List.length_map Prod.snd, (perm_only h.consumers).length_eq, ← (hk.shares_perm hf hpos hc).length_eq]
    congr 1
    exact List.flatMap_congr fun c _ => h.consumer c
  rw [length_traces, hproduced, hconsumed, hnumbers]
  omega

end

end Race

end Conduit.Pipeline
