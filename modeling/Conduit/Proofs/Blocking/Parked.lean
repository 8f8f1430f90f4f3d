import Conduit.Proofs.Blocking.Turns

/-!
# Parked calls are counted

A call that goes to sleep is counted and taken off the count when it runs again. In
between anybody may use the queue, and one call may sleep many times. The log tells which
calls have not returned: they are asleep or woken, one for each thread, and the counts are
their numbers (`parked_counts_are_exact`). Looking at the queue is no step at all.
-/

namespace Conduit.Blocking

/-! ## What the log says -/

section
variable {α : Type} {past : List (Event α)} {a : Act α} {r : Answer α} {k : Nat}

def parked? : Act α × Answer α → Option (Act α)
  | (a, .parked) => some a
  | _ => none

def unreturned (past : List (Event α)) : List (Act α) := (outcomes past).filterMap parked?

theorem parked?_of_ne (hr : r ≠ .parked) (a : Act α) : parked? (a, r) = none := by
  unfold parked?
  split
  · rename_i he
    exact absurd (congrArg Prod.snd he) hr
  · rfl

theorem unreturned_parked (ha : a.isResume = false) :
    unreturned (⟨k, a, .parked⟩ :: past) = unreturned past ++ [a] := by
  simp [unreturned, outcomes, ha, parked?]

theorem unreturned_answered (ha : a.isResume = false) (hr : r ≠ .parked) :
    unreturned (⟨k, a, r⟩ :: past) = unreturned past := by
  simp [unreturned, outcomes, ha, parked?_of_ne hr]

theorem parked?_renew_parked (call : Act α × Answer α) :
    parked? (Event.renew ⟨k, a, .parked⟩ call) = parked? call := by
  obtain ⟨c, r⟩ := call
  cases r <;> simp [Event.renew]

theorem parked?_renew (hr : r ≠ .parked) (call : Act α × Answer α) :
    parked? (Event.renew ⟨k, a, r⟩ call) = (parked? call).filter fun c => !a.resumes c := by
  obtain ⟨c, r'⟩ := call
  cases r' with
  | parked =>
    simp only [Event.renew]
    by_cases hc : a.resumes c = true
    · rw [if_pos hc, parked?_of_ne hr]
      simp [parked?, Option.filter, hc]
    · rw [if_neg hc]
      simp [parked?, Option.filter, hc]
  | _ => rfl

theorem unreturned_again (ha : a.isResume = true) :
    unreturned (⟨k, a, .parked⟩ :: past) = unreturned past := by
  simp [unreturned, outcomes, ha, List.filterMap_map, parked?_renew_parked]

theorem unreturned_returned (ha : a.isResume = true) (hr : r ≠ .parked) :
    unreturned (⟨k, a, r⟩ :: past) = (unreturned past).filter fun c => !a.resumes c := by
  simp [unreturned, outcomes, ha, List.filterMap_map, parked?_renew hr, List.filter_filterMap]

end

namespace System

variable {α : Type} {past : List (Event α)} {s s' : System α} {a : Act α} {r : Answer α} {t : Ticket} {v : α}
  {pick k : Nat}

/-! ## Who waits -/

def waits (s : System α) : List (Act α) :=
  s.data.calls.map .pop ++ s.space.calls.map fun call => .push call.1 call.2

theorem pushers_waits (s : System α) : s.waits.filterMap Act.pusher? = s.space.calls.map Prod.fst := by
  simp [waits, List.filterMap_map, Function.comp_def, Act.pusher?, List.filterMap_eq_map']

theorem poppers_waits (s : System α) : s.waits.filterMap Act.popper? = s.data.calls := by
  simp [waits, List.filterMap_map, Function.comp_def, Act.popper?]

theorem not_resumes (hf : t ∉ s.tickets) {c : Act α} (hc : c ∈ s.waits) :
    (Act.resumePush t).resumes c = false ∧ (Act.resumePop t).resumes c = false := by
  rcases List.mem_append.mp hc with hc | hc
  · obtain ⟨t', ht', rfl⟩ := List.mem_map.mp hc
    have hne : t ≠ t' := fun he => hf (List.mem_append_left _ (he ▸ ht'))
    simp [Act.resumes, hne]
  · obtain ⟨call, hcall, rfl⟩ := List.mem_map.mp hc
    have hne : t ≠ call.1 := fun he => hf (List.mem_append_right _ (he ▸ List.mem_map_of_mem hcall))
    simp [Act.resumes, hne]

theorem waits_parkPush (t : Ticket) (v : α) (s : System α) : (s.parkPush t v).waits.Perm (.push t v :: s.waits) := by
  have h := (Condition.calls_park (t, v) s.space).map fun call => Act.push call.1 call.2
  exact (h.append_left _).trans List.perm_middle

theorem waits_parkPop (t : Ticket) (s : System α) : (s.parkPop t).waits.Perm (.pop t :: s.waits) :=
  ((Condition.calls_park t s.data).map Act.pop).append_right _

theorem waits_leavePush (hd : s.tickets.Nodup) (hw : (t, v) ∈ s.space.woken) :
    s.waits.Perm (.push t v :: (s.leavePush t).waits) := by
  obtain ⟨w, hcalls⟩ := calls_leavePush hw
  have hv : w = v := item_unique hd (hcalls.mem_iff.mpr List.mem_cons_self) (List.mem_append_right _ hw)
  subst hv
  exact ((hcalls.map fun call => Act.push call.1 call.2).append_left _).trans List.perm_middle

theorem waits_leavePop (hw : t ∈ s.data.woken) : s.waits.Perm (.pop t :: (s.leavePop t).waits) :=
  ((calls_leavePop hw).map Act.pop).append_right _

/-! ## One step -/

structure Still (s s' : System α) : Prop where
  data : s'.data.calls.Perm s.data.calls
  space : s'.space.calls.Perm s.space.calls
  pushers : s'.queue.parkedPushers = s.queue.parkedPushers
  poppers : s'.queue.parkedPoppers = s.queue.parkedPoppers

theorem Still.refl (s : System α) : s.Still s := ⟨.refl _, .refl _, rfl, rfl⟩

theorem still_accept (pick : Nat) (v : α) (s : System α) : s.Still (s.accept pick v) :=
  ⟨Condition.calls_notifyOne pick s.data, .refl _, rfl, rfl⟩

theorem still_release (pick : Nat) (rest : Fifo α) (s : System α) : s.Still (s.release pick rest) :=
  ⟨.refl _, Condition.calls_notifyOne pick s.space, rfl, rfl⟩

theorem still_drain (s : System α) : s.Still s.drain.1 := by
  rw [drain_eq]
  refine ⟨.refl _, ?_, rfl, rfl⟩
  simp only
  split
  · exact .refl _
  · exact Condition.calls_notifyAll s.space

theorem still_shutDown (s : System α) : s.Still s.shutDown.1 := by
  rcases s.shutDown_cases with ⟨-, he⟩ | ⟨-, he⟩
  · rw [he]
    exact .refl s
  · rw [he]
    exact ⟨Condition.calls_notifyAll s.data, Condition.calls_notifyAll s.space, rfl, rfl⟩

theorem Still.waits (h : s.Still s') : s'.waits.Perm s.waits := (h.data.map _).append (h.space.map _)

theorem Still.tickets (h : s.Still s') : s'.tickets.Perm s.tickets := h.data.append (h.space.map _)

/-- What a step does to the calls that wait: a call begins to wait, a woken one leaves or waits
again, and everything else leaves them alone. -/
inductive Parks (s : System α) : Act α → Answer α → System α → Prop
  | push (t : Ticket) (v : α) : Parks s (.push t v) .parked (s.parkPush t v)
  | pop (t : Ticket) : Parks s (.pop t) .parked (s.parkPop t)
  | still {a : Act α} {r : Answer α} {s' : System α} : a.isResume = false → r ≠ .parked → s.Still s' → Parks s a r s'
  | pushAgain {t : Ticket} {v : α} : (t, v) ∈ s.space.woken →
      Parks s (.resumePush t) .parked ((s.leavePush t).parkPush t v)
  | pushLeaves {t : Ticket} {v : α} {r : Answer α} {s' : System α} : (t, v) ∈ s.space.woken → r ≠ .parked →
      (s.leavePush t).Still s' → Parks s (.resumePush t) r s'
  | popAgain {t : Ticket} : t ∈ s.data.woken → Parks s (.resumePop t) .parked ((s.leavePop t).parkPop t)
  | popLeaves {t : Ticket} {r : Answer α} {s' : System α} : t ∈ s.data.woken → r ≠ .parked →
      (s.leavePop t).Still s' → Parks s (.resumePop t) r s'

theorem runPush_parks (pick : Nat) (t : Ticket) (v : α) (s : System α) :
    s.runPush pick t v = (s.parkPush t v, .parked) ∨
      (s.runPush pick t v).2 ≠ .parked ∧ s.Still (s.runPush pick t v).1 := by
  rcases s.runPush_cases pick t v with ⟨-, -, he⟩ | ⟨-, he⟩ | ⟨-, -, he⟩
  · exact .inl he
  · rw [he]
    exact .inr ⟨nofun, .refl s⟩
  · rw [he]
    exact .inr ⟨nofun, still_accept pick v s⟩

theorem runPop_parks (pick : Nat) (t : Ticket) (s : System α) :
    s.runPop pick t = (s.parkPop t, .parked) ∨
      (s.runPop pick t).2 ≠ .parked ∧ s.Still (s.runPop pick t).1 := by
  rcases s.runPop_cases pick t with ⟨-, -, he⟩ | ⟨-, he⟩ | ⟨-, v, rest, -, he⟩
  · exact .inl he
  · rw [he]
    exact .inr ⟨nofun, .refl s⟩
  · rw [he]
    exact .inr ⟨nofun, still_release pick rest s⟩

theorem parks_step (hs : s.step pick a = some (s', r)) : Parks s a r s' := by
  cases a with
  | push t v =>
    have he := Option.some.inj hs
    rcases s.runPush_parks pick t v with hc | ⟨hr, hstill⟩
    · rw [hc] at he
      cases he
      exact .push t v
    · rw [he] at hr hstill
      exact .still rfl hr hstill
  | pop t =>
    have he := Option.some.inj hs
    rcases s.runPop_parks pick t with hc | ⟨hr, hstill⟩
    · rw [hc] at he
      cases he
      exact .pop t
    · rw [he] at hr hstill
      exact .still rfl hr hstill
  | tryPush v =>
    have he := Option.some.inj hs
    rcases s.tryPush_cases pick v with hc | ⟨-, -, hc⟩ <;> rw [hc] at he <;> cases he
    · exact .still rfl nofun (.refl s)
    · exact .still rfl nofun (still_accept pick v s)
  | tryPop =>
    have he := Option.some.inj hs
    rcases s.tryPop_cases pick with hc | ⟨-, v, rest, -, hc⟩ <;> rw [hc] at he <;> cases he
    · exact .still rfl nofun (.refl s)
    · exact .still rfl nofun (still_release pick rest s)
  | drain =>
    have hstill := s.still_drain
    have he := Option.some.inj hs
    rw [he] at hstill
    rw [drain_eq] at he
    cases he
    exact .still rfl nofun hstill
  | shutDown =>
    have hstill := s.still_shutDown
    have he := Option.some.inj hs
    rw [he] at hstill
    rcases s.shutDown_cases with ⟨-, hc⟩ | ⟨-, hc⟩ <;> rw [hc] at he <;> cases he
    · exact .still rfl nofun hstill
    · exact .still rfl nofun hstill
  | resumePush t =>
    obtain ⟨v, hw, he⟩ := resumePush_eq_some hs
    rcases (s.leavePush t).runPush_parks pick t v with hc | ⟨hr, hstill⟩
    · rw [hc] at he
      cases he
      exact .pushAgain hw
    · rw [he] at hr hstill
      exact .pushLeaves hw hr hstill
  | resumePop t =>
    obtain ⟨hw, he⟩ := resumePop_eq_some hs
    rcases (s.leavePop t).runPop_parks pick t with hc | ⟨hr, hstill⟩
    · rw [hc] at he
      cases he
      exact .popAgain hw
    · rw [he] at hr hstill
      exact .popLeaves hw hr hstill

/-! ## The counts -/

/-- Each thread is in one wait at most, and each wait is counted. -/
structure Counted (s : System α) : Prop where
  pushers : s.queue.parkedPushers = s.space.calls.length
  poppers : s.queue.parkedPoppers = s.data.calls.length
  distinct : s.tickets.Nodup

theorem Counted.still (h : s.Counted) (hs : s.Still s') : s'.Counted where
  pushers := by rw [hs.pushers, hs.space.length_eq, h.pushers]
  poppers := by rw [hs.poppers, hs.data.length_eq, h.poppers]
  distinct := hs.tickets.nodup_iff.mpr h.distinct

theorem Counted.parkPush (h : s.Counted) (hf : t ∉ s.tickets) (v : α) : (s.parkPush t v).Counted where
  pushers := by
    have hlen := (Condition.calls_park (t, v) s.space).length_eq
    rw [List.length_cons, ← h.pushers] at hlen
    exact hlen.symm
  poppers := h.poppers
  distinct := (tickets_parkPush t v s).nodup_iff.mpr (List.nodup_cons.mpr ⟨hf, h.distinct⟩)

theorem Counted.parkPop (h : s.Counted) (hf : t ∉ s.tickets) : (s.parkPop t).Counted where
  pushers := h.pushers
  poppers := by
    have hlen := (Condition.calls_park t s.data).length_eq
    rw [List.length_cons, ← h.poppers] at hlen
    exact hlen.symm
  distinct := (tickets_parkPop t s).nodup_iff.mpr (List.nodup_cons.mpr ⟨hf, h.distinct⟩)

theorem Counted.pushers_leavePush (h : s.Counted) (hw : (t, v) ∈ s.space.woken) :
    (s.leavePush t).queue.parkedPushers + 1 = s.queue.parkedPushers ∧
      s.queue.parkedPushers = (s.leavePush t).space.calls.length + 1 := by
  -- taking one off zero would give zero again, so that there is one has to come from the call
  obtain ⟨w, hcalls⟩ := calls_leavePush hw
  have hlen := hcalls.length_eq
  rw [List.length_cons, ← h.pushers] at hlen
  have heq : (s.leavePush t).queue.parkedPushers = s.queue.parkedPushers - 1 := rfl
  omega

theorem Counted.poppers_leavePop (h : s.Counted) (hw : t ∈ s.data.woken) :
    (s.leavePop t).queue.parkedPoppers + 1 = s.queue.parkedPoppers ∧
      s.queue.parkedPoppers = (s.leavePop t).data.calls.length + 1 := by
  have hlen := (calls_leavePop hw).length_eq
  rw [List.length_cons, ← h.poppers] at hlen
  have heq : (s.leavePop t).queue.parkedPoppers = s.queue.parkedPoppers - 1 := rfl
  omega

theorem Counted.leavePush (h : s.Counted) (hw : (t, v) ∈ s.space.woken) :
    (s.leavePush t).Counted ∧ t ∉ (s.leavePush t).tickets := by
  obtain ⟨hless, heq⟩ := h.pushers_leavePush hw
  obtain ⟨hf, hd⟩ := List.nodup_cons.mp ((tickets_leavePush hw).nodup_iff.mp h.distinct)
  exact ⟨⟨by omega, h.poppers, hd⟩, hf⟩

theorem Counted.leavePop (h : s.Counted) (hw : t ∈ s.data.woken) :
    (s.leavePop t).Counted ∧ t ∉ (s.leavePop t).tickets := by
  obtain ⟨hless, heq⟩ := h.poppers_leavePop hw
  obtain ⟨hf, hd⟩ := List.nodup_cons.mp ((tickets_leavePop hw).nodup_iff.mp h.distinct)
  exact ⟨⟨h.pushers, by omega, hd⟩, hf⟩

theorem Free.not_mem_tickets (h : s.Free t) : t ∉ s.tickets := by
  simpa [System.tickets, Free] using h

theorem Counted.step (h : s.Counted) (ha : s.Allows a) (hp : Parks s a r s') : s'.Counted := by
  cases hp with
  | push t v => exact h.parkPush (Free.not_mem_tickets ha) v
  | pop t => exact h.parkPop (Free.not_mem_tickets ha)
  | still _ _ hstill => exact h.still hstill
  | pushAgain hw => exact (h.leavePush hw).1.parkPush (h.leavePush hw).2 _
  | pushLeaves hw _ hstill => exact (h.leavePush hw).1.still hstill
  | popAgain hw => exact (h.leavePop hw).1.parkPop (h.leavePop hw).2
  | popLeaves hw _ hstill => exact (h.leavePop hw).1.still hstill

/-! ## The log and the waits -/

theorem filter_returned {e c : Act α} {l l' : List (Act α)} (hl : l.Perm (c :: l')) (hc : e.resumes c = true)
    (hrest : ∀ c' ∈ l', e.resumes c' = false) : (l.filter fun c => !e.resumes c).Perm l' := by
  have hperm := hl.filter fun c => !e.resumes c
  have hkeep : (l'.filter fun c => !e.resumes c) = l' := by
    apply List.filter_eq_self.mpr
    intro c' hc'
    simp [hrest c' hc']
  rw [List.filter_cons_of_neg (by simp [hc]), hkeep] at hperm
  exact hperm

theorem unreturned_step (h : s.Counted) (hu : (unreturned past).Perm s.waits) (hp : Parks s a r s') :
    (unreturned (⟨k, a, r⟩ :: past)).Perm s'.waits := by
  cases hp with
  | push t v =>
    rw [unreturned_parked rfl]
    exact (List.perm_append_singleton _ _).trans ((hu.cons _).trans (waits_parkPush t v s).symm)
  | pop t =>
    rw [unreturned_parked rfl]
    exact (List.perm_append_singleton _ _).trans ((hu.cons _).trans (waits_parkPop t s).symm)
  | still ha hr hstill =>
    rw [unreturned_answered ha hr]
    exact hu.trans hstill.waits.symm
  | pushAgain hw =>
    -- it comes back with the item that it left with
    rw [unreturned_again rfl]
    exact hu.trans ((waits_leavePush h.distinct hw).trans (waits_parkPush _ _ _).symm)
  | pushLeaves hw hr hstill =>
    -- the log drops all calls of this ticket, and there is no other
    rw [unreturned_returned rfl hr]
    have hf := filter_returned (waits_leavePush h.distinct hw) (by simp [Act.resumes])
      fun c hc => (not_resumes (h.leavePush hw).2 hc).1
    exact (hu.filter _).trans (hf.trans hstill.waits.symm)
  | popAgain hw =>
    rw [unreturned_again rfl]
    exact hu.trans ((waits_leavePop hw).trans (waits_parkPop _ _).symm)
  | popLeaves hw hr hstill =>
    rw [unreturned_returned rfl hr]
    have hf := filter_returned (waits_leavePop hw) (by simp [Act.resumes])
      fun c hc => (not_resumes (h.leavePop hw).2 hc).2
    exact (hu.filter _).trans (hf.trans hstill.waits.symm)

theorem Parks.pushers_eq (hp : Parks s a r s') (ha : a.pusher? = none) :
    s'.queue.parkedPushers = s.queue.parkedPushers := by
  cases hp with
  | still _ _ hstill => exact hstill.pushers
  | pop | popAgain => rfl
  | popLeaves _ _ hstill => exact hstill.pushers
  | push | pushAgain | pushLeaves => cases ha

theorem Parks.poppers_eq (hp : Parks s a r s') (ha : a.popper? = none) :
    s'.queue.parkedPoppers = s.queue.parkedPoppers := by
  cases hp with
  | still _ _ hstill => exact hstill.poppers
  | push | pushAgain => rfl
  | pushLeaves _ _ hstill => exact hstill.poppers
  | pop | popAgain | popLeaves => cases ha

structure Accounted (past : List (Event α)) (s : System α) : Prop where
  pushers : s.queue.parkedPushers = ((unreturned past).filterMap Act.pusher?).length
  poppers : s.queue.parkedPoppers = ((unreturned past).filterMap Act.popper?).length
  pushing : ((unreturned past).filterMap Act.pusher?).Perm ((s.space.waiting ++ s.space.woken).map Prod.fst)
  popping : ((unreturned past).filterMap Act.popper?).Perm (s.data.waiting ++ s.data.woken)
  distinct : ((unreturned past).filterMap Act.popper? ++ (unreturned past).filterMap Act.pusher?).Nodup
  /-- A call that is taken off was counted. -/
  leavePush : ∀ pick t p, s.step pick (.resumePush t) = some p →
    (s.leavePush t).queue.parkedPushers + 1 = s.queue.parkedPushers
  leavePop : ∀ pick t p, s.step pick (.resumePop t) = some p →
    (s.leavePop t).queue.parkedPoppers + 1 = s.queue.parkedPoppers
  others : ∀ pick a s' r, s.step pick a = some (s', r) →
    (a.pusher? = none → s'.queue.parkedPushers = s.queue.parkedPushers) ∧
      (a.popper? = none → s'.queue.parkedPoppers = s.queue.parkedPoppers)
  parked : s.queue.parked = (unreturned past).length
  stopped : s.queue.phase = .stopped ↔ s.queue.down = true ∧ unreturned past = []
  idle : unreturned past = [] → s.queue.parkedPushers = 0 ∧ s.queue.parkedPoppers = 0

end System

/-! ## Whole runs -/

section
variable {α : Type} {limit : Nat} {past : List (Event α)} {s : System α}

theorem Steps.counted (h : Steps (.start { limit }) past s) : s.Counted ∧ (unreturned past).Perm s.waits := by
  induction h with
  | refl => exact ⟨⟨rfl, rfl, List.nodup_nil⟩, .refl _⟩
  | step _ ha hs ih =>
    have hp := System.parks_step hs
    exact ⟨ih.1.step ha hp, System.unreturned_step ih.1 ih.2 hp⟩

theorem phase_eq_stopped_iff (q : Queue α) : q.phase = .stopped ↔ q.down = true ∧ q.parked = 0 := by
  unfold Queue.phase
  cases q.down with
  | false => simp
  | true => by_cases hz : q.parked = 0 <;> simp [hz]

/-- The counts are the numbers of the pushes and of the pops that have not returned, in every
reachable state. Nobody is taken off who was not counted, and only pushes move the one count and
only pops the other. So a queue has stopped when it is down and all calls have returned. -/
theorem parked_counts_are_exact (h : Steps (.start { limit }) past s) : s.Accounted past := by
  obtain ⟨hc, hu⟩ := h.counted
  have hpushing := hu.filterMap Act.pusher?
  have hpopping := hu.filterMap Act.popper?
  rw [System.pushers_waits] at hpushing
  rw [System.poppers_waits] at hpopping
  have hpushers : s.queue.parkedPushers = ((unreturned past).filterMap Act.pusher?).length := by
    rw [hpushing.length_eq, List.length_map, hc.pushers]
  have hpoppers : s.queue.parkedPoppers = ((unreturned past).filterMap Act.popper?).length := by
    rw [hpopping.length_eq, hc.poppers]
  have hparked : s.queue.parked = (unreturned past).length := by
    rw [Queue.parked, hc.pushers, hc.poppers, hu.length_eq]
    simp [System.waits, Nat.add_comm]
  refine ⟨hpushers, hpoppers, hpushing, hpopping, ?_, ?_, ?_, ?_, hparked, ?_, ?_⟩
  · exact (hpopping.append hpushing).nodup_iff.mpr hc.distinct
  · intro pick t p hs
    obtain ⟨v, hw, -⟩ := System.resumePush_eq_some hs
    exact (hc.pushers_leavePush hw).1
  · intro pick t p hs
    obtain ⟨hw, -⟩ := System.resumePop_eq_some hs
    exact (hc.poppers_leavePop hw).1
  · intro pick a s' r hs
    have hp := System.parks_step hs
    exact ⟨hp.pushers_eq, hp.poppers_eq⟩
  · rw [phase_eq_stopped_iff, hparked, List.length_eq_zero_iff]
  · intro hnone
    rw [hpushers, hpoppers, hnone]
    exact ⟨rfl, rfl⟩

end

/-- The value that a pop was woken for is taken by another, so it waits again. A drain wakes
three pushers and one gets in; the other two wait again. -/
def crampedLog : List (Event Nat) :=
  [⟨0, .resumePush 3, .parked⟩, ⟨0, .resumePush 2, .parked⟩, ⟨0, .resumePush 1, .accepted⟩,
    ⟨0, .drain, .drained [10]⟩, ⟨0, .push 3 40, .parked⟩, ⟨0, .push 2 30, .parked⟩, ⟨0, .push 1 20, .parked⟩,
    ⟨0, .push 0 10, .accepted⟩, ⟨0, .resumePop 4, .value 6⟩, ⟨0, .tryPush 6, .accepted⟩,
    ⟨0, .resumePop 4, .parked⟩, ⟨0, .tryPop, .value 5⟩, ⟨0, .tryPush 5, .accepted⟩, ⟨0, .pop 4, .parked⟩]

def releasedLog : List (Event Nat) :=
  [⟨0, .resumePush 2, .refused 30⟩, ⟨0, .resumePush 3, .refused 40⟩, ⟨0, .shutDown, .signalled (some ⟨1, 2, 0⟩)⟩]

theorem parked_counts_are_exact_cramped : ∃ s s' : System Nat,
    (Steps (.start { limit := 1 }) crampedLog s ∧ s.Accounted crampedLog ∧
      unreturned crampedLog = [.push 2 30, .push 3 40] ∧ s.queue.parked = 2 ∧ s.queue.phase = .active) ∧
    (Steps (.start { limit := 1 }) (releasedLog ++ crampedLog) s' ∧ s'.Accounted (releasedLog ++ crampedLog) ∧
      unreturned (releasedLog ++ crampedLog) = [] ∧ s'.queue.parked = 0 ∧ s'.queue.phase = .stopped) := by
  have stolen : Steps (.start { limit := 1 }) (crampedLog.drop 8) (_ : System Nat) :=
    .step (.step (.step (.step (.step (.step .refl (by decide) rfl) trivial rfl) trivial rfl) trivial rfl)
      trivial rfl) trivial rfl
  have full : Steps (.start { limit := 1 }) (crampedLog.drop 4) (_ : System Nat) :=
    .step (.step (.step (.step stolen (by decide) rfl) (by decide) rfl) (by decide) rfl) (by decide) rfl
  have cramped : Steps (.start { limit := 1 }) crampedLog (_ : System Nat) :=
    .step (.step (.step (.step full trivial rfl) trivial rfl) trivial rfl) trivial rfl
  have released : Steps (.start { limit := 1 }) (releasedLog ++ crampedLog) (_ : System Nat) :=
    .step (.step (.step cramped trivial rfl) trivial rfl) trivial rfl
  exact ⟨_, _, ⟨cramped, parked_counts_are_exact cramped, rfl, rfl, rfl⟩,
    ⟨released, parked_counts_are_exact released, rfl, rfl, rfl⟩⟩

end Conduit.Blocking
