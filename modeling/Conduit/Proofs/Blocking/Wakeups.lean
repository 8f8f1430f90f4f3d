import Conduit.Proofs.Blocking.Steps

/-!
# No wakeup is lost

Whoever sleeps while there is something to do for it is covered by a call that
is already woken: sleeping poppers by as many woken poppers as there are
values, sleeping pushers by as many woken pushers as there is room
(`sleepers_are_covered`).
-/

namespace Conduit.Blocking

namespace System

variable {α : Type} {pick : Nat} {t : Ticket} {v : α} {s s' : System α} {r : Answer α}

structure Awake (s : System α) : Prop where
  data : s.data.Covers s.queue.items.size
  space : s.space.Covers (s.queue.limit - s.queue.items.size)
  quiet : s.queue.down = true → s.data.waiting = [] ∧ s.space.waiting = []

theorem awake_of_quiet (hd : s.data.waiting = []) (hs : s.space.waiting = []) : s.Awake :=
  ⟨Condition.covers_of_waiting_nil hd, Condition.covers_of_waiting_nil hs, fun _ => ⟨hd, hs⟩⟩

/-! ## One operation -/

theorem awake_accept (pick : Nat) (v : α) (hup : s.queue.down = false)
    (hd : s.data.Covers s.queue.items.size)
    (hs : s.space.Covers (s.queue.limit - (s.queue.items.size + 1))) : (s.accept pick v).Awake where
  data := hd.notifyOne pick
  space := hs
  quiet h := by rw [show (s.accept pick v).queue.down = false from hup] at h; cases h

theorem awake_release {rest : Fifo α} (pick : Nat) (hup : s.queue.down = false)
    (hq : s.queue.items.toList = v :: rest.toList) (hd : s.data.Covers (s.queue.items.size - 1))
    (hs : s.space.Covers (s.queue.limit - s.queue.items.size)) : (s.release pick rest).Awake := by
  have hz : s.queue.items.size = rest.size + 1 := by
    rw [← Fifo.length_toList, hq, List.length_cons, Fifo.length_toList]
  refine ⟨?_, ?_, ?_⟩
  · rw [hz] at hd
    exact hd
  · refine (hs.notifyOne pick).mono ?_
    show s.queue.limit - rest.size ≤ _
    omega
  · intro h
    rw [show (s.release pick rest).queue.down = false from hup] at h
    cases h

/-- A push that looks at the queue may itself be the pusher that is woken. -/
theorem awake_runPush (pick : Nat) (t : Ticket) (v : α) (hd : s.data.Covers s.queue.items.size)
    (hs : s.space.Covers (s.queue.limit - s.queue.items.size - 1))
    (hq : s.queue.down = true → s.data.waiting = [] ∧ s.space.waiting = []) :
    (s.runPush pick t v).1.Awake := by
  rcases s.runPush_cases pick t v with ⟨hup, hf, he⟩ | ⟨hdn, he⟩ | ⟨hup, -, he⟩ <;> rw [he]
  · refine ⟨hd, ?_, ?_⟩
    · show (s.space.park (t, v)).Covers (s.queue.limit - s.queue.items.size)
      rw [Nat.sub_eq_zero_of_le hf]
      exact Condition.covers_zero _
    · intro h
      rw [show (s.parkPush t v).queue.down = false from hup] at h
      cases h
  · exact awake_of_quiet (hq hdn).1 (hq hdn).2
  · exact awake_accept pick v hup hd (hs.mono (by omega))

theorem awake_runPop (pick : Nat) (t : Ticket) (hd : s.data.Covers (s.queue.items.size - 1))
    (hs : s.space.Covers (s.queue.limit - s.queue.items.size))
    (hq : s.queue.down = true → s.data.waiting = [] ∧ s.space.waiting = []) :
    (s.runPop pick t).1.Awake := by
  rcases s.runPop_cases pick t with ⟨hup, hz, he⟩ | ⟨hdn, he⟩ | ⟨hup, v, rest, hv, he⟩ <;> rw [he]
  · refine ⟨?_, hs, ?_⟩
    · show (s.data.park t).Covers s.queue.items.size
      rw [hz]
      exact Condition.covers_zero _
    · intro h
      rw [show (s.parkPop t).queue.down = false from hup] at h
      cases h
  · exact awake_of_quiet (hq hdn).1 (hq hdn).2
  · exact awake_release pick hup hv hd hs

theorem Awake.tryPush (pick : Nat) (v : α) (h : s.Awake) : (s.tryPush pick v).1.Awake := by
  rcases s.tryPush_cases pick v with he | ⟨hup, -, he⟩ <;> rw [he]
  · exact h
  · exact awake_accept pick v hup h.data (h.space.mono (by omega))

theorem Awake.tryPop (pick : Nat) (h : s.Awake) : (s.tryPop pick).1.Awake := by
  rcases s.tryPop_cases pick with he | ⟨hup, v, rest, hv, he⟩ <;> rw [he]
  · exact h
  · exact awake_release pick hup hv (h.data.mono (by omega)) h.space

theorem Awake.drain (h : s.Awake) : s.drain.1.Awake := by
  rw [drain_eq]
  by_cases he : s.queue.items.toList = []
  · have hz : s.queue.items.size = 0 := by rw [← Fifo.length_toList, he]; rfl
    have hs := h.space
    rw [hz] at hs
    simp only [he, if_true]
    exact ⟨Condition.covers_zero _, hs, h.quiet⟩
  · simp only [he, if_false]
    exact ⟨Condition.covers_zero _, Condition.covers_notifyAll _, fun hd => ⟨(h.quiet hd).1, rfl⟩⟩

theorem Awake.shutDown (h : s.Awake) : s.shutDown.1.Awake := by
  rcases s.shutDown_cases with ⟨-, he⟩ | ⟨-, he⟩ <;> rw [he]
  · exact h
  · exact awake_of_quiet rfl rfl

theorem Awake.resumePush (h : s.Awake) (hr : s.resumePush pick t = some (s', r)) : s'.Awake := by
  obtain ⟨v, hm, he⟩ := resumePush_eq_some hr
  rw [show s' = ((s.leavePush t).runPush pick t v).1 from by rw [he]]
  refine awake_runPush pick t v h.data ?_ h.quiet
  intro hw
  rw [length_woken_leavePush hm]
  exact Nat.sub_le_sub_right (h.space hw) 1

theorem Awake.resumePop (h : s.Awake) (hr : s.resumePop pick t = some (s', r)) : s'.Awake := by
  obtain ⟨hm, he⟩ := resumePop_eq_some hr
  rw [show s' = ((s.leavePop t).runPop pick t).1 from by rw [he]]
  refine awake_runPop pick t ?_ h.space h.quiet
  intro hw
  rw [length_woken_leavePop hm]
  exact Nat.sub_le_sub_right (h.data hw) 1

/-! ## Whole runs -/

theorem Awake.step {a : Act α} (h : s.Awake) (hs : s.step pick a = some (s', r)) : s'.Awake := by
  cases a with
  | push t v =>
    have := awake_runPush pick t v h.data (h.space.mono (by omega)) h.quiet
    rwa [Option.some.inj hs] at this
  | pop t =>
    have := awake_runPop pick t (h.data.mono (by omega)) h.space h.quiet
    rwa [Option.some.inj hs] at this
  | tryPush v =>
    have := h.tryPush pick v
    rwa [Option.some.inj hs] at this
  | tryPop =>
    have := h.tryPop pick
    rwa [Option.some.inj hs] at this
  | drain =>
    have := h.drain
    rwa [Option.some.inj hs] at this
  | shutDown =>
    have := h.shutDown
    rwa [Option.some.inj hs] at this
  | resumePush t => exact h.resumePush hs
  | resumePop t => exact h.resumePop hs

end System

variable {α : Type} {limit : Nat} {past : List (Event α)} {s : System α}

theorem Steps.awake (h : Steps (.start { limit }) past s) : s.Awake := by
  induction h with
  | refl => exact System.awake_of_quiet rfl rfl
  | step _ _ hs ih => exact ih.step hs

/-- A sleeping popper is covered by as many woken poppers as there are values, a sleeping pusher
by as many woken pushers as there is room. So with nobody woken, poppers sleep at an empty queue
only and pushers at a full one. -/
theorem sleepers_are_covered (h : Steps (.start { limit }) past s) :
    (s.data.waiting ≠ [] → s.queue.items.size ≤ s.data.woken.length) ∧
    (s.space.waiting ≠ [] → limit - s.queue.items.size ≤ s.space.woken.length) ∧
    (s.data.woken = [] → s.space.woken = [] →
      (s.data.waiting ≠ [] → s.queue.isEmpty = true) ∧
      (s.space.waiting ≠ [] → s.queue.isFull = true) ∧
      (1 ≤ limit → s.data.waiting = [] ∨ s.space.waiting = [])) := by
  have ha := h.awake
  have hl : s.queue.limit = limit := h.limit_eq
  rw [← hl]
  refine ⟨ha.data, ha.space, ?_⟩
  intro hd hs
  have hempty : s.data.waiting ≠ [] → s.queue.items.size = 0 := by
    intro hw
    have := ha.data hw
    rw [hd] at this
    exact Nat.le_zero.mp this
  have hfull : s.space.waiting ≠ [] → s.queue.limit ≤ s.queue.items.size := by
    intro hw
    have := ha.space hw
    rw [hs] at this
    exact Nat.sub_eq_zero_iff_le.mp (Nat.le_zero.mp this)
  refine ⟨?_, ?_, ?_⟩
  · intro hw
    simp [Queue.isEmpty, Fifo.isEmpty, hempty hw]
  · intro hw
    simp [Queue.isFull, hfull hw]
  · intro hpos
    by_cases hw : s.data.waiting = []
    · exact Or.inl hw
    · right
      by_contra hp
      have := hempty hw
      have := hfull hp
      omega

/-- Two poppers sleep, one value wakes the first of them, and a third thread
takes it away: the pusher that the room is for is woken, the other sleeps on. -/
def overtakenLog : List (Event Nat) :=
  [⟨0, .tryPop, .value 5⟩, ⟨0, .push 3 7, .parked⟩, ⟨0, .push 2 6, .parked⟩,
    ⟨0, .tryPush 5, .accepted⟩, ⟨0, .pop 1, .parked⟩, ⟨0, .pop 0, .parked⟩]

theorem sleepers_are_covered_overtaken : ∃ s : System Nat,
    Steps (.start { limit := 1 }) overtakenLog s ∧ s.data.waiting = [1] ∧ s.space.waiting = [(3, 7)] ∧
    s.queue.items.size ≤ s.data.woken.length ∧ 1 - s.queue.items.size ≤ s.space.woken.length := by
  have run : Steps (.start { limit := 1 }) overtakenLog (_ : System Nat) :=
    .step (.step (.step (.step (.step (.step .refl (by decide) rfl) (by decide) rfl) (by decide) rfl)
      (by decide) rfl) (by decide) rfl) (by decide) rfl
  have h := sleepers_are_covered run
  exact ⟨_, run, rfl, rfl, h.1 (by decide), h.2.1 (by decide)⟩

end Conduit.Blocking
