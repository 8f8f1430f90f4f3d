import Conduit.Proofs.Blocking.Steps

/-!
# First in, first out

What was accepted in a run is what came out of it followed by what is still
inside, in order; a push that is turned away gets its own item back
(`accepted_eq_removed_append`). The log alone says what was accepted and what
came out.
-/

namespace Conduit.Blocking

/-! ## Reading a log -/

section
variable {α : Type}

def lastPush (t : Ticket) : List (Event α) → Option α
  | [] => none
  | e :: past =>
    match e.act with
    | .push t' v => if t' = t then some v else lastPush t past
    | _ => lastPush t past

namespace Act

/-- The item that an act brings; a woken push still has the one of its call. -/
def item? (past : List (Event α)) : Act α → Option α
  | .push _ v | .tryPush v => some v
  | .resumePush t => lastPush t past
  | _ => none

def isPush : Act α → Bool
  | .push .. | .tryPush _ | .resumePush _ => true
  | _ => false

def handBack (v : α) : Act α → Answer α
  | .tryPush _ => .rejected v
  | _ => .refused v

def pusher? : Act α → Option Ticket
  | .push t _ | .resumePush t => some t
  | _ => none

end Act

def Answer.removed : Answer α → List α
  | .value v => [v]
  | .drained vs => vs
  | _ => []

/-- The values that pushes got in, in the order of their steps. -/
def accepted : List (Event α) → List α
  | [] => []
  | e :: past =>
    match e.answer with
    | .accepted => accepted past ++ (e.act.item? past).toList
    | _ => accepted past

def removed : List (Event α) → List α
  | [] => []
  | e :: past => removed past ++ e.answer.removed

end

/-! ## One step -/

namespace System

variable {α : Type} {pick : Nat} {t : Ticket} {v : α} {s s' : System α} {a : Act α} {r : Answer α}
  {past : List (Event α)}

/-- A push with item `v` either gets it in at the end, or leaves the values as
they are and gives it back or goes to sleep with it. -/
def Tried (a : Act α) (v : α) (s s' : System α) (r : Answer α) : Prop :=
  (r = .accepted ∧ s.queue.items.size < s.queue.limit ∧
    s'.queue.items.toList = s.queue.items.toList ++ [v]) ∨
  ((r = a.handBack v ∨ r = .parked ∧ ∃ t, a.pusher? = some t ∧ (t, v) ∈ s'.space.waiting) ∧
    s'.queue.items = s.queue.items)

/-- What is taken out was at the front. -/
def Took (s s' : System α) (r : Answer α) : Prop :=
  r ≠ .accepted ∧ s.queue.items.toList = r.removed ++ s'.queue.items.toList

/-- Every push inside its wait still has the item it came with. -/
def Held (past : List (Event α)) (s : System α) : Prop :=
  ∀ call ∈ s.space.calls, lastPush call.1 past = some call.2

theorem tried_runPush (pick : Nat) (s : System α) (ha : a.pusher? = some t)
    (hb : a.handBack v = .refused v) :
    Tried a v s (s.runPush pick t v).1 (s.runPush pick t v).2 := by
  rcases s.runPush_cases pick t v with ⟨-, -, he⟩ | ⟨-, he⟩ | ⟨-, hf, he⟩ <;> rw [he]
  · refine Or.inr ⟨Or.inr ⟨rfl, t, ha, ?_⟩, rfl⟩
    exact List.mem_append_right _ (List.mem_singleton.mpr rfl)
  · exact Or.inr ⟨Or.inl hb.symm, rfl⟩
  · exact Or.inl ⟨rfl, hf, Fifo.toList_push v s.queue.items⟩

theorem took_runPop (pick : Nat) (t : Ticket) (s : System α) :
    Took s (s.runPop pick t).1 (s.runPop pick t).2 := by
  rcases s.runPop_cases pick t with ⟨-, -, he⟩ | ⟨-, he⟩ | ⟨-, v, rest, hv, he⟩ <;> rw [he]
  · exact ⟨nofun, rfl⟩
  · exact ⟨nofun, rfl⟩
  · exact ⟨nofun, hv⟩

theorem tried_step (hh : s.Held past) (hs : s.step pick a = some (s', r)) (ha : a.isPush = true) :
    ∃ v, a.item? past = some v ∧ Tried a v s s' r := by
  cases a with
  | push t v =>
    have ht := tried_runPush (a := .push t v) (v := v) pick s rfl rfl
    rw [Option.some.inj hs] at ht
    exact ⟨v, rfl, ht⟩
  | tryPush v =>
    refine ⟨v, rfl, ?_⟩
    have he := Option.some.inj hs
    rcases s.tryPush_cases pick v with hc | ⟨-, hf, hc⟩ <;> rw [hc] at he <;> cases he
    · exact Or.inr ⟨Or.inl rfl, rfl⟩
    · exact Or.inl ⟨rfl, hf, Fifo.toList_push v s.queue.items⟩
  | resumePush t =>
    obtain ⟨v, hm, he⟩ := resumePush_eq_some hs
    have ht := tried_runPush (a := .resumePush t) (v := v) pick (s.leavePush t) rfl rfl
    rw [he] at ht
    exact ⟨v, hh (t, v) (List.mem_append_right _ hm), ht⟩
  | _ => cases ha

theorem took_step (hs : s.step pick a = some (s', r)) (ha : a.isPush = false) : Took s s' r := by
  cases a with
  | pop t =>
    have ht := took_runPop pick t s
    rwa [Option.some.inj hs] at ht
  | tryPop =>
    have he := Option.some.inj hs
    rcases s.tryPop_cases pick with hc | ⟨-, v, rest, hv, hc⟩ <;> rw [hc] at he <;> cases he
    · exact ⟨nofun, rfl⟩
    · exact ⟨nofun, hv⟩
  | drain =>
    have he := Option.some.inj hs
    rw [drain_eq] at he
    cases he
    exact ⟨nofun, (List.append_nil _).symm⟩
  | shutDown =>
    have he := Option.some.inj hs
    rcases s.shutDown_cases with ⟨-, hc⟩ | ⟨-, hc⟩ <;> rw [hc] at he <;> cases he <;> exact ⟨nofun, rfl⟩
  | resumePop t =>
    obtain ⟨-, he⟩ := resumePop_eq_some hs
    have ht := took_runPop pick t (s.leavePop t)
    rw [he] at ht
    exact ht
  | _ => cases ha

/-! ## Pushes that wait -/

theorem mem_calls_runPush {call : Ticket × α} (h : call ∈ (s.runPush pick t v).1.space.calls) :
    call ∈ s.space.calls ∨ call = (t, v) := by
  rcases s.runPush_cases pick t v with ⟨-, -, he⟩ | ⟨-, he⟩ | ⟨-, -, he⟩ <;> rw [he] at h
  · have := (Condition.calls_park (t, v) s.space).mem_iff.mp h
    exact (List.mem_cons.mp this).symm
  · exact Or.inl h
  · exact Or.inl h

theorem mem_calls_runPop {call : Ticket × α} (h : call ∈ (s.runPop pick t).1.space.calls) :
    call ∈ s.space.calls := by
  rcases s.runPop_cases pick t with ⟨-, -, he⟩ | ⟨-, he⟩ | ⟨-, v, rest, -, he⟩ <;> rw [he] at h
  · exact h
  · exact h
  · exact mem_calls_of_release h

theorem mem_calls_step {call : Ticket × α} (hs : s.step pick a = some (s', r))
    (h : call ∈ s'.space.calls) : call ∈ s.space.calls ∨ a = .push call.1 call.2 := by
  cases a with
  | push t v =>
    rw [show s' = (s.runPush pick t v).1 from by rw [Option.some.inj hs]] at h
    rcases mem_calls_runPush h with h | h
    · exact Or.inl h
    · exact Or.inr (by rw [h])
  | pop t =>
    rw [show s' = (s.runPop pick t).1 from by rw [Option.some.inj hs]] at h
    exact Or.inl (mem_calls_runPop h)
  | tryPush v =>
    left
    have he := Option.some.inj hs
    rcases s.tryPush_cases pick v with hc | ⟨-, -, hc⟩ <;> rw [hc] at he <;> cases he <;> exact h
  | tryPop =>
    left
    have he := Option.some.inj hs
    rcases s.tryPop_cases pick with hc | ⟨-, v, rest, -, hc⟩ <;> rw [hc] at he <;> cases he
    · exact h
    · exact mem_calls_of_release h
  | drain =>
    left
    have he := Option.some.inj hs
    rw [drain_eq] at he
    cases he
    simp only at h
    split at h
    · exact h
    · exact (Condition.calls_notifyAll s.space).mem_iff.mp h
  | shutDown =>
    left
    have he := Option.some.inj hs
    rcases s.shutDown_cases with ⟨-, hc⟩ | ⟨-, hc⟩ <;> rw [hc] at he <;> cases he
    · exact h
    · exact (Condition.calls_notifyAll s.space).mem_iff.mp h
  | resumePush t =>
    left
    obtain ⟨v, hm, he⟩ := resumePush_eq_some hs
    rw [show s' = ((s.leavePush t).runPush pick t v).1 from by rw [he]] at h
    rcases mem_calls_runPush h with h | rfl
    · exact mem_calls_of_leavePush h
    · exact List.mem_append_right _ hm
  | resumePop t =>
    left
    obtain ⟨-, he⟩ := resumePop_eq_some hs
    rw [show s' = ((s.leavePop t).runPop pick t).1 from by rw [he]] at h
    exact mem_calls_runPop (s := s.leavePop t) h

theorem Held.step (hh : s.Held past) (ha : s.Allows a) (hs : s.step pick a = some (s', r)) :
    s'.Held (⟨pick, a, r⟩ :: past) := by
  intro call hm
  rcases mem_calls_step hs hm with hold | rfl
  · have hl := hh call hold
    cases a with
    | push t v =>
      -- the thread that pushes is in no wait, so this is another's call
      have hne : t ≠ call.1 := by
        intro e
        exact ha.2 (List.mem_map.mpr ⟨call, hold, e.symm⟩)
      simpa [lastPush, hne] using hl
    | _ => exact hl
  · simp [lastPush]

end System

/-! ## Whole runs -/

section
variable {α : Type} {limit : Nat} {past : List (Event α)} {s : System α}

theorem Steps.held (h : Steps (.start { limit }) past s) : s.Held past := by
  induction h with
  | refl => exact fun _ hm => absurd hm List.not_mem_nil
  | step _ ha hs ih => exact ih.step ha hs

theorem accepted_cons_of_ne {e : Event α} (h : e.answer ≠ .accepted) : accepted (e :: past) = accepted past := by
  rw [accepted]
  split
  · rename_i he; exact absurd he h
  · rfl

theorem Steps.ledger (h : Steps (.start { limit }) past s) :
    accepted past = removed past ++ s.queue.items.toList ∧ s.queue.items.size ≤ limit := by
  induction h with
  | refl => exact ⟨rfl, Nat.zero_le _⟩
  | @step past s₁ s₂ pick a r hp ha hs ih =>
    obtain ⟨hacc, hsize⟩ := ih
    have hl : s₁.queue.limit = limit := hp.limit_eq
    cases hpush : a.isPush with
    | true =>
      obtain ⟨v, hv, ⟨rfl, hlt, hi⟩ | ⟨hr, hi⟩⟩ := System.tried_step hp.held hs hpush
      · constructor
        · simp [accepted, removed, Answer.removed, hv, hi, hacc]
        · rw [← Fifo.length_toList, hi, List.length_append, Fifo.length_toList, List.length_singleton]
          omega
      · have hne : r ≠ .accepted ∧ r.removed = [] := by
          rcases hr with rfl | ⟨rfl, -⟩
          · cases a <;> exact ⟨nofun, rfl⟩
          · exact ⟨nofun, rfl⟩
        rw [accepted_cons_of_ne hne.1, removed, hne.2, List.append_nil, hi]
        exact ⟨hacc, hsize⟩
    | false =>
      obtain ⟨hne, hi⟩ := System.took_step hs hpush
      rw [accepted_cons_of_ne hne, removed, List.append_assoc, ← hi]
      refine ⟨hacc, ?_⟩
      rw [← Fifo.length_toList, hi, List.length_append, Fifo.length_toList] at hsize
      omega

/-- The accepted values are the removed ones and then those inside, in order, and never more
than the limit. Whatever comes next, a push that is not accepted changes no value and gives its
item back or sleeps with it, and what is no push takes from the front. -/
theorem accepted_eq_removed_append (h : Steps (.start { limit }) past s) :
    accepted past = removed past ++ s.queue.items.toList ∧
    s.queue.items.size ≤ limit ∧
    (∀ pick a s' r, s.step pick a = some (s', r) → a.isPush = true → ∃ v, a.item? past = some v ∧
      (r ≠ .accepted →
        (r = a.handBack v ∨ r = .parked ∧ ∃ t, a.pusher? = some t ∧ (t, v) ∈ s'.space.waiting) ∧
        s'.queue.items = s.queue.items)) ∧
    ∀ pick a s' r, s.step pick a = some (s', r) → a.isPush = false → System.Took s s' r := by
  refine ⟨h.ledger.1, h.ledger.2, ?_, fun pick a s' r => System.took_step⟩
  intro pick a s' r hs ha
  obtain ⟨v, hv, ht⟩ := System.tried_step h.held hs ha
  refine ⟨v, hv, ?_⟩
  intro hne
  rcases ht with ⟨hacc, -⟩ | hback
  · exact absurd hacc hne
  · exact hback

end

/-- A drain wakes two pushers; one finds the room taken and sleeps again, the
other gets in, and the shutdown turns the first one away. -/
def crowdedLog : List (Event Nat) :=
  [⟨0, .resumePush 1, .refused 20⟩, ⟨0, .shutDown, .signalled (some ⟨1, 1, 0⟩)⟩,
    ⟨0, .resumePush 2, .accepted⟩, ⟨0, .tryPop, .value 40⟩, ⟨0, .resumePush 1, .parked⟩,
    ⟨0, .tryPush 40, .accepted⟩, ⟨0, .drain, .drained [10]⟩, ⟨0, .push 2 30, .parked⟩,
    ⟨0, .push 1 20, .parked⟩, ⟨0, .push 0 10, .accepted⟩]

/-- A pop waits for a value, and a push for the room that this pop makes. -/
def waitedLog : List (Event Nat) :=
  [⟨0, .resumePush 2, .accepted⟩, ⟨0, .resumePop 0, .value 10⟩, ⟨0, .push 2 20, .parked⟩,
    ⟨0, .push 1 10, .accepted⟩, ⟨0, .pop 0, .parked⟩]

theorem accepted_eq_removed_append_crowded :
    (∃ s : System Nat, Steps (.start { limit := 1 }) crowdedLog s ∧ accepted crowdedLog = [10, 40, 30] ∧
      removed crowdedLog = [10, 40] ∧ [10, 40, 30] = [10, 40] ++ s.queue.items.toList) ∧
    ∃ s s' : System Nat, Steps (.start { limit := 1 }) waitedLog s ∧ [10, 20] = [10] ++ s.queue.items.toList ∧
      s.step 0 (.pop 3) = some (s', .value 20) ∧ s.queue.items.toList = [20] ++ s'.queue.items.toList := by
  refine ⟨?_, ?_⟩
  · have run : Steps (.start { limit := 1 }) crowdedLog (_ : System Nat) :=
      .step (.step (.step (.step (.step (.step (.step (.step (.step (.step .refl (by decide) rfl)
        (by decide) rfl) (by decide) rfl) (by decide) rfl) (by decide) rfl) (by decide) rfl)
        (by decide) rfl) (by decide) rfl) (by decide) rfl) (by decide) rfl
    exact ⟨_, run, rfl, rfl, (accepted_eq_removed_append run).1⟩
  · have run : Steps (.start { limit := 1 }) waitedLog (_ : System Nat) :=
      .step (.step (.step (.step (.step .refl (by decide) rfl) (by decide) rfl) (by decide) rfl)
        (by decide) rfl) (by decide) rfl
    obtain ⟨hordered, -, -, htook⟩ := accepted_eq_removed_append run
    exact ⟨_, _, run, hordered, rfl, (htook 0 (.pop 3) _ (.value 20) rfl rfl).2⟩

end Conduit.Blocking
