import Conduit.Proofs.Blocking.Shutdown
import Conduit.Proofs.Log.Joining

/-!
# The queue of a logger

The worker and the submitters use the queue as any threads use a blocking queue.
It goes down by a shutdown call or after a failure of the sink, never of its own
(`Steps.down_iff`). A line is accepted exactly while it is up and has room
(`submit_iff`), and once an outcome is recorded it is down and empty for
good (`Steps.cleared`).
-/

namespace Conduit.Log

def Caller.signalled : Caller → Bool
  | .signalling => false
  | _ => true

def Worker.signalled : Worker → Bool
  | .clearing .. | .counting .. | .ended (.failed _) => true
  | _ => false

def Logger.Signalled (s : Logger) : Prop := s.worker.signalled = true ∨ ∃ c ∈ s.callers, c.signalled = true

/-- The queue was emptied by the call, or before it could take the worker's outcome. -/
def Caller.cleared : Caller → Bool
  | .counting _ | .recording _ => true
  | _ => false

/-- Nothing is queued, and nothing is going to be. -/
structure Logger.Emptied (s : Logger) : Prop where
  down : s.queue.queue.down = true
  items : s.queue.queue.items.toList = []

section
variable {s : Logger} {a : Logger.Act} {c : Caller} {i : Nat} {r : Sink.Result}

/-! ## The queue is used as a queue -/

theorem queue_work (r : Sink.Result) (s : Logger) :
    (s.work r).queue = s.queue ∨ ∃ act o, s.queue.step 0 act = some ((s.work r).queue, o) := by
  obtain ⟨queue, worker, written, stored, dropped, refusing, handle, outcome, callers⟩ := s
  cases worker with
  | popping => exact .inr ⟨.pop 0, _, rfl⟩
  | asleep =>
    cases hq : queue.resumePop 0 0 with
    | none =>
      left
      simp only [Logger.work, hq]
    | some p =>
      refine .inr ⟨.resumePop 0, p.2, ?_⟩
      simp only [Logger.work, hq]
      exact hq
  | writing | closing | flushing => cases r <;> exact .inl rfl
  | draining | clearing => exact .inr ⟨.drain, _, rfl⟩
  | failing => exact .inr ⟨.shutDown, _, rfl⟩
  | counting | ended => exact .inl rfl

theorem queue_advance (c : Caller) (s : Logger) :
    (s.advance c).1.queue = s.queue ∨ ∃ act o, s.queue.step 0 act = some ((s.advance c).1.queue, o) := by
  cases c with
  | signalling => exact .inr ⟨.shutDown, _, rfl⟩
  | clearing => exact .inr ⟨.drain, _, rfl⟩
  | taking | joining =>
    left
    simp only [Logger.advance]
    split <;> rfl
  | counting | recording | reporting | returned => exact .inl rfl

theorem queue_step (a : Logger.Act) (s : Logger) :
    (s.step a).queue = s.queue ∨ ∃ act o, s.queue.step 0 act = some ((s.step a).queue, o) := by
  cases a with
  | submit line =>
    refine .inr ⟨.tryPush line, (s.queue.tryPush 0 line).2, ?_⟩
    simp only [Logger.step, Logger.submit]
    split <;> rename_i h <;> simp only [Blocking.System.step, h]
  | countRefused =>
    left
    simp only [Logger.step, Logger.countRefused]
    split <;> rfl
  | work r => exact queue_work r s
  | call => exact .inl rfl
  | advance i =>
    simp only [Logger.step, Logger.advanceCaller]
    split
    · exact queue_advance _ s
    · exact .inl rfl

theorem limit_step (a : Logger.Act) (s : Logger) : (s.step a).queue.queue.limit = s.queue.queue.limit := by
  rcases queue_step a s with he | ⟨act, o, he⟩
  · rw [he]
  · exact Blocking.System.limit_step he

theorem Logger.Emptied.step (h : s.Emptied) (a : Logger.Act) : (s.step a).Emptied := by
  rcases queue_step a s with he | ⟨act, o, he⟩
  · exact ⟨he ▸ h.down, he ▸ h.items⟩
  · have hl := Blocking.System.late_step h.down he
    refine ⟨hl.down_eq.trans h.down, ?_⟩
    rcases hl.items with ⟨hi, -⟩ | ⟨-, hi⟩
    · rw [hi]
      exact h.items
    · rw [hi]
      rfl

theorem submit_iff (line : String) (s : Logger) :
    (s.submit line).2 = true ↔ s.queue.queue.down = false ∧ s.pending < s.queue.queue.limit := by
  unfold Logger.submit Blocking.System.tryPush Blocking.Queue.tryPush Blocking.Queue.isFull Logger.pending
  by_cases hd : s.queue.queue.down = true
  · simp [hd]
  · by_cases hf : s.queue.queue.limit ≤ s.queue.queue.items.size
    · simp [hd, hf]
    · simp [hd, hf, Nat.lt_of_not_le hf]

/-! ## Who shuts it down -/

theorem Pops.down {q q' : Blocking.System String} {o : Blocking.Answer String} (h : Pops q q' o) :
    q'.queue.down = q.queue.down := by
  cases h with
  | parked _ _ h => exact h
  | closed hd _ hd' => exact hd'.trans hd.symm
  | value _ h => exact h

theorem signalled_afterPop (o : Blocking.Answer String) : (Logger.afterPop o).signalled = false := by
  cases o <;> rfl

theorem signalled_afterLine (lines : List String) : (Logger.afterLine lines).signalled = false := by
  cases lines <;> rfl

theorem signal_work (r : Sink.Result) (s : Logger) :
    ((s.work r).queue.queue.down = s.queue.queue.down ∧ (s.work r).worker.signalled = s.worker.signalled) ∨
      ((s.work r).queue.queue.down = true ∧ (s.work r).worker.signalled = true) := by
  obtain ⟨queue, worker, written, stored, dropped, refusing, handle, outcome, callers⟩ := s
  cases worker with
  | popping => exact .inl ⟨(pops_runPop queue).down, signalled_afterPop _⟩
  | asleep =>
    left
    cases hq : queue.resumePop 0 0 with
    | none => simp [Logger.work, hq]
    | some p =>
      simp only [Logger.work, hq]
      exact ⟨(pops_of_resumePop hq).down, signalled_afterPop _⟩
  | draining => exact .inl ⟨(drain_queue queue).2.1, signalled_afterLine _⟩
  | closing line rest =>
    left
    cases r with
    | done => exact ⟨rfl, signalled_afterLine rest⟩
    | failed | panicked => exact ⟨rfl, rfl⟩
  | writing | flushing => cases r <;> exact .inl ⟨rfl, rfl⟩
  | failing => exact .inr ⟨(shutDown_queue queue).2, rfl⟩
  | clearing => exact .inl ⟨(drain_queue queue).2.1, rfl⟩
  | counting | ended => exact .inl ⟨rfl, rfl⟩

theorem signal_advance (c : Caller) (s : Logger) :
    ((s.advance c).1.queue.queue.down = s.queue.queue.down ∧ (s.advance c).2.signalled = c.signalled) ∨
      ((s.advance c).1.queue.queue.down = true ∧ (s.advance c).2.signalled = true) := by
  cases c with
  | signalling => exact .inr ⟨(shutDown_queue s.queue).2, rfl⟩
  | clearing => exact .inl ⟨(drain_queue s.queue).2.1, rfl⟩
  | taking | joining =>
    left
    simp only [Logger.advance]
    split <;> exact ⟨rfl, rfl⟩
  | counting | recording | reporting | returned => exact .inl ⟨rfl, rfl⟩

theorem callers_back (hi : s.callers[i]? = some c) {c' : Caller} (hc : c' ∈ (s.step (.advance i)).callers) :
    c' ∈ s.callers ∨ c' = (s.advance c).2 := by
  simp only [Logger.step, Logger.advanceCaller, hi] at hc
  rw [← Logger.callers_advance c s]
  exact Array.mem_or_eq_of_mem_setIfInBounds hc

theorem down_iff_advance (h : s.queue.queue.down = true ↔ s.Signalled) (hi : s.callers[i]? = some c) :
    (s.step (.advance i)).queue.queue.down = true ↔ (s.step (.advance i)).Signalled := by
  have hself := Array.mem_of_getElem? (callers_self hi)
  have hne : ∀ r, Logger.Act.advance i ≠ .work r := nofun
  have hworker := (worker_step (s := s) hne).1
  have hqueue : (s.step (.advance i)).queue = (s.advance c).1.queue := by
    simp only [Logger.step, Logger.advanceCaller, hi]
  rcases signal_advance c s with ⟨hd, hc⟩ | ⟨hd, hc⟩ <;> rw [hqueue, hd]
  · refine h.trans (or_congr (by rw [hworker]) ⟨?_, ?_⟩)
    · rintro ⟨c', hc', hs⟩
      obtain ⟨j, hj⟩ := Array.getElem?_of_mem hc'
      by_cases hji : j = i
      · subst hji
        cases hi.symm.trans hj
        exact ⟨_, hself, hc.trans hs⟩
      · have hne : Logger.Act.advance i ≠ .advance j := fun he => hji (Logger.Act.advance.inj he).symm
        exact ⟨c', Array.mem_of_getElem? (callers_other hne hj), hs⟩
    · rintro ⟨c', hc', hs⟩
      rcases callers_back hi hc' with hold | rfl
      · exact ⟨c', hold, hs⟩
      · exact ⟨c, Array.mem_of_getElem? hi, hc.symm.trans hs⟩
  · exact ⟨fun _ => .inr ⟨_, hself, hc⟩, fun _ => rfl⟩

theorem down_iff_step (h : s.queue.queue.down = true ↔ s.Signalled) (a : Logger.Act) :
    (s.step a).queue.queue.down = true ↔ (s.step a).Signalled := by
  cases a with
  | submit line =>
    simp only [Logger.step]
    rcases s.submit_cases line with he | ⟨-, he⟩ <;> rw [he] <;> exact h
  | countRefused =>
    simp only [Logger.step, Logger.countRefused]
    split <;> exact h
  | work r =>
    simp only [Logger.step, Logger.Signalled, Logger.callers_work]
    rcases signal_work r s with ⟨hd, hw⟩ | ⟨hd, hw⟩ <;> rw [hd, hw]
    · exact h
    · exact ⟨fun _ => .inl rfl, fun _ => rfl⟩
  | call =>
    refine h.trans (or_congr_right ?_)
    constructor
    · rintro ⟨c, hc, hs⟩
      exact ⟨c, Array.mem_push_of_mem _ hc, hs⟩
    · rintro ⟨c, hc, hs⟩
      rcases Array.mem_push.mp hc with hc | rfl
      · exact ⟨c, hc, hs⟩
      · cases hs
  | advance i =>
    cases hi : s.callers[i]? with
    | some c => exact down_iff_advance h hi
    | none =>
      simp only [Logger.step, Logger.advanceCaller, hi]
      exact h

/-! ## Who empties it -/

structure Cleared (s : Logger) : Prop where
  callers : ∀ c ∈ s.callers, c.cleared = true → s.Emptied
  outcome : s.outcome.isSome = true → s.Emptied

variable {acc : List String}

theorem Cleared.advance (h : Cleared s) (hk : Kept acc s) (hd : s.queue.queue.down = true ↔ s.Signalled)
    (hi : s.callers[i]? = some c) (hc : (s.advance c).2.cleared = true) : (s.step (.advance i)).Emptied := by
  have hmem := Array.mem_of_getElem? hi
  cases c with
  | joining =>
    refine Logger.Emptied.step ?_ _
    have hp := hk.placed
    simp only [Logger.advance] at hc
    split at hc
    · rename_i hw
      rw [hw] at hp
      exact ⟨hp.2.2, hp.2.1⟩
    · rename_i hw
      rw [hw] at hp
      exact ⟨hp.2.2, hp.2.1⟩
    · cases hc
    · cases hc
  | clearing =>
    obtain ⟨hnil, hsame, -⟩ := drain_queue s.queue
    have hqueue : (s.step (.advance i)).queue = s.queue.drain.1 := by
      simp only [Logger.step, Logger.advanceCaller, hi]
      rfl
    refine ⟨?_, ?_⟩
    · rw [hqueue, hsame]
      exact hd.mpr (.inr ⟨_, hmem, rfl⟩)
    · rw [hqueue, hnil]
  | counting => exact (h.callers _ hmem rfl).step _
  | taking =>
    simp only [Logger.advance] at hc
    split at hc <;> cases hc
  | signalling | recording | reporting | returned => cases hc

theorem outcome_back (hi : s.callers[i]? = some c) (ho : (s.step (.advance i)).outcome.isSome = true) :
    s.outcome.isSome = true ∨ c.cleared = true := by
  simp only [Logger.step, Logger.advanceCaller, hi] at ho
  cases c with
  | recording => exact .inr rfl
  | taking | joining =>
    simp only [Logger.advance] at ho
    split at ho <;> exact .inl ho
  | signalling | clearing | counting | reporting | returned => exact .inl ho

theorem Cleared.step (h : Cleared s) (hk : Kept acc s) (hd : s.queue.queue.down = true ↔ s.Signalled)
    (a : Logger.Act) : Cleared (s.step a) := by
  by_cases ha : ∃ i, a = .advance i
  · obtain ⟨i, rfl⟩ := ha
    cases hi : s.callers[i]? with
    | none =>
      simp only [Logger.step, Logger.advanceCaller, hi]
      exact h
    | some c =>
      refine ⟨?_, ?_⟩
      · intro c' hc' hcl
        rcases callers_back hi hc' with hold | rfl
        · exact (h.callers c' hold hcl).step _
        · exact h.advance hk hd hi hcl
      · intro ho
        rcases outcome_back hi ho with hold | hcl
        · exact (h.outcome hold).step _
        · exact (h.callers c (Array.mem_of_getElem? hi) hcl).step _
  · have hl := aside_step (fun i hi => ha ⟨i, hi⟩) s
    refine ⟨?_, ?_⟩
    · intro c hc hcl
      rcases hl.callers with he | he <;> rw [he] at hc
      · exact (h.callers c hc hcl).step a
      · rcases Array.mem_push.mp hc with hold | rfl
        · exact (h.callers c hold hcl).step a
        · cases hcl
    · intro ho
      rw [hl.outcome] at ho
      exact (h.outcome ho).step a

/-! ## Whole runs -/

variable {capacity : Nat} {past : List Event}

theorem Steps.limit (h : Steps (.start capacity) past s) : s.queue.queue.limit = capacity := by
  induction h with
  | refl => rfl
  | step _ a _ ih => exact (limit_step a _).trans ih

theorem Steps.down_iff (h : Steps (.start capacity) past s) : s.queue.queue.down = true ↔ s.Signalled := by
  induction h with
  | refl => simp [Logger.start, Blocking.System.start, Logger.Signalled, Worker.signalled]
  | step _ a _ ih => exact down_iff_step ih a

theorem Steps.cleared (h : Steps (.start capacity) past s) : Cleared s := by
  induction h with
  | refl => exact ⟨by simp [Logger.start], nofun⟩
  | step _ a h ih => exact ih.step h.kept h.down_iff a

end

end Conduit.Log
