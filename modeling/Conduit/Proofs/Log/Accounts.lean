import Conduit.Log.Config
import Conduit.Proofs.Log.Order
import Conduit.Proofs.Lists

/-!
# Every line is accounted for

A line that was accepted is stored, or somebody has it in hand, or it is still
queued, or it was counted as lost. Each step moves lines from one of these to
another, so once the worker is at its end and no refusal is left to count, what
was written and what was dropped make up what was submitted
(`written_plus_dropped`).
-/

namespace Conduit.Log

/-! ## Lines in somebody's hands -/

/-- How many lines the worker has taken off the queue and neither stored nor counted as lost. -/
def Worker.inHand : Worker → Nat
  | .writing _ => 1
  | .closing _ rest => rest.length + 1
  | .failing _ n | .clearing _ n | .counting _ n | .ended (.panicked n) => n
  | _ => 0

def Caller.inHand : Caller → Nat
  | .counting n => n
  | _ => 0

def Logger.inCallersHands (s : Logger) : Nat := (s.callers.toList.map Caller.inHand).sum

section
variable {s : Logger}

theorem pending_eq (s : Logger) : s.pending = s.queue.queue.items.toList.length :=
  (Fifo.length_toList _).symm

/-! ## One step -/

theorem inHand_afterPop {q q' : Blocking.System String} {a : Blocking.Answer String} (hp : Pops q q' a) :
    (Logger.afterPop a).inHand + q'.queue.items.toList.length = q.queue.items.toList.length := by
  cases hp with
  | parked h1 h2 _ => rw [h1, h2]; rfl
  | closed _ h2 _ => rw [h2]; exact Nat.zero_add _
  | value h1 _ => rw [h1, List.length_cons]; exact Nat.add_comm _ _

theorem inHand_afterLine (lines : List String) : (Logger.afterLine lines).inHand = lines.length := by
  cases lines <;> rfl

theorem lines_work (r : Sink.Result) (s : Logger) :
    (s.work r).stored.size + (s.work r).worker.inHand + (s.work r).pending + s.loses (.work r) =
      s.stored.size + s.worker.inHand + s.pending := by
  rw [pending_eq, pending_eq]
  obtain ⟨queue, worker, written, stored, dropped, refusing, handle, outcome, callers⟩ := s
  cases worker with
  | popping =>
    have hq := inHand_afterPop (pops_runPop queue)
    have hw : Worker.popping.inHand = 0 := rfl
    simp only [Logger.work, Logger.loses]
    omega
  | asleep =>
    cases hr : queue.resumePop 0 0 with
    | none => simp only [Logger.work, Logger.loses, hr, Nat.add_zero]
    | some p =>
      have hq := inHand_afterPop (pops_of_resumePop hr)
      have hw : Worker.asleep.inHand = 0 := rfl
      simp only [Logger.work, Logger.loses, hr]
      omega
  | draining =>
    obtain ⟨hnil, -, hl⟩ := drain_queue queue
    simp only [Logger.work, Logger.loses, hnil, hl, inHand_afterLine]
    rfl
  | writing line => cases r <;> simp [Logger.work, Logger.loses, Worker.inHand]
  | closing line rest =>
    cases r with
    | done =>
      simp only [Logger.work, Logger.loses, inHand_afterLine]
      simp [Worker.inHand, Nat.add_assoc, Nat.add_left_comm]
    | failed f => rfl
    | panicked => rfl
  | flushing => cases r <;> rfl
  | failing f n => simp [Logger.work, Logger.loses, Worker.inHand, (shutDown_queue queue).1]
  | clearing f n =>
    obtain ⟨hnil, -, hl⟩ := drain_queue queue
    simp [Logger.work, Logger.loses, hnil, hl, Worker.inHand, Nat.add_assoc]
  | counting f n => simp [Logger.work, Logger.loses, Worker.inHand, Nat.add_right_comm]
  | ended e => rfl

theorem counts_work (r : Sink.Result) (s : Logger) :
    (s.work r).dropped = s.dropped + s.loses (.work r) ∧ (s.work r).refusing = s.refusing ∧
      (s.work r).written + s.stored.size = s.written + (s.work r).stored.size := by
  obtain ⟨queue, worker, written, stored, dropped, refusing, handle, outcome, callers⟩ := s
  cases worker with
  | asleep => cases hr : queue.resumePop 0 0 <;> simp [Logger.work, Logger.loses, hr]
  | writing | closing => cases r <;> simp [Logger.work, Logger.loses, Nat.add_assoc, Nat.add_comm 1]
  | flushing => cases r <;> simp [Logger.work, Logger.loses]
  | _ => simp [Logger.work, Logger.loses]

/-- A step of a shutdown call moves lines from the queue to its hands, and counts those in its hands. -/
theorem lines_advance (c : Caller) (s : Logger) :
    (s.advance c).1.pending + (s.advance c).2.inHand = s.pending ∧
      (s.advance c).1.dropped = s.dropped + c.inHand := by
  rw [pending_eq, pending_eq]
  cases c with
  | signalling => simp [Logger.advance, Caller.inHand, (shutDown_queue s.queue).1]
  | clearing =>
    obtain ⟨hnil, -, hl⟩ := drain_queue s.queue
    simp [Logger.advance, Caller.inHand, hnil, hl]
  | taking | joining => simp only [Logger.advance]; split <;> exact ⟨rfl, rfl⟩
  | counting | recording | reporting | returned => exact ⟨rfl, rfl⟩

theorem counts_advance (c : Caller) (s : Logger) :
    (s.advance c).1.stored = s.stored ∧ (s.advance c).1.worker = s.worker ∧
      (s.advance c).1.written = s.written ∧ (s.advance c).1.refusing = s.refusing := by
  cases c with
  | taking | joining => simp only [Logger.advance]; split <;> exact ⟨rfl, rfl, rfl, rfl⟩
  | _ => exact ⟨rfl, rfl, rfl, rfl⟩

/-- So many lines were accepted, refused and lost, and this is where they are. -/
structure Balanced (acc refused lost : Nat) (s : Logger) : Prop where
  lines : acc = s.stored.size + s.worker.inHand + s.inCallersHands + s.pending + lost
  dropped : s.dropped + s.refusing = refused + lost
  written : s.written = s.stored.size

variable {acc refused lost : Nat}

theorem Balanced.submit (h : Balanced acc refused lost s) (line : String) :
    Balanced (acc + if (s.submit line).2 then 1 else 0) (refused + if (s.submit line).2 then 0 else 1) lost
      (s.submit line).1 := by
  have hl := h.lines
  have hd := h.dropped
  rcases s.submit_cases line with he | ⟨-, he⟩ <;> rw [he]
  · refine ⟨hl, ?_, h.written⟩
    show s.dropped + (s.refusing + 1) = refused + 1 + lost
    omega
  · refine ⟨?_, hd, h.written⟩
    show acc + 1 = s.stored.size + s.worker.inHand + s.inCallersHands + (s.pending + 1) + lost
    omega

theorem Balanced.countRefused (h : Balanced acc refused lost s) : Balanced acc refused lost s.countRefused := by
  have hd := h.dropped
  unfold Logger.countRefused
  split
  · refine ⟨h.lines, ?_, h.written⟩
    show s.dropped + 1 + (s.refusing - 1) = _
    omega
  · exact h

theorem Balanced.work (h : Balanced acc refused lost s) (r : Sink.Result) :
    Balanced acc refused (lost + s.loses (.work r)) (s.work r) := by
  have hl := h.lines
  have hd := h.dropped
  have hw := h.written
  have hm := lines_work r s
  obtain ⟨hdrop, href, hwrit⟩ := counts_work r s
  have hc : (s.work r).inCallersHands = s.inCallersHands := by
    rw [Logger.inCallersHands, Logger.callers_work, Logger.inCallersHands]
  exact ⟨by omega, by omega, by omega⟩

theorem Balanced.call (h : Balanced acc refused lost s) : Balanced acc refused lost s.call.1 := by
  refine ⟨?_, h.dropped, h.written⟩
  have hc : s.call.1.inCallersHands = s.inCallersHands := by
    simp [Logger.call, Logger.inCallersHands, Caller.inHand]
  rw [hc]
  exact h.lines

theorem Balanced.advanceCaller (h : Balanced acc refused lost s) (i : Nat) :
    Balanced acc refused (lost + s.loses (.advance i)) (s.advanceCaller i) := by
  unfold Logger.advanceCaller
  cases hi : s.callers[i]? with
  | none =>
    simp only [Logger.loses, hi, Nat.add_zero]
    exact h
  | some c =>
    have hl := h.lines
    have hd := h.dropped
    obtain ⟨hpend, hdrop⟩ := lines_advance c s
    obtain ⟨hs, hw, hwrit, href⟩ := counts_advance c s
    have hloss : s.loses (.advance i) = c.inHand := by
      simp only [Logger.loses, hi]
      cases c <;> rfl
    have hlist : s.callers.toList[i]? = some c := by rw [Array.getElem?_toList, hi]
    have hsum := sum_map_set Caller.inHand hlist (s.advance c).2
    refine ⟨?_, ?_, ?_⟩
    · show acc = (s.advance c).1.stored.size + (s.advance c).1.worker.inHand +
        (((s.advance c).1.callers.setIfInBounds i (s.advance c).2).toList.map Caller.inHand).sum +
        (s.advance c).1.pending + _
      rw [hs, hw, hloss, Array.toList_setIfInBounds, Logger.callers_advance]
      unfold Logger.inCallersHands at hl
      omega
    · show (s.advance c).1.dropped + (s.advance c).1.refusing = _
      omega
    · show (s.advance c).1.written = (s.advance c).1.stored.size
      rw [hwrit, hs]
      exact h.written

/-! ## Whole runs -/

variable {capacity : Nat} {past : List Event}

theorem Steps.balanced (h : Steps (.start capacity) past s) :
    Balanced (accepted past).length (refusals past) (losses past) s := by
  induction h with
  | refl => exact ⟨rfl, rfl, rfl⟩
  | @step past s t a _ ih =>
    rw [accepted, List.length_append, refusals, List.countP_cons, ← refusals, losses, List.map_cons, List.sum_cons,
      ← losses, Nat.add_comm _ (losses past)]
    -- only a submission changes what was accepted or refused
    cases a with
    | submit line =>
      have hs := ih.submit line
      cases hok : (s.submit line).2 <;> rw [hok] at hs <;>
        simpa [Event.entry?, Logger.step, Logger.accepts, Logger.loses, Logger.Act.line?, hok] using hs
    | countRefused => exact ih.countRefused
    | work r => exact ih.work r
    | call => exact ih.call
    | advance i => exact ih.advanceCaller i

/-- The sink answers every call, if only with a failure. -/
def Calm (past : List Event) : Prop := ∀ e ∈ past, e.act ≠ .work .panicked

instance (past : List Event) : Decidable (Calm past) := inferInstanceAs (Decidable (∀ e ∈ past, e.act ≠ _))

theorem worker_step {a : Logger.Act} (h : ∀ r, a ≠ .work r) :
    (s.step a).worker = s.worker ∧ (s.step a).written = s.written ∧ (s.step a).stored = s.stored := by
  cases a with
  | submit line =>
    simp only [Logger.step]
    rcases s.submit_cases line with he | ⟨-, he⟩ <;> rw [he] <;> exact ⟨rfl, rfl, rfl⟩
  | countRefused =>
    simp only [Logger.step, Logger.countRefused]
    split <;> exact ⟨rfl, rfl, rfl⟩
  | work r => exact absurd rfl (h r)
  | call => exact ⟨rfl, rfl, rfl⟩
  | advance i =>
    simp only [Logger.step, Logger.advanceCaller]
    split
    · obtain ⟨hs, hw, hn, -⟩ := counts_advance _ s
      exact ⟨hw, hn, hs⟩
    · exact ⟨rfl, rfl, rfl⟩

theorem afterPop_ne_ended (a : Blocking.Answer String) (e : Ending) : Logger.afterPop a ≠ .ended e := by
  cases a <;> nofun

theorem afterLine_ne_ended (lines : List String) (e : Ending) : Logger.afterLine lines ≠ .ended e := by
  cases lines <;> nofun

theorem worker_work_ne_panicked {r : Sink.Result} (hr : r ≠ .panicked) {n : Nat}
    (hw : s.worker ≠ .ended (.panicked n)) : (s.work r).worker ≠ .ended (.panicked n) := by
  obtain ⟨queue, worker, written, stored, dropped, refusing, handle, outcome, callers⟩ := s
  cases worker with
  | popping => exact afterPop_ne_ended _ _
  | asleep =>
    cases hq : queue.resumePop 0 0 with
    | none => simp [Logger.work, hq]
    | some p => simp only [Logger.work, hq]; exact afterPop_ne_ended _ _
  | draining => exact afterLine_ne_ended _ _
  | writing line | flushing =>
    cases r with
    | panicked => exact absurd rfl hr
    | _ => simp [Logger.work]
  | closing line rest =>
    cases r with
    | done => exact afterLine_ne_ended _ _
    | failed f => simp [Logger.work]
    | panicked => exact absurd rfl hr
  | failing | clearing | counting => simp [Logger.work]
  | ended e => exact hw

theorem Steps.worker_ne_panicked (h : Steps (.start capacity) past s) (hc : Calm past) (n : Nat) :
    s.worker ≠ .ended (.panicked n) := by
  induction h with
  | refl => exact nofun
  | @step past s t a _ ih =>
    have hw := ih fun e he => hc e (List.mem_cons_of_mem _ he)
    by_cases ha : ∃ r, a = .work r
    · obtain ⟨r, rfl⟩ := ha
      have hr : r ≠ .panicked := by
        rintro rfl
        exact hc _ List.mem_cons_self rfl
      exact worker_work_ne_panicked hr hw
    · rw [(worker_step fun r hr => ha ⟨r, hr⟩).1]
      exact hw

theorem inCallersHands_eq_zero {acc : List String} (h : Kept acc s) (hw : ∀ n, s.worker ≠ .ended (.panicked n)) :
    s.inCallersHands = 0 := by
  rw [Logger.inCallersHands, List.sum_eq_zero_iff_forall_eq_nat]
  intro n hn
  obtain ⟨c, hc, rfl⟩ := List.mem_map.mp hn
  cases c with
  | counting lost =>
    obtain ⟨k, hk⟩ := h.panicked _ (Array.mem_toList_iff.mp hc) rfl
    exact absurd hk (hw k)
  | _ => rfl

/-- A run of a logger that was given these messages, each as a line under a time of its own,
by whatever threads and in whatever order. Its sink answers, its worker is at its end, and
no refusal is left to count. -/
structure Received (c : Config) (messages : List String) (past : List Event) (s : Logger) : Prop where
  run : Steps (.start c.capacity) past s
  calm : Calm past
  lines : ∃ arrived, arrived.Perm messages ∧
    List.Forall₂ (fun message line => ∃ time, line = c.line time message) arrived (linesOf past)
  ended : ∃ e, s.worker = .ended e
  counted : s.refusing = 0

theorem Steps.total (h : Steps (.start capacity) past s) (hc : Calm past) {e : Ending} (he : s.worker = .ended e)
    (hr : s.refusing = 0) : s.written + s.dropped = submissions past := by
  have hb := h.balanced
  have hp := h.kept.placed
  have hw := h.worker_ne_panicked hc
  have hlines := hb.lines
  have hdropped := hb.dropped
  rw [inCallersHands_eq_zero h.kept hw, pending_eq, he] at hlines
  rw [he] at hp
  cases e with
  | finished | failed f =>
    rw [hp.2.1] at hlines
    simp only [Worker.inHand, List.length_nil] at hlines
    have := submissions_eq past
    have := hb.written
    omega
  | panicked n => exact absurd he (hw n)

theorem Received.total {c : Config} {messages : List String} (h : Received c messages past s) :
    s.written + s.dropped = messages.length := by
  obtain ⟨e, he⟩ := h.ended
  obtain ⟨arrived, hperm, hlines⟩ := h.lines
  rw [h.run.total h.calm he h.counted, ← length_linesOf, ← hlines.length_eq, hperm.length_eq]

structure Accounted (past : List Event) (s : Logger) : Prop where
  lines : (accepted past).length = s.stored.size + s.worker.inHand + s.pending + losses past
  written : s.written = s.stored.size
  dropped : s.dropped + s.refusing = refusals past + losses past
  ended : ∀ e, s.worker = .ended e → s.refusing = 0 →
    s.pending = 0 ∧ s.stored.size + s.dropped = submissions past

/-- In every reachable state each accepted line is written, in the worker's hands,
pending or counted as lost; and once the worker has ended, however it did, and
every call has returned, the lines written and dropped are all that were submitted. -/
theorem written_plus_dropped (h : Steps (.start capacity) past s) (hc : Calm past) : Accounted past s := by
  have hb := h.balanced
  have hp := h.kept.placed
  have hw := h.worker_ne_panicked hc
  have hzero := inCallersHands_eq_zero h.kept hw
  have hlines := hb.lines
  have hdropped := hb.dropped
  rw [hzero, Nat.add_zero] at hlines
  refine ⟨hlines, hb.written, hdropped, ?_⟩
  intro e he href
  have hdone : s.worker.inHand = 0 ∧ s.pending = 0 := by
    rw [pending_eq, he]
    rw [he] at hp
    cases e with
    | finished | failed f => exact ⟨rfl, List.length_eq_zero_iff.mpr hp.2.1⟩
    | panicked n => exact absurd he (hw n)
  refine ⟨hdone.2, ?_⟩
  have := submissions_eq past
  omega

end

def diskFull : Sink.Failure := ⟨.other, "disk full"⟩

/-- The sink fails on the second line; a third gets in before the queue goes down and a
fourth does not. -/
def failedLog : List Event :=
  [⟨1, .countRefused, false, 0⟩, ⟨0, .work .done, false, 2⟩, ⟨0, .work .done, false, 0⟩,
    ⟨1, .submit "d", false, 0⟩, ⟨0, .work .done, false, 0⟩, ⟨2, .submit "c", true, 0⟩,
    ⟨0, .work (.failed diskFull), false, 0⟩, ⟨0, .work .done, false, 0⟩, ⟨1, .submit "b", true, 0⟩,
    ⟨0, .work .done, false, 0⟩, ⟨0, .work .done, false, 0⟩, ⟨2, .submit "a", true, 0⟩]

def finishedLog : List Event :=
  [⟨0, .work .done, false, 0⟩, ⟨0, .work .done, false, 0⟩, ⟨0, .work .done, false, 0⟩, ⟨0, .work .done, false, 0⟩,
    ⟨1, .countRefused, false, 0⟩, ⟨1, .submit "c", false, 0⟩, ⟨2, .advance 0, false, 0⟩, ⟨2, .call, false, 0⟩,
    ⟨1, .submit "b", true, 0⟩, ⟨0, .work .done, false, 0⟩, ⟨0, .work .done, false, 0⟩, ⟨1, .submit "a", true, 0⟩]

/-- Of three lines that are left the sink fails on the second. -/
def drainedLog : List Event :=
  [⟨0, .work .done, false, 2⟩, ⟨0, .work .done, false, 0⟩, ⟨0, .work .done, false, 0⟩,
    ⟨0, .work (.failed diskFull), false, 0⟩, ⟨0, .work .done, false, 0⟩, ⟨0, .work .done, false, 0⟩,
    ⟨0, .work .done, false, 0⟩, ⟨2, .advance 0, false, 0⟩, ⟨2, .call, false, 0⟩, ⟨1, .submit "c", true, 0⟩,
    ⟨1, .submit "b", true, 0⟩, ⟨1, .submit "a", true, 0⟩]

def flushedLog : List Event :=
  [⟨0, .work .done, false, 0⟩, ⟨0, .work .done, false, 0⟩, ⟨0, .work .done, false, 0⟩,
    ⟨0, .work (.failed diskFull), false, 0⟩, ⟨0, .work .done, false, 0⟩, ⟨0, .work .done, false, 0⟩,
    ⟨0, .work .done, false, 0⟩, ⟨2, .advance 0, false, 0⟩, ⟨2, .call, false, 0⟩, ⟨1, .submit "a", true, 0⟩]

theorem written_plus_dropped_endings :
    (∃ s, Steps (.start 2) failedLog s ∧ s.worker = .ended (.failed diskFull) ∧ losses failedLog = 2 ∧
      s.pending = 0 ∧ s.stored.size + s.dropped = 4) ∧
    (∃ s, Steps (.start 2) finishedLog s ∧ s.worker = .ended .finished ∧ s.stored = #["a", "b"] ∧
      s.pending = 0 ∧ s.stored.size + s.dropped = 3) ∧
    (∃ s, Steps (.start 3) drainedLog s ∧ s.worker = .ended (.failed diskFull) ∧ s.stored = #["a"] ∧
      s.pending = 0 ∧ s.stored.size + s.dropped = 3) ∧
    ∃ s, Steps (.start 1) flushedLog s ∧ s.worker = .ended (.failed diskFull) ∧ s.stored = #["a"] ∧
      s.pending = 0 ∧ s.stored.size + s.dropped = 1 := by
  refine ⟨?_, ?_, ?_, ?_⟩
  · have wrote : Steps (.start 2) _ _ :=
      .step 0 (.work .done) (.step 0 (.work .done) (.step 2 (.submit "a") .refl))
    have holds := (wrote.step 1 (.submit "b")).step 0 (.work .done)
    have failed := (holds.step 0 (.work (.failed diskFull))).step 2 (.submit "c")
    have down := (failed.step 0 (.work .done)).step 1 (.submit "d")
    have run : Steps (.start 2) failedLog _ :=
      ((down.step 0 (.work .done)).step 0 (.work .done)).step 1 .countRefused
    exact ⟨_, run, rfl, rfl, (written_plus_dropped run (by decide)).ended _ rfl rfl⟩
  · have wrote : Steps (.start 2) _ _ :=
      .step 0 (.work .done) (.step 0 (.work .done) (.step 1 (.submit "a") .refl))
    have called := ((wrote.step 1 (.submit "b")).step 2 .call).step 2 (.advance 0)
    have late := (called.step 1 (.submit "c")).step 1 .countRefused
    have drained := (late.step 0 (.work .done)).step 0 (.work .done)
    have run : Steps (.start 2) finishedLog _ := (drained.step 0 (.work .done)).step 0 (.work .done)
    exact ⟨_, run, rfl, rfl, (written_plus_dropped run (by decide)).ended _ rfl rfl⟩
  · have full : Steps (.start 3) _ _ :=
      .step 1 (.submit "c") (.step 1 (.submit "b") (.step 1 (.submit "a") .refl))
    have drained := (((full.step 2 .call).step 2 (.advance 0)).step 0 (.work .done)).step 0 (.work .done)
    have failed := (drained.step 0 (.work .done)).step 0 (.work (.failed diskFull))
    have run : Steps (.start 3) drainedLog _ :=
      ((failed.step 0 (.work .done)).step 0 (.work .done)).step 0 (.work .done)
    exact ⟨_, run, rfl, rfl, (written_plus_dropped run (by decide)).ended _ rfl rfl⟩
  · have called : Steps (.start 1) _ _ :=
      .step 2 (.advance 0) (.step 2 .call (.step 1 (.submit "a") .refl))
    have wrote := ((called.step 0 (.work .done)).step 0 (.work .done)).step 0 (.work .done)
    have failed := wrote.step 0 (.work (.failed diskFull))
    have run : Steps (.start 1) flushedLog _ :=
      ((failed.step 0 (.work .done)).step 0 (.work .done)).step 0 (.work .done)
    exact ⟨_, run, rfl, rfl, (written_plus_dropped run (by decide)).ended _ rfl rfl⟩

end Conduit.Log
