import Conduit.Proofs.Log.Steps

/-!
# Lines in order

The worker takes lines one by one and at the end all at once. Wherever it
stands, the accepted lines are those that the sink has stored, then those in
the worker's hands, then those still queued; once it has failed the stored ones
stay what they are (`stored_in_order`).
-/

namespace Conduit.Log

/-- Where the accepted lines are at each point of the worker. Nothing is left
queued, or comes in any more, once it has drained a queue that is down. -/
def Placed (acc stored items : List String) (down : Bool) : Worker → Prop
  | .popping | .asleep => acc = stored ++ items
  | .writing line => acc = stored ++ line :: items
  | .draining => acc = stored ++ items ∧ down = true
  | .closing line rest => acc = stored ++ line :: rest ∧ items = [] ∧ down = true
  | .flushing | .ended .finished => acc = stored ∧ items = [] ∧ down = true
  | .failing _ _ | .ended (.panicked _) => stored <+: acc
  | .clearing _ _ => stored <+: acc ∧ down = true
  | .counting _ _ | .ended (.failed _) => stored <+: acc ∧ items = [] ∧ down = true

section
variable {acc stored items : List String} {down : Bool} {w : Worker} {line : String}

theorem Placed.isPrefix (h : Placed acc stored items down w) : stored <+: acc := by
  cases w with
  | popping | asleep | writing => exact ⟨_, Eq.symm h⟩
  | draining | closing => exact ⟨_, h.1.symm⟩
  | flushing => exact h.1 ▸ List.prefix_refl _
  | failing => exact h
  | clearing | counting => exact h.1
  | ended e =>
    cases e with
    | finished => exact h.1 ▸ List.prefix_refl _
    | failed => exact h.1
    | panicked => exact h

theorem Placed.accept (h : Placed acc stored items false w) (line : String) :
    Placed (acc ++ [line]) stored (items ++ [line]) false w := by
  have hpre := h.isPrefix.trans (List.prefix_append acc [line])
  cases w with
  | popping | asleep | writing => simp_all [Placed]
  | failing => exact hpre
  | draining | closing | flushing | clearing | counting => simp [Placed] at h
  | ended e =>
    cases e with
    | finished | failed => simp [Placed] at h
    | panicked => exact hpre

theorem Placed.signal (h : Placed acc stored items down w) : Placed acc stored items true w := by
  cases w with
  | popping | asleep | writing | failing => exact h
  | draining | clearing => exact ⟨h.1, rfl⟩
  | closing | flushing | counting => exact ⟨h.1, h.2.1, rfl⟩
  | ended e =>
    cases e with
    | finished | failed => exact ⟨h.1, h.2.1, rfl⟩
    | panicked => exact h

theorem placed_afterPop {q q' : Blocking.System String} {a : Blocking.Answer String} (hp : Pops q q' a)
    (h : acc = stored ++ q.queue.items.toList) :
    Placed acc stored q'.queue.items.toList q'.queue.down (Logger.afterPop a) := by
  cases hp with
  | parked h1 h2 h3 => rw [h1] at h; rw [h2]; exact h
  | closed h1 h2 h3 => rw [h2, h3]; exact ⟨h, rfl⟩
  | value h1 h2 => rw [h1] at h; exact h

theorem placed_afterLine {lines : List String} (h : acc = stored ++ lines) :
    Placed acc stored [] true (Logger.afterLine lines) := by
  cases lines with
  | nil => exact ⟨by simpa using h, rfl, rfl⟩
  | cons line rest => exact ⟨h, rfl, rfl⟩

end

/-! ## One step -/

def Caller.clears : Caller → Bool
  | .clearing | .counting _ => true
  | _ => false

/-- The lines are where the worker's stage says, and a shutdown call empties the
queue only after the worker has panicked. -/
structure Kept (acc : List String) (s : Logger) : Prop where
  placed : Placed acc s.stored.toList s.queue.queue.items.toList s.queue.queue.down s.worker
  panicked : ∀ c ∈ s.callers, c.clears = true → ∃ n, s.worker = .ended (.panicked n)

section
variable {acc : List String} {s : Logger}

theorem Kept.submit (h : Kept acc s) (line : String) :
    Kept (acc ++ if (s.submit line).2 then [line] else []) (s.submit line).1 := by
  rcases s.submit_cases line with he | ⟨hup, he⟩ <;> rw [he]
  · rw [if_neg Bool.false_ne_true, List.append_nil]
    exact ⟨h.placed, h.panicked⟩
  · have hp := h.placed
    rw [hup] at hp
    refine ⟨?_, h.panicked⟩
    show Placed _ _ (s.queue.queue.items.push line).toList s.queue.queue.down _
    rw [Fifo.toList_push, hup]
    exact hp.accept line

theorem placed_work (r : Sink.Result)
    (h : Placed acc s.stored.toList s.queue.queue.items.toList s.queue.queue.down s.worker) :
    Placed acc (s.work r).stored.toList (s.work r).queue.queue.items.toList (s.work r).queue.queue.down
      (s.work r).worker := by
  obtain ⟨queue, worker, written, stored, dropped, refusing, handle, outcome, callers⟩ := s
  cases worker with
  | popping => exact placed_afterPop (pops_runPop queue) h
  | asleep =>
    cases hr : queue.resumePop 0 0 with
    | none => simpa only [Logger.work, hr] using h
    | some p =>
      simp only [Logger.work, hr]
      exact placed_afterPop (pops_of_resumePop hr) h
  | writing line =>
    cases r with
    | done => simpa [Logger.work, Placed] using h
    | failed f => exact ⟨_, Eq.symm h⟩
    | panicked => exact ⟨_, Eq.symm h⟩
  | draining =>
    obtain ⟨hnil, hdown, hl⟩ := drain_queue queue
    simp only [Logger.work, hnil, hdown, hl]
    rw [show queue.queue.down = true from h.2]
    exact placed_afterLine h.1
  | closing line rest =>
    obtain ⟨hacc, hnil, hdown⟩ := h
    cases r with
    | done =>
      simp only [Logger.work, Array.toList_push]
      rw [show queue.queue.items.toList = [] from hnil, show queue.queue.down = true from hdown]
      exact placed_afterLine (by rw [hacc]; simp)
    | failed f => exact ⟨_, hacc.symm⟩
    | panicked => exact ⟨_, hacc.symm⟩
  | flushing =>
    cases r with
    | done => exact h
    | failed f => exact h.1 ▸ List.prefix_refl _
    | panicked => exact h.1 ▸ List.prefix_refl _
  | failing f n => exact ⟨h, (shutDown_queue queue).2⟩
  | clearing f n =>
    obtain ⟨hnil, hdown, -⟩ := drain_queue queue
    exact ⟨h.1, hnil, hdown.trans h.2⟩
  | counting f n => exact h
  | ended e => exact h

theorem Kept.work (h : Kept acc s) (r : Sink.Result) : Kept acc (s.work r) := by
  refine ⟨placed_work r h.placed, ?_⟩
  intro c hc hcl
  rw [Logger.callers_work] at hc
  obtain ⟨n, hn⟩ := h.panicked c hc hcl
  exact ⟨n, by rw [Logger.work_ended hn, hn]⟩

theorem Kept.advance (h : Kept acc s) {c : Caller} (hc : c ∈ s.callers) :
    Kept acc (s.advance c).1 ∧ ((s.advance c).2.clears = true → ∃ n, s.worker = .ended (.panicked n)) ∧
      (s.advance c).1.worker = s.worker := by
  have hp := h.placed
  cases c with
  | signalling =>
    refine ⟨⟨?_, h.panicked⟩, Bool.noConfusion, rfl⟩
    obtain ⟨hi, hd⟩ := shutDown_queue s.queue
    simp only [Logger.advance, hi, hd]
    exact hp.signal
  | taking =>
    simp only [Logger.advance]
    split
    · exact ⟨⟨hp, h.panicked⟩, Bool.noConfusion, rfl⟩
    · exact ⟨h, Bool.noConfusion, rfl⟩
  | joining =>
    simp only [Logger.advance]
    split
    · exact ⟨h, Bool.noConfusion, rfl⟩
    · exact ⟨h, Bool.noConfusion, rfl⟩
    · rename_i n hw
      exact ⟨h, fun _ => ⟨n, hw⟩, rfl⟩
    · exact ⟨h, Bool.noConfusion, rfl⟩
  | clearing =>
    obtain ⟨n, hn⟩ := h.panicked _ hc rfl
    refine ⟨⟨?_, h.panicked⟩, fun _ => ⟨n, hn⟩, rfl⟩
    rw [hn] at hp
    simp only [Logger.advance, hn]
    exact hp
  | counting lost => exact ⟨⟨hp, h.panicked⟩, Bool.noConfusion, rfl⟩
  | recording o => exact ⟨⟨hp, h.panicked⟩, Bool.noConfusion, rfl⟩
  | reporting => exact ⟨h, Bool.noConfusion, rfl⟩
  | returned r => exact ⟨h, Bool.noConfusion, rfl⟩

theorem Kept.advanceCaller (h : Kept acc s) (i : Nat) : Kept acc (s.advanceCaller i) := by
  unfold Logger.advanceCaller
  split
  · rename_i c hc
    obtain ⟨hk, hcl, hw⟩ := h.advance (Array.mem_of_getElem? hc)
    refine ⟨hk.placed, ?_⟩
    intro c' hc' hcl'
    show ∃ n, (s.advance c).1.worker = _
    rcases Array.mem_or_eq_of_mem_setIfInBounds hc' with hold | rfl
    · exact hk.panicked c' hold hcl'
    · rw [hw]
      exact hcl hcl'
  · exact h

theorem Kept.countRefused (h : Kept acc s) : Kept acc s.countRefused := by
  unfold Logger.countRefused
  split
  · exact ⟨h.placed, h.panicked⟩
  · exact h

theorem Kept.call (h : Kept acc s) : Kept acc s.call.1 := by
  refine ⟨h.placed, ?_⟩
  intro c hc hcl
  rcases Array.mem_push.mp hc with hc | rfl
  · exact h.panicked c hc hcl
  · cases hcl

/-! ## Whole runs -/

theorem Kept.step (h : Kept acc s) (a : Logger.Act) :
    Kept (acc ++ if s.accepts a then a.line?.toList else []) (s.step a) := by
  cases a with
  | submit line => exact h.submit line
  | countRefused => exact (List.append_nil acc).symm ▸ h.countRefused
  | work r => exact (List.append_nil acc).symm ▸ h.work r
  | call => exact (List.append_nil acc).symm ▸ h.call
  | advance i => exact (List.append_nil acc).symm ▸ h.advanceCaller i

theorem lines_accepted_cons (e : Event) (past : List Event) :
    (accepted (e :: past)).map Entry.line =
      (accepted past).map Entry.line ++ if e.accepted then e.act.line?.toList else [] := by
  rw [accepted, List.map_append, Event.entry?]
  cases e.accepted <;> cases e.act.line? <;> rfl

variable {capacity : Nat} {past : List Event}

theorem Steps.kept (h : Steps (.start capacity) past s) : Kept ((accepted past).map Entry.line) s := by
  induction h with
  | refl => exact ⟨rfl, by simp [Logger.start]⟩
  | step t a _ ih =>
    rw [lines_accepted_cons]
    exact ih.step a

structure InOrder (past : List Event) (s : Logger) : Prop where
  stored : s.stored.toList = ((accepted past).take s.stored.size).map Entry.line
  submitter : ∀ t, (((accepted past).take s.stored.size).filter (·.submitter = t)).map Entry.line <+:
    ((accepted past).filter (·.submitter = t)).map Entry.line
  calls : ∀ t, List.Sublist (((accepted past).filter (·.submitter = t)).map Entry.line) (submitted t past)
  complete : s.worker = .ended .finished → s.stored.toList = (accepted past).map Entry.line

/-- In every reachable state, whatever the sink does, it has stored a prefix of
the accepted lines, and all of them if the worker has ended well. -/
theorem stored_in_order (h : Steps (.start capacity) past s) : InOrder past s := by
  have hp := h.kept.placed
  have hpre : s.stored.toList <+: (accepted past).map Entry.line := hp.isPrefix
  refine ⟨?_, ?_, fun t => accepted_sublist_submitted t past, ?_⟩
  · rw [List.map_take]
    exact List.prefix_iff_eq_take.mp hpre
  · intro t
    exact ((List.take_prefix _ _).filter _).map _
  · intro hw
    rw [hw] at hp
    exact hp.1.symm

end

/-- The worker has one line in its hands when the queue goes down, and takes the others
all at once; a fourth line has found the queue full. -/
def seamLog : List Event :=
  [⟨0, .work .done, false, 0⟩, ⟨0, .work .done, false, 0⟩, ⟨0, .work .done, false, 0⟩,
    ⟨0, .work .done, false, 0⟩, ⟨0, .work .done, false, 0⟩, ⟨0, .work .done, false, 0⟩,
    ⟨3, .advance 0, false, 0⟩, ⟨3, .call, false, 0⟩, ⟨2, .submit "d", false, 0⟩,
    ⟨1, .submit "c", true, 0⟩, ⟨2, .submit "b", true, 0⟩, ⟨0, .work .done, false, 0⟩,
    ⟨1, .submit "a", true, 0⟩]

theorem stored_in_order_seam : ∃ s, Steps (.start 2) seamLog s ∧ s.worker = .ended .finished ∧
    accepted seamLog = [⟨1, "a"⟩, ⟨2, "b"⟩, ⟨1, "c"⟩] ∧ s.stored.toList = ["a", "b", "c"] := by
  have busy : Steps (.start 2) _ _ := .step 0 (.work .done) (.step 1 (.submit "a") .refl)
  have full := ((busy.step 2 (.submit "b")).step 1 (.submit "c")).step 2 (.submit "d")
  have down := (full.step 3 .call).step 3 (.advance 0)
  have drained := ((down.step 0 (.work .done)).step 0 (.work .done)).step 0 (.work .done)
  have run : Steps (.start 2) seamLog _ :=
    ((drained.step 0 (.work .done)).step 0 (.work .done)).step 0 (.work .done)
  exact ⟨_, run, rfl, rfl, (stored_in_order run).complete rfl⟩

end Conduit.Log
