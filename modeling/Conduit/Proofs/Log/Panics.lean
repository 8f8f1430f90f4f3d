import Conduit.Proofs.Log.Stopping

/-!
# What a sink that panics costs

The worker is unwound with the lines that it has in hand, and these are counted
nowhere: one in the loop of pops, what is not written yet of the last lines, none
in the flush. The queue goes on without a reader until a shutdown call, and the
call that joins the worker counts what is still queued. So all lines but those in
hand are accounted for (`panic_costs`).
-/

namespace Conduit.Log

/-- The worker has taken `lines` when it emptied the queue, and the sink has stored the
first of them, `done`, since. -/
def Closing (capacity : Nat) (past : List Event) (s : Logger) (lines done : List String) : Prop :=
  ∃ since t r earlier s₁, past = since ++ ⟨t, .work r, false, 0⟩ :: earlier ∧
    Steps (.start capacity) earlier s₁ ∧ s₁.worker = .draining ∧ s₁.queue.queue.items.toList = lines ∧
    Steps (s₁.work r) since s ∧ s.stored.toList = s₁.stored.toList ++ done

/-- How many lines are lost if the sink panics in `s`. -/
inductive Costs (capacity : Nat) (past : List Event) (s : Logger) : Nat → Prop
  | writing {line : String} : s.worker = .writing line → Costs capacity past s 1
  | closing {line : String} {rest lines done : List String} : s.worker = .closing line rest →
      Closing capacity past s lines done → lines = done ++ line :: rest →
      Costs capacity past s (lines.length - done.length)
  | flushing : s.worker = .flushing → Costs capacity past s 0

section
variable {capacity i k : Nat} {past more : List Event} {s s' : Logger} {a : Logger.Act} {c : Caller}
  {line : String} {rest : List String} {r : Sink.Result}

/-! ## The last lines -/

theorem afterPop_ne_closing (o : Blocking.Answer String) (line : String) (rest : List String) :
    Logger.afterPop o ≠ .closing line rest := by
  cases o <;> nofun

theorem afterLine_eq_closing {lines : List String} (h : Logger.afterLine lines = .closing line rest) :
    lines = line :: rest := by
  cases lines with
  | nil => cases h
  | cons =>
    cases h
    rfl

theorem work_eq_closing (h : (s.work r).worker = .closing line rest) :
    (s.worker = .draining ∧ s.queue.queue.items.toList = line :: rest ∧ (s.work r).stored = s.stored) ∨
      ∃ line', s.worker = .closing line' (line :: rest) ∧ (s.work r).stored = s.stored.push line' := by
  obtain ⟨queue, worker, written, stored, dropped, refusing, handle, outcome, callers⟩ := s
  cases worker with
  | popping => exact absurd h (afterPop_ne_closing _ _ _)
  | asleep =>
    cases hq : queue.resumePop 0 0 with
    | none => simp [Logger.work, hq] at h
    | some p =>
      simp only [Logger.work, hq] at h
      exact absurd h (afterPop_ne_closing _ _ _)
  | draining => exact .inl ⟨rfl, (drain_queue queue).2.2.symm.trans (afterLine_eq_closing h), rfl⟩
  | closing line' rest' =>
    cases r with
    | done =>
      cases afterLine_eq_closing h
      exact .inr ⟨line', rfl, rfl⟩
    | failed | panicked => cases h
  | writing | flushing => cases r <;> cases h
  | failing | clearing | counting | ended => cases h

theorem Closing.step {lines done new : List String} (h : Closing capacity past s lines done) (t : Nat)
    (a : Logger.Act) (hs : (s.step a).stored.toList = s.stored.toList ++ new) :
    Closing capacity (⟨t, a, s.accepts a, s.loses a⟩ :: past) (s.step a) lines (done ++ new) := by
  obtain ⟨since, t', r, earlier, s₁, rfl, h₁, hw, hl, hsince, hstored⟩ := h
  refine ⟨_ :: since, t', r, earlier, s₁, rfl, h₁, hw, hl, hsince.step t a, ?_⟩
  rw [hs, hstored, List.append_assoc]

theorem Steps.closing (h : Steps (.start capacity) past s) : ∀ line rest, s.worker = .closing line rest →
    ∃ lines done, Closing capacity past s lines done ∧ lines = done ++ line :: rest := by
  induction h with
  | refl => exact nofun
  | @step past s t a h ih =>
    intro line rest hw
    by_cases ha : ∃ r, a = .work r
    · obtain ⟨r, rfl⟩ := ha
      rcases work_eq_closing hw with ⟨hd, hl, hs⟩ | ⟨line', hc, hs⟩
      · have hloss : s.loses (.work r) = 0 := by simp only [Logger.loses, hd]
        rw [hloss]
        refine ⟨line :: rest, [], ⟨[], t, r, past, s, rfl, h, hd, hl, .refl, ?_⟩, rfl⟩
        show (s.work r).stored.toList = s.stored.toList ++ []
        rw [hs, List.append_nil]
      · obtain ⟨lines, done, hcl, rfl⟩ := ih line' (line :: rest) hc
        refine ⟨_, done ++ [line'], hcl.step t (.work r) ?_, List.append_cons done line' _⟩
        show (s.work r).stored.toList = s.stored.toList ++ [line']
        rw [hs, Array.toList_push]
    · obtain ⟨hsame, -, hs⟩ := worker_step (s := s) fun r hr => ha ⟨r, hr⟩
      obtain ⟨lines, done, hcl, hl⟩ := ih line rest (hsame ▸ hw)
      refine ⟨lines, done ++ [], hcl.step t a ?_, ?_⟩
      · rw [hs, List.append_nil]
      · rw [List.append_nil]
        exact hl

/-! ## The panic -/

theorem work_eq_panicked (h : (s.work .panicked).worker = .ended (.panicked k))
    (hw : s.worker ≠ .ended (.panicked k)) :
    (∃ line, s.worker = .writing line ∧ k = 1) ∨
      (∃ line rest, s.worker = .closing line rest ∧ k = rest.length + 1) ∨ s.worker = .flushing ∧ k = 0 := by
  obtain ⟨queue, worker, written, stored, dropped, refusing, handle, outcome, callers⟩ := s
  cases worker with
  | popping => exact absurd h (afterPop_ne_ended _ _)
  | asleep =>
    cases hq : queue.resumePop 0 0 with
    | none => simp [Logger.work, hq] at h
    | some p =>
      simp only [Logger.work, hq] at h
      exact absurd h (afterPop_ne_ended _ _)
  | draining => exact absurd h (afterLine_ne_ended _ _)
  | writing line =>
    cases h
    exact .inl ⟨line, rfl, rfl⟩
  | closing line rest =>
    cases h
    exact .inr (.inl ⟨line, rest, rfl, rfl⟩)
  | flushing =>
    cases h
    exact .inr (.inr ⟨rfl, rfl⟩)
  | failing | clearing | counting => cases h
  | ended => exact absurd h hw

theorem Steps.costs (h : Steps (.start capacity) past s) (hw : s.worker ≠ .ended (.panicked k))
    (hp : (s.work .panicked).worker = .ended (.panicked k)) : Costs capacity past s k := by
  rcases work_eq_panicked hp hw with ⟨line, hl, rfl⟩ | ⟨line, rest, hl, rfl⟩ | ⟨hl, rfl⟩
  · exact .writing hl
  · obtain ⟨lines, done, hcl, hlines⟩ := h.closing line rest hl
    have hlen : lines.length - done.length = rest.length + 1 := by
      rw [hlines, List.length_append, List.length_cons]
      omega
    exact hlen ▸ .closing hl hcl hlines
  · exact .flushing hl

theorem Steps.panic (h : Steps (.start capacity) past s) : ∀ k, s.worker = .ended (.panicked k) →
    ∃ later t earlier s₀, past = later ++ ⟨t, .work .panicked, false, 0⟩ :: earlier ∧
      Steps (.start capacity) earlier s₀ ∧ Costs capacity earlier s₀ k ∧ Steps (s₀.work .panicked) later s := by
  induction h with
  | refl => exact nofun
  | @step past s t a h ih =>
    intro k hw
    by_cases hbefore : s.worker = .ended (.panicked k)
    · obtain ⟨later, t', earlier, s₀, rfl, h₀, hcost, hlater⟩ := ih k hbefore
      exact ⟨_ :: later, t', earlier, s₀, rfl, h₀, hcost, hlater.step t a⟩
    · by_cases ha : ∃ r, a = .work r
      · obtain ⟨r, rfl⟩ := ha
        by_cases hr : r = .panicked
        · subst hr
          have hcost := h.costs hbefore hw
          have hloss : s.loses (.work .panicked) = 0 := by
            cases hcost <;> simp only [Logger.loses, *]
          rw [hloss]
          exact ⟨[], t, past, s, rfl, h, hcost, .refl⟩
        · exact absurd hw (worker_work_ne_panicked hr hbefore)
      · rw [(worker_step fun r hr => ha ⟨r, hr⟩).1] at hw
        exact absurd hw hbefore

theorem Steps.up_of_panicked (h : Steps (.start capacity) past s) (hw : s.worker = .ended (.panicked k))
    (hc : ∀ c ∈ s.callers, c.signalled = false) : s.queue.queue.down = false := by
  rw [Bool.eq_false_iff, Ne, h.down_iff]
  rintro (hsig | ⟨c, hmem, hsig⟩)
  · rw [hw] at hsig
    cases hsig
  · rw [hc c hmem] at hsig
    cases hsig

/-! ## The call that joins -/

def Caller.Joins (s : Logger) : Caller → Prop
  | .joining | .clearing | .counting _ | .recording _ => True
  | .reporting => s.outcome = some .panicked
  | .returned r => r = .error .workerPanicked ∧ s.outcome = some .panicked
  | .signalling | .taking => False

def Caller.left : Caller → Nat
  | .joining => 5
  | .clearing => 4
  | .counting _ => 3
  | .recording _ => 2
  | .reporting => 1
  | _ => 0

theorem joins_advance (hj : Joined s) (hw : s.worker = .ended (.panicked k)) (hi : s.callers[i]? = some c)
    (hc : c.Joins s) :
    (s.advance c).2.Joins (s.step (.advance i)) ∧ (s.advance c).2.left ≤ c.left - 1 := by
  cases c with
  | joining => simp [Logger.advance, hw, Caller.Joins, Caller.left]
  | clearing | counting => exact ⟨trivial, Nat.le_refl _⟩
  | recording o =>
    obtain ⟨e, he, rfl⟩ := hj.callers _ (Array.mem_of_getElem? hi)
    cases hw.symm.trans he
    refine ⟨?_, Nat.le_refl _⟩
    simp only [Logger.step, Logger.advanceCaller, hi]
    rfl
  | reporting =>
    refine ⟨⟨?_, hj.outcome_step hc _⟩, Nat.le_refl _⟩
    unfold Logger.report
    rw [show s.outcome = some .panicked from hc]
  | returned r => exact ⟨⟨hc.1, hj.outcome_step hc.2 _⟩, Nat.le_refl _⟩
  | signalling | taking => exact absurd hc id

theorem Caller.Joins.step (hc : c.Joins s) (hj : Joined s) (a : Logger.Act) : c.Joins (s.step a) := by
  cases c with
  | joining | clearing | counting | recording => trivial
  | reporting => exact hj.outcome_step hc a
  | returned => exact ⟨hc.1, hj.outcome_step hc.2 a⟩
  | signalling | taking => exact hc

theorem Steps.joins (h : Steps s more s') (hj : Joined s) (hw : s.worker = .ended (.panicked k))
    (hi : s.callers[i]? = some .joining) : ∃ c, s'.callers[i]? = some c ∧ c.Joins s' ∧
      c.left ≤ 5 - more.countP fun e => e.act = .advance i := by
  induction h with
  | refl => exact ⟨.joining, hi, trivial, Nat.le_refl _⟩
  | step t a h ih =>
    obtain ⟨c, hc, hjoins, hleft⟩ := ih
    have hj' := h.joined hj
    have hw' := (h.later.ended _ hw).1
    rw [List.countP_cons]
    by_cases ha : a = .advance i
    · subst ha
      obtain ⟨hnext, hless⟩ := joins_advance hj' hw' hc hjoins
      refine ⟨_, callers_self hc, hnext, ?_⟩
      simp only [decide_true, if_true]
      omega
    · refine ⟨c, callers_other ha hc, hjoins.step hj' a, ?_⟩
      simpa [ha] using hleft

theorem Logger.returned?_eq_some {x : Except Failure Stats} :
    s.returned? i = some x ↔ s.callers[i]? = some (.returned x) := by
  unfold Logger.returned?
  split
  · rename_i y hy
    rw [hy]
    constructor
    · intro h
      cases h
      rfl
    · intro h
      cases h
      rfl
  · rename_i hne
    constructor
    · nofun
    · intro h
      exact absurd h (hne x)

/-! ## What it costs -/

theorem Steps.trans {s'' : Logger} (h : Steps s past s') (h' : Steps s' more s'') : Steps s (more ++ past) s'' := by
  induction h' with
  | refl => exact h
  | step t a _ ih => exact ih.step t a

theorem Joined.inCallersHands (h : Joined s) (ho : s.outcome.isSome = true) : s.inCallersHands = 0 := by
  have hone := h.one
  rw [ho] at hone
  rw [Logger.inCallersHands, List.sum_eq_zero_iff_forall_eq_nat]
  intro n hn
  obtain ⟨c, hc, rfl⟩ := List.mem_map.mp hn
  cases c with
  | counting lost =>
    obtain ⟨i, hi⟩ := Array.getElem?_of_mem (Array.mem_toList_iff.mp hc)
    have hpos := holders_pos hi rfl
    simp only [Bool.toNat_true] at hone
    omega
  | _ => rfl

theorem Steps.submissions_of_outcome (h : Steps (.start capacity) past s) (ho : s.outcome.isSome = true) :
    s.pending = 0 ∧ submissions past = s.stored.size + s.dropped + s.refusing + s.worker.inHand := by
  have hb := h.balanced
  have hlines := hb.lines
  have hdropped := hb.dropped
  have hpending : s.pending = 0 := by
    rw [pending_eq, (h.cleared.outcome ho).items]
    rfl
  rw [(h.joined (joined_start capacity)).inCallersHands ho] at hlines
  refine ⟨hpending, ?_⟩
  have := submissions_eq past
  omega

theorem Steps.settled (h : Steps (.start capacity) past s) (hw : s.worker = .ended (.panicked k))
    (ho : s.outcome.isSome = true) :
    s.pending = 0 ∧ (s.refusing = 0 → submissions past = s.stored.size + s.dropped + k) := by
  obtain ⟨hpending, hcount⟩ := h.submissions_of_outcome ho
  have hhand : s.worker.inHand = k := by
    rw [hw]
    rfl
  refine ⟨hpending, ?_⟩
  intro href
  omega

/-- How things stand after a run in which the worker has ended by a panic of the sink
with `k` lines in its hands. -/
structure Panicked (capacity : Nat) (past : List Event) (s : Logger) (k : Nat) : Prop where
  cost : ∃ later t earlier s₀, past = later ++ ⟨t, .work .panicked, false, 0⟩ :: earlier ∧
    Steps (.start capacity) earlier s₀ ∧ Costs capacity earlier s₀ k ∧ Steps (s₀.work .panicked) later s
  up : (∀ c ∈ s.callers, c.signalled = false) →
    s.queue.queue.down = false ∧ ∀ line, (s.submit line).2 = true ↔ s.pending < capacity
  returns : ∀ i, s.callers[i]? = some .joining → ∀ more s', Steps s more s' →
    (5 ≤ more.countP fun e => e.act = .advance i) → ∃ r, s'.returned? i = some r
  joined : ∀ i, s.callers[i]? = some .joining → ∀ more s' r, Steps s more s' → s'.returned? i = some r →
    r = .error .workerPanicked ∧ s'.pending = 0 ∧
      (s'.refusing = 0 → submissions (more ++ past) = s'.stored.size + s'.dropped + k)

theorem panic_costs (h : Steps (.start capacity) past s) (hw : s.worker = .ended (.panicked k)) :
    Panicked capacity past s k := by
  have hj := h.joined (joined_start capacity)
  refine ⟨h.panic k hw, ?_, ?_, ?_⟩
  · intro hcallers
    have hup := h.up_of_panicked hw hcallers
    refine ⟨hup, ?_⟩
    intro line
    rw [submit_iff, hup, h.limit]
    exact and_iff_right rfl
  · intro i hi more s' hm hsteps
    obtain ⟨c, hc, hjoins, hleft⟩ := hm.joins hj hw hi
    cases c with
    | returned r => exact ⟨r, Logger.returned?_eq_some.mpr hc⟩
    | signalling | taking => exact absurd hjoins id
    | joining | clearing | counting | recording | reporting =>
      simp only [Caller.left] at hleft
      omega
  · intro i hi more s' r hm hr
    obtain ⟨c, hc, hjoins, -⟩ := hm.joins hj hw hi
    cases hc.symm.trans (Logger.returned?_eq_some.mp hr)
    obtain ⟨hanswer, ho⟩ := hjoins
    have hsettled := (h.trans hm).settled (hm.later.ended _ hw).1 (Option.isSome_of_eq_some ho)
    exact ⟨hanswer, hsettled⟩

end

/-- Three lines wait when the queue goes down, and the sink panics on the second of them. -/
def secondLog : List Event :=
  [⟨0, .work .panicked, false, 0⟩, ⟨0, .work .done, false, 0⟩, ⟨0, .work .done, false, 0⟩,
    ⟨0, .work .done, false, 0⟩, ⟨3, .advance 0, false, 0⟩, ⟨3, .advance 0, false, 0⟩, ⟨3, .call, false, 0⟩,
    ⟨2, .countRefused, false, 0⟩, ⟨2, .submit "d", false, 0⟩, ⟨1, .submit "c", true, 0⟩,
    ⟨1, .submit "b", true, 0⟩, ⟨1, .submit "a", true, 0⟩]

/-- A panic on a line that was popped costs that line, and the queue goes on with one
waiting. A panic on the second of the last three costs two. -/
theorem panic_costs_once_and_twice :
    (∃ past s, Steps (.start 2) past s ∧ s.worker = .ended (.panicked 1) ∧ s.pending = 1 ∧
      ∀ line, (s.submit line).2 = true ↔ s.pending < 2) ∧
    ∃ s more s', Steps (.start 3) secondLog s ∧ s.worker = .ended (.panicked 2) ∧ Steps s more s' ∧
      s'.returned? 0 = some (.error .workerPanicked) ∧ s'.stored.toList = ["a"] ∧ s'.dropped = 1 ∧
      submissions (more ++ secondLog) = s'.stored.size + s'.dropped + 2 := by
  constructor
  · have busy : Steps (.start 2) _ _ := .step 0 (.work .done) (.step 1 (.submit "a") .refl)
    have run := (busy.step 1 (.submit "b")).step 0 (.work .panicked)
    have nobody : ∀ c ∈ (#[] : Array Caller), c.signalled = false := by simp
    exact ⟨_, _, run, rfl, rfl, ((panic_costs run rfl).up nobody).2⟩
  · have full : Steps (.start 3) _ _ :=
      .step 1 (.submit "c") (.step 1 (.submit "b") (.step 1 (.submit "a") .refl))
    have refused := (full.step 2 (.submit "d")).step 2 .countRefused
    have down := ((refused.step 3 .call).step 3 (.advance 0)).step 3 (.advance 0)
    have drained := (down.step 0 (.work .done)).step 0 (.work .done)
    have run : Steps (.start 3) secondLog _ := (drained.step 0 (.work .done)).step 0 (.work .panicked)
    have joins (s : Logger) : Steps s _ _ := .step 3 (.advance 0) (.step 3 (.advance 0) (.step 3 (.advance 0)
      (.step 3 (.advance 0) (.step 3 (.advance 0) .refl))))
    have settled := (panic_costs run rfl).joined 0 rfl _ _ _ (joins _) rfl
    exact ⟨_, _, _, run, rfl, joins _, rfl, rfl, rfl, settled.2.2 rfl⟩

end Conduit.Log
