import Conduit.Proofs.Log.Accounts

/-!
# How a shutdown call reports the end

The worker's handle is there to be taken, or one call has taken it, or the
outcome is recorded, and never two of these. So a call that reports while nobody
has the handle in hand tells how the worker ended, and every later one tells the
same (`shutdown_reports_the_end`). One that comes between the taking and the
recording finds neither and says that nothing was written
(`shutdown_reports_too_early`).
-/

namespace Conduit.Log

namespace Ending

def outcome (written : Nat) : Ending → Outcome
  | .finished => .finished written
  | .failed f => .failed f
  | .panicked _ => .panicked

def answer (written dropped : Nat) : Ending → Except Failure Stats
  | .finished => .ok ⟨written, dropped⟩
  | .failed f => .error (.sink f)
  | .panicked _ => .error .workerPanicked

end Ending

/-- The call has taken the handle and has not recorded the outcome yet. -/
def Caller.holds : Caller → Bool
  | .joining | .clearing | .counting _ | .recording _ => true
  | _ => false

def Logger.holders (s : Logger) : Nat := (s.callers.toList.map fun c => c.holds.toNat).sum

def Caller.Knows (s : Logger) : Caller → Prop
  | .clearing | .counting _ => ∃ n, s.worker = .ended (.panicked n)
  | .recording o => ∃ e, s.worker = .ended e ∧ o = e.outcome s.written
  | .reporting => s.handle = false
  | _ => True

/-- Of handle, holder and outcome there is one, and outcomes tell how the worker ended. -/
structure Joined (s : Logger) : Prop where
  one : s.handle.toNat + s.holders + s.outcome.isSome.toNat = 1
  outcome : ∀ o, s.outcome = some o → ∃ e, s.worker = .ended e ∧ o = e.outcome s.written
  callers : ∀ c ∈ s.callers, c.Knows s

section
variable {s s' : Logger} {c : Caller} {o : Outcome} {e : Ending} {i : Nat} {r : Except Failure Stats}

/-! ## What stays -/

/-- The worker's end is for good, and so is the taking of the handle. -/
structure Later (s s' : Logger) : Prop where
  ended : ∀ e, s.worker = .ended e → s'.worker = .ended e ∧ s'.written = s.written ∧ s'.stored = s.stored
  handle : s.handle = false → s'.handle = false

theorem handle_advance (c : Caller) (s : Logger) (h : s.handle = false) : (s.advance c).1.handle = false := by
  cases c with
  | taking =>
    simp only [Logger.advance, h]
    exact h
  | joining =>
    simp only [Logger.advance]
    split <;> exact h
  | _ => exact h

theorem handle_work (r : Sink.Result) (s : Logger) : (s.work r).handle = s.handle := by
  obtain ⟨queue, worker, written, stored, dropped, refusing, handle, outcome, callers⟩ := s
  cases worker <;> simp only [Logger.work] <;> split <;> rfl

theorem outcome_work (r : Sink.Result) (s : Logger) : (s.work r).outcome = s.outcome := by
  obtain ⟨queue, worker, written, stored, dropped, refusing, handle, outcome, callers⟩ := s
  cases worker <;> simp only [Logger.work] <;> split <;> rfl

structure Aside (s s' : Logger) : Prop where
  handle : s'.handle = s.handle
  outcome : s'.outcome = s.outcome
  callers : s'.callers = s.callers ∨ s'.callers = s.callers.push .signalling

theorem aside_step {a : Logger.Act} (ha : ∀ i, a ≠ .advance i) (s : Logger) : Aside s (s.step a) := by
  cases a with
  | submit line =>
    simp only [Logger.step]
    rcases s.submit_cases line with he | ⟨-, he⟩ <;> rw [he] <;> exact ⟨rfl, rfl, .inl rfl⟩
  | countRefused =>
    simp only [Logger.step, Logger.countRefused]
    split <;> exact ⟨rfl, rfl, .inl rfl⟩
  | work r => exact ⟨handle_work r s, outcome_work r s, .inl (Logger.callers_work r s)⟩
  | call => exact ⟨rfl, rfl, .inr rfl⟩
  | advance i => exact absurd rfl (ha i)

theorem later_step (a : Logger.Act) (s : Logger) : Later s (s.step a) := by
  constructor
  · intro e he
    by_cases ha : ∃ r, a = .work r
    · obtain ⟨r, rfl⟩ := ha
      rw [show s.step (.work r) = s from Logger.work_ended he r]
      exact ⟨he, rfl, rfl⟩
    · obtain ⟨hw, hn, hs⟩ := worker_step (s := s) fun r hr => ha ⟨r, hr⟩
      exact ⟨hw.trans he, hn, hs⟩
  · intro hh
    by_cases ha : ∃ i, a = .advance i
    · obtain ⟨i, rfl⟩ := ha
      simp only [Logger.step, Logger.advanceCaller]
      split
      · exact handle_advance _ s hh
      · exact hh
    · exact (aside_step (fun i hi => ha ⟨i, hi⟩) s).handle.trans hh

theorem Later.knows (h : Later s s') (hc : c.Knows s) : c.Knows s' := by
  cases c with
  | clearing | counting =>
    obtain ⟨n, hn⟩ := hc
    exact ⟨n, (h.ended _ hn).1⟩
  | recording o =>
    obtain ⟨e, he, ho⟩ := hc
    obtain ⟨hw, hn, -⟩ := h.ended e he
    exact ⟨e, hw, hn ▸ ho⟩
  | reporting => exact h.handle hc
  | _ => trivial

/-! ## One step -/

theorem holders_pos (hc : s.callers[i]? = some c) (hh : c.holds = true) : 0 < s.holders := by
  apply List.sum_pos_iff_exists_pos_nat.mpr
  refine ⟨1, List.mem_map.mpr ⟨c, ?_, ?_⟩, Nat.one_pos⟩
  · exact Array.mem_toList_iff.mpr (Array.mem_of_getElem? hc)
  · rw [hh]
    rfl

/-- A call takes the handle from where it is, and leaves the outcome in its place. -/
theorem one_advance (c : Caller) (s : Logger) (hc : c.holds = true → s.outcome = none) :
    (s.advance c).1.handle.toNat + (s.advance c).2.holds.toNat + (s.advance c).1.outcome.isSome.toNat =
      s.handle.toNat + c.holds.toNat + s.outcome.isSome.toNat := by
  cases c with
  | taking =>
    by_cases hh : s.handle = true
    · simp [Logger.advance, hh, Caller.holds]
    · simp [Logger.advance, hh, Caller.holds]
  | joining =>
    simp only [Logger.advance]
    split <;> rfl
  | recording o =>
    have hnone := hc rfl
    simp [Logger.advance, Caller.holds, hnone]
  | _ => rfl

theorem knows_advance (c : Caller) (s : Logger) (hc : c.Knows s) (hh : c.holds = true → s.handle = false) :
    (s.advance c).2.Knows (s.advance c).1 := by
  cases c with
  | taking =>
    by_cases hs : s.handle = true
    · simp [Logger.advance, hs, Caller.Knows]
    · simp [Logger.advance, hs, Caller.Knows]
  | joining =>
    simp only [Logger.advance]
    split
    · rename_i hw
      exact ⟨.finished, hw, rfl⟩
    · rename_i f hw
      exact ⟨.failed f, hw, rfl⟩
    · rename_i n hw
      exact ⟨n, hw⟩
    · trivial
  | clearing => exact hc
  | counting lost =>
    obtain ⟨n, hn⟩ := hc
    exact ⟨.panicked n, hn, rfl⟩
  | recording o => exact hh rfl
  | signalling | reporting | returned => trivial

theorem outcome_advance (c : Caller) (s : Logger) (hc : c.Knows s) (ho : (s.advance c).1.outcome = some o) :
    s.outcome = some o ∨ ∃ e, s.worker = .ended e ∧ o = e.outcome s.written := by
  cases c with
  | recording o' =>
    cases ho
    exact .inr hc
  | taking | joining =>
    simp only [Logger.advance] at ho
    split at ho <;> exact .inl ho
  | _ => exact .inl ho

theorem Joined.free (h : Joined s) (hc : s.callers[i]? = some c) (hh : c.holds = true) :
    s.handle = false ∧ s.outcome = none := by
  have hone := h.one
  have hpos := holders_pos hc hh
  refine ⟨?_, ?_⟩
  · rw [← Bool.toNat_eq_zero]
    omega
  · rw [← Option.isNone_iff_eq_none, ← Option.isSome_eq_false_iff, ← Bool.toNat_eq_zero]
    omega

theorem Joined.advanceCaller (h : Joined s) (i : Nat) : Joined (s.advanceCaller i) := by
  have hl := later_step (.advance i) s
  simp only [Logger.step] at hl
  revert hl
  unfold Logger.advanceCaller
  split
  · rename_i c hc
    intro hl
    have hk := h.callers c (Array.mem_of_getElem? hc)
    -- of the holders only call `i` can have come or gone
    have hlist : s.callers.toList[i]? = some c := by rw [Array.getElem?_toList, hc]
    have hsum := sum_map_set (fun c => c.holds.toNat) hlist (s.advance c).2
    have hone := h.one
    have hmove := one_advance c s fun hh => (h.free hc hh).2
    refine ⟨?_, ?_, ?_⟩
    · show (s.advance c).1.handle.toNat +
        (((s.advance c).1.callers.setIfInBounds i (s.advance c).2).toList.map fun c => c.holds.toNat).sum +
        (s.advance c).1.outcome.isSome.toNat = 1
      rw [Array.toList_setIfInBounds, Logger.callers_advance]
      unfold Logger.holders at hone
      omega
    · intro o ho
      have hend : ∃ e, s.worker = .ended e ∧ o = e.outcome s.written := by
        rcases outcome_advance c s hk ho with hold | hnew
        · exact h.outcome o hold
        · exact hnew
      obtain ⟨e, he, rfl⟩ := hend
      obtain ⟨hw, hn, -⟩ := hl.ended e he
      exact ⟨e, hw, by rw [hn]⟩
    · intro c' hc'
      rcases Array.mem_or_eq_of_mem_setIfInBounds hc' with hold | rfl
      · rw [Logger.callers_advance] at hold
        exact hl.knows (h.callers c' hold)
      · exact knows_advance c s hk fun hh => (h.free hc hh).1
  · exact fun _ => h

theorem Joined.aside (h : Joined s) (hl : Later s s') (ha : Aside s s') : Joined s' := by
  refine ⟨?_, ?_, ?_⟩
  · have hholders : s'.holders = s.holders := by
      unfold Logger.holders
      rcases ha.callers with he | he <;> rw [he]
      simp [Caller.holds]
    rw [ha.handle, ha.outcome, hholders]
    exact h.one
  · intro o ho
    obtain ⟨e, he, rfl⟩ := h.outcome o (ha.outcome ▸ ho)
    obtain ⟨hw, hn, -⟩ := hl.ended e he
    exact ⟨e, hw, by rw [hn]⟩
  · intro c hc
    rcases ha.callers with he | he
    · exact hl.knows (h.callers c (he ▸ hc))
    · rw [he] at hc
      rcases Array.mem_push.mp hc with hold | rfl
      · exact hl.knows (h.callers c hold)
      · trivial

theorem Joined.step (h : Joined s) (a : Logger.Act) : Joined (s.step a) := by
  by_cases ha : ∃ i, a = .advance i
  · obtain ⟨i, rfl⟩ := ha
    exact h.advanceCaller i
  · exact h.aside (later_step a s) (aside_step (fun i hi => ha ⟨i, hi⟩) s)

/-! ## A call that reports -/

theorem Joined.report (h : Joined s) (hi : s.callers[i]? = some .reporting) (hq : ∀ c ∈ s.callers, c.holds = false) :
    ∃ e, s.worker = .ended e ∧ s.outcome = some (e.outcome s.written) := by
  have hone := h.one
  have hhandle : s.handle = false := h.callers _ (Array.mem_of_getElem? hi)
  have hholders : s.holders = 0 := by
    rw [Logger.holders, List.sum_eq_zero_iff_forall_eq_nat]
    intro n hn
    obtain ⟨c, hc, rfl⟩ := List.mem_map.mp hn
    rw [hq c (Array.mem_toList_iff.mp hc)]
    rfl
  rw [hhandle, hholders] at hone
  cases ho : s.outcome with
  | none =>
    rw [ho] at hone
    cases hone
  | some o =>
    obtain ⟨e, he, rfl⟩ := h.outcome o ho
    exact ⟨e, he, rfl⟩

theorem report_of_outcome (ho : s.outcome = some (e.outcome s.written)) :
    s.report = e.answer s.written s.dropped := by
  unfold Logger.report
  rw [ho]
  cases e <;> rfl

/-! ## What stays once the outcome is there -/

theorem Joined.outcome_step (h : Joined s) (ho : s.outcome = some o) (a : Logger.Act) :
    (s.step a).outcome = some o := by
  by_cases ha : ∃ i, a = .advance i
  · obtain ⟨i, rfl⟩ := ha
    simp only [Logger.step, Logger.advanceCaller]
    split
    · rename_i c hc
      show (s.advance c).1.outcome = some o
      cases c with
      | recording o' =>
        -- a call that is to record has the handle in hand, so nothing is recorded yet
        have hnone := (h.free hc rfl).2
        rw [ho] at hnone
        cases hnone
      | taking | joining =>
        simp only [Logger.advance]
        split <;> exact ho
      | _ => exact ho
    · exact ho
  · exact (aside_step (fun i hi => ha ⟨i, hi⟩) s).outcome.trans ho

theorem callers_self (hi : s.callers[i]? = some c) : (s.step (.advance i)).callers[i]? = some (s.advance c).2 := by
  obtain ⟨hlt, -⟩ := Array.getElem?_eq_some_iff.mp hi
  simp only [Logger.step, Logger.advanceCaller, hi]
  rw [Logger.callers_advance]
  exact Array.getElem?_setIfInBounds_self_of_lt hlt

theorem callers_other {a : Logger.Act} (ha : a ≠ .advance i) (hi : s.callers[i]? = some c) :
    (s.step a).callers[i]? = some c := by
  obtain ⟨hlt, -⟩ := Array.getElem?_eq_some_iff.mp hi
  by_cases hj : ∃ j, a = .advance j
  · obtain ⟨j, rfl⟩ := hj
    have hne : j ≠ i := fun e => ha (e ▸ rfl)
    simp only [Logger.step, Logger.advanceCaller]
    split
    · show ((s.advance _).1.callers.setIfInBounds j _)[i]? = some c
      rw [Logger.callers_advance, Array.getElem?_setIfInBounds_ne hne]
      exact hi
    · exact hi
  · rcases (aside_step (fun j h => hj ⟨j, h⟩) s).callers with he | he <;> rw [he]
    · exact hi
    · rw [Array.getElem?_push_lt hlt]
      exact Array.getElem?_eq_getElem hlt ▸ hi

theorem callers_step (hi : s.callers[i]? = some (.returned r)) (a : Logger.Act) :
    (s.step a).callers[i]? = some (.returned r) := by
  by_cases ha : a = .advance i
  · subst ha
    exact callers_self hi
  · exact callers_other ha hi

end

/-! ## Whole runs -/

section
variable {capacity i : Nat} {past more : List Event} {s s' : Logger} {o : Outcome} {r : Except Failure Stats}

theorem Later.trans {s'' : Logger} (h : Later s s') (h' : Later s' s'') : Later s s'' := by
  refine ⟨?_, fun hh => h'.handle (h.handle hh)⟩
  intro e he
  obtain ⟨hw, hn, hs⟩ := h.ended e he
  obtain ⟨hw', hn', hs'⟩ := h'.ended e hw
  exact ⟨hw', hn'.trans hn, hs'.trans hs⟩

theorem Steps.later (h : Steps s past s') : Later s s' := by
  induction h with
  | refl => exact ⟨fun _ he => ⟨he, rfl, rfl⟩, id⟩
  | step t a _ ih => exact ih.trans (later_step a _)

theorem Steps.joined (h : Steps s past s') (hj : Joined s) : Joined s' := by
  induction h with
  | refl => exact hj
  | step t a _ ih => exact ih.step a

theorem joined_start (capacity : Nat) : Joined (.start capacity) := ⟨rfl, nofun, by simp [Logger.start]⟩

theorem Steps.outcome (h : Steps s past s') (hj : Joined s) (ho : s.outcome = some o) : s'.outcome = some o := by
  induction h with
  | refl => exact ho
  | step t a h ih => exact (h.joined hj).outcome_step ih a

theorem Steps.returned (h : Steps s past s') (hi : s.callers[i]? = some (.returned r)) :
    s'.callers[i]? = some (.returned r) := by
  induction h with
  | refl => exact hi
  | step t a _ ih => exact callers_step ih a

structure Told (e : Ending) (i : Nat) (s s' : Logger) : Prop where
  worker : s'.worker = .ended e
  stored : s'.stored = s.stored
  answer : s'.returned? i = some (e.answer s.stored.size s.dropped)
  report : s'.report = e.answer s.stored.size s'.dropped

/-- A call that reports while no other has the handle in hand tells how the worker
ended and how many lines it has written, and so does every call after it. -/
theorem shutdown_reports_the_end (h : Steps (.start capacity) past s) (hi : s.callers[i]? = some .reporting)
    (hq : ∀ c ∈ s.callers, c.holds = false) :
    ∃ e, s.worker = .ended e ∧ ∀ more s', Steps (s.advanceCaller i) more s' → Told e i s s' := by
  have hj := h.joined (joined_start capacity)
  have hn : s.written = s.stored.size := h.balanced.written
  obtain ⟨e, he, ho⟩ := hj.report hi hq
  have hnow : (s.advanceCaller i).callers[i]? = some (.returned (e.answer s.stored.size s.dropped)) := by
    obtain ⟨hlt, -⟩ := Array.getElem?_eq_some_iff.mp hi
    unfold Logger.advanceCaller
    rw [hi]
    simp [Logger.advance, hlt, report_of_outcome ho, hn]
  refine ⟨e, he, ?_⟩
  intro more s' hm
  have hout := hm.outcome (hj.step (.advance i)) (hj.outcome_step ho (.advance i))
  obtain ⟨hw', hn', hs'⟩ := ((later_step (.advance i) s).trans hm.later).ended e he
  refine ⟨hw', hs', ?_, ?_⟩
  · unfold Logger.returned?
    rw [hm.returned hnow]
  · rw [← hn'] at hout
    rw [report_of_outcome hout, hn', hn]

/-- A call that reports while another one has the handle in hand tells of no line and of
no failure, whatever the worker has written and however it ends. -/
theorem shutdown_reports_too_early {c : Caller} (h : Steps (.start capacity) past s) (hc : s.callers[i]? = some c)
    (hh : c.holds = true) : s.report = .ok ⟨0, s.dropped⟩ := by
  unfold Logger.report
  rw [((h.joined (joined_start capacity)).free hc hh).2]

end

/-- One call waits while the worker writes a line and fails on the next; another one has
come meanwhile and signals. -/
def joinedLog : List Event :=
  [⟨2, .advance 0, false, 0⟩, ⟨2, .advance 0, false, 0⟩, ⟨0, .work .done, false, 1⟩, ⟨0, .work .done, false, 0⟩,
    ⟨0, .work .done, false, 0⟩, ⟨0, .work (.failed diskFull), false, 0⟩, ⟨0, .work .done, false, 0⟩,
    ⟨0, .work .done, false, 0⟩, ⟨0, .work .done, false, 0⟩, ⟨3, .advance 1, false, 0⟩, ⟨3, .call, false, 0⟩,
    ⟨2, .advance 0, false, 0⟩, ⟨2, .advance 0, false, 0⟩, ⟨2, .call, false, 0⟩, ⟨1, .submit "b", true, 0⟩,
    ⟨0, .work .done, false, 0⟩, ⟨1, .submit "a", true, 0⟩]

theorem shutdown_reports_the_end_failed : ∃ s s', Steps (.start 1) joinedLog s ∧
    s.callers[0]? = some .reporting ∧ (∀ c ∈ s.callers, c.holds = false) ∧ Told (.failed diskFull) 0 s s' ∧
    s'.callers.toList = [.returned (.error (.sink diskFull)), .returned (.error (.sink diskFull))] := by
  have busy : Steps (.start 1) _ _ :=
    .step 1 (.submit "b") (.step 0 (.work .done) (.step 1 (.submit "a") .refl))
  have taken := ((busy.step 2 .call).step 2 (.advance 0)).step 2 (.advance 0)
  have down := (taken.step 3 .call).step 3 (.advance 1)
  have wrote := ((down.step 0 (.work .done)).step 0 (.work .done)).step 0 (.work .done)
  have failed := (wrote.step 0 (.work (.failed diskFull))).step 0 (.work .done)
  have ended := (failed.step 0 (.work .done)).step 0 (.work .done)
  have run : Steps (.start 1) joinedLog _ := (ended.step 2 (.advance 0)).step 2 (.advance 0)
  have quiet : ∀ c ∈ #[Caller.reporting, .taking], c.holds = false := by simp [Caller.holds]
  obtain ⟨e, he, told⟩ := shutdown_reports_the_end (i := 0) run rfl quiet
  cases (show Worker.ended (.failed diskFull) = .ended e from he)
  exact ⟨_, _, run, rfl, quiet, told _ _ (.step 3 (.advance 1) (.step 3 (.advance 1) .refl)), rfl⟩

/-- The call that has found neither handle nor outcome is back before the line is written,
and the two calls do not agree. -/
theorem shutdown_reports_too_early_writing : ∃ past s more s', Steps (.start 1) past s ∧
    s.worker = .writing "a" ∧ s.returned? 1 = some (.ok ⟨0, 0⟩) ∧ Steps s more s' ∧
    s'.returned? 0 = some (.ok ⟨1, 0⟩) ∧ s'.returned? 1 = some (.ok ⟨0, 0⟩) := by
  have busy : Steps (.start 1) _ _ := .step 0 (.work .done) (.step 1 (.submit "a") .refl)
  have taken := ((busy.step 2 .call).step 2 (.advance 0)).step 2 (.advance 0)
  have found := ((taken.step 3 .call).step 3 (.advance 1)).step 3 (.advance 1)
  have back := found.step 3 (.advance 1)
  exact ⟨_, _, _, _, back, rfl, rfl,
    .step 2 (.advance 0) (.step 2 (.advance 0) (.step 2 (.advance 0) (.step 0 (.work .done) (.step 0 (.work .done)
      (.step 0 (.work .done) (.step 0 (.work .done) .refl)))))), rfl, rfl⟩

end Conduit.Log
