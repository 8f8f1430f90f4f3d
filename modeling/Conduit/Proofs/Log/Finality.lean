import Conduit.Proofs.Log.Panics

/-!
# The outcome is final

The sink answers each line and the flush, and the worker asks it no more once it has
answered with anything but success. So the recorded outcome tells of the one answer
that ended the worker. After the call that waited for the worker has returned, nothing
but the count of refused lines changes, and every later call tells the same with the
count as it finds it (`outcome_is_final`).
-/

namespace Conduit.Log

/-! ## What the sink has answered -/

def Logger.asks (s : Logger) : Logger.Act → Option Sink.Result
  | .work r =>
    match s.worker with
    | .writing _ | .closing _ _ | .flushing => some r
    | _ => none
  | _ => none

def replay (s : Logger) : List Event → Logger
  | [] => s
  | e :: past => (replay s past).step e.act

def answers (s : Logger) : List Event → List Sink.Result
  | [] => []
  | e :: past => answers s past ++ ((replay s past).asks e.act).toList

def Ending.result : Ending → Sink.Result
  | .finished => .done
  | .failed f => .failed f
  | .panicked _ => .panicked

/-- The answer after which a worker asks no more, where it stands. -/
def Worker.verdict : Worker → List Sink.Result
  | .failing f _ | .clearing f _ | .counting f _ => [.failed f]
  | .ended e => [e.result]
  | _ => []

section
variable {capacity i j : Nat} {past mid more : List Event} {s s₀ s' : Logger} {a : Logger.Act} {c : Caller}
  {e : Ending} {r : Except Failure Stats}

theorem Steps.replay_eq (h : Steps s past s') : replay s past = s' := by
  induction h with
  | refl => rfl
  | step t a _ ih => rw [replay, ih]

theorem verdict_afterPop (o : Blocking.Answer String) : (Logger.afterPop o).verdict = [] := by
  cases o <;> rfl

theorem verdict_afterLine (lines : List String) : (Logger.afterLine lines).verdict = [] := by
  cases lines <;> rfl

/-- A success stores a line or ends the worker, and any other answer is the last one. -/
theorem verdict_work (r : Sink.Result) (s : Logger) :
    List.replicate (s.work r).stored.size .done ++ (s.work r).worker.verdict =
      List.replicate s.stored.size .done ++ s.worker.verdict ++ (s.asks (.work r)).toList := by
  obtain ⟨queue, worker, written, stored, dropped, refusing, handle, outcome, callers⟩ := s
  cases worker with
  | popping =>
    simp only [Logger.work, verdict_afterPop]
    exact (List.append_nil _).symm
  | asleep =>
    cases hq : queue.resumePop 0 0 with
    | none =>
      simp only [Logger.work, hq]
      exact (List.append_nil _).symm
    | some p =>
      simp only [Logger.work, hq, verdict_afterPop]
      exact (List.append_nil _).symm
  | draining =>
    simp only [Logger.work, verdict_afterLine]
    exact (List.append_nil _).symm
  | closing line rest =>
    cases r with
    | done =>
      simp only [Logger.work, verdict_afterLine, Array.size_push, List.replicate_succ', List.append_nil]
      simp [Logger.asks, Worker.verdict]
    | failed | panicked => simp [Logger.work, Logger.asks, Worker.verdict, Ending.result]
  | writing line => cases r <;> simp [Logger.work, Logger.asks, Worker.verdict, Ending.result, List.replicate_succ']
  | flushing => cases r <;> simp [Logger.work, Logger.asks, Worker.verdict, Ending.result]
  | failing | clearing | counting | ended => simp [Logger.work, Logger.asks, Worker.verdict, Ending.result]

theorem asks_of_ne_work (h : ∀ r, a ≠ .work r) (s : Logger) : s.asks a = none := by
  cases a with
  | work r => exact absurd rfl (h r)
  | _ => rfl

theorem Steps.answers_eq (h : Steps (.start capacity) past s) :
    answers (.start capacity) past = List.replicate s.stored.size .done ++ s.worker.verdict := by
  induction h with
  | refl => rfl
  | @step past s t a h ih =>
    rw [Log.answers, h.replay_eq, ih]
    by_cases ha : ∃ r, a = .work r
    · obtain ⟨r, rfl⟩ := ha
      exact (verdict_work r s).symm
    · have hne : ∀ r, a ≠ .work r := fun r hr => ha ⟨r, hr⟩
      obtain ⟨hw, -, hs⟩ := worker_step (s := s) hne
      rw [hw, hs, asks_of_ne_work hne]
      exact List.append_nil _

theorem asks_of_ended (hw : s.worker = .ended e) (a : Logger.Act) : s.asks a = none := by
  cases a with
  | work r => simp only [Logger.asks, hw]
  | _ => rfl

theorem Steps.answers_of_ended (h : Steps s more s') (hw : s.worker = .ended e) : Log.answers s more = [] := by
  induction h with
  | refl => rfl
  | step t a h ih => rw [Log.answers, h.replay_eq, ih, asks_of_ended (h.later.ended e hw).1]; rfl

/-! ## The call that waits for the worker -/

theorem Steps.held (h : Steps s mid s') (hj : Joined s) (hi : s.callers[i]? = some c) (hc : c.holds = true) :
    (∃ c', s'.callers[i]? = some c' ∧ c'.holds = true) ∨ s'.outcome.isSome = true := by
  induction h with
  | refl => exact .inl ⟨c, hi, hc⟩
  | @step mid s₁ t a h ih =>
    have hj₁ := h.joined hj
    rcases ih with ⟨c', hi', hc'⟩ | ho
    · by_cases ha : a = .advance i
      · subst ha
        obtain ⟨hhandle, hnone⟩ := hj₁.free hi' hc'
        -- what the call held is either still in its hand or recorded
        have hone := one_advance c' s₁ fun _ => hnone
        rw [handle_advance c' s₁ hhandle, hhandle, hc', hnone] at hone
        have hout : (s₁.step (.advance i)).outcome = (s₁.advance c').1.outcome := by
          simp only [Logger.step, Logger.advanceCaller, hi']
        rw [hout]
        by_cases hh : (s₁.advance c').2.holds = true
        · exact .inl ⟨_, callers_self hi', hh⟩
        · right
          rw [Bool.not_eq_true] at hh
          rw [hh] at hone
          simpa using hone
      · exact .inl ⟨c', callers_other ha hi', hc'⟩
    · obtain ⟨o, ho⟩ := Option.isSome_iff_exists.mp ho
      exact .inr (Option.isSome_of_eq_some (hj₁.outcome_step ho a))

/-! ## After the outcome is recorded -/

theorem submissions_append (more past : List Event) :
    submissions (more ++ past) = submissions more + submissions past := List.countP_append

theorem Logger.Emptied.submit (h : s.Emptied) (line : String) :
    s.submit line = ({ s with refusing := s.refusing + 1 }, false) := by
  rcases s.submit_cases line with he | ⟨hup, -⟩
  · exact he
  · cases h.down.symm.trans hup

theorem not_holds_of_outcome (h : Joined s) (ho : s.outcome.isSome = true) (hi : s.callers[j]? = some c) :
    c.holds = false := by
  rw [← Bool.not_eq_true]
  intro hh
  rw [(h.free hi hh).2] at ho
  cases ho

/-- The steps that a call has left when the handle is taken and nobody has it. -/
def Caller.ahead : Caller → Nat
  | .signalling => 3
  | .taking => 2
  | .reporting => 1
  | _ => 0

theorem ahead_advance (hh : s.handle = false) (hc : c.holds = false) : (s.advance c).2.ahead = c.ahead - 1 := by
  cases c with
  | signalling => rfl
  | taking => simp [Logger.advance, hh, Caller.ahead]
  | reporting => rfl
  | returned => rfl
  | joining | clearing | counting | recording => cases hc

theorem returned_of_ahead (hc : c.holds = false) (h : c.ahead = 0) : ∃ r, c = .returned r := by
  cases c with
  | returned r => exact ⟨r, rfl⟩
  | signalling | taking | reporting => cases h
  | joining | clearing | counting | recording => cases hc

theorem Joined.handle (h : Joined s) (ho : s.outcome.isSome = true) : s.handle = false := by
  have hone := h.one
  rw [ho, Bool.toNat_true] at hone
  rw [← Bool.toNat_eq_zero]
  omega

theorem Steps.ahead (h : Steps s more s') (hj : Joined s) (ho : s.outcome.isSome = true)
    (hi : s.callers[j]? = some c) :
    ∃ c', s'.callers[j]? = some c' ∧ c'.ahead ≤ c.ahead - more.countP fun e => e.act = .advance j := by
  induction h with
  | refl => exact ⟨c, hi, Nat.le_refl _⟩
  | @step more s₁ t a h ih =>
    obtain ⟨c', hi', hle⟩ := ih
    have hj₁ := h.joined hj
    have ho₁ : s₁.outcome.isSome = true := by
      obtain ⟨o, ho⟩ := Option.isSome_iff_exists.mp ho
      exact Option.isSome_of_eq_some (h.outcome hj ho)
    rw [List.countP_cons]
    by_cases ha : a = .advance j
    · subst ha
      refine ⟨_, callers_self hi', ?_⟩
      rw [ahead_advance (hj₁.handle ho₁) (not_holds_of_outcome hj₁ ho₁ hi')]
      simp only [decide_true, if_true]
      omega
    · refine ⟨c', callers_other ha hi', ?_⟩
      simpa [ha] using hle

theorem returned_back (h : (s.step a).callers[j]? = some (.returned r)) :
    s.callers[j]? = some (.returned r) ∨ a = .advance j ∧ s.callers[j]? = some .reporting ∧ r = s.report := by
  cases hj : s.callers[j]? with
  | some c =>
    by_cases ha : a = .advance j
    · subst ha
      rw [callers_self hj] at h
      cases c with
      | reporting =>
        cases h
        exact .inr ⟨rfl, rfl, rfl⟩
      | returned => exact .inl h
      | taking | joining =>
        simp only [Logger.advance] at h
        split at h <;> cases h
      | signalling | clearing | counting | recording => cases h
    · exact .inl ((callers_other ha hj).symm.trans h)
  | none =>
    exfalso
    have hge : s.callers.size ≤ j := Array.getElem?_eq_none_iff.mp hj
    by_cases ha : ∃ k, a = .advance k
    · obtain ⟨k, rfl⟩ := ha
      simp only [Logger.step, Logger.advanceCaller] at h
      split at h
      · rw [Logger.callers_advance, Array.getElem?_eq_none (by simpa using hge)] at h
        cases h
      · rw [hj] at h
        cases h
    · rcases (aside_step (fun k hk => ha ⟨k, hk⟩) s).callers with he | he <;> rw [he] at h
      · rw [hj] at h
        cases h
      · rw [Array.getElem?_push] at h
        split at h
        · cases h
        · rw [hj] at h
          cases h

def Reported (j : Nat) (s : Logger) (more : List Event) (s' s₁ : Logger) : Prop :=
  ∃ later t earlier, more = later ++ ⟨t, .advance j, false, 0⟩ :: earlier ∧ Steps s earlier s₁ ∧
    s₁.callers[j]? = some .reporting ∧ Steps (s₁.advanceCaller j) later s'

theorem Steps.reported (h : Steps s more s') (hr : s'.callers[j]? = some (.returned r)) :
    s.callers[j]? = some (.returned r) ∨ ∃ s₁, Reported j s more s' s₁ ∧ r = s₁.report := by
  induction h with
  | refl => exact .inl hr
  | @step more s₁ t a h ih =>
    rcases returned_back hr with hold | ⟨rfl, hrep, rfl⟩
    · rcases ih hold with hfirst | ⟨s₂, ⟨later, t', earlier, rfl, h₂, hrep, hlater⟩, hr⟩
      · exact .inl hfirst
      · exact .inr ⟨s₂, ⟨_ :: later, t', earlier, rfl, h₂, hrep, hlater.step t a⟩, hr⟩
    · right
      have hloss : s₁.loses (.advance j) = 0 := by simp only [Logger.loses, hrep]
      rw [hloss]
      exact ⟨s₁, ⟨[], t, more, rfl, h, hrep, .refl⟩, rfl⟩

/-! ## Nothing changes but the count -/

/-- How things stand in `s'`, after `more`, when call `i` has told in `s` how the worker ended. -/
structure Final (e : Ending) (i : Nat) (s : Logger) (more : List Event) (s' : Logger) : Prop where
  worker : s'.worker = .ended e
  sink : answers (s.advanceCaller i) more = []
  stored : s'.stored = s.stored
  pending : s'.pending = 0
  log : ∀ line, (s'.submit line).2 = false ∧
    (s'.submit line).1.countRefused = { s' with dropped := s'.dropped + 1 }
  /-- Each line submitted since is counted as dropped, or its call has not counted it yet. -/
  dropped : s'.dropped + s'.refusing = s.dropped + s.refusing + submissions more
  first : s'.returned? i = some (e.answer s.stored.size s.dropped)
  /-- A call that has returned since has told the same, with the count as it was then. -/
  told : ∀ j r, s'.returned? j = some r → (s.advanceCaller i).returned? j = some r ∨
    ∃ s₁, Reported j (s.advanceCaller i) more s' s₁ ∧ r = e.answer s.stored.size s₁.dropped
  returns : ∀ j, j < s'.callers.size → ∀ since s'', Steps s' since s'' →
    (3 ≤ since.countP fun e => e.act = .advance j) → ∃ r, s''.returned? j = some r

theorem Steps.returns (h : Steps s more s') (hj : Joined s) (ho : s.outcome.isSome = true) (hi : j < s.callers.size)
    (hn : 3 ≤ more.countP fun e => e.act = .advance j) : ∃ r, s'.returned? j = some r := by
  obtain ⟨c, hc, hle⟩ := h.ahead hj ho (Array.getElem?_eq_getElem hi)
  have hthree : s.callers[j].ahead ≤ 3 := by
    cases s.callers[j] <;> simp [Caller.ahead]
  obtain ⟨o, ho⟩ := Option.isSome_iff_exists.mp ho
  have hholds := not_holds_of_outcome (h.joined hj) (Option.isSome_of_eq_some (h.outcome hj ho)) hc
  obtain ⟨r, rfl⟩ := returned_of_ahead hholds (by omega)
  exact ⟨r, Logger.returned?_eq_some.mpr hc⟩

theorem Steps.report_eq (h : Steps s more s') (hj : Joined s) (he : s.worker = .ended e)
    (ho : s.outcome = some (e.outcome s.written)) : s'.report = e.answer s.written s'.dropped := by
  have hout := h.outcome hj ho
  obtain ⟨-, hn, -⟩ := h.later.ended e he
  rw [← hn] at hout ⊢
  exact report_of_outcome hout

theorem Steps.final (h : Steps (.start capacity) past s) (he : s.worker = .ended e)
    (ho : s.outcome = some (e.outcome s.written)) (hr : s.callers[i]? = some .reporting)
    (hm : Steps (s.advanceCaller i) more s') : Final e i s more s' := by
  have hj := h.joined (joined_start capacity)
  have hn : s.written = s.stored.size := h.balanced.written
  have hnow : Steps s [_] (s.advanceCaller i) := .step 0 (.advance i) .refl
  obtain ⟨he', hn', -⟩ := hnow.later.ended e he
  have ho' : (s.advanceCaller i).outcome = some (e.outcome (s.advanceCaller i).written) := by
    rw [hn']
    exact hj.outcome_step ho (.advance i)
  have hj' := hnow.joined hj
  have hall := (h.trans hnow).trans hm
  obtain ⟨hw, -, hs⟩ := (hnow.later.trans hm.later).ended e he
  have hout : s'.outcome.isSome = true := Option.isSome_of_eq_some (hm.outcome hj' ho')
  obtain ⟨hpending, hcount⟩ := hall.submissions_of_outcome hout
  have hlog := (hall.cleared.outcome hout).submit
  constructor
  · exact hw
  · exact hm.answers_of_ended he'
  · exact hs
  · exact hpending
  · intro line
    rw [hlog line]
    refine ⟨rfl, ?_⟩
    simp [Logger.countRefused]
  · obtain ⟨-, hbefore⟩ := h.submissions_of_outcome (Option.isSome_of_eq_some ho)
    have hone : submissions [⟨0, .advance i, s.accepts (.advance i), s.loses (.advance i)⟩] = 0 := rfl
    rw [submissions_append, submissions_append, hone, hs, hw] at hcount
    rw [he] at hbefore
    omega
  · have hfirst : (s.advanceCaller i).callers[i]? = some (.returned (e.answer s.stored.size s.dropped)) := by
      rw [← hn, ← report_of_outcome ho]
      exact callers_self hr
    exact Logger.returned?_eq_some.mpr (hm.returned hfirst)
  · intro j r hjr
    rcases hm.reported (Logger.returned?_eq_some.mp hjr) with hold | ⟨s₁, hrep, rfl⟩
    · exact .inl (Logger.returned?_eq_some.mpr hold)
    · obtain ⟨-, -, earlier, -, h₁, -⟩ := id hrep
      refine .inr ⟨s₁, hrep, ?_⟩
      rw [h₁.report_eq hj' he' ho', hn', hn]
  · intro j hlt since s'' hsince hcalls
    exact hsince.returns (hm.joined hj') hout hlt hcalls

/-- Once the call that waited for the worker has returned, its answer stands: it names the
answer of the sink that ended the worker, and all that may change is the count of dropped lines. -/
theorem outcome_is_final (h : Steps (.start capacity) past s₀) (hi : s₀.callers[i]? = some .joining)
    (hm : Steps s₀ mid s) (hr : s.callers[i]? = some .reporting) :
    ∃ e, s.worker = .ended e ∧
      answers (.start capacity) (mid ++ past) = List.replicate s.stored.size .done ++ [e.result] ∧
      ∀ more s', Steps (s.advanceCaller i) more s' → Final e i s more s' := by
  have hall := h.trans hm
  have hj := hall.joined (joined_start capacity)
  have hout : s.outcome.isSome = true := by
    rcases hm.held (h.joined (joined_start capacity)) hi rfl with ⟨c, hc, hh⟩ | ho
    · cases hr.symm.trans hc
      cases hh
    · exact ho
  obtain ⟨o, ho⟩ := Option.isSome_iff_exists.mp hout
  obtain ⟨e, he, rfl⟩ := hj.outcome o ho
  refine ⟨e, he, ?_, fun more s' => hall.final he ho hr⟩
  rw [hall.answers_eq, he]
  rfl

end

/-- A line that comes after the return of the first call is counted, and then another call
reports: the same failure of the flush as the first one, or one dropped line more. -/
theorem outcome_is_final_late :
    (∃ past s₀ mid s more s', Steps (.start 1) past s₀ ∧ s₀.callers[0]? = some .joining ∧ Steps s₀ mid s ∧
      s.callers[0]? = some .reporting ∧ answers (.start 1) (mid ++ past) = [.done, .failed diskFull] ∧
      Steps (s.advanceCaller 0) more s' ∧ submissions more = 1 ∧ s'.dropped = 1 ∧
      s'.returned? 0 = some (.error (.sink diskFull)) ∧ s'.returned? 1 = some (.error (.sink diskFull))) ∧
    ∃ past s₀ mid s more s', Steps (.start 1) past s₀ ∧ s₀.callers[0]? = some .joining ∧ Steps s₀ mid s ∧
      s.callers[0]? = some .reporting ∧ answers (.start 1) (mid ++ past) = [.done, .done] ∧
      Steps (s.advanceCaller 0) more s' ∧ submissions more = 1 ∧ s'.dropped = 1 ∧
      s'.returned? 0 = some (.ok ⟨1, 0⟩) ∧ s'.returned? 1 = some (.ok ⟨1, 1⟩) := by
  have busy : Steps (.start 1) _ _ := .step 0 (.work .done) (.step 1 (.submit "a") .refl)
  have joins := ((busy.step 2 .call).step 2 (.advance 0)).step 2 (.advance 0)
  have wrote (s : Logger) : Steps s _ _ :=
    .step 0 (.work .done) (.step 0 (.work .done) (.step 0 (.work .done) .refl))
  have late (s : Logger) : Steps s _ _ :=
    .step 3 (.advance 1) (.step 3 (.advance 1) (.step 3 (.advance 1) (.step 3 .call
      (.step 1 .countRefused (.step 1 (.submit "b") .refl)))))
  constructor
  · have failed (s : Logger) : Steps s _ _ :=
      (((wrote s).step 0 (.work (.failed diskFull))).step 0 (.work .done)).step 0 (.work .done)
    have run (s : Logger) : Steps s _ _ :=
      (((failed s).step 0 (.work .done)).step 2 (.advance 0)).step 2 (.advance 0)
    obtain ⟨e, he, hanswers, final⟩ := outcome_is_final (i := 0) joins rfl (run _) rfl
    cases (show Worker.ended (.failed diskFull) = .ended e from he)
    have hfinal := final _ _ (late _)
    exact ⟨_, _, _, _, _, _, joins, rfl, run _, rfl, hanswers, late _, rfl, hfinal.dropped, hfinal.first, rfl⟩
  · have run (s : Logger) : Steps s _ _ :=
      (((wrote s).step 0 (.work .done)).step 2 (.advance 0)).step 2 (.advance 0)
    obtain ⟨e, he, hanswers, final⟩ := outcome_is_final (i := 0) joins rfl (run _) rfl
    cases (show Worker.ended .finished = .ended e from he)
    have hfinal := final _ _ (late _)
    exact ⟨_, _, _, _, _, _, joins, rfl, run _, rfl, hanswers, late _, rfl, hfinal.dropped, hfinal.first, rfl⟩

end Conduit.Log
