import Conduit.Proofs.Log.Finality

/-!
# The call that waited for the worker

One shutdown call takes the worker's handle. From then on that call waits, or reports the
outcome that it has recorded, or has told how the worker ended. Nobody returns before the handle
is taken.
-/

namespace Conduit.Log

def Caller.Waits (s : Logger) : Caller → Prop
  | .joining | .clearing | .counting _ | .recording _ => True
  | .reporting => s.outcome.isSome = true
  | .returned r => ∃ e dropped, s.worker = .ended e ∧ r = e.answer s.written dropped
  | .signalling | .taking => False

/-- Once the handle is taken there is a call that waits for the worker, or has told its end. -/
def Waited (s : Logger) : Prop := s.handle = false → ∃ (i : Nat) (c : Caller), s.callers[i]? = some c ∧ c.Waits s

section
variable {s s' : Logger} {c : Caller} {capacity i : Nat} {past : List Event} {r : Except Failure Stats}

theorem Later.waits (h : Later s s') (ho : s.outcome.isSome = true → s'.outcome.isSome = true) (hc : c.Waits s) :
    c.Waits s' := by
  cases c with
  | joining | clearing | counting | recording => trivial
  | reporting => exact ho hc
  | returned r =>
    obtain ⟨e, dropped, he, hr⟩ := hc
    obtain ⟨hw, hn, -⟩ := h.ended e he
    exact ⟨e, dropped, hw, hn.symm ▸ hr⟩
  | signalling | taking => exact hc

theorem outcome_isSome_step (hj : Joined s) (a : Logger.Act) (ho : s.outcome.isSome = true) :
    (s.step a).outcome.isSome = true := by
  obtain ⟨o, ho⟩ := Option.isSome_iff_exists.mp ho
  exact Option.isSome_of_eq_some (hj.outcome_step ho a)

theorem waits_advance (hj : Joined s) (hi : s.callers[i]? = some c) (hc : c.Waits s) :
    (s.advance c).2.Waits (s.step (.advance i)) := by
  have hlater := later_step (.advance i) s
  cases c with
  | joining =>
    simp only [Logger.advance]
    split <;> trivial
  | clearing | counting => trivial
  | recording o =>
    show (s.step (.advance i)).outcome.isSome = true
    simp only [Logger.step, Logger.advanceCaller, hi, Logger.advance, Option.isSome_some]
  | reporting =>
    obtain ⟨o, ho⟩ := Option.isSome_iff_exists.mp hc
    obtain ⟨e, he, rfl⟩ := hj.outcome o ho
    obtain ⟨hw, hn, -⟩ := hlater.ended e he
    exact ⟨e, s.dropped, hw, by rw [hn]; exact report_of_outcome ho⟩
  | returned r => exact hlater.waits (outcome_isSome_step hj _) hc
  | signalling | taking => exact hc.elim

theorem eq_taking (h : s.handle = true) (h' : (s.advance c).1.handle = false) : c = .taking := by
  cases c with
  | taking => rfl
  | joining =>
    simp only [Logger.advance] at h'
    split at h' <;> cases h.symm.trans h'
  | signalling | clearing | counting | recording | reporting | returned => cases h.symm.trans h'

theorem Waited.step (h : Waited s) (hj : Joined s) (a : Logger.Act) : Waited (s.step a) := by
  intro hhandle
  cases htaken : s.handle with
  | false =>
    obtain ⟨i, c, hi, hc⟩ := h htaken
    by_cases ha : a = .advance i
    · subst ha
      exact ⟨i, _, callers_self hi, waits_advance hj hi hc⟩
    · exact ⟨i, c, callers_other ha hi, (later_step a s).waits (outcome_isSome_step hj a) hc⟩
  | true =>
    by_cases ha : ∃ j, a = .advance j
    · obtain ⟨j, rfl⟩ := ha
      simp only [Logger.step, Logger.advanceCaller] at hhandle
      split at hhandle
      · next c hc =>
        obtain rfl := eq_taking htaken hhandle
        refine ⟨j, _, callers_self hc, ?_⟩
        rw [Logger.advance, if_pos htaken]
        trivial
      · cases htaken.symm.trans hhandle
    · rw [(aside_step (fun j hj => ha ⟨j, hj⟩) s).handle, htaken] at hhandle
      cases hhandle

theorem Steps.waited (h : Steps (.start capacity) past s) : Waited s := by
  induction h with
  | refl => exact nofun
  | step t a h ih => exact ih.step (h.joined (joined_start capacity)) a

theorem Steps.handle_of_returned (h : Steps (.start capacity) past s)
    (hi : s.callers[i]? = some (.returned r)) : s.handle = false := by
  obtain hstart | ⟨s₁, ⟨later, t, earlier, -, h₁, hreporting, hlater⟩, -⟩ := h.reported hi
  · simp [Logger.start] at hstart
  · have htaken : s₁.handle = false :=
      (h₁.joined (joined_start capacity)).callers _ (Array.mem_of_getElem? hreporting)
    exact hlater.later.handle ((later_step (.advance i) s₁).handle htaken)

end

end Conduit.Log
