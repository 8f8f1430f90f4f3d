import Conduit.Pipeline.Channel

/-!
# What a pipeline relies on

To a pipeline a channel is one list of values, oldest first. A push adds its
value at the end in one of its steps, a pop takes the oldest in its last one,
and no thread's step touches another thread's call. That is all that is used of
the two channels later.
-/

namespace Conduit.Pipeline

class Contents (σ : Type) where
  contents : σ → List Int64

open Contents (contents)

/-- A thread's call, as far as it concerns the values inside. -/
inductive Call
  | idle
  | offering (v : Int64)
  | offered
  | seeking

/-- What a step does to the call it belongs to and to the values inside. -/
inductive Moved : Call → List Int64 → Progress → Call → List Int64 → Prop
  | wait {c : Call} {vs : List Int64} : c ≠ .idle → Moved c vs .underWay c vs
  | put {v : Int64} {vs : List Int64} : Moved (.offering v) vs .underWay .offered (vs ++ [v])
  | accepted {v : Int64} {vs : List Int64} : Moved (.offering v) vs .accepted .idle (vs ++ [v])
  | returned {vs : List Int64} : Moved .offered vs .accepted .idle vs
  | value {v : Int64} {vs : List Int64} : Moved .seeking (v :: vs) (.value v) .idle vs
  | nothing {vs : List Int64} : Moved .seeking vs .nothing .idle vs

section
variable {v : Int64} {vs vs' : List Int64} {a : Progress} {c : Call}

theorem Moved.of_offering (h : Moved (.offering v) vs a c vs') :
    (a = .underWay ∧ c = .offering v ∧ vs' = vs) ∨ (a = .underWay ∧ c = .offered ∧ vs' = vs ++ [v]) ∨
      (a = .accepted ∧ c = .idle ∧ vs' = vs ++ [v]) := by
  cases h with
  | wait => exact .inl ⟨rfl, rfl, rfl⟩
  | put => exact .inr (.inl ⟨rfl, rfl, rfl⟩)
  | accepted => exact .inr (.inr ⟨rfl, rfl, rfl⟩)

theorem Moved.of_offered (h : Moved .offered vs a c vs') :
    vs' = vs ∧ (a = .underWay ∧ c = .offered ∨ a = .accepted ∧ c = .idle) := by
  cases h with
  | wait => exact ⟨rfl, .inl ⟨rfl, rfl⟩⟩
  | returned => exact ⟨rfl, .inr ⟨rfl, rfl⟩⟩

theorem Moved.of_seeking (h : Moved .seeking vs a c vs') :
    (a = .underWay ∧ c = .seeking ∧ vs' = vs) ∨ (∃ v, a = .value v ∧ c = .idle ∧ vs = v :: vs') ∨
      (a = .nothing ∧ c = .idle ∧ vs' = vs) := by
  cases h with
  | wait => exact .inl ⟨rfl, rfl, rfl⟩
  | value => exact .inr (.inl ⟨_, rfl, rfl, rfl⟩)
  | nothing => exact .inr (.inr ⟨rfl, rfl, rfl⟩)

end

/-- A step of thread `t`, in call `c` before, from `s` to what it gives. -/
structure Stepped {σ : Type} [Contents σ] (Valid : σ → Prop) (At : σ → Nat → Call → Prop) (t : Nat) (c : Call)
    (s : σ) (p : σ × Progress) : Prop where
  valid : Valid p.1
  moved : ∃ c', At p.1 t c' ∧ Moved c (contents s) p.2 c' (contents p.1)
  others : ∀ t' c', t' ≠ t → At s t' c' → At p.1 t' c'

/-- A channel that behaves as one list of values, whatever its threads do. -/
class Faithful (σ : Type) [Channel σ] [Contents σ] where
  /-- Holds of what so many threads can make of the channel. -/
  Valid : Nat → σ → Prop
  At : σ → Nat → Call → Prop
  push {n t : Nat} {s : σ} (pick : Nat) (v : Int64) : Valid n s → t < n → At s t .idle →
    Stepped (Valid n) At t (.offering v) s (Channel.push pick t v s)
  pop {n t : Nat} {s : σ} (pick : Nat) : Valid n s → t < n → At s t .idle →
    Stepped (Valid n) At t .seeking s (Channel.pop pick t s)
  goOn {n t : Nat} {s : σ} {c : Call} (pick : Nat) : Valid n s → At s t c → c ≠ .idle →
    Stepped (Valid n) At t c s (Channel.goOn pick t s)

section
variable {σ : Type} [Contents σ] {Valid : σ → Prop} {At : σ → Nat → Call → Prop} {t : Nat} {c : Call}
  {s s₁ : σ} {p : σ × Progress}

theorem Stepped.from (h : Stepped Valid At t c s₁ p) (hv : contents s = contents s₁)
    (ho : ∀ t' c', t' ≠ t → At s t' c' → At s₁ t' c') : Stepped Valid At t c s p := by
  refine ⟨h.valid, ?_, fun t' c' hne ha => h.others t' c' hne (ho t' c' hne ha)⟩
  rw [hv]
  exact h.moved

theorem stepped_of_wait (hs : Valid s) (ha : At s t c) (hc : c ≠ .idle) : Stepped Valid At t c s (s, .underWay) :=
  ⟨hs, ⟨c, ha, .wait hc⟩, fun _ _ _ h => h⟩

end

end Conduit.Pipeline
