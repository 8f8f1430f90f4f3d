import Conduit.Pipeline.Run
import Conduit.Proofs.Pipeline.Handover
import Conduit.Proofs.Pipeline.Stuck

/-!
# Runs to their last line

The threads make their steps in any order while one more thread joins them. What it holds has come
from threads that have ended, and does not change any more. So it logs its line when all of them
have ended, behind everything that they have logged (`Crew.Lawful.of_ends`), and it gets there
once they have (`Crew.Lawful.ends`).
-/

namespace Conduit.Pipeline

namespace Crew

section
variable {ρ ε : Type} {C : Crew ρ ε} {w w' : Whole ρ} {past : List (Move ε)} {r r' : ρ} {report : Report}
  {shares shares' : List (List Int64)} {log : List String}

inductive Steps (C : Crew ρ ε) (w : Whole ρ) : List (Move ε) → Whole ρ → Prop
  | refl : Steps C w [] w
  | step {past : List (Move ε)} {w₁ : Whole ρ} (m : Move ε) : Steps C w past w₁ → Steps C w (m :: past) (C.step m w₁)

/-- Some run of the threads ends with a report and a log. -/
def Ends (C : Crew ρ ε) (r : ρ) (report : Report) (log : List String) : Prop :=
  ∃ past w, C.Steps { crew := r } past w ∧ w.joiner = .ended report ∧ w.log = log

/-- A thread that has ended stays so, with what it hands over. When all have, nothing changes. -/
structure Lawful (C : Crew ρ ε) : Prop where
  kept : ∀ (e : ε) (r : ρ) (i : Nat) (share : List Int64), (C.handles r)[i]? = some (some share) →
    (C.handles (C.next e r))[i]? = some (some share)
  rests : ∀ (e : ε) (r : ρ) (shares : List (List Int64)), C.handles r = shares.map some → C.next e r = r
  grows : ∀ (e : ε) (r : ρ), C.lines r <+: C.lines (C.next e r)

inductive Kept (C : Crew ρ ε) : Whole ρ → Prop
  | joining {r : ρ} {shares : List (List Int64)} : shares.map some <+: C.handles r →
      Kept C ⟨r, .joining shares, C.lines r⟩
  | summing {r : ρ} {shares : List (List Int64)} : C.handles r = shares.map some →
      Kept C ⟨r, .summing (C.report shares), C.lines r⟩
  | ended {r : ρ} {shares : List (List Int64)} (t : Text.Nanos) : C.handles r = shares.map some →
      Kept C ⟨r, .ended (C.report shares), C.lines r ++ [C.summary (C.report shares) t]⟩

theorem Lawful.handed (hC : C.Lawful) (h : shares.map some <+: C.handles r) (e : ε) :
    shares.map some <+: C.handles (C.next e r) := by
  rw [List.prefix_iff_getElem?] at h ⊢
  intro i hi
  rw [List.getElem_map]
  exact hC.kept e r i _ (List.getElem_map some ▸ h i hi)

theorem stepCrew_eq (hC : C.Lawful) (r : ρ) (joiner : Joiner) (e : ε) :
    C.stepCrew e ⟨r, joiner, C.lines r⟩ = ⟨C.next e r, joiner, C.lines (C.next e r)⟩ := by
  obtain ⟨l, hl⟩ := hC.grows e r
  simp only [stepCrew, ← hl, List.drop_left]

theorem stepCrew_of_rest {e : ε} (h : C.next e w.crew = w.crew) : C.stepCrew e w = w := by
  simp [stepCrew, h]

theorem Kept.stepCrew (hC : C.Lawful) (h : C.Kept w) (e : ε) : C.Kept (C.stepCrew e w) := by
  cases h with
  | joining hshares =>
    rw [stepCrew_eq hC]
    exact .joining (hC.handed hshares e)
  | summing hall =>
    rw [stepCrew_of_rest (hC.rests e _ _ hall)]
    exact .summing hall
  | ended t hall =>
    rw [stepCrew_of_rest (hC.rests e _ _ hall)]
    exact .ended t hall

theorem Kept.stepJoiner (h : C.Kept w) (t : Text.Nanos) : C.Kept (C.stepJoiner t w) := by
  cases h with
  | @joining r shares hshares =>
    obtain ⟨rest, hrest⟩ := hshares
    have hnext : (C.handles r)[shares.length]? = rest.head? := by
      rw [← hrest, List.getElem?_append_right (by simp)]
      simp [List.head?_eq_getElem?]
    simp only [Crew.stepJoiner, hnext]
    rcases rest with _ | ⟨_ | share, rest⟩
    · exact .summing (by rw [← hrest, List.append_nil])
    · exact .joining ⟨_, hrest⟩
    · exact .joining ⟨rest, by rw [← hrest]; simp⟩
  | summing hall => exact .ended t hall
  | ended t hall => exact .ended t hall

theorem Steps.kept (hC : C.Lawful) (h : C.Steps w past w') (hk : C.Kept w) : C.Kept w' := by
  induction h with
  | refl => exact hk
  | step m _ ih =>
    cases m with
    | crew e => exact ih.stepCrew hC e
    | joiner t => exact ih.stepJoiner t

theorem Steps.crew {P : ρ → Prop} (hP : ∀ e r, P r → P (C.next e r)) (h : C.Steps w past w') (hw : P w.crew) :
    P w'.crew := by
  induction h with
  | refl => exact hw
  | @step past w₁ m _ ih =>
    cases m with
    | crew e => exact hP e _ ih
    | joiner t =>
      have hsame : (C.stepJoiner t w₁).crew = w₁.crew := by
        unfold Crew.stepJoiner
        split
        · split <;> rfl
        · rfl
        · rfl
      show P (C.stepJoiner t w₁).crew
      rw [hsame]
      exact ih

theorem Lawful.of_ends {P : ρ → Prop} (hC : C.Lawful) (hP : ∀ e r, P r → P (C.next e r)) (hr : P r)
    (hlines : C.lines r = []) (h : C.Ends r report log) : ∃ r' shares t, P r' ∧ C.handles r' = shares.map some ∧
      report = C.report shares ∧ log = C.lines r' ++ [C.summary report t] := by
  obtain ⟨past, w, hsteps, hended, rfl⟩ := h
  have hstart : C.Kept { crew := r } := by
    have hjoining : C.Kept ⟨r, .joining [], C.lines r⟩ := .joining List.nil_prefix
    rw [hlines] at hjoining
    exact hjoining
  have hcrew := hsteps.crew hP hr
  cases hsteps.kept hC hstart with
  | joining => cases hended
  | summing => cases hended
  | ended t hall =>
    obtain rfl := Joiner.ended.inj hended
    exact ⟨_, _, t, hcrew, hall, rfl, rfl⟩

/-! ### Joining threads that have ended -/

theorem join_eq (h : C.handles r = (shares ++ shares').map some) (log : List String) :
    C.join (shares'.length + 1) ⟨r, .joining shares, log⟩ = ⟨r, .summing (C.report (shares ++ shares')), log⟩ := by
  induction shares' generalizing shares with
  | nil =>
    rw [List.append_nil] at h ⊢
    simp [join, Crew.stepJoiner, h]
  | cons share shares' ih =>
    have hstep : C.stepJoiner 0 ⟨r, .joining shares, log⟩ = ⟨r, .joining (shares ++ [share]), log⟩ := by
      simp [Crew.stepJoiner, h]
    rw [List.length_cons, join, hstep, ih (by simpa using h), List.append_assoc, List.singleton_append]

theorem join_all (h : C.handles r = shares.map some) (log : List String) :
    C.join (shares.length + 1) ⟨r, .joining [], log⟩ = ⟨r, .summing (C.report shares), log⟩ :=
  join_eq (show C.handles r = ([] ++ shares).map some from h) log

theorem finish?_eq (h : C.handles r = shares.map some) : C.finish? r = some ⟨C.report shares, C.lines r⟩ := by
  have hlength : (C.handles r).length = shares.length := by rw [h, List.length_map]
  rw [finish?, hlength, join_all h]

theorem Steps.join (h : C.Steps w past w') (n : Nat) : ∃ past', C.Steps w past' (C.join n w') := by
  induction n generalizing past w' with
  | zero => exact ⟨past, h⟩
  | succ n ih => exact ih (h.step (.joiner 0))

/-- Once all threads have ended, the joining thread comes to its end by itself. -/
theorem Steps.ends (h : C.Steps { crew := r } past ⟨r', .joining [], C.lines r'⟩)
    (hall : C.handles r' = shares.map some) (t : Text.Nanos) :
    C.Ends r (C.report shares) (C.lines r' ++ [C.summary (C.report shares) t]) := by
  obtain ⟨past', hsteps⟩ := h.join (shares.length + 1)
  rw [join_all hall] at hsteps
  exact ⟨_, _, hsteps.step (.joiner t), rfl, rfl⟩

end

end Crew

theorem Report.ofShares_congr {queue : String} {expected : Nat} {shares shares' : List (List Int64)}
    (h : shares.flatten = shares'.flatten) : ofShares queue expected shares = ofShares queue expected shares' := by
  simp [ofShares, h]

/-! ## Races -/

namespace Race

section
variable {σ : Type} [Channel σ]

/-- What a step of a producer changes: nothing, or what belongs to that producer, which goes on. -/
theorem stepProducer_cases (o : Options) (pick p : Nat) (r : Race σ) : r.stepProducer o pick p = r ∨
    ∃ stage stage' channel active traces, r.producers[p]? = some stage ∧ stage ≠ .ended ∧
      r.traces.toList <+: traces.toList ∧ r.stepProducer o pick p =
        ⟨channel, r.producers.setIfInBounds p stage', r.consumers, active, r.shares, traces⟩ := by
  obtain ⟨channel, producers, consumers, active, shares, traces⟩ := r
  cases hp : producers[p]? with
  | none =>
    left
    simp only [stepProducer, hp]
  | some stage =>
    cases stage with
    | ended =>
      left
      simp only [stepProducer, hp]
    | next i =>
      right
      simp only [stepProducer, hp]
      split <;> exact ⟨_, _, _, _, _, rfl, by simp, List.prefix_rfl, rfl⟩
    | tracing i =>
      right
      simp only [stepProducer, hp]
      exact ⟨_, _, _, _, _, rfl, by simp, by simp, rfl⟩
    | closing left =>
      right
      cases left <;> simp only [stepProducer, hp] <;> exact ⟨_, _, _, _, _, rfl, by simp, List.prefix_rfl, rfl⟩
    | pushing | leaving | pushingToken =>
      right
      simp only [stepProducer, hp]
      exact ⟨_, _, _, _, _, rfl, by simp, List.prefix_rfl, rfl⟩

theorem stepConsumer_cases (o : Options) (pick c : Nat) (r : Race σ) : r.stepConsumer o pick c = r ∨
    ∃ stage stage' channel v traces, r.consumers[c]? = some stage ∧ stage ≠ .ended ∧
      r.traces.toList <+: traces.toList ∧ r.stepConsumer o pick c =
        ⟨channel, r.producers, r.consumers.setIfInBounds c stage', r.active, keep c v r.shares, traces⟩ := by
  obtain ⟨channel, producers, consumers, active, shares, traces⟩ := r
  cases hc : consumers[c]? with
  | none =>
    left
    simp only [stepConsumer, hc]
  | some stage =>
    cases stage with
    | ended =>
      left
      simp only [stepConsumer, hc]
    | asking | popping =>
      right
      simp only [stepConsumer, hc]
      exact ⟨_, _, _, _, _, rfl, by simp, List.prefix_rfl, rfl⟩
    | tracing v =>
      right
      simp only [stepConsumer, hc]
      exact ⟨_, _, _, _, _, rfl, by simp, by simp, rfl⟩

variable {r : Race σ} {p c : Nat} {shares : List (List Int64)}

theorem step_of_ended (o : Options) (pick : Nat) (t : Thread) (r : Race σ) :
    (∀ p : Nat, r.producers[p]? = some .ended → (r.step o pick t).producers[p]? = some .ended) ∧
    (∀ c : Nat, r.consumers[c]? = some .ended →
      (r.step o pick t).consumers[c]? = some .ended ∧ share c (r.step o pick t) = share c r) ∧
    r.traces.toList <+: (r.step o pick t).traces.toList := by
  cases t with
  | producer q =>
    have hstep : r.step o pick (.producer q) = r.stepProducer o pick q := rfl
    obtain h | ⟨stage, stage', channel, active, traces, hstage, hne, htraces, h⟩ := r.stepProducer_cases o pick q
    · rw [hstep, h]
      exact ⟨fun _ hp => hp, fun _ hc => ⟨hc, rfl⟩, List.prefix_rfl⟩
    · rw [hstep, h]
      refine ⟨fun p hp => ?_, fun _ hc => ⟨hc, rfl⟩, htraces⟩
      have hpq : q ≠ p := by
        rintro rfl
        exact hne (Option.some.inj (hstage.symm.trans hp))
      exact (Array.getElem?_setIfInBounds_ne hpq).trans hp
  | consumer d =>
    have hstep : r.step o pick (.consumer d) = r.stepConsumer o pick d := rfl
    obtain h | ⟨stage, stage', channel, v, traces, hstage, hne, htraces, h⟩ := r.stepConsumer_cases o pick d
    · rw [hstep, h]
      exact ⟨fun _ hp => hp, fun _ hc => ⟨hc, rfl⟩, List.prefix_rfl⟩
    · rw [hstep, h]
      refine ⟨fun _ hp => hp, fun c hc => ?_, htraces⟩
      have hcd : d ≠ c := by
        rintro rfl
        exact hne (Option.some.inj (hstage.symm.trans hc))
      refine ⟨(Array.getElem?_setIfInBounds_ne hcd).trans hc, ?_⟩
      rw [share, share, keep_of_ne v hcd]

theorem step_of_done (hd : r.isDone = true) (o : Options) (pick : Nat) (t : Thread) : r.step o pick t = r := by
  obtain ⟨hproducers, hconsumers⟩ := isDone_iff.mp hd
  cases t with
  | producer p =>
    obtain h | ⟨stage, _, _, _, _, hstage, hne, -⟩ := r.stepProducer_cases o pick p
    · exact h
    · exact absurd (hproducers stage (Array.mem_of_getElem? hstage)) hne
  | consumer c =>
    obtain h | ⟨stage, _, _, _, _, hstage, hne, -⟩ := r.stepConsumer_cases o pick c
    · exact h
    · exact absurd (hconsumers stage (Array.mem_of_getElem? hstage)) hne

/-! ### Handles -/

variable {k : Kind} {o : Options} {i : Nat} {handed : List Int64}

theorem handles_eq_some : ((crew k o).handles r)[i]? = some (some handed) ↔
    (r.producers[i]? = some .ended ∧ handed = []) ∨
      (r.producers.size ≤ i ∧ r.consumers[i - r.producers.size]? = some .ended ∧
        handed = share (i - r.producers.size) r) := by
  simp only [crew, List.getElem?_append, List.length_map, Array.length_toList]
  split
  · next hlt =>
    simp [hlt, Nat.not_le.mpr hlt, eq_comm]
  · next hge =>
    simp [Nat.not_lt.mp hge, List.getElem?_mapIdx, eq_comm]

def handedOver {σ : Type} (r : Race σ) : List (List Int64) :=
  r.producers.toList.map (fun _ => []) ++ (List.range r.consumers.size).map fun c => share c r

theorem handles_of_done (hd : r.isDone = true) : (crew k o).handles r = r.handedOver.map some := by
  obtain ⟨hproducers, hconsumers⟩ := isDone_iff.mp hd
  rw [handedOver, List.map_append, List.map_map, List.map_map]
  refine congrArg₂ (· ++ ·) (List.map_congr_left fun stage hstage => ?_) (List.ext_getElem (by simp) fun c hc _ => ?_)
  · rw [if_pos (hproducers stage (Array.mem_toList_iff.mp hstage))]
    rfl
  · have hlt : c < r.consumers.size := by simpa using hc
    have hended := hconsumers r.consumers[c] (Array.getElem_mem hlt)
    simp [hended]

theorem done_of_handles (h : (crew k o).handles r = shares.map some) : r.isDone = true := by
  have hsome : ∀ x ∈ (crew k o).handles r, x ≠ none := by
    rw [h]
    simp
  refine isDone_iff.mpr ⟨fun stage hstage => ?_, fun stage hstage => ?_⟩
  · by_contra hne
    refine hsome none (List.mem_append_left _ (List.mem_map.mpr ⟨stage, Array.mem_toList_iff.mpr hstage, ?_⟩)) rfl
    exact if_neg hne
  · by_contra hne
    obtain ⟨c, hc, rfl⟩ := Array.getElem_of_mem hstage
    refine hsome none (List.mem_append_right _ (List.mem_mapIdx.mpr ⟨c, by simpa using hc, ?_⟩)) rfl
    exact if_neg hne

theorem lawful_crew (k : Kind) (o : Options) : (crew k o : Crew (Race σ) (Nat × Thread)).Lawful where
  kept := by
    rintro ⟨pick, t⟩ r i handed h
    obtain ⟨hproducers, hconsumers, -⟩ := step_of_ended o pick t r
    have hsize : (r.step o pick t).producers.size = r.producers.size := (size_step o pick t r).1
    have hnext : (crew k o).next (pick, t) r = r.step o pick t := rfl
    rw [hnext, handles_eq_some, hsize]
    obtain ⟨hp, rfl⟩ | ⟨hle, hc, rfl⟩ := handles_eq_some.mp h
    · exact .inl ⟨hproducers i hp, rfl⟩
    · obtain ⟨hended, hshare⟩ := hconsumers _ hc
      exact .inr ⟨hle, hended, hshare.symm⟩
  rests e r shares h := step_of_done (done_of_handles h) o e.1 e.2
  grows e r := (step_of_ended o e.1 e.2 r).2.2.map Trace.message

end

/-! ### Runs -/

section
variable {σ : Type} [Channel σ] [Contents σ] {o : Options} {k : Kind} {past : List Event} {channel : σ} {r r' : Race σ}
  {report : Report} {log : List String}

/-- The steps of a race are steps of a whole run, in which nobody has been joined. -/
theorem Steps.whole (h : Steps o r past r') (hr : r.traces = #[]) (k : Kind) :
    ∃ past', (crew k o).Steps { crew := r } past' ⟨r', .joining [], (crew k o).lines r'⟩ := by
  induction h with
  | refl =>
    have hlines : (crew k o).lines r = [] := by simp [crew, hr]
    rw [hlines]
    exact ⟨_, .refl⟩
  | @step past r₁ pick t _ ih =>
    obtain ⟨past', hsteps⟩ := ih
    have hnext := hsteps.step (.crew (pick, t))
    have hcrew := Crew.stepCrew_eq (lawful_crew k o) r₁ (.joining []) (pick, t)
    rw [Crew.step, hcrew] at hnext
    exact ⟨_, hnext⟩

end

section
variable {σ : Type} [Channel σ] [Contents σ] [Faithful σ] {o : Options} {past : List Event} {channel : σ} {r : Race σ}
  {report : Report} {log : List String}

theorem Steps.report_crew (h : Steps o (start o channel) past r) (hfresh : Fresh o channel) (hf : o.Fits)
    (hp : 1 ≤ o.producers) (k : Kind) : (crew (σ := σ) k o).report r.handedOver = r.report k.name o := by
  obtain ⟨closer, m, hk⟩ := h.kept hfresh hf hp
  apply Report.ofShares_congr
  rw [handedOver, hk.flatten_shares, List.flatMap_def, hk.consumers_size, List.flatten_append]
  simp

theorem Steps.ends (h : Steps o (start o channel) past r) (hfresh : Fresh o channel) (hf : o.Fits)
    (hp : 1 ≤ o.producers) (hd : r.isDone = true) (k : Kind) (t : Text.Nanos) :
    (crew k o).Ends (start o channel) (r.report k.name o)
      (r.traces.toList.map Trace.message ++ [k.summary o (r.report k.name o) t]) := by
  obtain ⟨past', hsteps⟩ := h.whole rfl k
  have hends := hsteps.ends (handles_of_done hd) t
  rw [h.report_crew hfresh hf hp] at hends
  exact hends

theorem exists_done_of_ends {k : Kind} (hfresh : Fresh o channel) (hf : o.Fits) (hp : 1 ≤ o.producers)
    (h : (crew k o).Ends (start o channel) report log) : ∃ past r t, Steps o (start o channel) past r ∧
      r.isDone = true ∧ report = r.report k.name o ∧
      log = r.traces.toList.map Trace.message ++ [k.summary o report t] := by
  obtain ⟨r, shares, t, ⟨past, hsteps⟩, hall, hreport, hlog⟩ :=
    (lawful_crew k o).of_ends (P := fun r => ∃ past, Steps o (start o channel) past r)
      (fun e _ ⟨_, hsteps⟩ => ⟨_, hsteps.step e.1 e.2⟩) ⟨_, .refl⟩ rfl h
  have hd := done_of_handles hall
  have hshares := List.map_injective_iff.mpr (Option.some_injective _) (hall.symm.trans (handles_of_done hd))
  rw [hshares, hsteps.report_crew hfresh hf hp] at hreport
  exact ⟨past, r, t, hsteps, hd, hreport, hlog⟩

end

end Race

/-! ## Relays -/

namespace Relay

section
variable {o : Options} {past : List RelayThread} {r r' : Relay} {report : Report} {log : List String}

theorem stepSender_receiver (o : Options) (r : Relay) : (r.stepSender o).receiver = r.receiver := by
  obtain ⟨system, sender, receiver, popped, traces⟩ := r
  cases sender with
  | next i =>
    simp only [Relay.stepSender]
    split <;> rfl
  | again | pushing | tracing | ended => rfl

theorem stepSender_traces (o : Options) (r : Relay) : r.traces.toList <+: (r.stepSender o).traces.toList := by
  obtain ⟨system, sender, receiver, popped, traces⟩ := r
  cases sender with
  | next i =>
    simp only [Relay.stepSender]
    split <;> exact List.prefix_rfl
  | tracing i =>
    simp only [Relay.stepSender, Array.toList_push]
    exact List.prefix_append _ _
  | again | pushing | ended => exact List.prefix_rfl

theorem stepReceiver_traces (o : Options) (r : Relay) : (r.stepReceiver o).traces = r.traces := by
  obtain ⟨system, sender, receiver, popped, traces⟩ := r
  cases receiver with
  | asking =>
    simp only [Relay.stepReceiver]
    split <;> rfl
  | popping =>
    simp only [Relay.stepReceiver]
    split <;> rfl
  | ended => rfl

theorem stepReceiver_ended (he : r.receiver = .ended) : r.stepReceiver o = r := by
  obtain ⟨system, sender, receiver, popped, traces⟩ := r
  obtain rfl : receiver = .ended := he
  rfl

theorem handles_of_done (hd : r.isDone = true) : (crew o).handles r = [r.popped.toList, []].map some := by
  obtain ⟨hsender, hreceiver⟩ := isDone_iff.mp hd
  simp [crew, hsender, hreceiver]

theorem done_of_handles {shares : List (List Int64)} (h : (crew o).handles r = shares.map some) : r.isDone = true := by
  have hsome : ∀ x ∈ (crew o).handles r, x ≠ none := by
    rw [h]
    simp
  simp only [crew, List.forall_mem_cons] at hsome
  obtain ⟨hreceiver, hsender, -⟩ := hsome
  refine isDone_iff.mpr ⟨?_, ?_⟩
  · by_contra hne
    exact hsender (if_neg hne)
  · by_contra hne
    exact hreceiver (if_neg hne)

theorem lawful_crew (o : Options) : (crew o).Lawful where
  kept := by
    intro t r i handed h
    rcases i with _ | _ | i
    · have hended : r.receiver = .ended ∧ r.popped.toList = handed := by simpa [crew] using h
      obtain ⟨hreceiver, rfl⟩ := hended
      cases t with
      | sender =>
        have hpopped := (stepSender_frame o r).1
        simp [crew, Relay.step, stepSender_receiver, hpopped, hreceiver]
      | receiver => simp [crew, Relay.step, stepReceiver_ended hreceiver, hreceiver]
    · have hended : r.sender = .ended ∧ [] = handed := by simpa [crew] using h
      obtain ⟨hsender, rfl⟩ := hended
      cases t with
      | sender => simp [crew, Relay.step, stepSender_ended hsender, hsender]
      | receiver =>
        have hframe := (stepReceiver_frame o r).1
        simp [crew, Relay.step, hframe, hsender]
    · cases h
  rests := by
    intro t r shares h
    obtain ⟨hsender, hreceiver⟩ := isDone_iff.mp (done_of_handles h)
    cases t with
    | sender => exact stepSender_ended hsender
    | receiver => exact stepReceiver_ended hreceiver
  grows := by
    intro t r
    cases t with
    | sender => exact (stepSender_traces o r).map traceMessage
    | receiver =>
      have htraces := stepReceiver_traces o r
      simp [crew, Relay.step, htraces]

theorem Steps.whole (h : Steps o r past r') (hr : r.traces = #[]) :
    ∃ past', (crew o).Steps { crew := r } past' ⟨r', .joining [], (crew o).lines r'⟩ := by
  induction h with
  | refl =>
    have hlines : (crew o).lines r = [] := by simp [crew, hr]
    rw [hlines]
    exact ⟨_, .refl⟩
  | @step past r₁ t _ ih =>
    obtain ⟨past', hsteps⟩ := ih
    have hnext := hsteps.step (.crew t)
    have hcrew := Crew.stepCrew_eq (lawful_crew o) r₁ (.joining []) t
    rw [Crew.step, hcrew] at hnext
    exact ⟨_, hnext⟩

theorem report_crew (o : Options) (r : Relay) :
    (crew o).report [r.popped.toList, []] = r.report Kind.ring.name o := by
  simp [crew, Relay.report]

theorem traces_of_start? (h : start? o = some r) : r.traces = #[] := by
  obtain ⟨b, -, rfl⟩ := Option.map_eq_some_iff.mp h
  rfl

theorem Steps.ends (h : Steps o r past r') (hr : start? o = some r) (hd : r'.isDone = true) (t : Text.Nanos) :
    (crew o).Ends r (r'.report Kind.ring.name o)
      (r'.traces.toList.map traceMessage ++ [Kind.ring.summary o (r'.report Kind.ring.name o) t]) := by
  obtain ⟨past', hsteps⟩ := h.whole (traces_of_start? hr)
  have hends := hsteps.ends (handles_of_done hd) t
  rw [report_crew] at hends
  exact hends

theorem exists_done_of_ends (hr : start? o = some r) (h : (crew o).Ends r report log) :
    ∃ past r' t, Steps o r past r' ∧ r'.isDone = true ∧ report = r'.report Kind.ring.name o ∧
      log = r'.traces.toList.map traceMessage ++ [Kind.ring.summary o report t] := by
  have hlines : (crew o).lines r = [] := by simp [crew, traces_of_start? hr]
  obtain ⟨r', shares, t, ⟨past, hsteps⟩, hall, hreport, hlog⟩ :=
    (lawful_crew o).of_ends (P := fun r' => ∃ past, Steps o r past r')
      (fun t _ ⟨_, hsteps⟩ => ⟨_, hsteps.step t⟩) ⟨_, .refl⟩ hlines h
  have hd := done_of_handles hall
  have hshares := List.map_injective_iff.mpr (Option.some_injective _) (hall.symm.trans (handles_of_done hd))
  rw [hshares, report_crew] at hreport
  exact ⟨past, r', t, hsteps, hd, hreport, hlog⟩

end

end Relay

/-! ## Runs that take turns -/

/-- The whole runs of a pipeline that end with a report and a log. -/
def Kind.Ends (k : Kind) (o : Options) (report : Report) (log : List String) : Prop :=
  match k with
  | .bounded => (Race.crew .bounded o).Ends (.start o (.start { limit := o.capacity.toNat } : Blocking.System Int64))
      report log
  | .lockFree => (Race.crew .lockFree o).Ends
      (.start o (.start (o.producers.toNat + o.consumers.toNat) .new : Linked.System Int64)) report log
  | .ring => ∃ r, Relay.start? o = some r ∧ (Relay.crew o).Ends r report log

theorem Kind.finish?_of_begin? {k : Kind} {o : Options} {f : Finish} (h : k.begin? o = .ok f) :
    o.validate = .ok () ∧ k.finish? o = some f := by
  unfold begin? at h
  split at h
  · cases h
  · next hv =>
    split at h
    · next hf =>
      obtain rfl := Except.ok.inj h
      exact ⟨hv, hf⟩
    · cases h

/-- What a pipeline logs when its threads take turns is what one of its runs logs. -/
theorem Kind.ends_of_begin? {k : Kind} {o : Options} {f : Finish} (h : k.begin? o = .ok f) (hp : 1 ≤ o.producers)
    (t : Text.Nanos) : k.Ends o f.report (k.lines o f t) := by
  obtain ⟨hv, hfinish⟩ := finish?_of_begin? h
  obtain ⟨hcap, hf⟩ := Options.fits_of_validate hv
  cases k with
  | bounded =>
    obtain ⟨r, hrun, hr⟩ := Option.bind_eq_some_iff.mp hfinish
    obtain ⟨past, hsteps, hd⟩ := Race.steps_of_run hrun
    rw [Crew.finish?_eq (Race.handles_of_done hd), hsteps.report_crew (Race.fresh_bounded hcap) hf hp] at hr
    obtain rfl := Option.some.inj hr
    exact hsteps.ends (Race.fresh_bounded hcap) hf hp hd .bounded t
  | lockFree =>
    obtain ⟨r, hrun, hr⟩ := Option.bind_eq_some_iff.mp hfinish
    obtain ⟨past, hsteps, hd⟩ := Race.steps_of_run hrun
    rw [Crew.finish?_eq (Race.handles_of_done hd), hsteps.report_crew (Race.fresh_linked o) hf hp] at hr
    obtain rfl := Option.some.inj hr
    exact hsteps.ends (Race.fresh_linked o) hf hp hd .lockFree t
  | ring =>
    obtain ⟨r, hrun, hr⟩ := Option.bind_eq_some_iff.mp hfinish
    obtain ⟨r₀, past, hstart, hsteps, hd⟩ := Relay.steps_of_run hrun
    rw [Crew.finish?_eq (Relay.handles_of_done hd), Relay.report_crew] at hr
    obtain rfl := Option.some.inj hr
    exact ⟨r₀, hstart, hsteps.ends hstart hd t⟩

end Conduit.Pipeline
