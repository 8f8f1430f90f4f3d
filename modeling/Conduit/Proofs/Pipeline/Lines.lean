import Conduit.Proofs.Log.Accounts
import Conduit.Proofs.Pipeline.Joining
import Conduit.Proofs.Pipeline.Traces
import Mathlib

/-!
# What a run logs

A line says on which side a value was, with which thread, and which value it is, so there
are as many equal lines as equal traces. A run that has ended has logged one line on either
side for each value, or one for each value in order if it is a relay, and then one that
sums them up (`values_are_logged_once`).
-/

namespace Conduit.Pipeline

/-! ## What a line says -/

section
variable {n n' v : Nat} {s s' : String} {o : Options} {t : Text.Nanos}

theorem takeWhile_digits (n : Nat) (s : String) :
    (toString n ++ (" value " ++ s)).toList.takeWhile Char.isDigit = (toString n).toList := by
  rw [String.toList_append, String.toList_append, List.takeWhile_append_of_pos]
  · simp
  · intro c hc
    rw [show toString n = n.repr from rfl, Nat.toList_repr] at hc
    exact Nat.isDigit_of_mem_toDigits (by decide) (by decide) hc

theorem numbered_inj (h : toString n ++ (" value " ++ s) = toString n' ++ (" value " ++ s')) : n = n' ∧ s = s' := by
  have hn := congrArg (fun t => t.toList.takeWhile Char.isDigit) h
  simp only [takeWhile_digits] at hn
  obtain rfl : n = n' := Nat.repr_inj.mp (String.toList_inj.mp hn)
  rw [String.append_right_inj, String.append_right_inj] at h
  exact ⟨rfl, h⟩

theorem ne_of_head (h : s.toList.head? ≠ s'.toList.head?) : s ≠ s' := by
  rintro rfl
  exact h rfl

theorem toString_inj {v w : Int64} (h : toString v = toString w) : v = w :=
  Int64.toInt_inj.mp (Int.repr_inj.mp h)

theorem toString_ofNat (h : v < 2 ^ 63) : toString (Int64.ofNat v) = toString v := by
  show (Int64.ofNat v).toInt.repr = v.repr
  rw [Int64.toInt_ofNat_of_lt h]
  rfl

theorem Trace.message_injective : Function.Injective Trace.message := by
  intro x y h
  cases x with
  | produced p v =>
    cases y with
    | produced q w =>
      simp only [message, String.append_assoc, String.append_right_inj] at h
      obtain ⟨rfl, hv⟩ := numbered_inj h
      rw [toString_inj hv]
    | consumed q w =>
      refine absurd h (ne_of_head ?_)
      simp [message]
  | consumed c v =>
    cases y with
    | produced q w =>
      refine absurd h (ne_of_head ?_)
      simp [message]
    | consumed q w =>
      simp only [message, String.append_assoc, String.append_right_inj] at h
      obtain ⟨rfl, hv⟩ := numbered_inj h
      rw [toString_inj hv]

theorem summary_ne_message (k : Kind) (o : Options) (r : Report) (t : Text.Nanos) (x : Trace) :
    k.summary o r t ≠ x.message := by
  apply ne_of_head
  cases k <;> cases x <;> simp [Kind.summary, Kind.name, Trace.message]

end

/-! ## The lines of a race -/

/-- The lines of a run: one on either side for each value, and the summary behind them. -/
structure EachOnce (o : Options) (summary : String) (lines : List String) : Prop where
  total : lines.length = 2 * (o.producers.toNat * o.count.toNat) + 1
  produced : ∀ v < o.producers.toNat * o.count.toNat, ∀ p : Nat,
    lines.count ("producer " ++ toString p ++ " value " ++ toString v) = if p = v / o.count.toNat then 1 else 0
  consumed : ∀ v < o.producers.toNat * o.count.toNat, ∃ c < o.consumers.toNat, ∀ c' : Nat,
    lines.count ("consumer " ++ toString c' ++ " value " ++ toString v) = if c' = c then 1 else 0
  last : ∃ earlier, lines = earlier ++ [summary] ∧ summary ∉ earlier
  /-- A logger that was given these lines, and no others, has written or dropped so many. -/
  accounted : ∀ c log s, Log.Received c lines log s →
    s.written + s.dropped = 2 * (o.producers.toNat * o.count.toNat) + 1

namespace Race

section
variable {σ : Type} {o : Options} {v : Nat}

theorem message_produced (h : v < 2 ^ 63) (p : Nat) :
    (Trace.produced p (.ofNat v)).message = "producer " ++ toString p ++ " value " ++ toString v := by
  rw [Trace.message, toString_ofNat h]

theorem message_consumed (h : v < 2 ^ 63) (c : Nat) :
    (Trace.consumed c (.ofNat v)).message = "consumer " ++ toString c ++ " value " ++ toString v := by
  rw [Trace.message, toString_ofNat h]

theorem count_line (k : Kind) (r : Race σ) (report : Report) (t : Text.Nanos) (x : Trace) :
    (r.traces.toList.map Trace.message ++ [k.summary o report t]).count x.message = r.traces.toList.count x := by
  rw [List.count_append, List.count_singleton]
  rw [if_neg (by simpa using (summary_ne_message k o _ t x)), Nat.add_zero]
  exact List.count_map_of_injective _ _ Trace.message_injective x

end

section
variable {σ : Type} [Channel σ] [Contents σ] [Faithful σ] {o : Options} {past : List Event} {r : Race σ}
  {channel : σ} {report : Report} {log : List String}

theorem Steps.each_once (h : Steps o (start o channel) past r) (hfresh : Fresh o channel) (hf : o.Fits)
    (hp : 1 ≤ o.producers) (hc : 1 ≤ o.consumers) (ht : o.traceValues = true) (hd : r.isDone = true) (k : Kind)
    (report : Report) (t : Text.Nanos) :
    EachOnce o (k.summary o report t) (r.traces.toList.map Trace.message ++ [k.summary o report t]) := by
  obtain ⟨closer, m, hk⟩ := h.kept hfresh hf hp
  have htraced := h.traced hfresh hf hp ht
  have hpos : 0 < o.consumers.toNat := UInt64.le_iff_toNat_le.mp hc
  obtain ⟨hproducers, hconsumers⟩ := isDone_iff.mp hd
  have htotal : (r.traces.toList.map Trace.message ++ [k.summary o report t]).length =
      2 * (o.producers.toNat * o.count.toNat) + 1 := by
    rw [List.length_append, List.length_map, Array.length_toList,
      htraced.size_traces hk hf hpos hproducers hconsumers]
    rfl
  refine ⟨htotal, ?_, ?_, ?_, fun c log s hlog => htotal ▸ hlog.total⟩
  · intro v hv p
    rw [← message_produced (Nat.lt_trans hv hf), count_line, htraced.count_produced hk hf hproducers hv]
  · intro v hv
    obtain ⟨c, hlt, hcount⟩ := htraced.count_consumed hk hf hpos hconsumers hv
    refine ⟨c, hlt, fun c' => ?_⟩
    rw [← message_consumed (Nat.lt_trans hv hf), count_line, hcount]
  · refine ⟨_, rfl, ?_⟩
    intro hmem
    obtain ⟨x, -, hx⟩ := List.mem_map.mp hmem
    exact summary_ne_message k o _ t x hx.symm

theorem each_once_of_ends {k : Kind} (h : (crew k o).Ends (start o channel) report log) (hfresh : Fresh o channel)
    (hf : o.Fits) (hp : 1 ≤ o.producers) (hc : 1 ≤ o.consumers) (ht : o.traceValues = true) :
    ∃ t, EachOnce o (k.summary o report t) log := by
  obtain ⟨past, r, t, hsteps, hd, -, rfl⟩ := exists_done_of_ends hfresh hf hp h
  exact ⟨t, hsteps.each_once hfresh hf hp hc ht hd k report t⟩

end

end Race

/-! ## The lines of a relay -/

namespace Relay

section
variable {o : Options} {log : List (Ring.Event Int64)} {past : List RelayThread} {r r₀ : Relay} {n : Nat}

def logged (o : Options) : Sender → Nat
  | .next i | .again i _ | .pushing i | .tracing i => i.toNatClampNeg
  | .ended => span o

def Traced (o : Options) (r : Relay) : Prop := r.traces.toList = numbers (logged o r.sender)

theorem logged_pushProgress (ht : o.traceValues = true) (i : Int64) (a : Option (Ring.Answer Int64)) :
    logged o (pushProgress o i a) = i.toNatClampNeg := by
  rcases a with _ | a
  · rfl
  · cases a with
    | accepted =>
      rw [pushProgress, afterValue, if_pos ht]
      rfl
    | _ => rfl

theorem Traced.stepSender (h : Traced o r) (hk : Kept o log r n) (ht : o.traceValues = true) :
    Traced o (r.stepSender o) := by
  have hn := Nat.lt_of_le_of_lt hk.sender.le_span (span_lt o)
  obtain ⟨⟨buffer, producer, consumer⟩, sender, receiver, popped, traces⟩ := r
  have hs : Sends o log sender producer n := hk.sender
  unfold Traced at h ⊢
  cases hs with
  | next hle =>
    have hlt := lt_bound_iff (o := o) hn
    simp only [Relay.stepSender]
    split
    · exact h
    · rename_i hlast
      obtain rfl : n = span o := Nat.le_antisymm hle (Nat.not_lt.mp fun hn => hlast (hlt.mpr hn))
      refine Eq.trans h ?_
      rw [logged, logged, Int64.toNatClampNeg_ofNat_of_lt hn]
  | again => exact h
  | pushing hn hp =>
    simp only [Relay.stepSender, logged_pushProgress ht]
    exact h
  | @tracing m hm =>
    have hlt := Nat.lt_trans hm (span_lt o)
    simp only [Relay.stepSender, ofNat_succ, Array.toList_push]
    rw [logged, Int64.toNatClampNeg_ofNat_of_lt hn, numbers_succ]
    refine congrArg (· ++ [Int64.ofNat m]) (Eq.trans h ?_)
    rw [logged, Int64.toNatClampNeg_ofNat_of_lt hlt]
  | ended => exact h

theorem Steps.traced (h : Steps o r₀ past r) (hk : Kept o log r₀ n) (ht : o.traceValues = true)
    (h₀ : Traced o r₀) : Traced o r := by
  induction h with
  | refl => exact h₀
  | @step past r₁ t h ih =>
    obtain ⟨log', n', hk'⟩ := h.kept hk
    cases t with
    | sender => exact ih.stepSender hk' ht
    | receiver =>
      show (r₁.stepReceiver o).traces.toList = numbers (logged o (r₁.stepReceiver o).sender)
      rw [stepReceiver_traces, (stepReceiver_frame o r₁).1]
      exact ih

theorem map_traceMessage {n : Nat} (h : n ≤ 2 ^ 63) :
    (numbers n).map traceMessage = (List.range n).map fun i => "producer value " ++ toString i := by
  rw [numbers, List.map_map]
  refine List.map_congr_left fun i hi => ?_
  rw [Function.comp_apply, traceMessage, toString_ofNat (Nat.lt_of_lt_of_le (List.mem_range.mp hi) h)]

theorem Steps.lines_eq (h : Steps o r₀ past r) (hv : o.validate = .ok ()) (hp : 1 ≤ o.producers)
    (ht : o.traceValues = true) (hstart : start? o = some r₀) (hd : r.isDone = true) :
    r.traces.toList.map traceMessage = (List.range o.count.toNat).map fun i => "producer value " ++ toString i := by
  obtain ⟨-, hfits⟩ := Options.fits_of_validate hv
  have hcount : o.count.toNat < 2 ^ 63 := by
    have hle := Nat.le_mul_of_pos_left o.count.toNat (UInt64.le_iff_toNat_le.mp hp)
    exact Nat.lt_of_le_of_lt hle hfits
  obtain ⟨r₁, hstart₁, hnext, -, hkept⟩ := exists_kept hv
  obtain rfl := Option.some.inj (hstart.symm.trans hstart₁)
  have h₀ : Traced o r₀ := by
    rw [Traced, traces_of_start? hstart, hnext]
    rfl
  have htraced := h.traced hkept ht h₀
  rw [Traced, (isDone_iff.mp hd).1, logged, span_eq hcount] at htraced
  rw [htraced, map_traceMessage (Nat.le_of_lt hcount)]

end

end Relay

/-! ## Once each -/

/-- A race that ends has logged each value once as produced, by the producer that its number
tells, and once as consumed; a relay has logged its values in order. The line that sums the run
up comes last, and a run whose threads have all ended comes to its own end. -/
theorem values_are_logged_once {o : Options} (hv : o.validate = .ok ()) (hp : 1 ≤ o.producers)
    (hc : 1 ≤ o.consumers) (ht : o.traceValues = true) :
    (∀ report log, Kind.bounded.Ends o report log → ∃ t, EachOnce o (Kind.bounded.summary o report t) log) ∧
    (∀ report log, Kind.lockFree.Ends o report log → ∃ t, EachOnce o (Kind.lockFree.summary o report t) log) ∧
    (∀ report log, Kind.ring.Ends o report log →
      (∃ t, log = (List.range o.count.toNat).map (fun i => "producer value " ++ toString i) ++
        [Kind.ring.summary o report t]) ∧
      ∀ c past s, Log.Received c log past s → s.written + s.dropped = o.count.toNat + 1) ∧
    (∀ past r, Race.Steps o (.start o (.start { limit := o.capacity.toNat } : Blocking.System Int64)) past r →
      r.isDone = true → ∀ t, Kind.bounded.Ends o (r.report Kind.bounded.name o)
        (r.traces.toList.map Trace.message ++ [Kind.bounded.summary o (r.report Kind.bounded.name o) t])) ∧
    (∀ past r, Race.Steps o
        (.start o (.start (o.producers.toNat + o.consumers.toNat) .new : Linked.System Int64)) past r →
      r.isDone = true → ∀ t, Kind.lockFree.Ends o (r.report Kind.lockFree.name o)
        (r.traces.toList.map Trace.message ++ [Kind.lockFree.summary o (r.report Kind.lockFree.name o) t])) ∧
    (∃ r₀, Relay.start? o = some r₀ ∧ ∀ past r, Relay.Steps o r₀ past r → r.isDone = true → ∀ t,
      Kind.ring.Ends o (r.report Kind.ring.name o)
        (r.traces.toList.map traceMessage ++ [Kind.ring.summary o (r.report Kind.ring.name o) t])) := by
  obtain ⟨hcap, hf⟩ := Options.fits_of_validate hv
  refine ⟨?_, ?_, ?_, ?_, ?_, ?_⟩
  · exact fun report log h => Race.each_once_of_ends h (Race.fresh_bounded hcap) hf hp hc ht
  · exact fun report log h => Race.each_once_of_ends h (Race.fresh_linked o) hf hp hc ht
  · rintro report log ⟨r₀, hstart, hends⟩
    obtain ⟨past, r, t, hsteps, hd, -, rfl⟩ := Relay.exists_done_of_ends hstart hends
    rw [hsteps.lines_eq hv hp ht hstart hd]
    refine ⟨⟨t, rfl⟩, fun c past s hlog => ?_⟩
    rw [hlog.total, List.length_append, List.length_map, List.length_range]
    rfl
  · exact fun past r h hd t => h.ends (Race.fresh_bounded hcap) hf hp hd .bounded t
  · exact fun past r h hd t => h.ends (Race.fresh_linked o) hf hp hd .lockFree t
  · obtain ⟨r₀, hstart, -⟩ := Relay.exists_kept hv
    exact ⟨r₀, hstart, fun past r h hd t => ⟨r₀, hstart, h.ends hstart hd t⟩⟩

def watched : Options := { producers := 2, consumers := 2, count := 1, capacity := 4, traceValues := true }

/-- A logger with room for one line gets both lines of a relay: the first is written, the
second finds the queue full. -/
def crowdedLog : List Log.Event :=
  [⟨0, .work .done, false, 0⟩, ⟨0, .work .done, false, 0⟩, ⟨0, .work .done, false, 0⟩, ⟨0, .work .done, false, 0⟩,
    ⟨0, .work .done, false, 0⟩, ⟨2, .advance 0, false, 0⟩, ⟨2, .call, false, 0⟩, ⟨1, .countRefused, false, 0⟩,
    ⟨1, .submit "spsc-ring: 1 values in 7ns", false, 0⟩, ⟨1, .submit "producer value 0", true, 0⟩]

theorem values_are_logged_once_watched : watched.validate = .ok () ∧ watched.traceValues = true ∧
    (∃ report log, Kind.bounded.Ends watched report log ∧ log.length = 5 ∧
      log.take 4 = ["producer 0 value 0", "producer 1 value 1", "consumer 0 value 0", "consumer 0 value 1"]) ∧
    (∃ report log, Kind.lockFree.Ends watched report log ∧ log.length = 5 ∧
      log.take 4 = ["producer 0 value 0", "producer 1 value 1", "consumer 0 value 0", "consumer 1 value 1"]) ∧
    ∃ report log s, Kind.ring.Ends watched report log ∧ log = ["producer value 0", "spsc-ring: 1 values in 7ns"] ∧
      Log.Steps (.start 1) crowdedLog s ∧ s.stored = #["producer value 0"] ∧ s.dropped = 1 ∧
      s.written + s.dropped = watched.count.toNat + 1 := by
  have hv : watched.validate = .ok () := by decide
  obtain ⟨bounded, lockFree, ring, boundedEnds, lockFreeEnds, ringEnds⟩ :=
    values_are_logged_once hv (by decide) (by decide) rfl
  refine ⟨hv, rfl, ?_, ?_, ?_⟩
  · have first : Race.Steps watched (.start watched (.start { limit := 4 } : Blocking.System Int64)) _ _ :=
      (((Race.Steps.refl.step 0 (.producer 0)).step 0 (.producer 0)).step 0 (.producer 0)).step 0 (.producer 0)
    have second := (((first.step 0 (.producer 1)).step 0 (.producer 1)).step 0 (.producer 1)).step 0 (.producer 1)
    have tokens := ((second.step 0 (.producer 1)).step 0 (.producer 1)).step 0 (.producer 1)
    have taken := (((tokens.step 0 (.consumer 0)).step 0 (.consumer 0)).step 0 (.consumer 0)).step 0 (.consumer 0)
    have run := (taken.step 0 (.consumer 0)).step 0 (.consumer 1)
    obtain ⟨past, r, run, hp, hc, hs⟩ : ∃ past, ∃ r : Race (Blocking.System Int64),
        Race.Steps watched (.start watched (.start { limit := 4 })) past r ∧ r.producers = #[.ended, .ended] ∧
        r.consumers = #[.ended, .ended] ∧
        r.traces = #[.produced 0 0, .produced 1 1, .consumed 0 0, .consumed 0 1] := ⟨_, _, run, rfl, rfl, rfl⟩
    have hdone : r.isDone = true := by
      rw [Race.isDone, hp, hc]
      simp
    have hends := boundedEnds past r run hdone 7
    obtain ⟨t, honce⟩ := bounded _ _ hends
    refine ⟨_, _, hends, honce.total, ?_⟩
    rw [hs]
    rfl
  · have htraces : (Race.run watched (.start 4 .new : Linked.System Int64)).map Race.traces =
        some #[.produced 0 0, .produced 1 1, .consumed 0 0, .consumed 1 1] := by decide +kernel
    obtain ⟨r, hrun, hs⟩ := Option.map_eq_some_iff.mp htraces
    obtain ⟨past, hsteps, hdone⟩ := Race.steps_of_run hrun
    have hends := lockFreeEnds past r hsteps hdone 7
    obtain ⟨t, honce⟩ := lockFree _ _ hends
    refine ⟨_, _, hends, honce.total, ?_⟩
    rw [hs]
    rfl
  · obtain ⟨r₀, hstart, hended⟩ := ringEnds
    have htraces : (Relay.run watched).map Relay.traces = some #[0] := by rfl
    obtain ⟨r, hrun, hs⟩ := Option.map_eq_some_iff.mp htraces
    obtain ⟨r₁, past, hstart₁, hsteps, hdone⟩ := Relay.steps_of_run hrun
    obtain rfl := Option.some.inj (hstart.symm.trans hstart₁)
    have hends := hended past r hsteps hdone 7
    rw [Relay.report_of_run hv hrun Kind.ring.name, hs] at hends
    have submitted : Log.Steps (.start 1) _ _ :=
      ((Log.Steps.refl.step 1 (.submit "producer value 0")).step 1 (.submit "spsc-ring: 1 values in 7ns")).step 1
        .countRefused
    have called := (submitted.step 2 .call).step 2 (.advance 0)
    have wrote := ((called.step 0 (.work .done)).step 0 (.work .done)).step 0 (.work .done)
    obtain ⟨s, run, hworker, hcounted, hstored, hdropped⟩ : ∃ s, Log.Steps (.start 1) crowdedLog s ∧
        s.worker = .ended .finished ∧ s.refusing = 0 ∧ s.stored = #["producer value 0"] ∧ s.dropped = 1 :=
      ⟨_, (wrote.step 0 (.work .done)).step 0 (.work .done), rfl, rfl, rfl, rfl⟩
    have received : Log.Received { capacity := 1 } ["producer value 0", "spsc-ring: 1 values in 7ns"] crowdedLog s :=
      ⟨run, by decide, ⟨_, .refl _, .cons ⟨"", rfl⟩ (.cons ⟨"", rfl⟩ .nil)⟩, ⟨_, hworker⟩, hcounted⟩
    exact ⟨_, _, s, hends, rfl, run, hstored, hdropped, (ring _ _ hends).2 _ _ _ received⟩

end Conduit.Pipeline
