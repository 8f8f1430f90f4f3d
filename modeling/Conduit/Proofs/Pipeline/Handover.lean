import Conduit.Proofs.Pipeline.Delivery
import Conduit.Proofs.Pipeline.Relay
import Mathlib.Data.Set.Card

/-!
# Relays that end

The sender goes through the numbers from zero up to its bound and the receiver wants so
many values as were asked for. As long as the count is a number with a sign these are
equally many: the receiver gets the numbers in order, and while it wants more there is a
value in the ring or the sender is going to put one there (`relay_delivers`). With a greater
count, which is allowed if there is no producer, the sender has nothing to send and the
receiver waits for good (`starves_iff`).
-/

namespace Conduit.Pipeline

theorem misplaced_numbers (n : Nat) : Report.misplaced (numbers n) = 0 := by
  rw [Report.misplaced, List.countP_eq_zero]
  rintro ⟨v, i⟩ hv
  obtain ⟨hi, he⟩ := List.mem_zipIdx' hv
  simp [he, numbers]

theorem report_numbers (name : String) (expected n : Nat) :
    Report.ofSequence name expected (numbers n) = ⟨name, expected, n, 0, 0⟩ := by
  rw [Report.ofSequence, misplaced_numbers, length_numbers]

namespace Options

theorem capacity_succ {o : Options} (h : o.validate = .ok ()) :
    1 ≤ o.capacity.toNat ∧ (o.capacity + 1).toNat = o.capacity.toNat + 1 := by
  obtain ⟨⟨hpos, hlt⟩, -⟩ := validate_eq_ok.mp h
  refine ⟨hpos, ?_⟩
  rw [UInt64.toNat_add, UInt64.toNat_one]
  exact Nat.mod_eq_of_lt hlt

end Options

namespace Relay

section
variable {o : Options} {log : List (Ring.Event Int64)} {past more : List RelayThread} {r r' : Relay} {n : Nat}

def accepted (o : Options) (r : Relay) : Nat :=
  match r.sender with
  | .next i | .again i _ | .pushing i => i.toNatClampNeg
  | .tracing i => i.toNatClampNeg + 1
  | .ended => span o

theorem Kept.accepted_eq (h : Kept o log r n) : r.accepted o = n := by
  obtain ⟨⟨buffer, producer, consumer⟩, sender, receiver, popped, traces⟩ := r
  have hlt := Nat.lt_of_le_of_lt h.sender.le_span (span_lt o)
  have hs : Sends o log sender producer n := h.sender
  rw [Relay.accepted]
  cases hs with
  | next | again | pushing => exact Int64.toNatClampNeg_ofNat_of_lt hlt
  | tracing => exact congrArg (· + 1) (Int64.toNatClampNeg_ofNat_of_lt (Nat.lt_of_succ_lt hlt))
  | ended => rfl

theorem Kept.popped_le (h : Kept o log r n) : r.popped.size ≤ n := by
  have hshape := h.ring_kept.shape
  rw [← h.length_popped, ← h.length_pushed]
  exact Nat.le_trans hshape.popped_le hshape.read_le

theorem Kept.popped_eq (h : Kept o log r n) : r.popped.toList = numbers r.popped.size := by
  have hk := h.ring_kept
  have hle := h.popped_le
  rw [← h.length_popped, ← h.length_pushed] at hle
  have hpre := List.prefix_of_prefix_length_le hk.popped_from hk.pushed_from hle
  rw [h.pushed, h.popped] at hpre
  exact eq_numbers_of_prefix hpre

theorem Kept.empty_iff (h : Kept o log r n) :
    r.system.buffer.head = r.system.buffer.tail ↔ r.popped.size = n := by
  rw [h.ring_kept.shape.empty_iff, h.length_popped, h.length_pushed]

theorem Kept.report_eq (h : Kept o log r n) (name : String) :
    r.report name o = ⟨name, o.count.toNat, r.popped.size, 0, 0⟩ := by
  rw [report, h.popped_eq, report_numbers]

theorem Kept.sent_all (h : Kept o log r n) (he : r.sender = .ended) : n = span o := by
  have hs := h.sender
  generalize r.system.producer = call at hs
  rw [he] at hs
  cases hs with
  | ended => rfl

theorem Kept.got_all (h : Kept o log r n) (he : r.receiver = .ended) : r.popped.size = o.count.toNat := by
  have hr := h.receiver
  generalize r.system.consumer = call at hr
  rw [he] at hr
  cases hr with
  | ended heq => exact heq

theorem exists_kept (hv : o.validate = .ok ()) :
    ∃ r, start? o = some r ∧ r.sender = .next 0 ∧ r.popped.size = 0 ∧ Kept o [] r 0 := by
  obtain ⟨hpos, hsucc⟩ := Options.capacity_succ hv
  refine ⟨{ system := { buffer := { size := o.capacity.toNat + 1 } } }, ?_, rfl, rfl, ?_⟩
  · rw [start?, hsucc, Ring.Buffer.new?, if_pos (Nat.lt_succ_of_le hpos)]
    rfl
  · exact ⟨.refl, .next (Nat.zero_le _), .asking (Nat.zero_le _), rfl, rfl⟩

end

/-! ## Counts that are numbers with a sign -/

section
variable {o : Options} {log : List (Ring.Event Int64)} {past more : List RelayThread} {r r' : Relay} {n : Nat}

/-- A relay that delivers: what was popped is in order, somebody can always go on, and at
the end everything is there. -/
structure Delivers (o : Options) (r : Relay) : Prop where
  calls : ∃ log, Ring.Steps { buffer := { size := o.capacity.toNat + 1 } } log r.system ∧
    Ring.pushed log = numbers (r.accepted o) ∧ Ring.popped log = numbers r.popped.size
  popped : r.popped.toList = numbers r.popped.size
  inOrder : ∀ name, (r.report name o).outOfOrder = 0
  goesOn : r.popped.size < o.count.toNat →
    (r.system.buffer.head ≠ r.system.buffer.tail ∧
      ∀ more r', Steps o r more r' → 5 ≤ more.count .receiver → r.popped.size < r'.popped.size) ∨
    (r.system.buffer.head = r.system.buffer.tail ∧ r.sender ≠ .ended ∧
      ∀ more r', Steps o r more r' → 6 ≤ more.count .sender → r.accepted o < r'.accepted o)
  ends : r.receiver = .ended → r.popped.size = o.count.toNat ∧
    r.system.buffer.head = r.system.buffer.tail ∧ ∀ name, (r.report name o).check = .ok (r.report name o)

/-- Five steps of the receiver are a whole attempt, and one that finds something. -/
theorem Kept.next_popped (h : Kept o log r n) (hlt : r.popped.size < n) (hs : Steps o r more r')
    (hmore : 5 ≤ more.count .receiver) : r.popped.size < r'.popped.size := by
  obtain ⟨log', n', -, -, hgot | ⟨-, hget⟩⟩ := hs.getting h hlt
  · exact hgot
  · have := r'.getting_le
    omega

/-- Six steps of the sender are a whole attempt, after the trace of the value before it. -/
theorem Kept.next_accepted (h : Kept o log r n) (hlt : n < span o) (hroom : n < r.popped.size + o.capacity.toNat)
    (hs : Steps o r more r') (hmore : 6 ≤ more.count .sender) : r.accepted o < r'.accepted o := by
  obtain ⟨log', n', h', -, hsent | ⟨-, hsend⟩⟩ := hs.sending h hlt hroom
  · rw [h.accepted_eq, h'.accepted_eq]
    exact hsent
  · have := r'.sending_le
    omega

theorem Kept.goes_on (h : Kept o log r n) (hpos : 1 ≤ o.capacity.toNat) (hlt : r.popped.size < span o) :
    (r.system.buffer.head ≠ r.system.buffer.tail ∧
      ∀ more r', Steps o r more r' → 5 ≤ more.count .receiver → r.popped.size < r'.popped.size) ∨
    (r.system.buffer.head = r.system.buffer.tail ∧ r.sender ≠ .ended ∧
      ∀ more r', Steps o r more r' → 6 ≤ more.count .sender → r.accepted o < r'.accepted o) := by
  by_cases he : r.system.buffer.head = r.system.buffer.tail
  · -- all that was sent has been got, so it is less than what the sender has to send
    right
    have hn : r.popped.size = n := h.empty_iff.mp he
    refine ⟨he, ?_, fun more r' => ?_⟩
    · intro hended
      have := h.sent_all hended
      omega
    · apply h.next_accepted <;> omega
  · left
    refine ⟨he, fun more r' => h.next_popped ?_⟩
    exact Nat.lt_of_le_of_ne h.popped_le (mt h.empty_iff.mpr he)

theorem Kept.all_there (h : Kept o log r n) (he : r.receiver = .ended) : r.popped.size = o.count.toNat ∧
    r.system.buffer.head = r.system.buffer.tail ∧ ∀ name, (r.report name o).check = .ok (r.report name o) := by
  have hall := h.got_all he
  refine ⟨hall, h.empty_iff.mpr (Nat.le_antisymm h.popped_le ?_), fun name => ?_⟩
  · rw [hall]
    exact Nat.le_trans h.sender.le_span (span_le o)
  · rw [h.report_eq, hall]
    simp [Report.check, Report.isClean]

theorem Kept.delivers (h : Kept o log r n) (hpos : 1 ≤ o.capacity.toNat) (hc : o.count.toNat < 2 ^ 63) :
    Delivers o r where
  calls := by
    refine ⟨log, h.ring, ?_, ?_⟩
    · rw [h.accepted_eq, h.pushed]
    · rw [h.popped, h.popped_eq]
  popped := h.popped_eq
  inOrder name := by rw [h.report_eq]
  goesOn hlt := h.goes_on hpos (span_eq hc ▸ hlt)
  ends := h.all_there

/-- With options that are allowed and a count that is a number with a sign, the relay starts,
and whatever it comes to delivers. -/
theorem relay_delivers (hv : o.validate = .ok ()) (hc : o.count.toNat < 2 ^ 63) :
    ∃ r₀, start? o = some r₀ ∧ ∀ past r, Steps o r₀ past r → Delivers o r := by
  obtain ⟨hpos, -⟩ := Options.capacity_succ hv
  obtain ⟨r₀, hstart, -, -, hkept⟩ := exists_kept hv
  refine ⟨r₀, hstart, fun past r h => ?_⟩
  obtain ⟨log, n, hk⟩ := h.kept hkept
  exact hk.delivers hpos hc

/-! ### Taking turns -/

theorem Steps.rounds {r₀ : Relay} (h : Steps o r₀ past r) (k : Nat) : ∃ past', Steps o r₀ past' (rounds o k r) := by
  induction k generalizing past r with
  | zero => exact ⟨past, h⟩
  | succ k ih =>
    rw [Relay.rounds]
    split
    · exact ⟨past, h⟩
    · exact ih ((h.step .sender).step .receiver)

theorem steps_of_run (h : run o = some r) :
    ∃ r₀ past, start? o = some r₀ ∧ Steps o r₀ past r ∧ r.isDone = true := by
  obtain ⟨r₀, hstart, hr⟩ := Option.bind_eq_some_iff.mp h
  obtain ⟨past, hsteps⟩ := (Steps.refl (o := o) (r := r₀)).rounds (patience o)
  dsimp only at hr
  split at hr
  · rename_i hdone
    obtain rfl := Option.some.inj hr
    exact ⟨r₀, past, hstart, hsteps, hdone⟩
  · cases hr

theorem isDone_iff : r.isDone = true ↔ r.sender = .ended ∧ r.receiver = .ended := by
  simp [isDone]

theorem report_of_run (hv : o.validate = .ok ()) (h : run o = some r) (name : String) :
    r.report name o = ⟨name, o.count.toNat, o.count.toNat, 0, 0⟩ := by
  obtain ⟨r₀, past, hstart, hsteps, hdone⟩ := steps_of_run h
  obtain ⟨r₁, hstart₁, -, -, hkept⟩ := exists_kept hv
  obtain rfl := Option.some.inj (hstart.symm.trans hstart₁)
  obtain ⟨log, n, hk⟩ := hsteps.kept hkept
  obtain ⟨-, hended⟩ := isDone_iff.mp hdone
  rw [hk.report_eq, hk.got_all hended]

end

def pair : Options := { count := 2, capacity := 1 }

theorem relay_delivers_pair : pair.validate = .ok () ∧ pair.count.toNat < 2 ^ 63 ∧
    ∃ r₀ past r, start? pair = some r₀ ∧ Steps pair r₀ past r ∧ r.receiver = .ended ∧ r.popped = #[0, 1] ∧
      Delivers pair r := by
  have hv : pair.validate = .ok () := by decide
  have hc : pair.count.toNat < 2 ^ 63 := by decide
  have hpopped : (run pair).map Relay.popped = some #[0, 1] := by rfl
  obtain ⟨r, hrun, hr⟩ := Option.map_eq_some_iff.mp hpopped
  obtain ⟨r₀, past, hstart, hsteps, hdone⟩ := steps_of_run hrun
  obtain ⟨r₁, hstart₁, hall⟩ := relay_delivers hv hc
  obtain rfl := Option.some.inj (hstart.symm.trans hstart₁)
  obtain ⟨-, hended⟩ := isDone_iff.mp hdone
  exact ⟨hv, hc, r₀, past, r, hstart, hsteps, hended, hr, hall past r hsteps⟩

/-! ## Counts beyond them -/

section
variable {o : Options} {log : List (Ring.Event Int64)} {past more : List RelayThread} {r r' : Relay} {n : Nat}

theorem mem_numbers_span {v : Int64} : v ∈ numbers (span o) ↔ 0 ≤ v ∧ v < bound o := by
  rw [numbers, List.mem_map]
  constructor
  · rintro ⟨n, hn, rfl⟩
    have hn := List.mem_range.mp hn
    have hlt := Nat.lt_trans hn (span_lt o)
    refine ⟨?_, (lt_bound_iff hlt).mpr hn⟩
    rw [Int64.le_iff_toInt_le, Int64.toInt_ofNat_of_lt hlt]
    exact Int.natCast_nonneg n
  · rintro ⟨hpos, hlt⟩
    have hof := Int64.ofNat_toNatClampNeg v hpos
    refine ⟨v.toNatClampNeg, List.mem_range.mpr ?_, hof⟩
    rw [← lt_bound_iff v.toNatClampNeg_lt, hof]
    exact hlt

theorem nodup_numbers {n : Nat} (h : n ≤ 2 ^ 63) : (numbers n).Nodup := nodup_ofNat h

theorem ncard_below_bound (o : Options) : {v : Int64 | 0 ≤ v ∧ v < bound o}.ncard = span o := by
  have hset : {v : Int64 | 0 ≤ v ∧ v < bound o} = ((numbers (span o)).toFinset : Set Int64) := by
    ext v
    rw [List.coe_toFinset, Set.mem_ofPred_eq, Set.mem_ofPred_eq, mem_numbers_span]
  rw [hset, Set.ncard_coe_finset, List.toFinset_card_of_nodup (nodup_numbers (Nat.le_of_lt (span_lt o))),
    length_numbers]

/-- Nothing is left and nothing comes, but more is wanted. -/
def Starved (o : Options) (r : Relay) : Prop :=
  r.sender = .ended ∧ r.system.buffer.head = r.system.buffer.tail ∧ r.popped.size < o.count.toNat

theorem Kept.starved_iff (h : Kept o log r n) :
    r.Starved o ↔ r.sender = .ended ∧ r.popped.size = span o ∧ span o < o.count.toNat := by
  rw [Starved, h.empty_iff]
  constructor
  · rintro ⟨he, hn, hlt⟩
    rw [h.sent_all he] at hn
    exact ⟨he, hn, hn ▸ hlt⟩
  · rintro ⟨he, hn, hlt⟩
    rw [h.sent_all he]
    exact ⟨he, hn, hn ▸ hlt⟩

theorem stepSender_ended (he : r.sender = .ended) : r.stepSender o = r := by
  obtain ⟨system, sender, receiver, popped, traces⟩ := r
  obtain rfl : sender = .ended := he
  rfl

theorem Steps.starved (h : Steps o r more r') (hk : Kept o log r n) (hs : r.Starved o) : r'.Starved o := by
  induction h with
  | refl => exact hs
  | @step more r₁ t h₁ ih =>
    -- an ended sender does nothing, and there is no value that the receiver could get
    obtain ⟨log₁, n₁, hk₁⟩ := h₁.kept hk
    cases t with
    | sender =>
      show (r₁.stepSender o).Starved o
      rw [stepSender_ended ih.1]
      exact ih
    | receiver =>
      obtain ⟨log', hk', hnear⟩ := hk₁.stepReceiver
      obtain ⟨hsame, -⟩ := stepReceiver_frame o r₁
      obtain ⟨he, hn, hlt⟩ := hk₁.starved_iff.mp ih
      have hended := hsame.trans he
      refine hk'.starved_iff.mpr ⟨hended, ?_, hlt⟩
      have hle := hk'.popped_le
      rw [hk'.sent_all hended] at hle
      omega

theorem exists_starved (hv : o.validate = .ok ()) (hc : 2 ^ 63 ≤ o.count.toNat) (hstart : start? o = some r) :
    Steps o r [.sender] (r.step o .sender) ∧ (r.step o .sender).Starved o := by
  obtain ⟨r₀, hstart₀, hnext, hnone, hkept⟩ := exists_kept hv
  obtain rfl := Option.some.inj (hstart.symm.trans hstart₀)
  have hzero := span_eq_zero hc
  have hsteps : Steps o r [.sender] (r.step o .sender) := .step .sender .refl
  obtain ⟨log, n, hk⟩ := hsteps.kept hkept
  refine ⟨hsteps, hk.starved_iff.mpr ⟨?_, ?_, ?_⟩⟩
  · obtain ⟨system, sender, receiver, popped, traces⟩ := r
    obtain rfl : sender = .next 0 := hnext
    have hnot : ¬ (0 : Int64) < bound o := by
      rw [show (0 : Int64) = .ofNat 0 from rfl, lt_bound_iff (by decide), hzero]
      exact Nat.not_lt_zero 0
    simp only [Relay.step, Relay.stepSender, if_neg hnot]
  · obtain ⟨hpopped, -⟩ := stepSender_frame o r
    show (r.stepSender o).popped.size = span o
    rw [hpopped, hnone, hzero]
  · omega

theorem producers_eq_zero (hv : o.validate = .ok ()) (hc : 2 ^ 63 ≤ o.count.toNat) : o.producers = 0 := by
  obtain ⟨-, hfits⟩ := Options.fits_of_validate hv
  apply UInt64.toNat_inj.mp
  by_contra hp
  have hle := Nat.le_mul_of_pos_left o.count.toNat (Nat.pos_of_ne_zero hp)
  have hlt : o.producers.toNat * o.count.toNat < 2 ^ 63 := hfits
  omega

/-- The ring has its slot more. The sender's range has as many values as were asked for, and no
run starves, if and only if the count is a number with a sign; a greater one is allowed only
without producers, and a starved relay stays so. -/
theorem starves_iff (hv : o.validate = .ok ()) :
    (o.capacity + 1).toNat = o.capacity.toNat + 1 ∧
    ({v : Int64 | 0 ≤ v ∧ v < bound o}.ncard = o.count.toNat ↔ o.count.toNat < 2 ^ 63) ∧
    (∃ r₀, start? o = some r₀ ∧ ((∃ past r, Steps o r₀ past r ∧ r.Starved o) ↔ 2 ^ 63 ≤ o.count.toNat) ∧
      ∀ past r, Steps o r₀ past r → r.Starved o → ∀ more r', Steps o r more r' → r'.Starved o) ∧
    (2 ^ 63 ≤ o.count.toNat → o.producers = 0) := by
  obtain ⟨-, hsucc⟩ := Options.capacity_succ hv
  obtain ⟨r₀, hstart, -, -, hkept⟩ := exists_kept hv
  refine ⟨hsucc, ?_, ⟨r₀, hstart, ⟨?_, ?_⟩, ?_⟩, producers_eq_zero hv⟩
  · rw [ncard_below_bound]
    refine ⟨?_, span_eq⟩
    intro heq
    rw [← heq]
    exact span_lt o
  · rintro ⟨past, r, h, hs⟩
    obtain ⟨log, n, hk⟩ := h.kept hkept
    obtain ⟨-, -, hlt⟩ := hk.starved_iff.mp hs
    by_contra hc
    rw [span_eq (Nat.not_le.mp hc)] at hlt
    exact Nat.lt_irrefl _ hlt
  · intro hc
    exact ⟨_, _, exists_starved hv hc hstart⟩
  · intro past r h hs more r' h'
    obtain ⟨log, n, hk⟩ := h.kept hkept
    exact h'.starved hk hs

end

/-- No producer, and one value more than there are numbers from zero up. -/
def vast : Options := { producers := 0, count := 9223372036854775808 }

theorem starves_iff_pair : pair.validate = .ok () ∧ {v : Int64 | 0 ≤ v ∧ v < bound pair}.ncard = 2 ∧
    ∃ r₀, start? pair = some r₀ ∧ ¬ ∃ past r, Steps pair r₀ past r ∧ r.Starved pair := by
  have hv : pair.validate = .ok () := by decide
  obtain ⟨-, hrange, ⟨r₀, hstart, hiff, -⟩, -⟩ := starves_iff hv
  refine ⟨hv, hrange.mpr (by decide), r₀, hstart, ?_⟩
  intro h
  exact absurd (hiff.mp h) (by decide)

theorem starved_vast : vast.validate = .ok () ∧ {v : Int64 | 0 ≤ v ∧ v < bound vast}.ncard = 0 ∧
    ∃ r₀, start? vast = some r₀ ∧ ∃ past r, Steps vast r₀ past r ∧ r.Starved vast := by
  have hv : vast.validate = .ok () := by decide
  have hc : 2 ^ 63 ≤ vast.count.toNat := by decide
  obtain ⟨r₀, hstart, -⟩ := exists_kept hv
  refine ⟨hv, ?_, r₀, hstart, _, _, exists_starved hv hc hstart⟩
  rw [ncard_below_bound, span_eq_zero hc]

end Relay

end Conduit.Pipeline
