import Conduit.Pipeline.Race
import Conduit.Proofs.Pipeline.Channel
import Mathlib.Algebra.Ring.Nat
import Mathlib.Data.List.Nodup

/-!
# Runs of a race

Any number of steps of the producers and the consumers, in any order. The log
keeps what each step has put at the end of the channel and got from its front.
Where each thread stands says what it has put in or got so far, and no producer
pushes tokens before all have pushed their values.
-/

namespace Conduit.Pipeline

open Contents (contents)

/-! ## Numbers -/

section
variable {o : Options} {p i n : Nat}

namespace Options

def number (o : Options) (p i : Nat) : Int64 := .ofNat (p * o.count.toNat + i)

def first (o : Options) (p n : Nat) : List Int64 := (List.range n).map (o.number p)

/-- All values have numbers from zero up. -/
def Fits (o : Options) : Prop := o.producers.toNat * o.count.toNat < 2 ^ 63

theorem first_succ (o : Options) (p n : Nat) : o.first p (n + 1) = o.first p n ++ [o.number p n] := by
  simp [first, List.range_succ]

end Options

theorem valueOf_ofNat (o : Options) (p : Nat) (i : UInt64) : valueOf o (.ofNat p) i = o.number p i.toNat := by
  rw [valueOf, Options.number, ← UInt64.toInt64_ofNat', UInt64.ofNat_add, UInt64.ofNat_mul, UInt64.ofNat_toNat,
    UInt64.ofNat_toNat]

theorem ofNat_ne_token (h : n < 2 ^ 63) : Int64.ofNat n ≠ token := by
  intro he
  have hint := congrArg Int64.toInt he
  rw [Int64.toInt_ofNat_of_lt h] at hint
  have : (n : Int) = -9223372036854775808 := hint
  omega

theorem ofNat_inj {m n : Nat} (hm : m < 2 ^ 63) (hn : n < 2 ^ 63) (h : Int64.ofNat m = .ofNat n) : m = n := by
  have hint := congrArg Int64.toInt h
  rw [Int64.toInt_ofNat_of_lt hm, Int64.toInt_ofNat_of_lt hn] at hint
  exact Int.ofNat.inj hint

theorem nodup_ofNat (h : n ≤ 2 ^ 63) : ((List.range n).map Int64.ofNat).Nodup := by
  have hlt : ∀ m ∈ List.range n, m < 2 ^ 63 := fun m hm => Nat.lt_of_lt_of_le (List.mem_range.mp hm) h
  exact List.nodup_range.map_on fun a ha b hb => ofNat_inj (hlt a ha) (hlt b hb)

theorem Options.number_lt_total (hp : p < o.producers.toNat) (hi : i < o.count.toNat) :
    p * o.count.toNat + i < o.producers.toNat * o.count.toNat := by
  have hle : (p + 1) * o.count.toNat ≤ o.producers.toNat * o.count.toNat := Nat.mul_le_mul_right _ hp
  rw [Nat.add_mul, Nat.one_mul] at hle
  omega

theorem Options.Fits.number_lt (h : o.Fits) (hp : p < o.producers.toNat) (hi : i < o.count.toNat) :
    p * o.count.toNat + i < 2 ^ 63 := Nat.lt_trans (number_lt_total hp hi) h

end

namespace Race

/-! ## Runs -/

structure Event where
  thread : Thread
  put : List Int64
  got : List Int64
  deriving DecidableEq, Repr

section
variable {σ : Type} [Contents σ]

def event (t : Thread) (r r' : Race σ) : Event where
  thread := t
  put := (contents r'.channel).drop (contents r.channel).length
  got := (contents r.channel).take ((contents r.channel).length - (contents r'.channel).length)

inductive Steps [Channel σ] (o : Options) (r : Race σ) : List Event → Race σ → Prop
  | refl : Steps o r [] r
  | step {past : List Event} {r₁ : Race σ} (pick : Nat) (t : Thread) :
      Steps o r past r₁ → Steps o r (r₁.event t (r₁.step o pick t) :: past) (r₁.step o pick t)

end

section
variable {σ : Type} [Channel σ] [Contents σ] {o : Options} {past : List Event} {channel : σ} {r r' : Race σ}

theorem Steps.rounds (h : Steps o r past r') (n : Nat) : ∃ past', Steps o r past' (rounds o n r') := by
  have hfold : ∀ {past : List Event} {r₁ : Race σ} (m : Nat) (thread : Nat → Thread), Steps o r past r₁ →
      ∃ past', Steps o r past' (Nat.fold m (fun i _ r => r.step o 0 (thread i)) r₁) := by
    intro past r₁ m thread h
    induction m with
    | zero => exact ⟨past, h⟩
    | succ m ih =>
      obtain ⟨past', h'⟩ := ih
      rw [Nat.fold_succ]
      exact ⟨_, h'.step 0 (thread m)⟩
  induction n generalizing past r' with
  | zero => exact ⟨past, h⟩
  | succ n ih =>
    rw [Race.rounds]
    split
    · exact ⟨past, h⟩
    · obtain ⟨_, hproducers⟩ := hfold _ .producer h
      obtain ⟨_, hconsumers⟩ := hfold _ .consumer hproducers
      exact ih hconsumers

theorem steps_of_run (h : run o channel = some r) : ∃ past, Steps o (start o channel) past r ∧ r.isDone = true := by
  obtain ⟨past, hsteps⟩ := (Steps.refl (o := o) (r := start o channel)).rounds (patience o)
  unfold run at h
  dsimp only at h
  split at h
  · next hdone =>
    obtain rfl := Option.some.inj h
    exact ⟨past, hsteps, hdone⟩
  · cases h

end

def sent : List Event → List (Nat × Int64)
  | [] => []
  | e :: past =>
    match e.thread with
    | .producer p => sent past ++ e.put.map (p, ·)
    | .consumer _ => sent past

def taken : List Event → List (Nat × Int64)
  | [] => []
  | e :: past =>
    match e.thread with
    | .producer _ => taken past
    | .consumer c => taken past ++ e.got.map (c, ·)

/-- What one thread has put in or got. -/
def only (k : Nat) (l : List (Nat × Int64)) : List Int64 := (l.filter (·.1 = k)).map Prod.snd

section
variable {j k : Nat} {d : List Int64}

theorem only_append (k : Nat) (l l' : List (Nat × Int64)) : only k (l ++ l') = only k l ++ only k l' := by
  simp [only]

theorem only_map_self (k : Nat) (d : List Int64) : only k (d.map (k, ·)) = d := by
  simp [only, List.filter_map, Function.comp_def]

theorem only_map_of_ne (h : j ≠ k) (d : List Int64) : only k (d.map (j, ·)) = [] := by
  simp [only, List.filter_map, Function.comp_def, h]

theorem map_snd_map (k : Nat) (d : List Int64) : (d.map (k, ·)).map Prod.snd = d := by
  simp [Function.comp_def]

end

section
variable {σ : Type} [Contents σ] {r : Race σ} {p c : Nat} {d : List Int64}

theorem sent_event (past : List Event) (r' : Race σ) (h : contents r'.channel = contents r.channel ++ d) :
    sent (r.event (.producer p) r' :: past) = sent past ++ d.map (p, ·) := by
  simp [sent, event, h]

theorem taken_event (past : List Event) (r' : Race σ) (h : contents r.channel = d ++ contents r'.channel) :
    taken (r.event (.consumer c) r' :: past) = taken past ++ d.map (c, ·) := by
  simp [taken, event, h]

end

/-! ## Where the threads stand -/

/-- Where producer `p` stands: whether it is the one that pushes the tokens, how many
values and how many tokens it has put in, and its call. -/
inductive Position (o : Options) (p : Nat) : Producer → Bool → Nat → Nat → Call → Prop
  | next {i : UInt64} : i ≤ o.count → Position o p (.next i) false i.toNat 0 .idle
  | offering {i : UInt64} : i < o.count →
      Position o p (.pushing i) false i.toNat 0 (.offering (valueOf o (.ofNat p) i))
  | offered {i : UInt64} : i < o.count → Position o p (.pushing i) false (i.toNat + 1) 0 .offered
  | tracing {i : UInt64} : i < o.count → Position o p (.tracing i) false (i.toNat + 1) 0 .idle
  | leaving : Position o p .leaving false o.count.toNat 0 .idle
  | ended : Position o p .ended false o.count.toNat 0 .idle
  | closing {left k : Nat} : k + left = o.consumers.toNat → Position o p (.closing left) true o.count.toNat k .idle
  | offeringToken {left k : Nat} : k + 1 + left = o.consumers.toNat →
      Position o p (.pushingToken left) true o.count.toNat k (.offering token)
  | offeredToken {left k : Nat} : k + left = o.consumers.toNat →
      Position o p (.pushingToken left) true o.count.toNat k .offered
  | closed : Position o p .ended true o.count.toNat o.consumers.toNat .idle

/-- Where a consumer stands: what it has got and not put to its share, and its call. -/
inductive Reading : Consumer → List Int64 → Call → Prop
  | asking : Reading .asking [] .idle
  | popping : Reading .popping [] .seeking
  | tracing {v : Int64} : v ≠ token → Reading (.tracing v) [v] .idle
  | ended : Reading .ended [token] .idle

def works : Producer → Bool
  | .next _ | .pushing _ | .tracing _ | .leaving => true
  | _ => false

/-- The tokens of producer `p`, where `closer` pushes them and has put in `k`. -/
def due (closer : Option Nat) (k p : Nat) : Nat := if closer = some p then k else 0

def Ordered (k : Nat) (vs : List Int64) : Prop := ∃ data, token ∉ data ∧ vs = data ++ List.replicate k token

/-- The producer that pushes the tokens is chosen when none works any more. -/
structure Elected (o : Options) (closer : Option Nat) (k : Nat) (active : UInt64) : Prop where
  open_ : closer = none → k = 0 ∧ 0 < active.toNat
  closed : ∀ q, closer = some q → q < o.producers.toNat ∧ active.toNat = 0

section
variable {σ : Type} [Channel σ] [Contents σ] [Faithful σ]

structure Kept (o : Options) (past : List Event) (r : Race σ) (closer : Option Nat) (k : Nat) : Prop where
  producers_size : r.producers.size = o.producers.toNat
  consumers_size : r.consumers.size = o.consumers.toNat
  shares_size : r.shares.size = o.consumers.toNat
  valid : Faithful.Valid (o.producers.toNat + o.consumers.toNat) r.channel
  fifo : (taken past).map Prod.snd ++ contents r.channel = (sent past).map Prod.snd
  ordered : Ordered k ((sent past).map Prod.snd)
  senders : ∀ x ∈ sent past, x.1 < o.producers.toNat
  takers : ∀ x ∈ taken past, x.1 < o.consumers.toNat
  active : r.active.toNat = r.producers.toList.countP works
  elected : Elected o closer k r.active
  producer : ∀ p stage, r.producers[p]? = some stage → ∃ n call,
    Position o p stage (closer == some p) n (due closer k p) call ∧ Faithful.At r.channel p call ∧
      only p (sent past) = o.first p n ++ List.replicate (due closer k p) token
  consumer : ∀ c stage, r.consumers[c]? = some stage → ∃ share extra call, r.shares[c]? = some share ∧
    token ∉ share.toList ∧ Reading stage extra call ∧ Faithful.At r.channel (o.producers.toNat + c) call ∧
      only c (taken past) = share.toList ++ extra

/-- What the step of a race does to the channel. -/
abbrev Acts (o : Options) (t : Nat) (c : Call) (s : σ) (q : σ × Progress) : Prop :=
  Stepped (Faithful.Valid (o.producers.toNat + o.consumers.toNat)) Faithful.At t c s q

/-- All of it is kept by a step of `t` that leads from `r` to `r'`. -/
def Follows (o : Options) (past : List Event) (r : Race σ) (t : Thread) (r' : Race σ) : Prop :=
  ∃ closer k, Kept o (r.event t r' :: past) r' closer k

variable {o : Options} {past : List Event} {r : Race σ} {closer : Option Nat} {k : Nat}

theorem Kept.same (h : Kept o past r closer k) (t : Thread) : Follows o past r t r := by
  have hsent : sent (r.event t r :: past) = sent past := by
    cases t <;> simp [sent, event]
  have htaken : taken (r.event t r :: past) = taken past := by
    cases t <;> simp [taken, event]
  refine ⟨closer, k, ?_⟩
  constructor
  case producer => rw [hsent]; exact h.producer
  case consumer => rw [htaken]; exact h.consumer
  case fifo => rw [hsent, htaken]; exact h.fifo
  case ordered => rw [hsent]; exact h.ordered
  case senders => rw [hsent]; exact h.senders
  case takers => rw [htaken]; exact h.takers
  case producers_size => exact h.producers_size
  case consumers_size => exact h.consumers_size
  case shares_size => exact h.shares_size
  case valid => exact h.valid
  case active => exact h.active
  case elected => exact h.elected

end

end Race

end Conduit.Pipeline
