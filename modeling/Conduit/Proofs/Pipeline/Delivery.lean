import Conduit.Proofs.Pipeline.Bounded
import Conduit.Proofs.Pipeline.Consumers
import Conduit.Proofs.Pipeline.LockFree
import Conduit.Proofs.Pipeline.Numbering
import Conduit.Proofs.Lists
import Mathlib.Data.List.Nodup
import Mathlib.Data.List.Pairwise

/-!
# Everything is delivered

There is one token for each consumer, behind all values. A consumer takes one
token at most, so when all have ended each has taken its own and nothing is left;
and as long as one has not, a token or a producer is still to come.
-/

namespace Conduit.Pipeline

open Contents (contents)

/-! ## All values -/

namespace Options

variable {o : Options} {n : Nat}

def numbers (o : Options) : List Int64 := (List.range (o.producers.toNat * o.count.toNat)).map Int64.ofNat

theorem flatMap_first (o : Options) (n : Nat) :
    (List.range n).flatMap (fun p => o.first p o.count.toNat) = (List.range (n * o.count.toNat)).map Int64.ofNat := by
  induction n with
  | zero => simp
  | succ n ih =>
    rw [List.range_succ, List.flatMap_append, ih, Nat.succ_mul, List.range_add, List.map_append, List.map_map]
    simp [first, number, Function.comp_def]

theorem Fits.nodup_numbers (h : o.Fits) : o.numbers.Nodup := nodup_ofNat (Nat.le_of_lt h)

end Options

namespace Race

/-! ## By thread and all together -/

theorem perm_only {l : List (Nat × Int64)} {n : Nat} (h : ∀ x ∈ l, x.1 < n) :
    (l.map Prod.snd).Perm ((List.range n).flatMap fun k => only k l) := by
  have hbelow : ∀ n, ((l.filter (·.1 < n)).map Prod.snd).Perm ((List.range n).flatMap fun k => only k l) := by
    intro n
    induction n with
    | zero => simp
    | succ n ih =>
      -- those up to `n` are those below it, in their order, and those of `n`
      have hsplit : ((l.filter (·.1 < n + 1)).filter (·.1 < n) ++
          (l.filter (·.1 < n + 1)).filter (fun x => !decide (x.1 < n))).Perm (l.filter (·.1 < n + 1)) :=
        List.filter_append_perm _ _
      have hlow : (l.filter (·.1 < n + 1)).filter (·.1 < n) = l.filter (·.1 < n) := by
        rw [List.filter_filter]
        refine List.filter_congr fun x _ => ?_
        simp only [← Bool.decide_and, decide_eq_decide]
        omega
      have hhigh : (l.filter (·.1 < n + 1)).filter (fun x => !decide (x.1 < n)) = l.filter (·.1 = n) := by
        rw [List.filter_filter]
        refine List.filter_congr fun x _ => ?_
        simp only [← decide_not, ← Bool.decide_and, decide_eq_decide]
        omega
      rw [hlow, hhigh] at hsplit
      rw [List.range_succ, List.flatMap_append, List.flatMap_singleton]
      refine (hsplit.symm.map Prod.snd).trans ?_
      rw [List.map_append]
      exact ih.append_right _
  have hall : l.filter (·.1 < n) = l := List.filter_eq_self.mpr fun x hx => decide_eq_true (h x hx)
  have hperm := hbelow n
  rwa [hall] at hperm

/-! ## Tokens behind the values -/

section
variable {k : Nat} {vs ws : List Int64}

theorem Ordered.count_token (h : Ordered k vs) : vs.count token = k := by
  obtain ⟨data, hdata, rfl⟩ := h
  rw [List.count_append, List.count_eq_zero_of_not_mem hdata, List.count_replicate_self, Nat.zero_add]

theorem Ordered.pairwise (h : Ordered k vs) : vs.Pairwise fun v w => v = token → w = token := by
  obtain ⟨data, hdata, rfl⟩ := h
  refine List.pairwise_append.mpr ⟨?_, ?_, ?_⟩
  · exact List.pairwise_of_forall_mem_list fun v hv _ _ he => absurd (he ▸ hv) hdata
  · exact List.pairwise_of_forall_mem_list fun _ _ w hw _ => List.eq_of_mem_replicate hw
  · exact fun v hv _ _ he => absurd (he ▸ hv) hdata

theorem Ordered.eq_nil (h : Ordered k (vs ++ ws)) (hk : 0 < k) (hw : token ∉ ws) : ws = [] := by
  obtain ⟨data, -, he⟩ := h
  obtain ⟨k, rfl⟩ := Nat.exists_eq_succ_of_ne_zero (Nat.ne_of_gt hk)
  by_contra hne
  have hlast := congrArg List.getLast? he
  rw [List.getLast?_append_of_ne_nil _ hne, List.replicate_succ', ← List.append_assoc, List.getLast?_concat] at hlast
  exact hw (List.mem_of_getLast? hlast)

end

/-! ## What the positions add up to -/

section
variable {σ : Type} [Channel σ] [Contents σ] [Faithful σ]

variable {o : Options} {past : List Event} {r : Race σ} {closer : Option Nat} {k p c q : Nat}

theorem Kept.producer_at (h : Kept o past r closer k) (hp : p < o.producers.toNat) :
    ∃ stage, r.producers[p]? = some stage :=
  ⟨_, Array.getElem?_eq_getElem (by rw [h.producers_size]; exact hp)⟩

theorem Kept.consumer_at (h : Kept o past r closer k) (hc : c < o.consumers.toNat) :
    ∃ stage, r.consumers[c]? = some stage :=
  ⟨_, Array.getElem?_eq_getElem (by rw [h.consumers_size]; exact hc)⟩

theorem Kept.not_works (h : Kept o past r closer k) (hq : closer = some q) {stage : Producer}
    (hp : r.producers[p]? = some stage) : works stage = false := by
  by_contra hw
  have := (h.at_work hp (by simpa using hw)).1
  cases hq.symm.trans this

theorem Kept.tokens_le (h : Kept o past r closer k) : k ≤ o.consumers.toNat := by
  cases hq : closer with
  | none => exact (h.elected.open_ hq).1 ▸ Nat.zero_le _
  | some q =>
    obtain ⟨stage, hp⟩ := h.producer_at (h.elected.closed q hq).1
    obtain ⟨n, call, hpos, -⟩ := h.producer q stage hp
    have hdue : due closer k q = k := if_pos hq
    have hlast : (closer == some q) = true := by simpa using hq
    rw [hdue, hlast] at hpos
    cases hpos <;> omega

theorem Kept.sent_all (h : Kept o past r closer k) (hq : closer = some q) (hp : p < o.producers.toNat) :
    only p (sent past) = o.first p o.count.toNat ++ List.replicate (due closer k p) token := by
  obtain ⟨stage, hstage⟩ := h.producer_at hp
  obtain ⟨n, call, hpos, -, honly⟩ := h.producer p stage hstage
  have hw := h.not_works hq hstage
  have hn : n = o.count.toNat := by
    generalize (closer == some p) = last at hpos
    generalize due closer k p = m at hpos
    cases hpos <;> first | rfl | cases hw
  rw [honly, hn]

theorem filter_first (hf : o.Fits) (hp : p < o.producers.toNat) (m : Nat) :
    (o.first p o.count.toNat ++ List.replicate m token).filter (· ≠ token) = o.first p o.count.toNat := by
  rw [List.filter_append, List.filter_eq_self.mpr, List.filter_eq_nil_iff.mpr, List.append_nil]
  · intro v hv
    simp [List.eq_of_mem_replicate hv]
  · intro v hv
    obtain ⟨i, hi, rfl⟩ := List.mem_map.mp hv
    exact decide_eq_true (ofNat_ne_token (hf.number_lt hp (List.mem_range.mp hi)))

theorem Kept.values_perm (h : Kept o past r closer k) (hf : o.Fits) (hq : closer = some q) :
    (((sent past).map Prod.snd).filter (· ≠ token)).Perm o.numbers := by
  have hperm := (perm_only h.senders).filter (· ≠ token)
  rw [List.filter_flatMap] at hperm
  refine hperm.trans (List.Perm.of_eq ?_)
  rw [Options.numbers, ← Options.flatMap_first]
  refine List.flatMap_congr fun p hp => ?_
  have hp := List.mem_range.mp hp
  rw [h.sent_all hq hp, filter_first hf hp]

/-! ## Tokens taken -/

theorem Kept.tokens_of (h : Kept o past r closer k) {stage : Consumer} (hc : r.consumers[c]? = some stage) :
    (only c (taken past)).count token = if stage = .ended then 1 else 0 := by
  obtain ⟨share, extra, call, -, htoken, hread, -, honly⟩ := h.consumer c stage hc
  rw [honly, List.count_append, List.count_eq_zero_of_not_mem htoken]
  cases hread with
  | tracing hv => simpa using List.count_eq_zero_of_not_mem (by simpa using Ne.symm hv)
  | _ => simp

theorem Kept.tokens_taken (h : Kept o past r closer k) :
    ((taken past).map Prod.snd).count token =
      ((List.range o.consumers.toNat).map fun c => (only c (taken past)).count token).sum := by
  rw [(perm_only h.takers).count_eq, List.count_flatMap]
  rfl

/-- All tokens that there are to be are taken if and only if all consumers have ended. -/
theorem Kept.tokens_taken_iff (h : Kept o past r closer k) :
    ((taken past).map Prod.snd).count token = o.consumers.toNat ↔ ∀ stage ∈ r.consumers, stage = .ended := by
  have hle : ∀ c < o.consumers.toNat, (only c (taken past)).count token ≤ 1 := by
    intro c hc
    obtain ⟨stage, hstage⟩ := h.consumer_at hc
    rw [h.tokens_of hstage]
    split <;> omega
  have hsum := (sum_of_le hle).2
  rw [Nat.mul_one] at hsum
  rw [h.tokens_taken, hsum]
  constructor
  · intro hall stage hmem
    obtain ⟨c, hc, hstage⟩ := Array.getElem_of_mem hmem
    have hstage := Array.getElem?_eq_some_iff.mpr ⟨hc, hstage⟩
    have hone := hall c (h.lt_of_consumer hstage)
    rw [h.tokens_of hstage] at hone
    by_contra hne
    rw [if_neg hne] at hone
    cases hone
  · intro hall c hc
    obtain ⟨stage, hstage⟩ := h.consumer_at hc
    rw [h.tokens_of hstage, if_pos (hall stage (Array.mem_of_getElem? hstage))]

theorem Kept.empty_of_ended (h : Kept o past r closer k) (hpos : 0 < o.consumers.toNat)
    (hall : ∀ stage ∈ r.consumers, stage = .ended) : contents r.channel = [] ∧ k = o.consumers.toNat := by
  -- what was taken has as many tokens as there can be, so none is left inside
  have hcount := h.ordered.count_token
  rw [← h.fifo, List.count_append, h.tokens_taken_iff.mpr hall] at hcount
  have hle := h.tokens_le
  have hk : k = o.consumers.toNat := by omega
  have hordered := h.ordered
  rw [← h.fifo] at hordered
  refine ⟨hordered.eq_nil (by omega) ?_, hk⟩
  exact List.count_eq_zero.mp (by omega)

theorem Kept.closer_of_ended (h : Kept o past r closer k) (hall : ∀ stage ∈ r.producers, stage = .ended) :
    k = o.consumers.toNat ∧ ∃ q, closer = some q := by
  cases hq : closer with
  | none =>
    have hactive := (h.elected.open_ hq).2
    rw [h.active, List.countP_pos_iff] at hactive
    obtain ⟨stage, hmem, hw⟩ := hactive
    rw [hall stage (Array.mem_toList_iff.mp hmem)] at hw
    cases hw
  | some q =>
    obtain ⟨stage, hp⟩ := h.producer_at (h.elected.closed q hq).1
    obtain ⟨n, call, hpos, -⟩ := h.producer q stage hp
    have hdue : due closer k q = k := if_pos hq
    have hlast : (closer == some q) = true := by simpa using hq
    rw [hdue, hlast, hall stage (Array.mem_of_getElem? hp)] at hpos
    cases hpos
    exact ⟨rfl, q, rfl⟩

theorem Kept.ended_of_empty (h : Kept o past r closer k) (hempty : contents r.channel = [])
    (hall : ∀ stage ∈ r.producers, stage = .ended) : ∀ stage ∈ r.consumers, stage = .ended := by
  have hcount := h.ordered.count_token
  rw [← h.fifo, hempty, List.append_nil, (h.closer_of_ended hall).1] at hcount
  exact h.tokens_taken_iff.mp hcount

/-! ## What the shares add up to -/

theorem Kept.share_of_ended (h : Kept o past r closer k) (hc : r.consumers[c]? = some .ended) :
    (only c (taken past)).filter (· ≠ token) = share c r := by
  obtain ⟨sh, extra, call, hshare, htoken, hread, -, honly⟩ := h.consumer c _ hc
  cases hread
  have hsh : share c r = sh.toList := by rw [share, hshare]; rfl
  rw [honly, hsh, List.filter_append, List.filter_eq_self.mpr]
  · simp
  · exact fun v hv => decide_eq_true fun he => htoken (he ▸ hv)

theorem Kept.shares_perm (h : Kept o past r closer k) (hf : o.Fits) (hpos : 0 < o.consumers.toNat)
    (hall : ∀ stage ∈ r.consumers, stage = .ended) :
    ((List.range o.consumers.toNat).flatMap fun c => share c r).Perm o.numbers := by
  obtain ⟨hempty, hk⟩ := h.empty_of_ended hpos hall
  have hq : ∃ q, closer = some q := by
    cases hq : closer with
    | none =>
      have := (h.elected.open_ hq).1
      omega
    | some q => exact ⟨q, rfl⟩
  obtain ⟨q, hq⟩ := hq
  have hfifo := h.fifo
  rw [hempty, List.append_nil] at hfifo
  have hperm := (perm_only h.takers).filter (· ≠ token)
  rw [hfifo, List.filter_flatMap] at hperm
  refine List.Perm.trans (List.Perm.of_eq ?_) (hperm.symm.trans (h.values_perm hf hq))
  refine List.flatMap_congr fun c hc => ?_
  obtain ⟨stage, hstage⟩ := h.consumer_at (List.mem_range.mp hc)
  rw [hall stage (Array.mem_of_getElem? hstage)] at hstage
  exact (h.share_of_ended hstage).symm

theorem Kept.flatten_shares (h : Kept o past r closer k) :
    (r.shares.toList.map Array.toList).flatten = (List.range o.consumers.toNat).flatMap fun c => share c r := by
  rw [List.flatMap_def, ← h.shares_size]
  congr 1
  apply List.ext_getElem
  · simp
  · intro c hc hc'
    simp only [List.length_map, Array.length_toList] at hc
    simp [share, hc]

/-! ## What is promised -/

structure Delivered (o : Options) (r : Race σ) : Prop where
  empty : contents r.channel = []
  received : (r.shares.toList.map Array.toList).flatten.Perm o.numbers
  once : ∀ n < o.producers.toNat * o.count.toNat, ∃! c, Int64.ofNat n ∈ share c r
  report : ∀ name, r.report name o =
    { queue := name
      expected := o.producers.toNat * o.count.toNat
      received := o.producers.toNat * o.count.toNat
      duplicates := 0
      outOfOrder := 0 }
  check : ∀ name, (r.report name o).check = .ok (r.report name o)

structure Delivers (o : Options) (past : List Event) (r : Race σ) : Prop where
  fifo : (taken past).map Prod.snd ++ contents r.channel = (sent past).map Prod.snd
  /-- Behind a token come only tokens, in the channel and in what was ever put in. -/
  inside : (contents r.channel).Pairwise fun v w => v = token → w = token
  behind : ((sent past).map Prod.snd).Pairwise fun v w => v = token → w = token
  first_token : token ∈ (sent past).map Prod.snd → o.numbers ⊆ (sent past).map Prod.snd
  one_token : ∀ c, (only c (taken past)).count token ≤ 1
  delivered : r.isDone = true → Delivered o r

theorem Kept.received (h : Kept o past r closer k) (hf : o.Fits) (hpos : 0 < o.consumers.toNat)
    (hall : ∀ stage ∈ r.consumers, stage = .ended) :
    (r.shares.toList.map Array.toList).flatten.Perm o.numbers := by
  rw [h.flatten_shares]
  exact h.shares_perm hf hpos hall

theorem Kept.once (h : Kept o past r closer k) (hf : o.Fits) (hpos : 0 < o.consumers.toNat)
    (hall : ∀ stage ∈ r.consumers, stage = .ended) {n : Nat} (hn : n < o.producers.toNat * o.count.toNat) :
    ∃! c, Int64.ofNat n ∈ share c r := by
  have hperm := h.shares_perm hf hpos hall
  obtain ⟨-, hdisjoint⟩ := List.nodup_flatMap.mp (hperm.nodup_iff.mpr hf.nodup_numbers)
  have hmem : Int64.ofNat n ∈ o.numbers := List.mem_map_of_mem (List.mem_range.mpr hn)
  obtain ⟨c, hc, hcn⟩ := List.mem_flatMap.mp (hperm.mem_iff.mpr hmem)
  refine ⟨c, hcn, ?_⟩
  intro c' hcn'
  -- there is nothing in the share of a consumer that is not there
  have hlt : c' < o.consumers.toNat := by
    rw [← h.shares_size]
    by_contra hge
    rw [share, Array.getElem?_eq_none (Nat.not_lt.mp hge)] at hcn'
    cases hcn'
  by_contra hne
  have hsymm : Std.Symm (Function.onFun List.Disjoint fun c => share c r) := ⟨fun _ _ hd _ ha hb => hd hb ha⟩
  exact hdisjoint.forall (List.mem_range.mpr hlt) hc hne hcn' hcn

theorem report_of_perm {σ : Type} {r : Race σ} (hf : o.Fits)
    (hperm : (r.shares.toList.map Array.toList).flatten.Perm o.numbers) (name : String) : r.report name o =
      ⟨name, o.producers.toNat * o.count.toNat, o.producers.toNat * o.count.toNat, 0, 0⟩ := by
  have hnodup := hperm.nodup_iff.mpr hf.nodup_numbers
  have hlength : o.numbers.length = o.producers.toNat * o.count.toNat := by simp [Options.numbers]
  have hdistinct : (Std.HashSet.ofList (r.shares.toList.map Array.toList).flatten).size =
      (r.shares.toList.map Array.toList).flatten.length :=
    Std.HashSet.size_ofList (hnodup.imp fun hne => by simpa using hne)
  simp only [report, Report.ofShares]
  rw [hdistinct, Nat.sub_self, hperm.length_eq, hlength, hf.total]

theorem Kept.delivered (h : Kept o past r closer k) (hf : o.Fits) (hpos : 0 < o.consumers.toNat)
    (hall : ∀ stage ∈ r.consumers, stage = .ended) : Delivered o r := by
  have hreceived := h.received hf hpos hall
  have hreport := report_of_perm hf hreceived
  refine ⟨(h.empty_of_ended hpos hall).1, hreceived, fun n hn => h.once hf hpos hall hn, hreport, ?_⟩
  intro name
  rw [hreport]
  simp [Report.check, Report.isClean]

theorem Kept.tokens_le_one (h : Kept o past r closer k) (c : Nat) : (only c (taken past)).count token ≤ 1 := by
  by_cases hc : c < o.consumers.toNat
  · obtain ⟨stage, hstage⟩ := h.consumer_at hc
    rw [h.tokens_of hstage]
    split <;> omega
  · have hnil : (taken past).filter (·.1 = c) = [] := by
      refine List.filter_eq_nil_iff.mpr fun x hx hxc => ?_
      have hlt := h.takers x hx
      rw [of_decide_eq_true hxc] at hlt
      exact hc hlt
    rw [only, hnil]
    exact Nat.zero_le _

theorem isDone_iff {σ : Type} {r : Race σ} : r.isDone = true ↔
    (∀ stage ∈ r.producers, stage = .ended) ∧ ∀ stage ∈ r.consumers, stage = .ended := by
  simp only [isDone, Bool.and_eq_true, Array.all_eq_true_iff_forall_mem, beq_iff_eq]

theorem Kept.delivers (h : Kept o past r closer k) (hf : o.Fits) (hpos : 0 < o.consumers.toNat) :
    Delivers o past r := by
  have hbehind := h.ordered.pairwise
  refine ⟨h.fifo, ?_, hbehind, ?_, h.tokens_le_one, fun hd => h.delivered hf hpos (isDone_iff.mp hd).2⟩
  · rw [← h.fifo] at hbehind
    exact (List.pairwise_append.mp hbehind).2.1
  · intro htoken v hv
    cases hq : closer with
    | none =>
      have hcount := List.count_pos_iff.mpr htoken
      rw [h.ordered.count_token, (h.elected.open_ hq).1] at hcount
      cases hcount
    | some q => exact (List.mem_filter.mp ((h.values_perm hf hq).mem_iff.mpr hv)).1

/-! ## Nobody waits forever -/

def Unfinished (r : Race σ) : Thread → Prop
  | .producer p => ∃ stage, r.producers[p]? = some stage ∧ stage ≠ .ended
  | .consumer c => ∃ stage, r.consumers[c]? = some stage ∧ stage ≠ .ended

def number (r : Race σ) : Thread → Nat
  | .producer p => p
  | .consumer c => r.consumerThread c

end

section
variable {o : Options} {past : List Event} {closer : Option Nat} {k : Nat}

variable {r : Race (Blocking.System Int64)}

theorem Kept.unfinished_of_ticket (h : Kept o past r closer k) {t : Nat} (ht : t ∈ r.channel.tickets) :
    ∃ thread, r.Unfinished thread ∧ r.number thread = t := by
  have hvalid : BoundedValid (o.producers.toNat + o.consumers.toNat) r.channel := h.valid
  have hbound : t < o.producers.toNat + o.consumers.toNat := hvalid.tidy.bound t ht
  by_cases hp : t < o.producers.toNat
  · obtain ⟨stage, hstage⟩ := h.producer_at hp
    refine ⟨.producer t, ⟨stage, hstage, ?_⟩, rfl⟩
    rintro rfl
    obtain ⟨n, call, hpos, hat, -⟩ := h.producer t _ hstage
    have hidle : call = .idle := by
      generalize (closer == some t) = last at hpos
      generalize due closer k t = m at hpos
      cases hpos <;> rfl
    subst hidle
    exact hat ht
  · obtain ⟨c, rfl⟩ := Nat.exists_eq_add_of_le (Nat.not_lt.mp hp)
    obtain ⟨stage, hstage⟩ := h.consumer_at (c := c) (by omega)
    refine ⟨.consumer c, ⟨stage, hstage, ?_⟩, congrArg (· + c) h.producers_size⟩
    rintro rfl
    obtain ⟨share, extra, call, -, -, hread, hat, -⟩ := h.consumer c _ hstage
    cases hread
    exact hat ht

theorem Kept.pushes_of_asleep (h : Kept o past r closer k) {p : Nat} {stage : Producer}
    (hp : r.producers[p]? = some stage) (ha : Channel.asleep p r.channel = true) : r.channel.space.calls ≠ [] := by
  obtain ⟨n, call, hpos, hat, -⟩ := h.producer p stage hp
  have hticket := mem_tickets_of_asleep ha
  generalize (closer == some p) = last at hpos
  generalize due closer k p = m at hpos
  cases hpos <;> first | exact List.ne_nil_of_mem hat | exact absurd hticket hat | exact hat.elim

theorem Kept.pops_of_asleep (h : Kept o past r closer k) {c : Nat} {stage : Consumer}
    (hc : r.consumers[c]? = some stage) (ha : Channel.asleep (r.consumerThread c) r.channel = true) :
    r.channel.data.calls ≠ [] := by
  obtain ⟨share, extra, call, -, -, hread, hat, -⟩ := h.consumer c stage hc
  rw [consumerThread, h.producers_size] at ha
  have hticket := mem_tickets_of_asleep ha
  cases hread with
  | popping => exact List.ne_nil_of_mem hat
  | _ => exact absurd hticket hat

/-- If everyone who has not ended sleeps, all have ended. -/
theorem Kept.isDone_of_asleep (h : Kept o past r closer k) (hpos : 0 < o.consumers.toNat)
    (hall : ∀ t, r.Unfinished t → Channel.asleep (r.number t) r.channel = true) : r.isDone = true := by
  have hvalid : BoundedValid (o.producers.toNat + o.consumers.toNat) r.channel := h.valid
  have hrest : ∀ t ∈ r.channel.tickets, Channel.asleep t r.channel = true := by
    intro t ht
    obtain ⟨thread, hthread, rfl⟩ := h.unfinished_of_ticket ht
    exact hall thread hthread
  obtain ⟨hdata, hspace⟩ := hvalid.at_rest hrest
  have hproducer : ∀ stage ∈ r.producers, stage ≠ .ended → contents r.channel ≠ [] := by
    intro stage hmem hne
    obtain ⟨p, hp, hstage⟩ := Array.getElem_of_mem hmem
    have hstage := Array.getElem?_eq_some_iff.mpr ⟨hp, hstage⟩
    exact hspace (h.pushes_of_asleep hstage (hall (.producer p) ⟨stage, hstage, hne⟩))
  have hconsumer : ∀ stage ∈ r.consumers, stage ≠ .ended → contents r.channel = [] := by
    intro stage hmem hne
    obtain ⟨c, hc, hstage⟩ := Array.getElem_of_mem hmem
    have hstage := Array.getElem?_eq_some_iff.mpr ⟨hc, hstage⟩
    exact hdata (h.pops_of_asleep hstage (hall (.consumer c) ⟨stage, hstage, hne⟩))
  have hproducers : ∀ stage ∈ r.producers, stage = .ended := by
    intro stage hmem
    by_contra hne
    -- the queue is not empty, so no consumer waits, but then it is
    have hfull := hproducer stage hmem hne
    have hended : ∀ stage ∈ r.consumers, stage = .ended := fun st hst => by
      by_contra hst'
      exact hfull (hconsumer st hst hst')
    exact hfull (h.empty_of_ended hpos hended).1
  refine isDone_iff.mpr ⟨hproducers, fun stage hmem => ?_⟩
  by_contra hne
  exact hne (h.ended_of_empty (hconsumer stage hmem hne) hproducers stage hmem)

end

/-! ## Both channels -/

theorem fresh_bounded {o : Options} (h : 1 ≤ o.capacity.toNat) :
    Fresh o (.start { limit := o.capacity.toNat } : Blocking.System Int64) where
  valid := ⟨⟨rfl, h, List.nodup_nil, nofun⟩, Blocking.System.awake_of_quiet rfl rfl⟩
  empty := rfl
  idle := fun _ _ => List.not_mem_nil

theorem fresh_linked (o : Options) :
    Fresh o (.start (o.producers.toNat + o.consumers.toNat) .new : Linked.System Int64) where
  valid := ⟨[], .refl⟩
  empty := rfl
  idle := by
    intro t ht
    show (Array.replicate _ none)[t]? = some none
    rw [Array.getElem?_replicate, if_pos ht]

/-- Over either channel no token is ahead of a value, no consumer has more than one, and in the
end the values are received once each. Until then someone is awake over the blocking queue, and
over the linked one there is a value, a token or a producer for every consumer that has not
ended. -/
theorem race_delivers {o : Options} (hv : o.validate = .ok ()) (hp : 1 ≤ o.producers) (hc : 1 ≤ o.consumers) :
    (∀ past r, Steps o (start o (.start { limit := o.capacity.toNat } : Blocking.System Int64)) past r →
      Delivers o past r ∧
        (r.isDone = false → ∃ t, r.Unfinished t ∧ Channel.asleep (r.number t) r.channel = false)) ∧
    (∀ past r, Steps o (start o (.start (o.producers.toNat + o.consumers.toNat) .new : Linked.System Int64)) past r →
      Delivers o past r ∧
        ((∃ stage ∈ r.consumers, stage ≠ .ended) →
          contents r.channel ≠ [] ∨ ∃ stage ∈ r.producers, stage ≠ .ended)) := by
  obtain ⟨hcap, hf⟩ := Options.fits_of_validate hv
  have hpos : 0 < o.consumers.toNat := UInt64.le_iff_toNat_le.mp hc
  constructor
  · intro past r h
    obtain ⟨closer, k, hk⟩ := h.kept (fresh_bounded hcap) hf hp
    refine ⟨hk.delivers hf hpos, fun hdone => ?_⟩
    by_contra hnone
    have hall : ∀ t, r.Unfinished t → Channel.asleep (r.number t) r.channel = true := fun t ht => by
      by_contra ha
      exact hnone ⟨t, ht, by simpa using ha⟩
    rw [hk.isDone_of_asleep hpos hall] at hdone
    cases hdone
  · intro past r h
    obtain ⟨closer, k, hk⟩ := h.kept (fresh_linked o) hf hp
    refine ⟨hk.delivers hf hpos, ?_⟩
    rintro ⟨stage, hmem, hne⟩
    by_contra hnone
    obtain ⟨hempty, hended⟩ := not_or.mp hnone
    refine hne (hk.ended_of_empty (not_not.mp hempty) ?_ stage hmem)
    intro st hst
    by_contra hst'
    exact hended ⟨st, hst, hst'⟩

def narrow : Options := { producers := 2, consumers := 2, count := 1, capacity := 1 }

/-- A consumer waits for the first value, the second producer for room, for its value
and again for its second token; the first consumer ends last. -/
def narrowLog : List Event :=
  [⟨.consumer 0, [], [token]⟩, ⟨.producer 1, [], []⟩, ⟨.producer 1, [token], []⟩,
    ⟨.consumer 1, [], [token]⟩, ⟨.producer 1, [], []⟩, ⟨.producer 1, [token], []⟩, ⟨.consumer 0, [], [1]⟩,
    ⟨.producer 1, [], []⟩, ⟨.producer 1, [], []⟩, ⟨.producer 1, [1], []⟩, ⟨.consumer 0, [], [0]⟩,
    ⟨.producer 0, [], []⟩, ⟨.producer 0, [], []⟩, ⟨.producer 1, [], []⟩, ⟨.producer 0, [0], []⟩,
    ⟨.consumer 0, [], []⟩]

theorem race_delivers_narrow : narrow.validate = .ok () ∧
    (∃ r : Race (Blocking.System Int64), Steps narrow (start narrow (.start { limit := 1 })) narrowLog r ∧
      r.shares = #[#[0, 1], #[]] ∧ contents r.channel = [] ∧ r.report "narrow" narrow = ⟨"narrow", 2, 2, 0, 0⟩) ∧
    ∃ (past : List Event) (r : Race (Linked.System Int64)), Steps narrow (start narrow (.start 4 .new)) past r ∧
      r.shares = #[#[0], #[1]] ∧ contents r.channel = [] ∧ r.report "narrow" narrow = ⟨"narrow", 2, 2, 0, 0⟩ := by
  have hvalid : narrow.validate = .ok () := by decide
  obtain ⟨bounded, linked⟩ := race_delivers hvalid (by decide) (by decide)
  refine ⟨hvalid, ?_, ?_⟩
  · have crowded : Steps narrow (start narrow (.start { limit := 1 } : Blocking.System Int64)) _ _ :=
      ((Steps.refl.step 0 (.consumer 0)).step 0 (.producer 0)).step 0 (.producer 1)
    have first := ((crowded.step 0 (.producer 0)).step 0 (.producer 0)).step 0 (.consumer 0)
    have chosen := ((first.step 0 (.producer 1)).step 0 (.producer 1)).step 0 (.producer 1)
    have tokens := ((chosen.step 0 (.consumer 0)).step 0 (.producer 1)).step 0 (.producer 1)
    have run : Steps narrow (start narrow (.start { limit := 1 } : Blocking.System Int64)) narrowLog _ :=
      (((tokens.step 0 (.consumer 1)).step 0 (.producer 1)).step 0 (.producer 1)).step 0 (.consumer 0)
    obtain ⟨r, run, hp, hc, hs⟩ : ∃ r : Race (Blocking.System Int64),
        Steps narrow (start narrow (.start { limit := 1 })) narrowLog r ∧ r.producers = #[.ended, .ended] ∧
        r.consumers = #[.ended, .ended] ∧ r.shares = #[#[0, 1], #[]] := ⟨_, run, rfl, rfl, rfl⟩
    have hdone : r.isDone = true := by
      rw [isDone, hp, hc]
      simp
    have h := (bounded _ _ run).1.delivered hdone
    exact ⟨r, run, hs, h.empty, h.report "narrow"⟩
  · have hshares : (run narrow (.start 4 .new : Linked.System Int64)).map shares = some #[#[0], #[1]] := by
      decide +kernel
    obtain ⟨r, hrun, hs⟩ := Option.map_eq_some_iff.mp hshares
    obtain ⟨past, hsteps, hdone⟩ := steps_of_run hrun
    have h := (linked _ _ hsteps).1.delivered hdone
    exact ⟨past, r, hsteps, hs, h.empty, h.report "narrow"⟩

end Race

end Conduit.Pipeline
