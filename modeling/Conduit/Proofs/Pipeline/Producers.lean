import Conduit.Proofs.Pipeline.Race

/-!
# The producers

A producer pushes its values and takes itself off the count of active ones. The
one that finds the count at one is the last: all others have ended, and all
values are in the channel or through it when it pushes the tokens.
-/

namespace Conduit.Pipeline.Race

open Contents (contents)

section
variable {producers : Array Producer} {p : Nat} {stage stage' : Producer}

theorem countP_set_of_eq (hp : producers[p]? = some stage) (hw : works stage' = works stage) :
    (producers.toList.set p stage').countP works = producers.toList.countP works := by
  obtain ⟨hlt, rfl⟩ := Array.getElem?_eq_some_iff.mp hp
  rw [List.countP_set hlt, hw]
  by_cases h : works producers.toList[p] = true
  · have hpos : 0 < producers.toList.countP works := List.countP_pos_iff.mpr ⟨_, List.getElem_mem hlt, h⟩
    rw [Array.getElem_toList] at h
    simp only [h, if_true, Array.getElem_toList]
    omega
  · rw [Array.getElem_toList] at h
    simp [h]

theorem countP_set_of_works (hp : producers[p]? = some stage) (hw : works stage = true) (hw' : works stage' = false) :
    (producers.toList.set p stage').countP works + 1 = producers.toList.countP works := by
  obtain ⟨hlt, rfl⟩ := Array.getElem?_eq_some_iff.mp hp
  have hpos : 0 < producers.toList.countP works := by
    refine List.countP_pos_iff.mpr ⟨producers[p], ?_, hw⟩
    exact Array.getElem_mem_toList hlt
  rw [List.countP_set hlt, hw']
  simp only [Array.getElem_toList, hw, if_true, Bool.false_eq_true, if_false]
  omega

end

section
variable {σ : Type} [Channel σ] [Contents σ] [Faithful σ]

variable {o : Options} {past : List Event} {r : Race σ} {closer : Option Nat} {k p : Nat}
  {d : List Int64}

/-! ## A step of a producer -/

theorem Kept.lt_of_producer (h : Kept o past r closer k) {stage : Producer} (hp : r.producers[p]? = some stage) :
    p < o.producers.toNat := by
  rw [← h.producers_size]
  exact (Array.getElem?_eq_some_iff.mp hp).1

theorem Kept.moveProducer (h : Kept o past r closer k) {stage stage' : Producer} (hp : r.producers[p]? = some stage)
    {channel' : σ} {active' : UInt64} (closer' : Option Nat) (k' : Nat) (traces' : Array Trace)
    (hvalid : Faithful.Valid (o.producers.toNat + o.consumers.toNat) channel')
    (hothers : ∀ t' c', t' ≠ p → Faithful.At r.channel t' c' → Faithful.At channel' t' c')
    (hput : contents channel' = contents r.channel ++ d)
    (hself : ∃ n call, Position o p stage' (closer' == some p) n (due closer' k' p) call ∧
      Faithful.At channel' p call ∧
      only p (sent past) ++ d = o.first p n ++ List.replicate (due closer' k' p) token)
    (hrest : ∀ q, q ≠ p → (closer' == some q) = (closer == some q) ∧ due closer' k' q = due closer k q)
    (hactive : active'.toNat = (r.producers.toList.set p stage').countP works)
    (helected : Elected o closer' k' active') (hordered : Ordered k' ((sent past).map Prod.snd ++ d)) :
    Follows o past r (.producer p)
      { r with
        channel := channel'
        producers := r.producers.setIfInBounds p stage'
        active := active'
        traces := traces' } := by
  have hlt := h.lt_of_producer hp
  have hsent := sent_event (r := r) (p := p) past
    ⟨channel', r.producers.setIfInBounds p stage', r.consumers, active', r.shares, traces'⟩ hput
  refine ⟨closer', k', ?_⟩
  constructor
  · simpa using h.producers_size
  · exact h.consumers_size
  · exact h.shares_size
  · exact hvalid
  · rw [hsent, List.map_append, map_snd_map, ← h.fifo, List.append_assoc]
    exact congrArg _ hput
  · rw [hsent, List.map_append, map_snd_map]
    exact hordered
  · rw [hsent]
    intro x hx
    rcases List.mem_append.mp hx with hx | hx
    · exact h.senders x hx
    · obtain ⟨v, -, rfl⟩ := List.mem_map.mp hx
      exact hlt
  · exact h.takers
  · rw [hactive, Array.toList_setIfInBounds]
  · exact helected
  · intro q st hq
    rw [hsent, only_append]
    rw [Array.getElem?_setIfInBounds] at hq
    by_cases hqp : p = q
    · subst hqp
      rw [if_pos rfl, if_pos (by rw [h.producers_size]; exact hlt)] at hq
      obtain rfl := Option.some.inj hq
      rw [only_map_self]
      exact hself
    · rw [if_neg hqp] at hq
      obtain ⟨n, call, hpos, hat, honly⟩ := h.producer q st hq
      obtain ⟨hlast, hdue⟩ := hrest q (Ne.symm hqp)
      rw [hlast, hdue, only_map_of_ne hqp, List.append_nil]
      exact ⟨n, call, hpos, hothers q call (Ne.symm hqp) hat, honly⟩
  · intro c st hc
    obtain ⟨share, extra, call, hshare, htoken, hread, hat, honly⟩ := h.consumer c st hc
    exact ⟨share, extra, call, hshare, htoken, hread, hothers _ call (by omega) hat, honly⟩

theorem Kept.stillProducer (h : Kept o past r closer k) {stage stage' : Producer} {n : Nat} {call : Call}
    (hp : r.producers[p]? = some stage) {channel' : σ} (traces' : Array Trace)
    (hvalid : Faithful.Valid (o.producers.toNat + o.consumers.toNat) channel')
    (hothers : ∀ t' c', t' ≠ p → Faithful.At r.channel t' c' → Faithful.At channel' t' c')
    (hput : contents channel' = contents r.channel) (hw : works stage' = works stage)
    (honly : only p (sent past) = o.first p n ++ List.replicate (due closer k p) token)
    (hpos : Position o p stage' (closer == some p) n (due closer k p) call) (hat : Faithful.At channel' p call) :
    Follows o past r (.producer p)
      { r with channel := channel', producers := r.producers.setIfInBounds p stage', traces := traces' } := by
  refine h.moveProducer (d := []) hp closer k traces' hvalid hothers (hput.trans (List.append_nil _).symm) ?_
    (fun _ _ => ⟨rfl, rfl⟩) ?_ h.elected ?_
  · rw [List.append_nil]
    exact ⟨n, call, hpos, hat, honly⟩
  · rw [countP_set_of_eq hp hw]
    exact h.active
  · rw [List.append_nil]
    exact h.ordered

theorem Kept.quietProducer (h : Kept o past r closer k) {stage stage' : Producer}
    (hp : r.producers[p]? = some stage) (traces' : Array Trace) (hw : works stage' = works stage)
    (hpos : ∀ last n m call, Position o p stage last n m call → Position o p stage' last n m call) :
    Follows o past r (.producer p) { r with producers := r.producers.setIfInBounds p stage', traces := traces' } := by
  obtain ⟨n, call, hposition, hat, honly⟩ := h.producer p stage hp
  exact h.stillProducer hp traces' h.valid (fun _ _ _ ha => ha) rfl hw honly (hpos _ _ _ _ hposition) hat

theorem Kept.offer (h : Kept o past r closer k) {stage : Producer} {n : Nat} {v : Int64} {q : σ × Progress}
    {f : Progress → Producer} (n' k' : Nat) (hp : r.producers[p]? = some stage)
    (hs : Acts o p (.offering v) r.channel q)
    (hw : works (f .underWay) = works stage ∧ works (f .accepted) = works stage)
    (honly : only p (sent past) = o.first p n ++ List.replicate (due closer k p) token)
    (hnext : o.first p n ++ List.replicate (due closer k p) token ++ [v] =
      o.first p n' ++ List.replicate (due closer k' p) token)
    (hrest : ∀ p', p' ≠ p → due closer k' p' = due closer k p') (helected : Elected o closer k' r.active)
    (hordered : Ordered k' ((sent past).map Prod.snd ++ [v]))
    (hwait : Position o p (f .underWay) (closer == some p) n (due closer k p) (.offering v))
    (hput : Position o p (f .underWay) (closer == some p) n' (due closer k' p) .offered)
    (hacc : Position o p (f .accepted) (closer == some p) n' (due closer k' p) .idle) :
    Follows o past r (.producer p)
      { r with channel := q.1, producers := r.producers.setIfInBounds p (f q.2) } := by
  obtain ⟨call, hat, hmoved⟩ := hs.moved
  have hin : ∀ stage', works stage' = works stage → contents q.1 = contents r.channel ++ [v] →
      Position o p stage' (closer == some p) n' (due closer k' p) call →
      Follows o past r (.producer p) { r with channel := q.1, producers := r.producers.setIfInBounds p stage' } := by
    intro stage' hw hv hpos
    refine h.moveProducer hp closer k' r.traces hs.valid hs.others hv ⟨n', call, hpos, hat, ?_⟩
      (fun p' hne => ⟨rfl, hrest p' hne⟩) ?_ helected hordered
    · rw [honly, hnext]
    · rw [countP_set_of_eq hp hw]
      exact h.active
  rcases hmoved.of_offering with ⟨ha, rfl, hv⟩ | ⟨ha, rfl, hv⟩ | ⟨ha, rfl, hv⟩
  · rw [ha]; exact h.stillProducer hp r.traces hs.valid hs.others hv hw.1 honly hwait hat
  · rw [ha]; exact hin _ hw.1 hv hput
  · rw [ha]; exact hin _ hw.2 hv hacc

theorem Kept.collect (h : Kept o past r closer k) {stage : Producer} {n : Nat} {q : σ × Progress}
    {f : Progress → Producer} (hp : r.producers[p]? = some stage)
    (hs : Acts o p .offered r.channel q)
    (hw : works (f .underWay) = works stage ∧ works (f .accepted) = works stage)
    (honly : only p (sent past) = o.first p n ++ List.replicate (due closer k p) token)
    (hwait : Position o p (f .underWay) (closer == some p) n (due closer k p) .offered)
    (hacc : Position o p (f .accepted) (closer == some p) n (due closer k p) .idle) :
    Follows o past r (.producer p)
      { r with channel := q.1, producers := r.producers.setIfInBounds p (f q.2) } := by
  obtain ⟨call, hat, hmoved⟩ := hs.moved
  obtain ⟨hv, hend⟩ := hmoved.of_offered
  rcases hend with ⟨ha, rfl⟩ | ⟨ha, rfl⟩
  · rw [ha]; exact h.stillProducer hp r.traces hs.valid hs.others hv hw.1 honly hwait hat
  · rw [ha]; exact h.stillProducer hp r.traces hs.valid hs.others hv hw.2 honly hacc hat

/-! ### Before and after the choice -/

theorem Kept.at_work (h : Kept o past r closer k) {stage : Producer} (hp : r.producers[p]? = some stage)
    (hw : works stage = true) : closer = none ∧ k = 0 ∧ 0 < r.active.toNat ∧
      ∃ n call, Position o p stage false n 0 call ∧ Faithful.At r.channel p call ∧
        only p (sent past) = o.first p n := by
  have hnone : closer = none := by
    cases closer with
    | none => rfl
    | some q =>
      -- one is chosen when nobody is counted any more, and this producer still is
      have hzero := (h.elected.closed q rfl).2
      rw [h.active, List.countP_eq_zero] at hzero
      have hmem : stage ∈ r.producers.toList := Array.mem_toList_iff.mpr (Array.mem_of_getElem? hp)
      exact absurd hw (hzero stage hmem)
  subst hnone
  obtain ⟨n, call, hpos, hat, honly⟩ := h.producer p stage hp
  have hdue : due none k p = 0 := if_neg nofun
  rw [hdue] at hpos honly
  rw [List.replicate_zero, List.append_nil] at honly
  exact ⟨rfl, (h.elected.open_ rfl).1, (h.elected.open_ rfl).2, n, call, hpos, hat, honly⟩

theorem Kept.at_close (h : Kept o past r closer k) {stage : Producer} (hp : r.producers[p]? = some stage)
    (hw : works stage = false) (hne : stage ≠ .ended) : closer = some p ∧
      ∃ call, Position o p stage true o.count.toNat k call ∧ Faithful.At r.channel p call ∧
        only p (sent past) = o.first p o.count.toNat ++ List.replicate k token := by
  obtain ⟨n, call, hpos, hat, honly⟩ := h.producer p stage hp
  have hcloser : closer = some p := by
    by_contra hc
    have hlast : (closer == some p) = false := by simpa using hc
    rw [hlast] at hpos
    generalize due closer k p = m at hpos
    cases hpos <;> first | exact absurd rfl hne | cases hw
  have hdue : due closer k p = k := if_pos hcloser
  have hlast : (closer == some p) = true := by simpa using hcloser
  rw [hlast, hdue] at hpos
  rw [hdue] at honly
  have hn : n = o.count.toNat := by
    cases hpos <;> rfl
  subst hn
  exact ⟨hcloser, call, hpos, hat, honly⟩

/-! ### The values -/

theorem toNat_succ {i n : UInt64} (h : i < n) : (i + 1).toNat = i.toNat + 1 ∧ i + 1 ≤ n := by
  have hlt := UInt64.lt_iff_toNat_lt.mp h
  have hn := n.toNat_lt
  have hsucc : (i + 1).toNat = i.toNat + 1 := by
    rw [UInt64.toNat_add, UInt64.toNat_one]
    exact Nat.mod_eq_of_lt (by omega)
  refine ⟨hsucc, UInt64.le_iff_toNat_le.mpr ?_⟩
  omega

theorem works_valueProgress (o : Options) (i : UInt64) (a : Progress) : works (valueProgress o i a) = true := by
  cases a with
  | accepted =>
    rw [valueProgress, afterValue]
    split <;> rfl
  | _ => rfl

theorem position_afterValue {i : UInt64} (hi : i < o.count) (p : Nat) :
    Position o p (afterValue o i) false (i.toNat + 1) 0 .idle := by
  rw [afterValue]
  split
  · exact .tracing hi
  · rw [← (toNat_succ hi).1]
    exact .next (toNat_succ hi).2

theorem Kept.offerValue (h : Kept o past r closer k) (hf : o.Fits) {stage : Producer} {i : UInt64}
    {q : σ × Progress} (hp : r.producers[p]? = some stage) (hi : i < o.count) (hw : works stage = true)
    (honly : only p (sent past) = o.first p i.toNat)
    (hs : Acts o p (.offering (valueOf o (.ofNat p) i)) r.channel q) :
    Follows o past r (.producer p)
      { r with channel := q.1, producers := r.producers.setIfInBounds p (valueProgress o i q.2) } := by
  obtain ⟨rfl, rfl, -⟩ := h.at_work hp hw
  have hdue : due none 0 p = 0 := if_neg nofun
  have hlt := hf.number_lt (h.lt_of_producer hp) (UInt64.lt_iff_toNat_lt.mp hi)
  refine h.offer (n := i.toNat) (f := valueProgress o i) (i.toNat + 1) 0 hp hs ?_ ?_ ?_ (fun _ _ => rfl) h.elected
    ?_ ?_ ?_ ?_
  · simp [works_valueProgress, hw]
  · rw [hdue, honly]
    exact (List.append_nil _).symm
  · rw [hdue, Options.first_succ, valueOf_ofNat]
    simp
  · obtain ⟨data, hdata, hvs⟩ := h.ordered
    refine ⟨data ++ [valueOf o (.ofNat p) i], ?_, ?_⟩
    · rw [List.mem_append, List.mem_singleton, not_or]
      exact ⟨hdata, fun he => ofNat_ne_token hlt ((valueOf_ofNat o p i).symm.trans he.symm)⟩
    · rw [hvs]
      simp
  · rw [hdue]
    exact .offering hi
  · rw [hdue]
    exact .offered hi
  · rw [hdue]
    exact position_afterValue hi p

theorem Kept.collectValue (h : Kept o past r closer k) {stage : Producer} {i : UInt64} {q : σ × Progress}
    (hp : r.producers[p]? = some stage) (hi : i < o.count) (hw : works stage = true)
    (honly : only p (sent past) = o.first p (i.toNat + 1))
    (hs : Acts o p .offered r.channel q) :
    Follows o past r (.producer p)
      { r with channel := q.1, producers := r.producers.setIfInBounds p (valueProgress o i q.2) } := by
  obtain ⟨rfl, rfl, -⟩ := h.at_work hp hw
  have hdue : due none 0 p = 0 := if_neg nofun
  refine h.collect (n := i.toNat + 1) (f := valueProgress o i) hp hs ?_ ?_ ?_ ?_
  · simp [works_valueProgress, hw]
  · rw [hdue, honly]
    exact (List.append_nil _).symm
  · rw [hdue]
    exact .offered hi
  · rw [hdue]
    exact position_afterValue hi p

/-! ### The tokens -/

theorem works_tokenProgress (left : Nat) (a : Progress) : works (tokenProgress left a) = false := by
  cases a <;> rfl

theorem Kept.offerToken (h : Kept o past r closer k) {stage : Producer} {left : Nat} {q : σ × Progress}
    (hp : r.producers[p]? = some stage) (hw : works stage = false) (hne : stage ≠ .ended)
    (hleft : k + 1 + left = o.consumers.toNat)
    (hs : Acts o p (.offering token) r.channel q) :
    Follows o past r (.producer p)
      { r with channel := q.1, producers := r.producers.setIfInBounds p (tokenProgress left q.2) } := by
  obtain ⟨rfl, call, -, -, honly⟩ := h.at_close hp hw hne
  have hdue : ∀ m, due (some p) m p = m := fun m => if_pos rfl
  have hlast : (some p == some p) = true := by simp
  refine h.offer (n := o.count.toNat) (f := tokenProgress left) o.count.toNat (k + 1) hp hs ?_ ?_ ?_ ?_ ?_ ?_ ?_ ?_ ?_
  · simp [works_tokenProgress, hw]
  · rw [hdue, honly]
  · rw [hdue, hdue, List.replicate_succ', List.append_assoc]
  · intro p' hp'
    have hother : ¬ some p = some p' := fun he => hp' (Option.some.inj he).symm
    rw [due, if_neg hother, due, if_neg hother]
  · exact ⟨nofun, h.elected.closed⟩
  · obtain ⟨data, hdata, hvs⟩ := h.ordered
    refine ⟨data, hdata, ?_⟩
    rw [hvs, List.append_assoc, List.replicate_succ']
  · rw [hlast, hdue]
    exact .offeringToken hleft
  · rw [hlast, hdue]
    exact .offeredToken hleft
  · rw [hlast, hdue]
    exact .closing hleft

theorem Kept.collectToken (h : Kept o past r closer k) {stage : Producer} {left : Nat} {q : σ × Progress}
    (hp : r.producers[p]? = some stage) (hw : works stage = false) (hne : stage ≠ .ended)
    (hleft : k + left = o.consumers.toNat)
    (hs : Acts o p .offered r.channel q) :
    Follows o past r (.producer p)
      { r with channel := q.1, producers := r.producers.setIfInBounds p (tokenProgress left q.2) } := by
  obtain ⟨rfl, call, -, -, honly⟩ := h.at_close hp hw hne
  have hdue : due (some p) k p = k := if_pos rfl
  have hlast : (some p == some p) = true := by simp
  refine h.collect (n := o.count.toNat) (f := tokenProgress left) hp hs ?_ ?_ ?_ ?_
  · simp [works_tokenProgress, hw]
  · rw [hdue, honly]
  · rw [hlast, hdue]
    exact .offeredToken hleft
  · rw [hlast, hdue]
    exact .closing hleft

/-! ### The choice -/

/-- The last producer to leave finds the count at one, and all others ended. -/
theorem Kept.leave (h : Kept o past r closer k) (hp : r.producers[p]? = some .leaving) :
    Follows o past r (.producer p)
      { r with
        producers := r.producers.setIfInBounds p (if r.active = 1 then .closing o.consumers.toNat else .ended)
        active := r.active - 1 } := by
  obtain ⟨rfl, rfl, hpos, n, call, hposition, hat, honly⟩ := h.at_work hp rfl
  have hone : (1 : UInt64) ≤ r.active := UInt64.le_iff_toNat_le.mpr hpos
  have hsub : (r.active - 1).toNat = r.active.toNat - 1 := UInt64.toNat_sub_of_le _ _ hone
  have hordered : Ordered 0 ((sent past).map Prod.snd ++ []) := by
    rw [List.append_nil]
    exact h.ordered
  have hcount : ∀ stage', works stage' = false →
      (r.active - 1).toNat = (r.producers.toList.set p stage').countP works := by
    intro stage' hw
    have := countP_set_of_works hp rfl hw
    have := h.active
    omega
  generalize hlast : (none == some p) = last at hposition
  cases hposition
  by_cases hactive : r.active = 1
  · -- from here on all tokens are due from this producer
    have hzero : (r.active - 1).toNat = 0 := by rw [hsub, hactive]; rfl
    rw [if_pos hactive]
    refine h.moveProducer (d := []) hp (some p) 0 r.traces h.valid (fun _ _ _ ha => ha)
      (List.append_nil _).symm ?_ ?_ (hcount _ rfl) ⟨nofun, ?_⟩ hordered
    · have hdue : due (some p) 0 p = 0 := if_pos rfl
      rw [hdue, honly, show (some p == some p) = true by simp]
      exact ⟨_, _, .closing (Nat.zero_add _), hat, rfl⟩
    · intro p' hne
      have hother : ¬ some p = some p' := fun he => hne (Option.some.inj he).symm
      rw [due, if_neg hother, due, if_neg nofun]
      exact ⟨by simpa using hother, rfl⟩
    · rintro q hq
      obtain rfl := Option.some.inj hq
      exact ⟨h.lt_of_producer hp, hzero⟩
  · rw [if_neg hactive]
    refine h.moveProducer (d := []) hp none 0 r.traces h.valid (fun _ _ _ ha => ha)
      (List.append_nil _).symm ?_ (fun _ _ => ⟨rfl, rfl⟩) (hcount _ rfl) ⟨fun _ => ⟨rfl, ?_⟩, nofun⟩ hordered
    · have hdue : due none 0 p = 0 := if_neg nofun
      rw [hdue, honly]
      exact ⟨_, _, .ended, hat, rfl⟩
    · have : r.active.toNat ≠ 1 := fun he => hactive (UInt64.toNat_inj.mp he)
      omega

theorem Kept.stepProducer (h : Kept o past r closer k) (hf : o.Fits) (pick p : Nat) :
    Follows o past r (.producer p) (r.stepProducer o pick p) := by
  obtain ⟨channel, producers, consumers, active, shares, traces⟩ := r
  cases hp : producers[p]? with
  | none =>
    simp only [Race.stepProducer, hp]
    exact h.same _
  | some stage =>
    have hlt : p < o.producers.toNat + o.consumers.toNat := Nat.lt_add_right _ (h.lt_of_producer hp)
    cases stage with
    | next i =>
      obtain ⟨rfl, rfl, -, n, call, hpos, hat, honly⟩ := h.at_work hp rfl
      obtain ⟨hi⟩ := hpos
      simp only [Race.stepProducer, hp]
      by_cases hlast : i < o.count
      · rw [if_pos hlast]
        exact h.offerValue hf hp hlast rfl honly (Faithful.push pick _ h.valid hlt hat)
      · rw [if_neg hlast]
        have hcount : i = o.count := UInt64.le_antisymm hi (UInt64.not_lt.mp hlast)
        refine h.quietProducer hp traces rfl ?_
        intro last n m call hpos
        cases hpos
        rw [hcount]
        exact .leaving
    | pushing i =>
      obtain ⟨rfl, rfl, -, n, call, hpos, hat, honly⟩ := h.at_work hp rfl
      simp only [Race.stepProducer, hp]
      cases hpos with
      | offering hi => exact h.offerValue hf hp hi rfl honly (Faithful.goOn pick h.valid hat nofun)
      | offered hi => exact h.collectValue hp hi rfl honly (Faithful.goOn pick h.valid hat nofun)
    | tracing i =>
      simp only [Race.stepProducer, hp]
      refine h.quietProducer hp _ rfl ?_
      intro last n m call hpos
      cases hpos with
      | tracing hi =>
        rw [← (toNat_succ hi).1]
        exact .next (toNat_succ hi).2
    | leaving =>
      simp only [Race.stepProducer, hp]
      exact h.leave hp
    | closing left =>
      obtain ⟨rfl, call, hpos, hat, -⟩ := h.at_close hp rfl nofun
      obtain ⟨hleft⟩ := hpos
      cases left with
      | zero =>
        simp only [Race.stepProducer, hp]
        refine h.quietProducer hp traces rfl ?_
        intro last n m call hpos
        cases hpos with
        | closing hm =>
          rw [show m = o.consumers.toNat from hm]
          exact .closed
      | succ left =>
        simp only [Race.stepProducer, hp]
        exact h.offerToken hp rfl nofun (by omega) (Faithful.push pick _ h.valid hlt hat)
    | pushingToken left =>
      obtain ⟨rfl, call, hpos, hat, -⟩ := h.at_close hp rfl nofun
      simp only [Race.stepProducer, hp]
      cases hpos with
      | offeringToken hleft => exact h.offerToken hp rfl nofun hleft (Faithful.goOn pick h.valid hat nofun)
      | offeredToken hleft => exact h.collectToken hp rfl nofun hleft (Faithful.goOn pick h.valid hat nofun)
    | ended =>
      simp only [Race.stepProducer, hp]
      exact h.same _

end

end Conduit.Pipeline.Race
