import Conduit.Proofs.Pipeline.Producers

/-!
# The consumers

A consumer puts every value that it takes to its share and ends when it takes a
token. With the steps of the producers this makes up a run.
-/

namespace Conduit.Pipeline.Race

open Contents (contents)

/-! ## Shares -/

section
variable {shares : Array (Array Int64)} {share : Array Int64} {c c' : Nat}

theorem size_keep (c : Nat) (v : Option Int64) (shares : Array (Array Int64)) :
    (keep c v shares).size = shares.size := by
  cases v with
  | none => rfl
  | some v => exact Array.size_modify

theorem keep_self (v : Option Int64) (h : shares[c]? = some share) :
    ∃ share', (keep c v shares)[c]? = some share' ∧ share'.toList = share.toList ++ v.toList := by
  cases v with
  | none => exact ⟨share, h, (List.append_nil _).symm⟩
  | some v =>
    refine ⟨share.push v, ?_, Array.toList_push⟩
    rw [keep, Array.getElem?_modify, if_pos rfl, h]
    rfl

theorem keep_of_ne (v : Option Int64) (h : c ≠ c') (shares : Array (Array Int64)) :
    (keep c v shares)[c']? = shares[c']? := by
  cases v with
  | none => rfl
  | some v => rw [keep, Array.getElem?_modify, if_neg h]

end

section
variable {σ : Type} [Channel σ] [Contents σ] [Faithful σ]

variable {o : Options} {past : List Event} {r : Race σ} {closer : Option Nat} {k c : Nat} {d : List Int64}

/-! ## A step of a consumer -/

theorem Kept.lt_of_consumer (h : Kept o past r closer k) {stage : Consumer} (hc : r.consumers[c]? = some stage) :
    c < o.consumers.toNat := by
  rw [← h.consumers_size]
  exact (Array.getElem?_eq_some_iff.mp hc).1

theorem Kept.moveConsumer (h : Kept o past r closer k) {stage stage' : Consumer} (hc : r.consumers[c]? = some stage)
    {channel' : σ} (v : Option Int64) (traces' : Array Trace)
    (hvalid : Faithful.Valid (o.producers.toNat + o.consumers.toNat) channel')
    (hothers : ∀ t' c', t' ≠ o.producers.toNat + c → Faithful.At r.channel t' c' → Faithful.At channel' t' c')
    (hgot : contents r.channel = d ++ contents channel') (hv : token ∉ v.toList)
    (hself : ∀ extra call, Reading stage extra call → Faithful.At r.channel (o.producers.toNat + c) call →
      ∃ extra' call', Reading stage' extra' call' ∧ Faithful.At channel' (o.producers.toNat + c) call' ∧
        extra ++ d = v.toList ++ extra') :
    Follows o past r (.consumer c)
      { r with
        channel := channel'
        consumers := r.consumers.setIfInBounds c stage'
        shares := keep c v r.shares
        traces := traces' } := by
  have hlt := h.lt_of_consumer hc
  have htaken := taken_event (r := r) (c := c) past
    ⟨channel', r.producers, r.consumers.setIfInBounds c stage', r.active, keep c v r.shares, traces'⟩ hgot
  refine ⟨closer, k, ?_⟩
  constructor
  · exact h.producers_size
  · simpa using h.consumers_size
  · rw [size_keep]
    exact h.shares_size
  · exact hvalid
  · have hfifo := h.fifo
    rw [hgot] at hfifo
    rw [htaken, List.map_append, map_snd_map, List.append_assoc]
    exact hfifo
  · exact h.ordered
  · exact h.senders
  · rw [htaken]
    intro x hx
    rcases List.mem_append.mp hx with hx | hx
    · exact h.takers x hx
    · obtain ⟨v, -, rfl⟩ := List.mem_map.mp hx
      exact hlt
  · exact h.active
  · exact h.elected
  · intro p st hp
    obtain ⟨n, call, hpos, hat, honly⟩ := h.producer p st hp
    have hne : p ≠ o.producers.toNat + c := by
      have := h.lt_of_producer hp
      omega
    exact ⟨n, call, hpos, hothers p call hne hat, honly⟩
  · intro c' st hc'
    rw [htaken, only_append]
    rw [Array.getElem?_setIfInBounds] at hc'
    by_cases hcc : c = c'
    · subst hcc
      rw [if_pos rfl, if_pos (by rw [h.consumers_size]; exact hlt)] at hc'
      obtain rfl := Option.some.inj hc'
      obtain ⟨share, extra, call, hshare, htoken, hread, hat, honly⟩ := h.consumer c stage hc
      obtain ⟨extra', call', hread', hat', hextra⟩ := hself extra call hread hat
      obtain ⟨share', hkeep, hlist⟩ := keep_self v hshare
      refine ⟨share', extra', call', hkeep, ?_, hread', hat', ?_⟩
      · rw [hlist, List.mem_append, not_or]
        exact ⟨htoken, hv⟩
      · rw [only_map_self, honly, hlist, List.append_assoc, List.append_assoc, hextra]
    · rw [if_neg hcc] at hc'
      obtain ⟨share, extra, call, hshare, htoken, hread, hat, honly⟩ := h.consumer c' st hc'
      rw [only_map_of_ne hcc, List.append_nil]
      refine ⟨share, extra, call, ?_, htoken, hread, hothers _ call (by omega) hat, honly⟩
      rw [← hshare]
      exact keep_of_ne v hcc r.shares

theorem token_notMem_of_ne {v : Int64} (h : v ≠ token) : token ∉ (some v).toList := by
  rw [Option.toList_some, List.mem_singleton]
  exact Ne.symm h

theorem popProgress_value (o : Options) (v : Int64) :
    (v = token ∧ popProgress o (.value v) = (.ended, none)) ∨
      (v ≠ token ∧ popProgress o (.value v) = (.tracing v, none)) ∨
      (v ≠ token ∧ popProgress o (.value v) = (.asking, some v)) := by
  have heq : popProgress o (.value v) = if v = token then (.ended, none) else
      if o.traceValues then (.tracing v, none) else (.asking, some v) := rfl
  rw [heq]
  by_cases hv : v = token
  · exact .inl ⟨hv, if_pos hv⟩
  · rw [if_neg hv]
    cases o.traceValues with
    | true => exact .inr (.inl ⟨hv, rfl⟩)
    | false => exact .inr (.inr ⟨hv, rfl⟩)

theorem Kept.seek (h : Kept o past r closer k) {stage : Consumer} {q : σ × Progress}
    (hc : r.consumers[c]? = some stage) (hs : Acts o (o.producers.toNat + c) .seeking r.channel q)
    (hstage : ∀ extra call, Reading stage extra call → extra = []) :
    Follows o past r (.consumer c)
      { r with
        channel := q.1
        consumers := r.consumers.setIfInBounds c (popProgress o q.2).1
        shares := keep c (popProgress o q.2).2 r.shares } := by
  obtain ⟨call, hat, hmoved⟩ := hs.moved
  have hgoes : ∀ {stage' : Consumer} {extra' d : List Int64} (v : Option Int64), Reading stage' extra' call →
      contents r.channel = d ++ contents q.1 → d = v.toList ++ extra' → token ∉ v.toList →
      Follows o past r (.consumer c)
        { r with
          channel := q.1
          consumers := r.consumers.setIfInBounds c stage'
          shares := keep c v r.shares } := by
    intro stage' extra' d v hread' hgot hd hv
    refine h.moveConsumer hc v r.traces hs.valid hs.others hgot hv ?_
    intro extra call₀ hread _
    rw [hstage _ _ hread]
    exact ⟨extra', call, hread', hat, hd⟩
  rcases hmoved.of_seeking with ⟨ha, rfl, hv⟩ | ⟨v, ha, rfl, hv⟩ | ⟨ha, rfl, hv⟩
  · rw [ha]
    exact hgoes (d := []) none .popping hv.symm rfl List.not_mem_nil
  · rw [ha]
    rcases popProgress_value o v with ⟨rfl, he⟩ | ⟨hne, he⟩ | ⟨hne, he⟩ <;> rw [he]
    · exact hgoes (d := [token]) none .ended hv rfl List.not_mem_nil
    · exact hgoes (d := [v]) none (.tracing hne) hv rfl List.not_mem_nil
    · exact hgoes (d := [v]) (some v) .asking hv rfl (token_notMem_of_ne hne)
  · rw [ha]
    exact hgoes (d := []) none .asking hv.symm rfl List.not_mem_nil

theorem Kept.stepConsumer (h : Kept o past r closer k) (pick c : Nat) :
    Follows o past r (.consumer c) (r.stepConsumer o pick c) := by
  obtain ⟨channel, producers, consumers, active, shares, traces⟩ := r
  have hthread : producers.size = o.producers.toNat := h.producers_size
  cases hc : consumers[c]? with
  | none =>
    simp only [Race.stepConsumer, hc]
    exact h.same _
  | some stage =>
    have hlt := h.lt_of_consumer hc
    obtain ⟨share, extra, call, -, -, hread, hat, -⟩ := h.consumer c stage hc
    cases hread with
    | asking =>
      simp only [Race.stepConsumer, hc, consumerThread, hthread]
      refine h.seek hc (Faithful.pop pick h.valid (by omega) hat) ?_
      rintro extra call ⟨⟩
      rfl
    | popping =>
      simp only [Race.stepConsumer, hc, consumerThread, hthread]
      refine h.seek hc (Faithful.goOn pick h.valid hat Call.noConfusion) ?_
      rintro extra call ⟨⟩
      rfl
    | tracing hv =>
      simp only [Race.stepConsumer, hc]
      refine h.moveConsumer (d := []) hc _ _ h.valid (fun _ _ _ ha => ha) rfl (token_notMem_of_ne hv) ?_
      intro extra call hread hat
      cases hread
      exact ⟨[], _, .asking, hat, rfl⟩
    | ended =>
      simp only [Race.stepConsumer, hc]
      exact h.same _

/-! ## Whole runs -/

/-- A channel in which nothing is and nobody waits. -/
structure Fresh (o : Options) (channel : σ) : Prop where
  valid : Faithful.Valid (o.producers.toNat + o.consumers.toNat) channel
  empty : contents channel = []
  idle : ∀ t < o.producers.toNat + o.consumers.toNat, Faithful.At channel t .idle

theorem kept_start {channel : σ} (hf : Fresh o channel) (hp : 1 ≤ o.producers) :
    Kept o [] (start o channel) none 0 where
  producers_size := Array.size_replicate
  consumers_size := Array.size_replicate
  shares_size := Array.size_replicate
  valid := hf.valid
  fifo := hf.empty
  ordered := ⟨[], by simp, rfl⟩
  senders := nofun
  takers := nofun
  active := by
    have hcount : (List.replicate o.producers.toNat (Producer.next 0)).countP works = o.producers.toNat := by
      rw [List.countP_replicate]
      exact if_pos rfl
    rw [start, Array.toList_replicate, hcount]
  elected := ⟨fun _ => ⟨rfl, UInt64.le_iff_toNat_le.mp hp⟩, nofun⟩
  producer := by
    intro p stage hstage
    rw [start, Array.getElem?_replicate] at hstage
    split at hstage
    · rename_i hlt
      obtain rfl := Option.some.inj hstage
      exact ⟨0, .idle, .next UInt64.zero_le, hf.idle p (by omega), rfl⟩
    · cases hstage
  consumer := by
    intro c stage hstage
    rw [start, Array.getElem?_replicate] at hstage
    split at hstage
    · rename_i hlt
      obtain rfl := Option.some.inj hstage
      refine ⟨#[], [], .idle, ?_, by simp, .asking, hf.idle _ (by omega), rfl⟩
      rw [start, Array.getElem?_replicate, if_pos hlt]
    · cases hstage

theorem Steps.kept {channel : σ} (h : Steps o (start o channel) past r) (hf : Fresh o channel) (hfit : o.Fits)
    (hp : 1 ≤ o.producers) : ∃ closer k, Kept o past r closer k := by
  induction h with
  | refl => exact ⟨none, 0, kept_start hf hp⟩
  | step pick t _ ih =>
    obtain ⟨closer, k, ih⟩ := ih
    cases t with
    | producer p => exact ih.stepProducer hfit pick p
    | consumer c => exact ih.stepConsumer pick c

end

end Conduit.Pipeline.Race
