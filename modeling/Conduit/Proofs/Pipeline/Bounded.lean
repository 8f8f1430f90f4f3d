import Conduit.Proofs.Blocking.Wakeups
import Conduit.Proofs.Pipeline.Channel

/-!
# The blocking queue as a channel

Each thread is in one wait at most and has its number as its ticket, so a call
that is woken is that of its own thread, with its own value. When all calls
sleep, poppers do so at an empty queue only and pushers at a full one.
-/

namespace Conduit.Blocking.System

variable {α : Type} {s : System α} {t : Ticket} {v w : α} {pick n : Nat}

/-! ## Valid states -/

/-- A queue that is up, with room for a value, and threads below `n` in its waits. -/
structure Tidy (n : Nat) (s : System α) : Prop where
  up : s.queue.down = false
  room : 1 ≤ s.queue.limit
  distinct : s.tickets.Nodup
  bound : ∀ t ∈ s.tickets, t < n

theorem Tidy.of_perm {s' : System α} (h : Tidy n s) (hup : s'.queue.down = s.queue.down)
    (hl : s'.queue.limit = s.queue.limit) (hp : s'.tickets.Perm s.tickets) : Tidy n s' :=
  ⟨hup.trans h.up, hl ▸ h.room, hp.nodup_iff.mpr h.distinct, fun t ht => h.bound t (hp.mem_iff.mp ht)⟩

theorem Tidy.of_perm_cons {s' : System α} (h : Tidy n s) (hup : s'.queue.down = s.queue.down)
    (hl : s'.queue.limit = s.queue.limit) (hp : s'.tickets.Perm (t :: s.tickets)) (ht : t < n)
    (hfree : t ∉ s.tickets) : Tidy n s' := by
  refine ⟨hup.trans h.up, hl ▸ h.room, hp.nodup_iff.mpr (List.nodup_cons.mpr ⟨hfree, h.distinct⟩), ?_⟩
  intro t' ht'
  rcases List.mem_cons.mp (hp.mem_iff.mp ht') with rfl | ht'
  · exact ht
  · exact h.bound t' ht'

theorem Tidy.of_leave {s' : System α} (h : Tidy n s) (hup : s'.queue.down = s.queue.down)
    (hl : s'.queue.limit = s.queue.limit) (hp : s.tickets.Perm (t :: s'.tickets)) :
    Tidy n s' ∧ t < n ∧ t ∉ s'.tickets := by
  obtain ⟨hfree, hd⟩ := List.nodup_cons.mp (hp.nodup_iff.mp h.distinct)
  refine ⟨⟨hup.trans h.up, hl ▸ h.room, hd, ?_⟩, h.bound t (hp.mem_iff.mpr List.mem_cons_self), hfree⟩
  exact fun t' ht' => h.bound t' (hp.mem_iff.mpr (List.mem_cons_of_mem t ht'))

theorem Tidy.leavePush (h : Tidy n s) (hw : (t, v) ∈ s.space.woken) :
    Tidy n (s.leavePush t) ∧ t < n ∧ t ∉ (s.leavePush t).tickets :=
  h.of_leave rfl rfl (tickets_leavePush hw)

theorem Tidy.leavePop (h : Tidy n s) (hw : t ∈ s.data.woken) :
    Tidy n (s.leavePop t) ∧ t < n ∧ t ∉ (s.leavePop t).tickets :=
  h.of_leave rfl rfl (tickets_leavePop hw)

/-! ## One wait for each thread -/

theorem Tidy.not_mem_data (h : Tidy n s) (hv : (t, v) ∈ s.space.calls) : t ∉ s.data.calls := by
  intro ht
  have hd := (List.nodup_append.mp h.distinct).2.2
  exact hd t ht t (List.mem_map_of_mem (f := Prod.fst) hv) rfl

theorem Tidy.not_woken_data (h : Tidy n s) (ht : t ∈ s.data.waiting) : t ∉ s.data.woken := by
  intro hw
  have hd := (List.nodup_append.mp (List.nodup_append.mp h.distinct).1).2.2
  exact hd t ht t hw rfl

theorem Tidy.not_woken_space (h : Tidy n s) (hv : (t, v) ∈ s.space.waiting) : (t, w) ∉ s.space.woken := by
  intro hw
  have hd := (List.nodup_append.mp h.distinct).2.1
  rw [Condition.calls, List.map_append] at hd
  have hd := (List.nodup_append.mp hd).2.2
  exact hd t (List.mem_map_of_mem (f := Prod.fst) hv) t (List.mem_map_of_mem (f := Prod.fst) hw) rfl

theorem resumePush_of_not_mem (pick : Nat) (h : ∀ v, (t, v) ∉ s.space.woken) : s.resumePush pick t = none := by
  rw [resumePush, Option.map_eq_none_iff, List.find?_eq_none]
  intro call hcall ht
  have : call.1 = t := by simpa using ht
  exact h call.2 (this ▸ hcall)

theorem resumePop_of_not_mem (pick : Nat) (h : t ∉ s.data.woken) : s.resumePop pick t = none :=
  if_neg (by simpa using h)

theorem Tidy.resumePush_eq (h : Tidy n s) (pick : Nat) (hw : (t, v) ∈ s.space.woken) :
    s.resumePush pick t = some ((s.leavePush t).runPush pick t v) := by
  obtain ⟨p, hr⟩ := exists_resumePush hw pick
  obtain ⟨w, hw', he⟩ := resumePush_eq_some hr
  rw [hr, item_unique h.distinct (List.mem_append_right _ hw) (List.mem_append_right _ hw'), he]

theorem resumePop_eq (pick : Nat) (hw : t ∈ s.data.woken) :
    s.resumePop pick t = some ((s.leavePop t).runPop pick t) := if_pos (by simpa using hw)

end Conduit.Blocking.System

namespace Conduit.Pipeline

open Blocking

instance boundedContents : Contents (System Int64) where
  contents s := s.queue.items.toList

/-- A thread's call is the one it waits in; a push is in no other place before its value is inside. -/
def BoundedAt (s : System Int64) (t : Nat) : Call → Prop
  | .idle => t ∉ s.tickets
  | .offering v => (t, v) ∈ s.space.calls
  | .offered => False
  | .seeking => t ∈ s.data.calls

structure BoundedValid (n : Nat) (s : System Int64) : Prop where
  tidy : s.Tidy n
  awake : s.Awake

variable {s s' : System Int64} {t t' n pick : Nat} {v : Int64} {c : Call}

/-! ## One look at the queue -/

theorem BoundedAt.of_mem (ha : BoundedAt s t' c) (hd : t' ∈ s'.data.calls ↔ t' ∈ s.data.calls)
    (hs : ∀ w, (t', w) ∈ s'.space.calls ↔ (t', w) ∈ s.space.calls) : BoundedAt s' t' c := by
  cases c with
  | idle =>
    intro ht
    refine ha (List.mem_append.mpr ?_)
    rcases List.mem_append.mp ht with ht | ht
    · exact .inl (hd.mp ht)
    · obtain ⟨⟨_, w⟩, hw, rfl⟩ := List.mem_map.mp ht
      exact .inr (List.mem_map_of_mem (f := Prod.fst) ((hs w).mp hw))
  | offering v => exact (hs v).mpr ha
  | offered => exact ha
  | seeking => exact hd.mpr ha

theorem stepped_runPush (h : s.Tidy n) (ht : t < n) (hfree : t ∉ s.tickets) (ha : (s.runPush pick t v).1.Awake) :
    Stepped (BoundedValid n) BoundedAt t (.offering v) s ((s.runPush pick t v).map id .ofBlocking) := by
  rcases s.runPush_cases pick t v with ⟨-, -, he⟩ | ⟨hdown, -⟩ | ⟨-, -, he⟩
  · rw [he] at ha ⊢
    have hcalls := Condition.calls_park (t, v) s.space
    refine ⟨⟨h.of_perm_cons rfl rfl (s.tickets_parkPush t v) ht hfree, ha⟩, ⟨.offering v, ?_, .wait nofun⟩, ?_⟩
    · exact hcalls.mem_iff.mpr List.mem_cons_self
    · intro t' c' hne ha
      refine ha.of_mem Iff.rfl fun w => hcalls.mem_iff.trans ?_
      simp [hne]
  · cases h.up.symm.trans hdown
  · rw [he] at ha ⊢
    have hperm := s.tickets_accept pick v
    refine ⟨⟨h.of_perm rfl rfl hperm, ha⟩, ⟨.idle, ?_, ?_⟩, ?_⟩
    · exact fun hm => hfree (hperm.mem_iff.mp hm)
    · have hput : Contents.contents (s.accept pick v) = Contents.contents s ++ [v] := Fifo.toList_push v s.queue.items
      rw [show (Prod.map id Progress.ofBlocking (s.accept pick v, Answer.accepted)) =
        (s.accept pick v, Progress.accepted) from rfl, hput]
      exact .accepted
    · intro t' c' _ ha
      exact ha.of_mem (Condition.calls_notifyOne pick s.data).mem_iff fun _ => Iff.rfl

theorem stepped_runPop (h : s.Tidy n) (ht : t < n) (hfree : t ∉ s.tickets) (ha : (s.runPop pick t).1.Awake) :
    Stepped (BoundedValid n) BoundedAt t .seeking s ((s.runPop pick t).map id .ofBlocking) := by
  rcases s.runPop_cases pick t with ⟨-, -, he⟩ | ⟨hdown, -⟩ | ⟨-, v, rest, hv, he⟩
  · rw [he] at ha ⊢
    have hcalls := Condition.calls_park t s.data
    refine ⟨⟨h.of_perm_cons rfl rfl (s.tickets_parkPop t) ht hfree, ha⟩, ⟨.seeking, ?_, .wait nofun⟩, ?_⟩
    · exact hcalls.mem_iff.mpr List.mem_cons_self
    · intro t' c' hne ha
      refine ha.of_mem (hcalls.mem_iff.trans ?_) fun _ => Iff.rfl
      simp [hne]
  · cases h.up.symm.trans hdown
  · rw [he] at ha ⊢
    have hperm := s.tickets_release pick rest
    refine ⟨⟨h.of_perm rfl rfl hperm, ha⟩, ⟨.idle, ?_, ?_⟩, ?_⟩
    · exact fun hm => hfree (hperm.mem_iff.mp hm)
    · rw [show Contents.contents s = v :: rest.toList from hv]
      exact .value
    · intro t' c' _ ha
      exact ha.of_mem Iff.rfl fun _ => (Condition.calls_notifyOne pick s.space).mem_iff

/-! ## The channel -/

theorem BoundedAt.leavePush (hne : t' ≠ t) (ha : BoundedAt s t' c) :
    BoundedAt (s.leavePush t) t' c := by
  refine ha.of_mem Iff.rfl fun w => ?_
  have herase : (t', w) ∈ s.space.woken.eraseP (·.1 == t) ↔ (t', w) ∈ s.space.woken :=
    List.mem_eraseP_of_neg (by simpa using hne)
  simp only [Condition.calls, System.leavePush, List.mem_append, herase]

theorem BoundedAt.leavePop (hne : t' ≠ t) (ha : BoundedAt s t' c) : BoundedAt (s.leavePop t) t' c := by
  refine ha.of_mem ?_ fun _ => Iff.rfl
  simp only [Condition.calls, System.leavePop, List.mem_append, List.mem_erase_of_ne hne]

theorem stepped_goOn (h : BoundedValid n s) (ha : BoundedAt s t c) (hc : c ≠ .idle) :
    Stepped (BoundedValid n) BoundedAt t c s (Channel.goOn pick t s) := by
  cases c with
  | idle => exact absurd rfl hc
  | offered => exact ha.elim
  | offering v =>
    have hdata : t ∉ s.data.woken := fun hw => h.tidy.not_mem_data ha (List.mem_append_right _ hw)
    have hpop := System.resumePop_of_not_mem pick hdata
    rcases List.mem_append.mp ha with hw | hw
    · have hpush := System.resumePush_of_not_mem pick fun _ => h.tidy.not_woken_space hw
      simp only [Channel.goOn, hpush, hpop]
      exact stepped_of_wait h ha hc
    · have hpush := h.tidy.resumePush_eq pick hw
      obtain ⟨htidy, ht, hfree⟩ := h.tidy.leavePush hw
      have hstep := stepped_runPush htidy ht hfree (h.awake.resumePush hpush)
      simp only [Channel.goOn, hpush]
      exact hstep.from rfl fun _ _ hne ha => ha.leavePush hne
  | seeking =>
    have hpush : s.resumePush pick t = none := by
      refine System.resumePush_of_not_mem pick fun v hw => ?_
      exact h.tidy.not_mem_data (List.mem_append_right _ hw) ha
    rcases List.mem_append.mp ha with hw | hw
    · have hpop := System.resumePop_of_not_mem pick (h.tidy.not_woken_data hw)
      simp only [Channel.goOn, hpush, hpop]
      exact stepped_of_wait h ha hc
    · have hpop := System.resumePop_eq pick hw
      obtain ⟨htidy, ht, hfree⟩ := h.tidy.leavePop hw
      have hstep := stepped_runPop htidy ht hfree (h.awake.resumePop hpop)
      simp only [Channel.goOn, hpush, hpop]
      exact hstep.from rfl fun _ _ hne ha => ha.leavePop hne

instance boundedFaithful : Faithful (System Int64) where
  Valid := BoundedValid
  At := BoundedAt
  push _ v h ht ha := stepped_runPush h.tidy ht ha (h.awake.step (a := .push _ v) rfl)
  pop _ h ht ha := stepped_runPop h.tidy ht ha (h.awake.step (a := .pop _) rfl)
  goOn _ h ha hc := stepped_goOn h ha hc

/-! ## All asleep -/

theorem asleep_iff : Channel.asleep t s = true ↔ t ∈ s.data.waiting ∨ ∃ v, (t, v) ∈ s.space.waiting := by
  simp only [Channel.asleep, Bool.or_eq_true, List.contains_iff_mem, List.any_eq_true, beq_iff_eq]
  refine or_congr Iff.rfl ⟨?_, ?_⟩
  · rintro ⟨call, hcall, rfl⟩
    exact ⟨call.2, hcall⟩
  · rintro ⟨v, hv⟩
    exact ⟨(t, v), hv, rfl⟩

theorem mem_tickets_of_asleep (ha : Channel.asleep t s = true) : t ∈ s.tickets := by
  rcases asleep_iff.mp ha with ht | ⟨v, hv⟩
  · exact List.mem_append_left _ (List.mem_append_left _ ht)
  · exact List.mem_append_right _ (List.mem_map_of_mem (f := Prod.fst) (List.mem_append_left _ hv))

/-- Where all that wait are asleep, pops wait at an empty queue only, and pushes
at one that is not empty. -/
theorem BoundedValid.at_rest (h : BoundedValid n s) (hall : ∀ t ∈ s.tickets, Channel.asleep t s = true) :
    (s.data.calls ≠ [] → Contents.contents s = []) ∧ (s.space.calls ≠ [] → Contents.contents s ≠ []) := by
  -- a thread has one wait only, so one that is woken does not sleep in another
  have hdata : s.data.woken = [] := by
    refine List.eq_nil_iff_forall_not_mem.mpr fun t ht => ?_
    rcases asleep_iff.mp (hall t (List.mem_append_left _ (List.mem_append_right _ ht))) with hw | ⟨v, hw⟩
    · exact h.tidy.not_woken_data hw ht
    · exact h.tidy.not_mem_data (List.mem_append_left _ hw) (List.mem_append_right _ ht)
  have hspace : s.space.woken = [] := by
    refine List.eq_nil_iff_forall_not_mem.mpr fun call hcall => ?_
    have hcalls := List.mem_append_right s.space.waiting hcall
    rcases asleep_iff.mp (hall call.1 (List.mem_append_right _ (List.mem_map_of_mem hcalls))) with hw | ⟨v, hw⟩
    · exact h.tidy.not_mem_data hcalls (List.mem_append_left _ hw)
    · exact h.tidy.not_woken_space hw hcall
  have hsize : (Contents.contents s).length = s.queue.items.size := Fifo.length_toList _
  constructor
  · intro hne
    rw [Condition.calls, hdata, List.append_nil] at hne
    have hle := h.awake.data hne
    rw [hdata] at hle
    exact List.length_eq_zero_iff.mp (hsize.trans (Nat.le_zero.mp hle))
  · intro hne hempty
    rw [Condition.calls, hspace, List.append_nil] at hne
    have hle := h.awake.space hne
    have hroom := h.tidy.room
    rw [hspace, ← hsize, hempty] at hle
    simp at hle
    omega

end Conduit.Pipeline
