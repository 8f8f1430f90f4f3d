import Conduit.Blocking.Threads
import Mathlib.Data.List.Nodup
import Mathlib.Data.List.Perm.Basic

/-!
# Runs of a blocking queue

What each operation can do to the system, one lemma for each of them, and the
runs made of such steps: any number of threads, any order, any choice of the
sleeper that a notification reaches.
-/

namespace Conduit.Blocking

/-! ## Conditions -/

namespace Condition

variable {β : Type} {c : Condition β} {k pick : Nat}

def calls (c : Condition β) : List β := c.waiting ++ c.woken

theorem notifyOne_of_waiting_nil (h : c.waiting = []) : c.notifyOne pick = c := by
  simp [notifyOne, h]

theorem notifyOne_of_waiting_ne_nil (pick : Nat) (h : c.waiting ≠ []) :
    ∃ i b, c.waiting[i]? = some b ∧ c.notifyOne pick = ⟨c.waiting.eraseIdx i, c.woken ++ [b]⟩ := by
  have hi : pick % c.waiting.length < c.waiting.length :=
    Nat.mod_lt _ (List.length_pos_iff.mpr h)
  refine ⟨_, c.waiting[pick % c.waiting.length], List.getElem?_eq_getElem hi, ?_⟩
  simp [notifyOne, hi]

theorem calls_park (b : β) (c : Condition β) : (c.park b).calls.Perm (b :: c.calls) := by
  simp only [calls, park, List.append_assoc, List.singleton_append]
  exact List.perm_middle

theorem calls_notifyOne (pick : Nat) (c : Condition β) : (c.notifyOne pick).calls.Perm c.calls := by
  by_cases h : c.waiting = []
  · rw [notifyOne_of_waiting_nil h]
  · obtain ⟨i, b, hb, he⟩ := notifyOne_of_waiting_ne_nil pick h
    obtain ⟨hi, rfl⟩ := List.getElem?_eq_some_iff.mp hb
    rw [he]
    have h1 : (c.waiting.eraseIdx i ++ (c.woken ++ [c.waiting[i]])).Perm
        (c.waiting[i] :: c.waiting.eraseIdx i ++ c.woken) := by
      rw [← List.append_assoc]
      exact List.perm_append_comm
    exact h1.trans ((List.getElem_cons_eraseIdx_perm hi).append_right _)

theorem calls_notifyAll (c : Condition β) : c.notifyAll.calls.Perm c.calls := by
  simpa [calls, notifyAll] using List.perm_append_comm

/-! ## Sleepers that are covered -/

/-- If any call sleeps, at least `k` are woken and will look again. -/
def Covers (k : Nat) (c : Condition β) : Prop := c.waiting ≠ [] → k ≤ c.woken.length

theorem Covers.mono {k' : Nat} (h : c.Covers k) (hk : k' ≤ k) : c.Covers k' :=
  fun hw => Nat.le_trans hk (h hw)

theorem covers_zero (c : Condition β) : c.Covers 0 := fun _ => Nat.zero_le _

theorem covers_of_waiting_nil (h : c.waiting = []) : c.Covers k := fun hw => absurd h hw

theorem covers_notifyAll (c : Condition β) : c.notifyAll.Covers k := covers_of_waiting_nil rfl

theorem Covers.notifyOne (h : c.Covers k) (pick : Nat) : (c.notifyOne pick).Covers (k + 1) := by
  intro hw
  by_cases hn : c.waiting = []
  · rw [notifyOne_of_waiting_nil hn] at hw
    exact absurd hn hw
  · obtain ⟨i, b, -, he⟩ := notifyOne_of_waiting_ne_nil pick hn
    have := h hn
    rw [he]
    simp only [List.length_append, List.length_singleton]
    omega

end Condition

/-! ## What an operation does -/

namespace System

variable {α : Type}

def parkPush (t : Ticket) (v : α) (s : System α) : System α :=
  { s with
    queue := { s.queue with parkedPushers := s.queue.parkedPushers + 1 }
    space := s.space.park (t, v) }

def parkPop (t : Ticket) (s : System α) : System α :=
  { s with
    queue := { s.queue with parkedPoppers := s.queue.parkedPoppers + 1 }
    data := s.data.park t }

def accept (pick : Nat) (v : α) (s : System α) : System α :=
  { s with
    queue := { s.queue with items := s.queue.items.push v }
    data := s.data.notifyOne pick }

def release (pick : Nat) (rest : Fifo α) (s : System α) : System α :=
  { s with
    queue := { s.queue with items := rest }
    space := s.space.notifyOne pick }

theorem runPush_cases (pick : Nat) (t : Ticket) (v : α) (s : System α) :
    (s.queue.down = false ∧ s.queue.limit ≤ s.queue.items.size ∧
      s.runPush pick t v = (s.parkPush t v, .parked)) ∨
    (s.queue.down = true ∧ s.runPush pick t v = (s, .refused v)) ∨
    (s.queue.down = false ∧ s.queue.items.size < s.queue.limit ∧
      s.runPush pick t v = (s.accept pick v, .accepted)) := by
  by_cases hd : s.queue.down = true
  · right; left
    exact ⟨hd, by simp [runPush, Queue.holdsPush, Queue.tryPush, hd]⟩
  · by_cases hf : s.queue.limit ≤ s.queue.items.size
    · left
      refine ⟨by simpa using hd, hf, ?_⟩
      simp [runPush, Queue.holdsPush, Queue.isFull, hd, hf, parkPush]
    · right; right
      refine ⟨by simpa using hd, by omega, ?_⟩
      simp [runPush, Queue.holdsPush, Queue.tryPush, Queue.isFull, hd, hf, accept]

theorem tryPush_cases (pick : Nat) (v : α) (s : System α) :
    s.tryPush pick v = (s, .rejected v) ∨
    (s.queue.down = false ∧ s.queue.items.size < s.queue.limit ∧
      s.tryPush pick v = (s.accept pick v, .accepted)) := by
  by_cases h : s.queue.down = true ∨ s.queue.limit ≤ s.queue.items.size
  · left
    simp [tryPush, Queue.tryPush, Queue.isFull, h]
  · right
    obtain ⟨hd, hf⟩ := not_or.mp h
    refine ⟨by simpa using hd, by omega, ?_⟩
    simp [tryPush, Queue.tryPush, Queue.isFull, hd, hf, accept]

theorem runPop_cases (pick : Nat) (t : Ticket) (s : System α) :
    (s.queue.down = false ∧ s.queue.items.size = 0 ∧ s.runPop pick t = (s.parkPop t, .parked)) ∨
    (s.queue.down = true ∧ s.runPop pick t = (s, .closed)) ∨
    (s.queue.down = false ∧ ∃ v rest, s.queue.items.toList = v :: rest.toList ∧
      s.runPop pick t = (s.release pick rest, .value v)) := by
  by_cases hd : s.queue.down = true
  · right; left
    exact ⟨hd, by simp [runPop, Queue.holdsPop, Queue.tryPop, hd]⟩
  · by_cases he : s.queue.items.size = 0
    · left
      refine ⟨by simpa using hd, he, ?_⟩
      simp [runPop, Queue.holdsPop, Queue.isEmpty, Fifo.isEmpty, hd, he, parkPop]
    · right; right
      refine ⟨by simpa using hd, ?_⟩
      cases hp : s.queue.items.pop? with
      | none =>
        rw [Fifo.pop?_eq_none] at hp
        exact absurd (by rw [← Fifo.length_toList, hp]; rfl) he
      | some p =>
        refine ⟨p.1, p.2, Fifo.toList_of_pop? hp, ?_⟩
        simp [runPop, Queue.holdsPop, Queue.isEmpty, Fifo.isEmpty, Queue.tryPop, hd, he, hp, release]

theorem tryPop_cases (pick : Nat) (s : System α) :
    s.tryPop pick = (s, .nothing) ∨
    (s.queue.down = false ∧ ∃ v rest, s.queue.items.toList = v :: rest.toList ∧
      s.tryPop pick = (s.release pick rest, .value v)) := by
  by_cases hd : s.queue.down = true
  · left
    simp [tryPop, Queue.tryPop, hd]
  · cases hp : s.queue.items.pop? with
    | none => left; simp [tryPop, Queue.tryPop, hp]
    | some p =>
      right
      refine ⟨by simpa using hd, p.1, p.2, Fifo.toList_of_pop? hp, ?_⟩
      simp [tryPop, Queue.tryPop, hd, hp, release]

theorem drain_eq (s : System α) : s.drain =
    ({ s with
        queue := { s.queue with items := .empty }
        space := if s.queue.items.toList = [] then s.space else s.space.notifyAll },
      .drained s.queue.items.toList) := by
  simp [drain, Queue.drain]

theorem shutDown_cases (s : System α) :
    (s.queue.down = true ∧ s.shutDown = (s, .signalled none)) ∨
    (s.queue.down = false ∧ s.shutDown =
      (⟨{ s.queue with down := true }, s.data.notifyAll, s.space.notifyAll⟩,
        .signalled (some s.queue.signal))) := by
  cases hd : s.queue.down with
  | true => left; simp [shutDown, hd]
  | false => right; simp [shutDown, Queue.shutDown, hd]

theorem resumePush_eq_some {pick : Nat} {t : Ticket} {s : System α} {p : System α × Answer α}
    (h : s.resumePush pick t = some p) :
    ∃ v, (t, v) ∈ s.space.woken ∧ (s.leavePush t).runPush pick t v = p := by
  obtain ⟨⟨t', v⟩, hf, h⟩ := Option.map_eq_some_iff.mp h
  have ht : t' = t := by simpa using List.find?_some hf
  subst ht
  exact ⟨v, List.mem_of_find?_eq_some hf, h⟩

theorem resumePop_eq_some {pick : Nat} {t : Ticket} {s : System α} {p : System α × Answer α}
    (h : s.resumePop pick t = some p) :
    t ∈ s.data.woken ∧ (s.leavePop t).runPop pick t = p := by
  unfold resumePop at h
  split at h
  · rename_i ht
    exact ⟨by simpa using ht, Option.some.inj h⟩
  · cases h

theorem length_woken_leavePush {t : Ticket} {v : α} {s : System α} (h : (t, v) ∈ s.space.woken) :
    (s.leavePush t).space.woken.length = s.space.woken.length - 1 :=
  List.length_eraseP_of_mem h (by simp)

theorem length_woken_leavePop {t : Ticket} {s : System α} (h : t ∈ s.data.woken) :
    (s.leavePop t).data.woken.length = s.data.woken.length - 1 :=
  List.length_erase_of_mem h

theorem mem_calls_of_leavePush {t : Ticket} {s : System α} {call : Ticket × α}
    (h : call ∈ (s.leavePush t).space.calls) : call ∈ s.space.calls := by
  rcases List.mem_append.mp h with h | h
  · exact List.mem_append_left _ h
  · exact List.mem_append_right _ (List.mem_of_mem_eraseP h)

theorem mem_calls_of_release {pick : Nat} {rest : Fifo α} {s : System α} {call : Ticket × α}
    (h : call ∈ (s.release pick rest).space.calls) : call ∈ s.space.calls :=
  (Condition.calls_notifyOne pick s.space).mem_iff.mp h

/-! ## Who waits -/

def tickets (s : System α) : List Ticket := s.data.calls ++ s.space.calls.map Prod.fst

theorem tickets_parkPush (t : Ticket) (v : α) (s : System α) : (s.parkPush t v).tickets.Perm (t :: s.tickets) := by
  have h := (Condition.calls_park (t, v) s.space).map Prod.fst
  exact (h.append_left s.data.calls).trans List.perm_middle

theorem tickets_parkPop (t : Ticket) (s : System α) : (s.parkPop t).tickets.Perm (t :: s.tickets) :=
  (Condition.calls_park t s.data).append_right _

theorem tickets_accept (pick : Nat) (v : α) (s : System α) : (s.accept pick v).tickets.Perm s.tickets :=
  (Condition.calls_notifyOne pick s.data).append_right _

theorem tickets_release (pick : Nat) (rest : Fifo α) (s : System α) :
    (s.release pick rest).tickets.Perm s.tickets :=
  ((Condition.calls_notifyOne pick s.space).map Prod.fst).append_left _

theorem calls_leavePush {t : Ticket} {v : α} {s : System α} (h : (t, v) ∈ s.space.woken) :
    ∃ w, s.space.calls.Perm ((t, w) :: (s.leavePush t).space.calls) := by
  obtain ⟨⟨t', w⟩, before, after, -, ht, hw, he⟩ :=
    List.exists_of_eraseP (p := fun x : Ticket × α => x.1 == t) h (by simp)
  have ht : t' = t := by simpa using ht
  subst ht
  have hperm : s.space.woken.Perm ((t', w) :: s.space.woken.eraseP (·.1 == t')) := by
    rw [he, hw]
    exact List.perm_middle
  exact ⟨w, (hperm.append_left s.space.waiting).trans List.perm_middle⟩

theorem calls_leavePop {t : Ticket} {s : System α} (h : t ∈ s.data.woken) :
    s.data.calls.Perm (t :: (s.leavePop t).data.calls) :=
  ((List.perm_cons_erase h).append_left s.data.waiting).trans List.perm_middle

theorem tickets_leavePush {t : Ticket} {v : α} {s : System α} (h : (t, v) ∈ s.space.woken) :
    s.tickets.Perm (t :: (s.leavePush t).tickets) := by
  obtain ⟨w, hcalls⟩ := calls_leavePush h
  exact ((hcalls.map Prod.fst).append_left s.data.calls).trans List.perm_middle

theorem tickets_leavePop {t : Ticket} {s : System α} (h : t ∈ s.data.woken) :
    s.tickets.Perm (t :: (s.leavePop t).tickets) :=
  (calls_leavePop h).append_right _

/-- A thread that is in one wait only has one item there. -/
theorem item_unique {t : Ticket} {v w : α} {s : System α} (hd : s.tickets.Nodup) (hv : (t, v) ∈ s.space.calls)
    (hw : (t, w) ∈ s.space.calls) : v = w := by
  have hspace := (List.nodup_append.mp hd).2.1
  exact congrArg Prod.snd (List.inj_on_of_nodup_map hspace hv hw rfl)

/-! ## What no step changes -/

theorem limit_runPush (pick : Nat) (t : Ticket) (v : α) (s : System α) :
    (s.runPush pick t v).1.queue.limit = s.queue.limit := by
  rcases s.runPush_cases pick t v with ⟨-, -, he⟩ | ⟨-, he⟩ | ⟨-, -, he⟩ <;> rw [he] <;> rfl

theorem limit_runPop (pick : Nat) (t : Ticket) (s : System α) :
    (s.runPop pick t).1.queue.limit = s.queue.limit := by
  rcases s.runPop_cases pick t with ⟨-, -, he⟩ | ⟨-, he⟩ | ⟨-, _, _, -, he⟩ <;> rw [he] <;> rfl

theorem limit_step {pick : Nat} {a : Act α} {s s' : System α} {r : Answer α}
    (h : s.step pick a = some (s', r)) : s'.queue.limit = s.queue.limit := by
  cases a with
  | push t v => rw [← limit_runPush pick t v s, Option.some.inj h]
  | pop t => rw [← limit_runPop pick t s, Option.some.inj h]
  | tryPush v =>
    have he := Option.some.inj h
    rcases s.tryPush_cases pick v with hc | ⟨-, -, hc⟩ <;> rw [hc] at he <;> cases he <;> rfl
  | tryPop =>
    have he := Option.some.inj h
    rcases s.tryPop_cases pick with hc | ⟨-, _, _, -, hc⟩ <;> rw [hc] at he <;> cases he <;> rfl
  | drain =>
    have he := Option.some.inj h
    rw [drain_eq] at he
    cases he
    rfl
  | shutDown =>
    have he := Option.some.inj h
    rcases s.shutDown_cases with ⟨-, hc⟩ | ⟨-, hc⟩ <;> rw [hc] at he <;> cases he <;> rfl
  | resumePush t =>
    obtain ⟨v, -, he⟩ := resumePush_eq_some h
    have hl := limit_runPush pick t v (s.leavePush t)
    rw [he] at hl
    exact hl
  | resumePop t =>
    obtain ⟨-, he⟩ := resumePop_eq_some h
    have hl := limit_runPop pick t (s.leavePop t)
    rw [he] at hl
    exact hl

end System

/-! ## Runs -/

def Act.isResume {α : Type} : Act α → Bool
  | .resumePush _ | .resumePop _ => true
  | _ => false

namespace System

variable {α : Type}

theorem isSome_step {pick : Nat} {a : Act α} (h : a.isResume = false) (s : System α) :
    (s.step pick a).isSome = true := by
  cases a with
  | resumePush | resumePop => cases h
  | _ => rfl

theorem exists_resumePush {t : Ticket} {v : α} {s : System α} (h : (t, v) ∈ s.space.woken) (pick : Nat) :
    ∃ p, s.resumePush pick t = some p := by
  cases hr : s.resumePush pick t with
  | some p => exact ⟨p, rfl⟩
  | none =>
    rw [resumePush, Option.map_eq_none_iff, List.find?_eq_none] at hr
    exact absurd (by simp) (hr _ h)

theorem exists_resumePop {t : Ticket} {s : System α} (h : t ∈ s.data.woken) (pick : Nat) :
    ∃ p, s.resumePop pick t = some p := by
  unfold resumePop
  rw [if_pos (by simpa using h)]
  exact ⟨_, rfl⟩

def Free (t : Ticket) (s : System α) : Prop := t ∉ s.data.calls ∧ t ∉ s.space.calls.map Prod.fst

instance (t : Ticket) (s : System α) : Decidable (s.Free t) := inferInstanceAs (Decidable (_ ∧ _))

/-- A thread that waits makes no further call. -/
def Allows (s : System α) : Act α → Prop
  | .push t _ | .pop t => s.Free t
  | _ => True

instance (s : System α) : (a : Act α) → Decidable (s.Allows a)
  | .push t _ => inferInstanceAs (Decidable (s.Free t))
  | .pop t => inferInstanceAs (Decidable (s.Free t))
  | .tryPush _ | .tryPop | .drain | .shutDown | .resumePush _ | .resumePop _ => .isTrue trivial

end System

/-- A step that was made: what was done, whom its notification reached, and what came of it. -/
structure Event (α : Type) where
  pick : Nat
  act : Act α
  answer : Answer α

variable {α : Type}

/-- Any number of steps from one state to another; the newest event comes first. -/
inductive Steps (s : System α) : List (Event α) → System α → Prop
  | refl : Steps s [] s
  | step {past : List (Event α)} {s₁ s₂ : System α} {pick : Nat} {a : Act α} {r : Answer α} :
      Steps s past s₁ → s₁.Allows a → s₁.step pick a = some (s₂, r) → Steps s (⟨pick, a, r⟩ :: past) s₂

theorem Steps.limit_eq {s s' : System α} {past : List (Event α)} (h : Steps s past s') :
    s'.queue.limit = s.queue.limit := by
  induction h with
  | refl => rfl
  | step _ _ hs ih => exact (System.limit_step hs).trans ih

end Conduit.Blocking
