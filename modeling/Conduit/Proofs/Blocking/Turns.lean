import Conduit.Proofs.Blocking.Order
import Conduit.Proofs.Blocking.Wakeups

/-!
# Served in turn

Sleepers are woken in the order in which they went to sleep, and a call comes
only when all others sleep or have returned. Then one call at most is ever woken
at a time, and it finds what it was woken for, so nobody overtakes anybody:
pops get the values of the pushes call by call (`served_in_turn`).
-/

namespace Conduit.Blocking

section
variable {α : Type}

/-! ## Calls and what has come of them -/

namespace Act

def isCall : Act α → Bool
  | .push .. | .pop _ | .tryPush _ | .tryPop => true
  | _ => false

def popper? : Act α → Option Ticket
  | .pop t | .resumePop t => some t
  | _ => none

def resumes (e a : Act α) : Bool :=
  match e, a with
  | .resumePush t, .push t' _ => t = t'
  | .resumePop t, .pop t' => t = t'
  | _, _ => false

end Act

/-- A call that sleeps gets the answer of its next run. -/
def Event.renew (e : Event α) (call : Act α × Answer α) : Act α × Answer α :=
  match call with
  | (a, .parked) => (a, if e.act.resumes a then e.answer else .parked)
  | call => call

/-- Each call with its answer so far, in the order in which they were called. -/
def outcomes : List (Event α) → List (Act α × Answer α)
  | [] => []
  | e :: past => if e.act.isResume then (outcomes past).map e.renew else outcomes past ++ [(e.act, e.answer)]

def pushedInTurn (past : List (Event α)) : List α :=
  (outcomes past).filterMap fun
    | (.push _ v, .accepted) | (.tryPush v, .accepted) => some v
    | _ => none

def poppedInTurn (past : List (Event α)) : List α :=
  (outcomes past).filterMap fun
    | (_, .value v) => some v
    | _ => none

/-- Who went to sleep, in order; `who` picks the calls of one kind. -/
def parkings (who : Act α → Option Ticket) : List (Event α) → List Ticket
  | [] => []
  | e :: past =>
    match e.answer with
    | .parked => parkings who past ++ (who e.act).toList
    | _ => parkings who past

def returns (who : Act α → Option Ticket) : List (Event α) → List Ticket
  | [] => []
  | e :: past =>
    match e.answer with
    | .parked => returns who past
    | _ => if e.act.isResume then returns who past ++ (who e.act).toList else returns who past

def System.AtRest (s : System α) : Prop := s.data.woken = [] ∧ s.space.woken = []

/-- Runs in which a notification reaches the longest sleeper, and a call waits until
nobody is woken any more. -/
inductive Turns (limit : Nat) : List (Event α) → System α → Prop
  | start : Turns limit [] (.start { limit })
  | call {past : List (Event α)} {s s' : System α} {a : Act α} {r : Answer α} :
      Turns limit past s → s.AtRest → a.isCall = true → s.Allows a → s.step 0 a = some (s', r) →
      Turns limit (⟨0, a, r⟩ :: past) s'
  | resume {past : List (Event α)} {s s' : System α} {a : Act α} {r : Answer α} :
      Turns limit past s → a.isResume = true → s.step 0 a = some (s', r) → Turns limit (⟨0, a, r⟩ :: past) s'

end

/-! ## Lines -/

namespace Condition

variable {β : Type}

def line (c : Condition β) : List β := c.woken ++ c.waiting

theorem line_park (b : β) (c : Condition β) : (c.park b).line = c.line ++ [b] :=
  (List.append_assoc _ _ _).symm

theorem notifyOne_zero (c : Condition β) : c.notifyOne 0 = ⟨c.waiting.tail, c.woken ++ c.waiting.head?.toList⟩ := by
  unfold notifyOne
  cases hw : c.waiting with
  | nil =>
    obtain ⟨waiting, woken⟩ := c
    simp only at hw
    simp [hw]
  | cons b rest => simp

theorem line_notifyOne (c : Condition β) : (c.notifyOne 0).line = c.line := by
  rw [notifyOne_zero]
  unfold line
  cases c.waiting with
  | nil => simp
  | cons b rest => simp

theorem length_woken_notifyOne (c : Condition β) : (c.notifyOne 0).woken.length ≤ c.woken.length + 1 := by
  rw [notifyOne_zero]
  cases c.waiting with
  | nil => simp
  | cons b rest => simp

end Condition

/-! ## Books -/

section
variable {α : Type} {past : List (Event α)} {pushers : List (Ticket × α)} {poppers : List Ticket}
  {e : Event α} {k : Nat} {t : Ticket} {v : α}

def pushTurn : Act α × Answer α → Option (Option Ticket × α)
  | (.push _ v, .accepted) | (.tryPush v, .accepted) => some (none, v)
  | (.push t v, .parked) => some (some t, v)
  | _ => none

def popTurn : Act α × Answer α → Option (Ticket ⊕ α)
  | (_, .value v) => some (.inr v)
  | (.pop t, .parked) => some (.inl t)
  | _ => none

/-- These wait, and all that were called before them are served. -/
structure Booked (past : List (Event α)) (pushers : List (Ticket × α)) (poppers : List Ticket) : Prop where
  pushes : (outcomes past).filterMap pushTurn =
    (accepted past).map (none, ·) ++ pushers.map fun call => (some call.1, call.2)
  pops : (outcomes past).filterMap popTurn = (removed past).map .inr ++ poppers.map .inl
  pushers : parkings Act.pusher? past = returns Act.pusher? past ++ pushers.map Prod.fst
  poppers : parkings Act.popper? past = returns Act.popper? past ++ poppers

theorem Booked.pushed (h : Booked past pushers poppers) : pushedInTurn past = accepted past := by
  -- the pushes that sleep are at the end, and drop out on both sides
  have hp := congrArg (List.filterMap fun p : Option Ticket × α => if p.1.isNone then some p.2 else none) h.pushes
  rw [List.filterMap_filterMap, List.filterMap_append, List.filterMap_map, List.filterMap_map] at hp
  simp only [Function.comp_def, Option.isNone_none, if_true, Option.isNone_some, Bool.false_eq_true, if_false] at hp
  rw [List.filterMap_some, List.filterMap_none, List.append_nil] at hp
  rw [← hp, pushedInTurn]
  congr 1
  funext ⟨a, r⟩
  cases a <;> cases r <;> rfl

theorem Booked.popped (h : Booked past pushers poppers) : poppedInTurn past = removed past := by
  have hp := congrArg (List.filterMap Sum.getRight?) h.pops
  rw [List.filterMap_filterMap, List.filterMap_append, List.filterMap_map, List.filterMap_map] at hp
  simp only [Function.comp_def, Sum.getRight?_inr, Sum.getRight?_inl] at hp
  rw [List.filterMap_some, List.filterMap_none, List.append_nil] at hp
  rw [← hp, poppedInTurn]
  congr 1
  funext ⟨a, r⟩
  cases a <;> cases r <;> rfl

/-! ### A call that comes -/

theorem Booked.parkPush (h : Booked past pushers poppers) :
    Booked (⟨k, .push t v, .parked⟩ :: past) (pushers ++ [(t, v)]) poppers := by
  refine ⟨?_, ?_, ?_, ?_⟩
  · simp [outcomes, Act.isResume, h.pushes, pushTurn, accepted]
  · simp [outcomes, Act.isResume, h.pops, popTurn, removed, Answer.removed]
  · simp [parkings, returns, h.pushers, Act.pusher?]
  · simp [parkings, returns, h.poppers, Act.popper?]

theorem Booked.parkPop (h : Booked past pushers poppers) :
    Booked (⟨k, .pop t, .parked⟩ :: past) pushers (poppers ++ [t]) := by
  refine ⟨?_, ?_, ?_, ?_⟩
  · simp [outcomes, Act.isResume, h.pushes, pushTurn, accepted]
  · simp [outcomes, Act.isResume, h.pops, popTurn, removed, Answer.removed]
  · simp [parkings, returns, h.pushers, Act.pusher?]
  · simp [parkings, returns, h.poppers, Act.popper?]

theorem Booked.accept {a : Act α} (h : Booked past [] poppers) (ha : a = .push t v ∨ a = .tryPush v) :
    Booked (⟨k, a, .accepted⟩ :: past) [] poppers := by
  have hpushes := h.pushes
  have hpushers := h.pushers
  rcases ha with rfl | rfl
  all_goals
    refine ⟨?_, ?_, ?_, ?_⟩
    · simp [outcomes, Act.isResume, hpushes, pushTurn, accepted, Act.item?]
    · simp [outcomes, Act.isResume, h.pops, popTurn, removed, Answer.removed]
    · simpa [parkings, returns, Act.isResume] using hpushers
    · simpa [parkings, returns, Act.isResume] using h.poppers

theorem Booked.value {a : Act α} (h : Booked past pushers []) (ha : a = .pop t ∨ a = .tryPop) :
    Booked (⟨k, a, .value v⟩ :: past) pushers [] := by
  have hpops := h.pops
  have hpoppers := h.poppers
  rcases ha with rfl | rfl
  all_goals
    refine ⟨?_, ?_, ?_, ?_⟩
    · simp [outcomes, Act.isResume, h.pushes, pushTurn, accepted]
    · simp [outcomes, Act.isResume, hpops, popTurn, removed, Answer.removed]
    · simpa [parkings, returns, Act.isResume] using h.pushers
    · simpa [parkings, returns, Act.isResume] using hpoppers

theorem Booked.turnedAway {a : Act α} {r : Answer α} (h : Booked past pushers poppers)
    (ha : (∃ v, a = .tryPush v ∧ r = .rejected v) ∨ a = .tryPop ∧ r = .nothing) :
    Booked (⟨k, a, r⟩ :: past) pushers poppers := by
  rcases ha with ⟨v, rfl, rfl⟩ | ⟨rfl, rfl⟩
  all_goals
    refine ⟨?_, ?_, ?_, ?_⟩
    · simp [outcomes, Act.isResume, h.pushes, pushTurn, accepted]
    · simp [outcomes, Act.isResume, h.pops, popTurn, removed, Answer.removed]
    · simpa [parkings, returns, Act.isResume] using h.pushers
    · simpa [parkings, returns, Act.isResume] using h.poppers

/-! ### A woken call that runs -/

def letIn (t : Ticket) : Option Ticket × α → Option Ticket × α
  | (some t', v) => (if t' = t then none else some t', v)
  | (none, v) => (none, v)

def serve (t : Ticket) (v : α) : Ticket ⊕ α → Ticket ⊕ α
  | .inl t' => if t' = t then .inr v else .inl t'
  | .inr w => .inr w

theorem map_letIn (ht : t ∉ pushers.map Prod.fst) :
    (pushers.map fun call => (some call.1, call.2)).map (letIn t) = pushers.map fun call => (some call.1, call.2) := by
  rw [List.map_map]
  apply List.map_congr_left
  intro call hcall
  have hne : call.1 ≠ t := fun he => ht (he ▸ List.mem_map_of_mem hcall)
  simp [letIn, hne]

theorem map_serve (ht : t ∉ poppers) (v : α) : (poppers.map .inl).map (serve t v) = poppers.map .inl := by
  rw [List.map_map]
  apply List.map_congr_left
  intro t' ht'
  have hne : t' ≠ t := fun he => ht (he ▸ ht')
  simp [serve, hne]

theorem pushTurn_renew (call : Act α × Answer α) :
    pushTurn (Event.renew ⟨k, .resumePush t, .accepted⟩ call) = (pushTurn call).map (letIn t) ∧
      popTurn (Event.renew ⟨k, .resumePush t, .accepted⟩ call) = popTurn call := by
  obtain ⟨a, r⟩ := call
  cases r with
  | parked =>
    cases a with
    | push t' v =>
      by_cases ht : t = t'
      · simp [Event.renew, Act.resumes, pushTurn, popTurn, letIn, ht]
      · simp [Event.renew, Act.resumes, pushTurn, popTurn, letIn, ht, Ne.symm ht]
    | _ => exact ⟨rfl, rfl⟩
  | _ => cases a <;> exact ⟨rfl, rfl⟩

theorem popTurn_renew (call : Act α × Answer α) :
    popTurn (Event.renew ⟨k, .resumePop t, .value v⟩ call) = (popTurn call).map (serve t v) ∧
      pushTurn (Event.renew ⟨k, .resumePop t, .value v⟩ call) = pushTurn call := by
  obtain ⟨a, r⟩ := call
  cases r with
  | parked =>
    cases a with
    | pop t' =>
      by_cases ht : t = t'
      · simp [Event.renew, Act.resumes, pushTurn, popTurn, serve, ht]
      · simp [Event.renew, Act.resumes, pushTurn, popTurn, serve, ht, Ne.symm ht]
    | _ => exact ⟨rfl, rfl⟩
  | _ => cases a <;> exact ⟨rfl, rfl⟩

theorem Booked.resumePush (h : Booked past ((t, v) :: pushers) poppers) (ht : t ∉ pushers.map Prod.fst)
    (hv : lastPush t past = some v) : Booked (⟨k, .resumePush t, .accepted⟩ :: past) pushers poppers := by
  refine ⟨?_, ?_, ?_, ?_⟩
  · have hserved : ((accepted past).map fun w => ((none : Option Ticket), w)).map (letIn t) =
        (accepted past).map (none, ·) := by simp [letIn]
    simp only [outcomes, Act.isResume, if_true, List.filterMap_map, Function.comp_def, (pushTurn_renew _).1]
    rw [← List.map_filterMap, h.pushes, List.map_append, hserved, List.map_cons, List.map_cons, map_letIn ht]
    simp [accepted, Act.item?, hv, letIn]
  · simp only [outcomes, Act.isResume, if_true, List.filterMap_map, Function.comp_def, (pushTurn_renew _).2]
    rw [h.pops]
    simp [removed, Answer.removed]
  · simp [parkings, returns, Act.isResume, Act.pusher?, h.pushers]
  · simp [parkings, returns, Act.isResume, Act.popper?, h.poppers]

theorem Booked.resumePop (h : Booked past pushers (t :: poppers)) (ht : t ∉ poppers) :
    Booked (⟨k, .resumePop t, .value v⟩ :: past) pushers poppers := by
  refine ⟨?_, ?_, ?_, ?_⟩
  · simp only [outcomes, Act.isResume, if_true, List.filterMap_map, Function.comp_def, (popTurn_renew _).2]
    rw [h.pushes]
    simp [accepted]
  · have hserved : ((removed past).map Sum.inr).map (serve t v) = (removed past).map Sum.inr := by simp [serve]
    simp only [outcomes, Act.isResume, if_true, List.filterMap_map, Function.comp_def, (popTurn_renew _).1]
    rw [← List.map_filterMap, h.pops, List.map_append, hserved, List.map_cons, List.map_cons, map_serve ht]
    simp [removed, Answer.removed, serve]
  · simp [parkings, returns, Act.isResume, Act.pusher?, h.pushers]
  · simp [parkings, returns, Act.isResume, Act.popper?, h.poppers]

end

/-! ## One turn -/

namespace System

variable {α : Type} {past : List (Event α)} {s s' : System α} {a : Act α} {r : Answer α} {t : Ticket} {v : α}

/-- Whoever waits is booked, and one call at most is woken, with something there for it. -/
structure Orderly (past : List (Event α)) (s : System α) : Prop where
  up : s.queue.down = false
  booked : Booked past s.space.line s.data.line
  pushers : (s.space.line.map Prod.fst).Nodup
  poppers : s.data.line.Nodup
  single : s.data.woken.length + s.space.woken.length ≤ 1
  value : s.data.woken ≠ [] → 0 < s.queue.items.size
  room : s.space.woken ≠ [] → s.queue.items.size < s.queue.limit

theorem mem_line {β : Type} {c : Condition β} {b : β} : b ∈ c.line ↔ b ∈ c.calls := by
  simp [Condition.line, Condition.calls, or_comm]

theorem orderly_accept (hup : s.queue.down = false) (hb : Booked past s.space.line s.data.line)
    (hpush : (s.space.line.map Prod.fst).Nodup) (hpop : s.data.line.Nodup) (hr : s.AtRest) (v : α) :
    (s.accept 0 v).Orderly past := by
  have hline := Condition.line_notifyOne s.data
  have hwoken := Condition.length_woken_notifyOne s.data
  rw [hr.1] at hwoken
  refine ⟨hup, ?_, hpush, ?_, ?_, fun _ => Nat.succ_pos _, fun hne => absurd hr.2 hne⟩
  · simp only [accept, hline]
    exact hb
  · simp only [accept, hline]
    exact hpop
  · simp only [accept, hr.2]
    simpa using hwoken

theorem orderly_release {rest : Fifo α} (hup : s.queue.down = false) (hb : Booked past s.space.line s.data.line)
    (hpush : (s.space.line.map Prod.fst).Nodup) (hpop : s.data.line.Nodup) (hr : s.AtRest)
    (hq : s.queue.items.toList = v :: rest.toList) (hle : s.queue.items.size ≤ s.queue.limit) :
    (s.release 0 rest).Orderly past := by
  have hline := Condition.line_notifyOne s.space
  have hwoken := Condition.length_woken_notifyOne s.space
  have hsize := congrArg List.length hq
  simp only [Fifo.length_toList, List.length_cons] at hsize
  rw [hr.2] at hwoken
  refine ⟨hup, ?_, ?_, hpop, ?_, fun hne => absurd hr.1 hne, fun _ => ?_⟩
  · simp only [release, hline]
    exact hb
  · simp only [release, hline]
    exact hpush
  · simp only [release, hr.1]
    simpa using hwoken
  · simp only [release]
    omega

/-! ### Calls -/

theorem Orderly.parkPush (h : s.Orderly past) (hr : s.AtRest) (hfree : s.Free t) :
    (s.parkPush t v).Orderly (⟨0, .push t v, .parked⟩ :: past) := by
  refine ⟨h.up, ?_, ?_, h.poppers, h.single, h.value, fun hne => absurd hr.2 hne⟩
  · simp only [System.parkPush, Condition.line_park]
    exact h.booked.parkPush
  · simp only [System.parkPush, Condition.line_park, List.map_append, List.map_cons, List.map_nil]
    refine List.nodup_append.mpr ⟨h.pushers, by simp, ?_⟩
    intro t' ht' t'' ht'' he
    obtain ⟨call, hcall, rfl⟩ := List.mem_map.mp ht'
    rw [List.mem_singleton.mp ht''] at he
    exact hfree.2 (he ▸ List.mem_map_of_mem (mem_line.mp hcall))

theorem Orderly.parkPop (h : s.Orderly past) (hr : s.AtRest) (hfree : s.Free t) :
    (s.parkPop t).Orderly (⟨0, .pop t, .parked⟩ :: past) := by
  refine ⟨h.up, ?_, h.pushers, ?_, h.single, fun hne => absurd hr.1 hne, h.room⟩
  · simp only [System.parkPop, Condition.line_park]
    exact h.booked.parkPop
  · simp only [System.parkPop, Condition.line_park]
    refine List.nodup_append.mpr ⟨h.poppers, by simp, ?_⟩
    intro t' ht' t'' ht'' he
    rw [List.mem_singleton.mp ht''] at he
    exact hfree.1 (he ▸ mem_line.mp ht')

theorem AtRest.no_pushers (hr : s.AtRest) (ha : s.Awake) (hf : s.queue.items.size < s.queue.limit) :
    s.space.line = [] := by
  unfold Condition.line
  rw [hr.2]
  by_contra hne
  have hle := ha.space hne
  rw [hr.2] at hle
  simp at hle
  omega

theorem AtRest.no_poppers {vs : List α} (hr : s.AtRest) (ha : s.Awake) (hq : s.queue.items.toList = v :: vs) :
    s.data.line = [] := by
  unfold Condition.line
  rw [hr.1]
  by_contra hne
  have hle := ha.data hne
  rw [hr.1, ← Fifo.length_toList, hq] at hle
  simp at hle

theorem Orderly.accept (h : s.Orderly past) (hr : s.AtRest) (ha : s.Awake)
    (hf : s.queue.items.size < s.queue.limit) (hact : a = .push t v ∨ a = .tryPush v) :
    (s.accept 0 v).Orderly (⟨0, a, .accepted⟩ :: past) := by
  have hb := h.booked
  have hnone := hr.no_pushers ha hf
  rw [hnone] at hb
  refine orderly_accept h.up ?_ h.pushers h.poppers hr v
  rw [hnone]
  exact hb.accept hact

theorem Orderly.release {rest : Fifo α} (h : s.Orderly past) (hr : s.AtRest) (ha : s.Awake)
    (hle : s.queue.items.size ≤ s.queue.limit) (hq : s.queue.items.toList = v :: rest.toList)
    (hact : a = .pop t ∨ a = .tryPop) : (s.release 0 rest).Orderly (⟨0, a, .value v⟩ :: past) := by
  have hb := h.booked
  have hnone := hr.no_poppers ha hq
  rw [hnone] at hb
  refine orderly_release h.up ?_ h.pushers h.poppers hr hq hle
  rw [hnone]
  exact hb.value hact

theorem Orderly.turnedAway (h : s.Orderly past)
    (hact : (∃ v, a = .tryPush v ∧ r = .rejected v) ∨ a = .tryPop ∧ r = .nothing) :
    s.Orderly (⟨0, a, r⟩ :: past) :=
  ⟨h.up, h.booked.turnedAway hact, h.pushers, h.poppers, h.single, h.value, h.room⟩

theorem Orderly.call (h : s.Orderly past) (hr : s.AtRest) (ha : s.Awake) (hle : s.queue.items.size ≤ s.queue.limit)
    (hcall : a.isCall = true) (hallow : s.Allows a) (hs : s.step 0 a = some (s', r)) :
    s'.Orderly (⟨0, a, r⟩ :: past) := by
  cases a with
  | push t v =>
    have he := Option.some.inj hs
    rcases s.runPush_cases 0 t v with ⟨-, -, hc⟩ | ⟨hd, -⟩ | ⟨-, hf, hc⟩
    · rw [hc] at he
      cases he
      exact h.parkPush hr hallow
    · cases h.up.symm.trans hd
    · rw [hc] at he
      cases he
      exact h.accept hr ha hf (.inl rfl)
  | pop t =>
    have he := Option.some.inj hs
    rcases s.runPop_cases 0 t with ⟨-, -, hc⟩ | ⟨hd, -⟩ | ⟨-, v, rest, hq, hc⟩
    · rw [hc] at he
      cases he
      exact h.parkPop hr hallow
    · cases h.up.symm.trans hd
    · rw [hc] at he
      cases he
      exact h.release hr ha hle hq (.inl rfl)
  | tryPush v =>
    have he := Option.some.inj hs
    rcases s.tryPush_cases 0 v with hc | ⟨-, hf, hc⟩
    · rw [hc] at he
      cases he
      exact h.turnedAway (.inl ⟨v, rfl, rfl⟩)
    · rw [hc] at he
      cases he
      exact h.accept (t := 0) hr ha hf (.inr rfl)
  | tryPop =>
    have he := Option.some.inj hs
    rcases s.tryPop_cases 0 with hc | ⟨-, v, rest, hq, hc⟩
    · rw [hc] at he
      cases he
      exact h.turnedAway (.inr ⟨rfl, rfl⟩)
    · rw [hc] at he
      cases he
      exact h.release (t := 0) hr ha hle hq (.inr rfl)
  | _ => cases hcall

/-! ### Woken calls -/

theorem eq_singleton {β : Type} {l : List β} {b : β} (hm : b ∈ l) (hl : l.length ≤ 1) : l = [b] := by
  cases l with
  | nil => cases hm
  | cons x l =>
    have hnil : l = [] := by simpa using hl
    subst hnil
    rw [List.mem_singleton.mp hm]

theorem Orderly.resumePush (h : s.Orderly past) (hh : s.Held past)
    (hs : s.resumePush 0 t = some (s', r)) : s'.Orderly (⟨0, .resumePush t, r⟩ :: past) := by
  obtain ⟨v, hm, he⟩ := resumePush_eq_some hs
  have hsingle := h.single
  have hpos := List.length_pos_of_mem hm
  have hwoken : s.space.woken = [(t, v)] := eq_singleton hm (by omega)
  have hdata : s.data.woken = [] := List.length_eq_zero_iff.mp (by omega)
  have hline : s.space.line = (t, v) :: s.space.waiting := by rw [Condition.line, hwoken]; rfl
  have hpushers := h.pushers
  have hb := h.booked
  rw [hline, List.map_cons, List.nodup_cons] at hpushers
  rw [hline] at hb
  have hleft : (s.leavePush t).space.woken = [] := by simp [leavePush, hwoken]
  have hline' : (s.leavePush t).space.line = s.space.waiting := by rw [Condition.line, hleft]; rfl
  have hv : lastPush t past = some v := hh (t, v) (List.mem_append_right _ hm)
  rcases (s.leavePush t).runPush_cases 0 t v with ⟨-, hfull, -⟩ | ⟨hd, -⟩ | ⟨-, -, hc⟩
  · -- nobody else was woken, so the room that it was woken for is still there
    have hroom := h.room (List.ne_nil_of_mem hm)
    exact absurd hfull (Nat.not_le.mpr hroom)
  · cases h.up.symm.trans hd
  · rw [hc] at he
    cases he
    refine orderly_accept (s := s.leavePush t) h.up ?_ ?_ h.poppers ⟨hdata, hleft⟩ v
    · rw [hline']
      exact hb.resumePush hpushers.1 hv
    · rw [hline']
      exact hpushers.2

theorem Orderly.resumePop (h : s.Orderly past) (hle : s.queue.items.size ≤ s.queue.limit)
    (hs : s.resumePop 0 t = some (s', r)) : s'.Orderly (⟨0, .resumePop t, r⟩ :: past) := by
  obtain ⟨hm, he⟩ := resumePop_eq_some hs
  have hsingle := h.single
  have hpos := List.length_pos_of_mem hm
  have hwoken : s.data.woken = [t] := eq_singleton hm (by omega)
  have hspace : s.space.woken = [] := List.length_eq_zero_iff.mp (by omega)
  have hline : s.data.line = t :: s.data.waiting := by rw [Condition.line, hwoken]; rfl
  have hpoppers := h.poppers
  have hb := h.booked
  rw [hline, List.nodup_cons] at hpoppers
  rw [hline] at hb
  have hleft : (s.leavePop t).data.woken = [] := by simp [leavePop, hwoken]
  have hline' : (s.leavePop t).data.line = s.data.waiting := by rw [Condition.line, hleft]; rfl
  rcases (s.leavePop t).runPop_cases 0 t with ⟨-, hz, -⟩ | ⟨hd, -⟩ | ⟨-, v, rest, hq, hc⟩
  · -- nobody else was woken, so the value that it was woken for is still there
    have hvalue := h.value (List.ne_nil_of_mem hm)
    exact absurd hz (Nat.ne_of_gt hvalue)
  · cases h.up.symm.trans hd
  · rw [hc] at he
    cases he
    refine orderly_release (s := s.leavePop t) h.up ?_ h.pushers ?_ ⟨hleft, hspace⟩ hq hle
    · rw [hline']
      exact hb.resumePop hpoppers.1
    · rw [hline']
      exact hpoppers.2

end System

/-! ## Whole runs -/

section
variable {α : Type} {limit : Nat} {past : List (Event α)} {s : System α}

theorem Turns.steps (h : Turns limit past s) : Steps (.start { limit }) past s := by
  induction h with
  | start => exact .refl
  | call _ _ _ hallow hs ih => exact ih.step hallow hs
  | @resume past s s' a r _ ha hs ih =>
    refine ih.step ?_ hs
    cases a with
    | push | pop => cases ha
    | _ => trivial

theorem Turns.orderly (h : Turns limit past s) : s.Orderly past := by
  induction h with
  | start =>
    refine ⟨rfl, ⟨rfl, rfl, rfl, rfl⟩, List.nodup_nil, List.nodup_nil, Nat.zero_le _, fun hne => absurd rfl hne,
      fun hne => absurd rfl hne⟩
  | call h hr hcall hallow hs ih =>
    have hle := h.steps.ledger.2
    have hlimit : _ = limit := h.steps.limit_eq
    rw [← hlimit] at hle
    exact ih.call hr h.steps.awake hle hcall hallow hs
  | @resume past s s' a r h ha hs ih =>
    have hle := h.steps.ledger.2
    have hlimit : _ = limit := h.steps.limit_eq
    rw [← hlimit] at hle
    cases a with
    | resumePush t => exact ih.resumePush h.steps.held hs
    | resumePop t => exact ih.resumePop hle hs
    | _ => cases ha

theorem settle_of_pop {s' : System α} {r : Answer α} {t : Ticket} {rest : List Ticket}
    (hd : s.data.woken = t :: rest) (hr : s.resumePop 0 t = some (s', r)) : s.settle.1 = s'.settle.1 := by
  rw [System.settle]
  simp only [hd]
  split
  · rename_i hr'
    cases hr.symm.trans hr'
    rfl
  · rename_i hr'
    cases hr.symm.trans hr'

theorem settle_of_push {s' : System α} {r : Answer α} {call : Ticket × α} {rest : List (Ticket × α)}
    (hd : s.data.woken = []) (hs : s.space.woken = call :: rest) (hr : s.resumePush 0 call.1 = some (s', r)) :
    s.settle.1 = s'.settle.1 := by
  rw [System.settle]
  simp only [hd, hs]
  split
  · rename_i hr'
    cases hr.symm.trans hr'
    rfl
  · rename_i hr'
    cases hr.symm.trans hr'

theorem Turns.settle (h : Turns limit past s) :
    ∃ more, (∀ e ∈ more, e.act.isResume = true) ∧ Turns limit (more ++ past) s.settle.1 ∧ s.settle.1.AtRest := by
  induction hn : s.load using Nat.strongRecOn generalizing past s with
  | ind n ih =>
    subst hn
    cases hd : s.data.woken with
    | cons t rest =>
      have hm : t ∈ s.data.woken := by simp [hd]
      obtain ⟨⟨s', r⟩, hr⟩ := System.exists_resumePop hm 0
      obtain ⟨more, hall, hrun, hrest⟩ := ih _ (System.load_resumePop hr) (h.resume (a := .resumePop t) rfl hr) rfl
      rw [settle_of_pop hd hr]
      refine ⟨more ++ [⟨0, .resumePop t, r⟩], ?_, ?_, hrest⟩
      · simpa [or_imp, forall_and, Act.isResume] using hall
      · rw [List.append_assoc]
        exact hrun
    | nil =>
      cases hs : s.space.woken with
      | cons call rest =>
        have hm : call ∈ s.space.woken := by simp [hs]
        obtain ⟨⟨s', r⟩, hr⟩ := System.exists_resumePush hm 0
        obtain ⟨more, hall, hrun, hrest⟩ :=
          ih _ (System.load_resumePush hr) (h.resume (a := .resumePush call.1) rfl hr) rfl
        rw [settle_of_push hd hs hr]
        refine ⟨more ++ [⟨0, .resumePush call.1, r⟩], ?_, ?_, hrest⟩
        · simpa [or_imp, forall_and, Act.isResume] using hall
        · rw [List.append_assoc]
          exact hrun
      | nil =>
        have he : s.settle.1 = s := by
          rw [System.settle]
          simp [hd, hs]
        rw [he]
        exact ⟨[], by simp, h, hd, hs⟩

structure InTurn (past : List (Event α)) : Prop where
  values : poppedInTurn past <+: pushedInTurn past
  pushers : returns Act.pusher? past <+: parkings Act.pusher? past
  poppers : returns Act.popper? past <+: parkings Act.popper? past

/-- Call by call, pops get the values of the pushes, and who went to sleep first
returns first. The woken calls can always run on until nobody is woken. -/
theorem served_in_turn (h : Turns limit past s) :
    InTurn past ∧
    ∃ more, (∀ e ∈ more, e.act.isResume = true) ∧ Turns limit (more ++ past) s.settle.1 ∧ s.settle.1.AtRest := by
  have hb := h.orderly.booked
  refine ⟨⟨?_, ?_, ?_⟩, h.settle⟩
  · rw [hb.popped, hb.pushed, h.steps.ledger.1]
    exact List.prefix_append _ _
  · rw [hb.pushers]
    exact List.prefix_append _ _
  · rw [hb.poppers]
    exact List.prefix_append _ _

end

/-- Two pops wait for the first two values, later two pushes wait for room; a pop
and a push that need not wait come between them. -/
def queuedLog : List (Event Nat) :=
  [⟨0, .resumePush 5, .accepted⟩, ⟨0, .tryPop, .value 40⟩, ⟨0, .resumePush 4, .accepted⟩, ⟨0, .pop 6, .value 30⟩,
    ⟨0, .push 5 50, .parked⟩, ⟨0, .push 4 40, .parked⟩, ⟨0, .tryPush 30, .accepted⟩, ⟨0, .resumePop 1, .value 20⟩,
    ⟨0, .push 3 20, .accepted⟩, ⟨0, .resumePop 0, .value 10⟩, ⟨0, .push 2 10, .accepted⟩, ⟨0, .pop 1, .parked⟩,
    ⟨0, .pop 0, .parked⟩]

theorem served_in_turn_queued : ∃ s : System Nat, Turns 1 queuedLog s ∧ InTurn queuedLog ∧
    poppedInTurn queuedLog = [10, 20, 30, 40] ∧ pushedInTurn queuedLog = [10, 20, 30, 40, 50] ∧
    returns Act.popper? queuedLog = [0, 1] ∧ returns Act.pusher? queuedLog = [4, 5] := by
  have waiting : Turns 1 (queuedLog.drop 11) (_ : System Nat) :=
    .call (.call .start ⟨rfl, rfl⟩ rfl (by decide) rfl) ⟨rfl, rfl⟩ rfl (by decide) rfl
  have served : Turns 1 (queuedLog.drop 7) (_ : System Nat) :=
    .resume (.call (.resume (.call waiting ⟨rfl, rfl⟩ rfl (by decide) rfl) rfl rfl) ⟨rfl, rfl⟩ rfl
      (by decide) rfl) rfl rfl
  have full : Turns 1 (queuedLog.drop 4) (_ : System Nat) :=
    .call (.call (.call served ⟨rfl, rfl⟩ rfl trivial rfl) ⟨rfl, rfl⟩ rfl (by decide) rfl) ⟨rfl, rfl⟩ rfl
      (by decide) rfl
  have run : Turns 1 queuedLog (_ : System Nat) :=
    .resume (.call (.resume (.call full ⟨rfl, rfl⟩ rfl (by decide) rfl) rfl rfl) ⟨rfl, rfl⟩ rfl trivial rfl) rfl rfl
  exact ⟨_, run, (served_in_turn run).1, rfl, rfl, rfl, rfl⟩

end Conduit.Blocking
