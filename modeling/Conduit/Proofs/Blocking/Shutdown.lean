import Conduit.Proofs.Blocking.Order
import Conduit.Proofs.Blocking.Wakeups

/-!
# A queue that is down

Going down wakes everyone, and from then on nobody goes to sleep: whoever looks
at the queue is turned away, so only a drain still changes what is inside and
the first one takes all of it (`shutdown_is_final`).
-/

namespace Conduit.Blocking

section
variable {α : Type}

def Phase.rank : Phase → Nat
  | .active => 0
  | .shuttingDown => 1
  | .stopped => 2

/-- What an act comes to at a queue that is down and holds these items. -/
def Act.late (past : List (Event α)) (items : List α) (a : Act α) : Option (Answer α) :=
  match a with
  | .push .. | .tryPush _ | .resumePush _ => (a.item? past).map a.handBack
  | .pop _ | .resumePop _ => some .closed
  | .tryPop => some .nothing
  | .drain => some (.drained items)
  | .shutDown => some (.signalled none)

def drains : List (Event α) → List (List α)
  | [] => []
  | e :: past =>
    match e.answer with
    | .drained vs => drains past ++ [vs]
    | _ => drains past

theorem drains_cons_of_ne {e : Event α} {past : List (Event α)} (h : ∀ vs, e.answer ≠ .drained vs) :
    drains (e :: past) = drains past := by
  rw [drains]
  split
  · rename_i vs he
    exact absurd he (h vs)
  · rfl

end

namespace System

variable {α : Type} {pick : Nat} {t : Ticket} {v : α} {s s' : System α} {a : Act α} {r : Answer α}
  {past more : List (Event α)}

/-! ## One step at a queue that is down -/

/-- All that a step can do: a call that is woken leaves, a drain takes the items, and
everything else changes nothing. -/
inductive Late (s : System α) : Act α → System α → Answer α → Prop
  | push (t : Ticket) (v : α) : Late s (.push t v) s (.refused v)
  | tryPush (v : α) : Late s (.tryPush v) s (.rejected v)
  | resumePush {t : Ticket} {v : α} : (t, v) ∈ s.space.woken → Late s (.resumePush t) (s.leavePush t) (.refused v)
  | pop (t : Ticket) : Late s (.pop t) s .closed
  | tryPop : Late s .tryPop s .nothing
  | resumePop {t : Ticket} : t ∈ s.data.woken → Late s (.resumePop t) (s.leavePop t) .closed
  | drain (space : Condition (Ticket × α)) :
      Late s .drain { s with queue := { s.queue with items := .empty }, space } (.drained s.queue.items.toList)
  | shutDown : Late s .shutDown s (.signalled none)

theorem runPush_of_down (hd : s.queue.down = true) (pick : Nat) (t : Ticket) (v : α) :
    s.runPush pick t v = (s, .refused v) := by
  simp [runPush, Queue.holdsPush, Queue.tryPush, hd]

theorem runPop_of_down (hd : s.queue.down = true) (pick : Nat) (t : Ticket) :
    s.runPop pick t = (s, .closed) := by
  simp [runPop, Queue.holdsPop, Queue.tryPop, hd]

theorem late_step (hd : s.queue.down = true) (hs : s.step pick a = some (s', r)) : Late s a s' r := by
  cases a with
  | push t v =>
    have he := Option.some.inj hs
    rw [runPush_of_down hd] at he
    cases he
    exact .push t v
  | pop t =>
    have he := Option.some.inj hs
    rw [runPop_of_down hd] at he
    cases he
    exact .pop t
  | tryPush v =>
    have he := Option.some.inj hs
    simp only [System.tryPush, Queue.tryPush, hd, Bool.true_or, if_true] at he
    cases he
    exact .tryPush v
  | tryPop =>
    have he := Option.some.inj hs
    simp only [System.tryPop, Queue.tryPop, hd, if_true] at he
    cases he
    exact .tryPop
  | drain =>
    have he := Option.some.inj hs
    rw [drain_eq] at he
    cases he
    exact .drain _
  | shutDown =>
    have he := Option.some.inj hs
    simp only [System.shutDown, hd, if_true] at he
    cases he
    exact .shutDown
  | resumePush t =>
    obtain ⟨v, hm, he⟩ := resumePush_eq_some hs
    rw [runPush_of_down (s := s.leavePush t) hd] at he
    cases he
    exact .resumePush hm
  | resumePop t =>
    obtain ⟨hm, he⟩ := resumePop_eq_some hs
    rw [runPop_of_down (s := s.leavePop t) hd] at he
    cases he
    exact .resumePop hm

theorem Late.answer (h : Late s a s' r) (hh : s.Held past) : a.late past s.queue.items.toList = some r := by
  cases h with
  | resumePush hm =>
    have hv := hh _ (List.mem_append_right _ hm)
    simp only at hv
    simp [Act.late, Act.item?, hv, Act.handBack]
  | _ => rfl

theorem Late.answer_ne_parked (h : Late s a s' r) : r ≠ .parked := by
  cases h <;> nofun

theorem Late.down_eq (h : Late s a s' r) : s'.queue.down = s.queue.down := by
  cases h <;> rfl

theorem Late.parked_le (h : Late s a s' r) : s'.queue.parked ≤ s.queue.parked := by
  cases h with
  | resumePush hm => exact Nat.add_le_add_right (Nat.sub_le _ 1) _
  | resumePop hm => exact Nat.add_le_add_left (Nat.sub_le _ 1) _
  | _ => exact Nat.le_refl _

theorem Late.items (h : Late s a s' r) :
    (s'.queue.items = s.queue.items ∧ ∀ vs, r ≠ .drained vs) ∨
      (r = .drained s.queue.items.toList ∧ s'.queue.items = .empty) := by
  cases h with
  | drain space => exact .inr ⟨rfl, rfl⟩
  | _ => exact .inl ⟨rfl, nofun⟩

/-! ## Phases -/

theorem phase_of_down (hd : s.queue.down = true) :
    s.queue.phase = if s.queue.parked = 0 then .stopped else .shuttingDown := by
  simp [Queue.phase, hd]

theorem rank_mono (hd : s.queue.down = true) (hd' : s'.queue.down = true) (hp : s'.queue.parked ≤ s.queue.parked) :
    s.queue.phase.rank ≤ s'.queue.phase.rank := by
  rw [phase_of_down hd, phase_of_down hd']
  by_cases hz : s.queue.parked = 0
  · have hz' : s'.queue.parked = 0 := by omega
    simp [hz, hz']
  · by_cases hz' : s'.queue.parked = 0
    · simp [hz, hz', Phase.rank]
    · simp [hz, hz']

/-! ## What is promised -/

structure Signalled (s s' : System α) : Prop where
  down : s'.queue.down = true
  items : s'.queue.items = s.queue.items
  poppers : ∀ t ∈ s.data.calls, t ∈ s'.data.woken
  pushers : ∀ call ∈ s.space.calls, call ∈ s'.space.woken
  before : s.queue.phase = .active
  after : s'.queue.phase = if s.queue.parked = 0 then .stopped else .shuttingDown

structure Final (past : List (Event α)) (s : System α) : Prop where
  awake : s.data.waiting = [] ∧ s.space.waiting = []
  answers : ∀ pick a s' r, s.step pick a = some (s', r) → a.late past s.queue.items.toList = some r
  calls : ∀ pick a, a.isResume = false → (s.step pick a).isSome = true
  /-- Whoever is still inside a wait can run, and gets out. -/
  pushers : ∀ pick, ∀ call ∈ s.space.calls, ∃ s', s.step pick (.resumePush call.1) = some (s', .refused call.2)
  poppers : ∀ pick, ∀ t ∈ s.data.calls, ∃ s', s.step pick (.resumePop t) = some (s', .closed)
  again : ∀ pick, s.step pick .shutDown = some (s, .signalled none)

/-- What can have happened from one state at a queue that is down to a later one. -/
structure Since (s : System α) (more : List (Event α)) (s' : System α) : Prop where
  down : s'.queue.down = true
  nobody_parks : ∀ e ∈ more, e.answer ≠ .parked
  parked : s'.queue.parked ≤ s.queue.parked
  forward : s.queue.phase.rank ≤ s'.queue.phase.rank
  drains : (drains more = [] ∧ s'.queue.items = s.queue.items) ∨
    ∃ k, drains more = s.queue.items.toList :: List.replicate k [] ∧ s'.queue.items = .empty

theorem signalled (hd : s.queue.down = false) (hs : s.step pick .shutDown = some (s', r)) : Signalled s s' := by
  have he := Option.some.inj hs
  rcases s.shutDown_cases with ⟨hd', -⟩ | ⟨-, hc⟩
  · rw [hd] at hd'
    cases hd'
  · rw [hc] at he
    cases he
    refine ⟨rfl, rfl, ?_, ?_, by simp [Queue.phase, hd], by simp [Queue.phase, Queue.parked]⟩
    · intro t ht
      exact List.mem_append.mpr (List.mem_append.mp ht).symm
    · intro call hcall
      exact List.mem_append.mpr (List.mem_append.mp hcall).symm

theorem final (ha : s.Awake) (hh : s.Held past) (hd : s.queue.down = true) : Final past s := by
  obtain ⟨hdata, hspace⟩ := ha.quiet hd
  have hanswer : ∀ pick a s' r, s.step pick a = some (s', r) → a.late past s.queue.items.toList = some r :=
    fun _ _ _ _ hs => (late_step hd hs).answer hh
  refine ⟨⟨hdata, hspace⟩, hanswer, fun _ _ hcall => isSome_step hcall s, ?_, ?_, ?_⟩
  · intro pick call hcall
    have hv := hh call hcall
    rw [Condition.calls, hspace, List.nil_append] at hcall
    obtain ⟨⟨s', r⟩, hs⟩ := exists_resumePush hcall pick
    have hr := hanswer pick (.resumePush call.1) s' r hs
    simp only [Act.late, Act.item?, hv, Option.map_some, Act.handBack, Option.some.injEq] at hr
    exact ⟨s', hr ▸ hs⟩
  · intro pick t ht
    rw [Condition.calls, hdata, List.nil_append] at ht
    obtain ⟨⟨s', r⟩, hs⟩ := exists_resumePop ht pick
    have hr := hanswer pick (.resumePop t) s' r hs
    exact ⟨s', Option.some.inj hr ▸ hs⟩
  · intro pick
    simp only [step, System.shutDown, hd, if_true]

theorem Since.step (h : Since s more s') {s'' : System α} (hs : s'.step pick a = some (s'', r)) :
    Since s (⟨pick, a, r⟩ :: more) s'' := by
  have hl := late_step h.down hs
  have hd : s''.queue.down = true := hl.down_eq.trans h.down
  refine ⟨hd, ?_, Nat.le_trans hl.parked_le h.parked, ?_, ?_⟩
  · intro e he
    rcases List.mem_cons.mp he with rfl | he
    · exact hl.answer_ne_parked
    · exact h.nobody_parks e he
  · exact Nat.le_trans h.forward (rank_mono h.down hd hl.parked_le)
  · rcases hl.items with ⟨hi, hne⟩ | ⟨rfl, hi⟩
    · rw [drains_cons_of_ne hne, hi]
      exact h.drains
    · right
      rcases h.drains with ⟨hnone, hsame⟩ | ⟨k, hsome, hempty⟩
      · refine ⟨0, ?_, hi⟩
        simp [Blocking.drains, hnone, hsame]
      · refine ⟨k + 1, ?_, hi⟩
        simp [Blocking.drains, hsome, hempty, List.replicate_succ']

end System

/-! ## Whole runs -/

section
variable {α : Type} {limit : Nat} {past : List (Event α)} {s : System α}

theorem Steps.since {more : List (Event α)} {s' : System α} (h : Steps s more s') (hd : s.queue.down = true) :
    s.Since more s' := by
  induction h with
  | refl => exact ⟨hd, nofun, Nat.le_refl _, Nat.le_refl _, .inl ⟨rfl, rfl⟩⟩
  | step _ _ hs ih => exact ih.step hs

/-- The signal wakes everyone who waits. Down, a queue lets nobody sleep and every call comes
back, pushes with their items and pops with nothing; the items stay until a drain takes them,
the phase only moves forward and another signal changes nothing. -/
theorem shutdown_is_final (h : Steps (.start { limit }) past s) :
    (s.queue.down = false →
      ∀ pick, ∃ s' r, s.step pick .shutDown = some (s', r) ∧ s.Signalled s') ∧
    (s.queue.down = true → s.Final past ∧ ∀ more s', Steps s more s' → s.Since more s') := by
  constructor
  · intro hup pick
    have hs : s.step pick .shutDown = some (s.shutDown.1, s.shutDown.2) := rfl
    exact ⟨_, _, hs, System.signalled hup hs⟩
  · intro hd
    exact ⟨System.final h.awake h.held hd, fun more s' hmore => hmore.since hd⟩

end

/-- The room that the pop has made is taken by somebody else before the pusher that it
woke runs; then the queue goes down. -/
def stolenLog : List (Event Nat) :=
  [⟨0, .shutDown, .signalled (some ⟨1, 2, 0⟩)⟩, ⟨0, .tryPush 40, .accepted⟩, ⟨0, .tryPop, .value 10⟩,
    ⟨0, .push 2 30, .parked⟩, ⟨0, .push 1 20, .parked⟩, ⟨0, .push 0 10, .accepted⟩]

def stolen : System Nat where
  queue := { limit := 1, items := Fifo.empty.push 40, down := true, parkedPushers := 2 }
  space := { woken := [(1, 20), (2, 30)] }

def leavingLog : List (Event Nat) :=
  [⟨0, .shutDown, .signalled none⟩, ⟨0, .pop 3, .closed⟩, ⟨0, .drain, .drained []⟩, ⟨0, .resumePush 1, .refused 20⟩,
    ⟨0, .drain, .drained [40]⟩, ⟨0, .tryPop, .nothing⟩, ⟨0, .resumePush 2, .refused 30⟩]

theorem shutdown_is_final_stolen : Steps (.start { limit := 1 }) stolenLog stolen ∧
    stolen.queue.down = true ∧ stolen.Final stolenLog ∧
    ∃ s, Steps stolen leavingLog s ∧ s.queue.phase = .stopped ∧ drains leavingLog = [[40], []] ∧
      stolen.Since leavingLog s := by
  have run : Steps (.start { limit := 1 }) stolenLog stolen :=
    .step (.step (.step (.step (.step (.step .refl (by decide) rfl) (by decide) rfl) (by decide) rfl)
      (by decide) rfl) (by decide) rfl) (by decide) rfl
  have more : Steps stolen leavingLog _ :=
    .step (.step (.step (.step (.step (.step (.step .refl (by decide) rfl) (by decide) rfl) (by decide) rfl)
      (by decide) rfl) (by decide) rfl) (by decide) rfl) (by decide) rfl
  obtain ⟨hfinal, hsince⟩ := (shutdown_is_final run).2 rfl
  exact ⟨run, rfl, hfinal, _, more, rfl, rfl, hsince _ _ more⟩

end Conduit.Blocking
