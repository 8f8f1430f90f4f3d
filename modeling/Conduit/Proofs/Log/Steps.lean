import Conduit.Log.Logger
import Conduit.Proofs.Blocking.Steps
import Mathlib.Algebra.Ring.Nat
import Mathlib.Data.List.Basic

/-!
# Runs of a logger

Any number of submitters and of shutdown calls and the one worker, one step of
one of them at a time, while the sink ends each call as it likes. The log keeps
with every step whether it got a line accepted and how many lines it counted
as lost.
-/

namespace Conduit.Log

/-! ## The queue of a logger -/

section
variable {q q' : Blocking.System String} {a : Blocking.Answer String}

/-- A pop waits at an empty queue, sees that the queue is down, or takes the oldest line. -/
inductive Pops (q q' : Blocking.System String) : Blocking.Answer String → Prop
  | parked : q.queue.items.toList = [] → q'.queue.items.toList = [] →
      q'.queue.down = q.queue.down → Pops q q' .parked
  | closed : q.queue.down = true → q'.queue.items.toList = q.queue.items.toList →
      q'.queue.down = true → Pops q q' .closed
  | value {line : String} : q.queue.items.toList = line :: q'.queue.items.toList →
      q'.queue.down = q.queue.down → Pops q q' (.value line)

theorem pops_runPop (q : Blocking.System String) : Pops q (q.runPop 0 0).1 (q.runPop 0 0).2 := by
  rcases q.runPop_cases 0 0 with ⟨-, hz, he⟩ | ⟨hd, he⟩ | ⟨-, line, rest, hl, he⟩ <;> rw [he]
  · have hnil : q.queue.items.toList = [] := by
      rw [← List.length_eq_zero_iff, Fifo.length_toList, hz]
    exact .parked hnil hnil rfl
  · exact .closed hd rfl hd
  · exact .value hl rfl

theorem pops_of_resumePop (h : q.resumePop 0 0 = some (q', a)) : Pops q q' a := by
  obtain ⟨-, he⟩ := Blocking.System.resumePop_eq_some h
  have hp := pops_runPop (q.leavePop 0)
  rw [he] at hp
  -- leaving the wait touches neither the lines nor the signal
  cases hp with
  | parked h1 h2 h3 => exact .parked h1 h2 h3
  | closed h1 h2 h3 => exact .closed h1 h2 h3
  | value h1 h2 => exact .value h1 h2

theorem shutDown_queue (q : Blocking.System String) :
    q.shutDown.1.queue.items = q.queue.items ∧ q.shutDown.1.queue.down = true := by
  rcases q.shutDown_cases with ⟨hd, he⟩ | ⟨-, he⟩ <;> rw [he]
  · exact ⟨rfl, hd⟩
  · exact ⟨rfl, rfl⟩

theorem drain_queue (q : Blocking.System String) :
    q.drain.1.queue.items.toList = [] ∧ q.drain.1.queue.down = q.queue.down ∧
      Logger.drained q.drain.2 = q.queue.items.toList := by
  rw [Blocking.System.drain_eq]
  exact ⟨rfl, rfl, rfl⟩

end

namespace Logger

theorem submit_cases (line : String) (s : Logger) :
    s.submit line = ({ s with refusing := s.refusing + 1 }, false) ∨
    (s.queue.queue.down = false ∧ s.submit line = ({ s with queue := s.queue.accept 0 line }, true)) := by
  obtain ⟨queue, worker, written, stored, dropped, refusing, handle, outcome, callers⟩ := s
  rcases queue.tryPush_cases 0 line with he | ⟨hd, -, he⟩
  · left; simp only [submit, he]
  · right; exact ⟨hd, by simp only [submit, he]⟩

/-! ## What a step leaves alone -/

theorem work_ended {s : Logger} {e : Ending} (h : s.worker = .ended e) (r : Sink.Result) : s.work r = s := by
  obtain ⟨queue, worker, written, stored, dropped, refusing, handle, outcome, callers⟩ := s
  subst h
  rfl

theorem callers_work (r : Sink.Result) (s : Logger) : (s.work r).callers = s.callers := by
  obtain ⟨queue, worker, written, stored, dropped, refusing, handle, outcome, callers⟩ := s
  cases worker <;> simp only [work] <;> split <;> rfl

theorem callers_advance (c : Caller) (s : Logger) : (s.advance c).1.callers = s.callers := by
  cases c <;> simp only [advance] <;> split <;> rfl

/-! ## What a step means for the lines -/

def accepts (s : Logger) : Act → Bool
  | .submit line => (s.submit line).2
  | _ => false

def loses (s : Logger) : Act → Nat
  | .work _ =>
    match s.worker with
    | .counting _ lost => lost
    | _ => 0
  | .advance i =>
    match s.callers[i]? with
    | some (.counting lost) => lost
    | _ => 0
  | _ => 0

def Act.line? : Act → Option String
  | .submit line => some line
  | _ => none

end Logger

/-- A step that was made: by whom, and what it meant for the lines. -/
structure Event where
  thread : Nat
  act : Logger.Act
  accepted : Bool
  lost : Nat

inductive Steps (s : Logger) : List Event → Logger → Prop
  | refl : Steps s [] s
  | step {past : List Event} {s₁ : Logger} (t : Nat) (a : Logger.Act) :
      Steps s past s₁ → Steps s (⟨t, a, s₁.accepts a, s₁.loses a⟩ :: past) (s₁.step a)

/-! ## Reading a log -/

structure Entry where
  submitter : Nat
  line : String
  deriving DecidableEq, Repr

def Event.entry? (e : Event) : Option Entry :=
  if e.accepted then e.act.line?.map fun line => ⟨e.thread, line⟩ else none

/-- The lines that were accepted, in the order in which they got into the queue. -/
def accepted : List Event → List Entry
  | [] => []
  | e :: past => accepted past ++ e.entry?.toList

def submitted (t : Nat) : List Event → List String
  | [] => []
  | e :: past => submitted t past ++ if e.thread = t then e.act.line?.toList else []

def linesOf (past : List Event) : List String := past.reverse.filterMap fun e => e.act.line?

def submissions (past : List Event) : Nat := past.countP fun e => e.act.line?.isSome

def refusals (past : List Event) : Nat := past.countP fun e => e.act.line?.isSome && !e.accepted

def losses (past : List Event) : Nat := (past.map Event.lost).sum

theorem length_linesOf (past : List Event) : (linesOf past).length = submissions past := by
  rw [linesOf, List.length_filterMap_eq_countP, List.countP_reverse, submissions]

theorem submissions_eq (past : List Event) : submissions past = (accepted past).length + refusals past := by
  induction past with
  | nil => rfl
  | cons e past ih =>
    obtain ⟨t, a, ok, lost⟩ := e
    rw [submissions, refusals, List.countP_cons, List.countP_cons, ← submissions, ← refusals, ih, accepted,
      List.length_append]
    cases a <;> cases ok <;> simp [Event.entry?, Logger.Act.line?] <;> omega

/-- A thread's accepted lines are among its submitted ones, in the order of its calls. -/
theorem accepted_sublist_submitted (t : Nat) (past : List Event) :
    List.Sublist (((accepted past).filter (·.submitter = t)).map Entry.line) (submitted t past) := by
  induction past with
  | nil => exact List.Sublist.refl []
  | cons e past ih =>
    rw [accepted, submitted, List.filter_append, List.map_append]
    refine ih.append ?_
    obtain ⟨t', a, ok, lost⟩ := e
    by_cases ht : t' = t <;> cases ok <;> cases a <;> simp [Event.entry?, Logger.Act.line?, ht]

end Conduit.Log
