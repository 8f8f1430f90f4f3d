import Conduit.Blocking.Queue

/-!
# Threads at a blocking queue

Any number of threads use one queue. What a thread does while it holds the
lock is one step, and calls that have to wait are kept with the conditions
they wait for: `data` for pops and `space` for pushes. Each blocking call has
a ticket of its own.
-/

namespace Conduit.Blocking

abbrev Ticket := Nat

/-- What a thread does with the lock in its hand. -/
inductive Act (α : Type)
  | push (t : Ticket) (v : α)
  | pop (t : Ticket)
  | tryPush (v : α)
  | tryPop
  | drain
  | shutDown
  | resumePush (t : Ticket)
  | resumePop (t : Ticket)
  deriving Repr

inductive Answer (α : Type)
  | parked
  | accepted
  /-- A push into a queue that is down gives its item back. -/
  | refused (v : α)
  /-- A push that does not wait gives its item back. -/
  | rejected (v : α)
  | value (v : α)
  | closed
  | nothing
  | drained (vs : List α)
  /-- The signal, or nothing if the queue was down already. -/
  | signalled (note : Option Signal)
  deriving DecidableEq, Repr

structure System (α : Type) where
  queue : Queue α
  data : Condition Ticket := {}
  space : Condition (Ticket × α) := {}

namespace System

variable {α : Type}

def start (q : Queue α) : System α := { queue := q }

def runPush (pick : Nat) (t : Ticket) (v : α) (s : System α) : System α × Answer α :=
  if s.queue.holdsPush then
    ({ s with
        queue := { s.queue with parkedPushers := s.queue.parkedPushers + 1 }
        space := s.space.park (t, v) }, .parked)
  else
    match s.queue.tryPush v with
    | none => (s, .refused v)
    | some q => ({ s with queue := q, data := s.data.notifyOne pick }, .accepted)

def runPop (pick : Nat) (t : Ticket) (s : System α) : System α × Answer α :=
  if s.queue.holdsPop then
    ({ s with
        queue := { s.queue with parkedPoppers := s.queue.parkedPoppers + 1 }
        data := s.data.park t }, .parked)
  else
    match s.queue.tryPop with
    | none => (s, .closed)
    | some (v, q) => ({ s with queue := q, space := s.space.notifyOne pick }, .value v)

def tryPush (pick : Nat) (v : α) (s : System α) : System α × Answer α :=
  match s.queue.tryPush v with
  | none => (s, .rejected v)
  | some q => ({ s with queue := q, data := s.data.notifyOne pick }, .accepted)

def tryPop (pick : Nat) (s : System α) : System α × Answer α :=
  match s.queue.tryPop with
  | none => (s, .nothing)
  | some (v, q) => ({ s with queue := q, space := s.space.notifyOne pick }, .value v)

/-- Drained pushers may all try again. -/
def drain (s : System α) : System α × Answer α :=
  let (vs, q) := s.queue.drain
  ({ s with queue := q, space := if vs.isEmpty then s.space else s.space.notifyAll }, .drained vs)

def shutDown (s : System α) : System α × Answer α :=
  if s.queue.down then (s, .signalled none)
  else
    ({ queue := s.queue.shutDown, data := s.data.notifyAll, space := s.space.notifyAll },
      .signalled (some s.queue.signal))

def leavePush (t : Ticket) (s : System α) : System α :=
  { s with
    queue := { s.queue with parkedPushers := s.queue.parkedPushers - 1 }
    space := { s.space with woken := s.space.woken.eraseP (·.1 == t) } }

def leavePop (t : Ticket) (s : System α) : System α :=
  { s with
    queue := { s.queue with parkedPoppers := s.queue.parkedPoppers - 1 }
    data := { s.data with woken := s.data.woken.erase t } }

def resumePush (pick : Nat) (t : Ticket) (s : System α) : Option (System α × Answer α) :=
  (s.space.woken.find? (·.1 == t)).map fun call => (s.leavePush t).runPush pick t call.2

def resumePop (pick : Nat) (t : Ticket) (s : System α) : Option (System α × Answer α) :=
  if s.data.woken.contains t then some ((s.leavePop t).runPop pick t) else none

/-- One step; `pick` says which sleeper a notification of one reaches. Only a
call that is not woken cannot run again. -/
def step (pick : Nat) (a : Act α) (s : System α) : Option (System α × Answer α) :=
  match a with
  | .push t v => some (s.runPush pick t v)
  | .pop t => some (s.runPop pick t)
  | .tryPush v => some (s.tryPush pick v)
  | .tryPop => some (s.tryPop pick)
  | .drain => some s.drain
  | .shutDown => some s.shutDown
  | .resumePush t => s.resumePush pick t
  | .resumePop t => s.resumePop pick t

/-! ## Coming to rest -/

def load (s : System α) : Nat := s.data.load + s.space.load

theorem load_runPop (pick : Nat) (t : Ticket) (s : System α) :
    (s.runPop pick t).1.load ≤ s.load + 1 := by
  unfold runPop
  split
  · simp only [load, Condition.load_park]; omega
  · split
    · simp
    · have := Condition.load_notifyOne pick s.space
      simp only [load]; omega

theorem load_runPush (pick : Nat) (t : Ticket) (v : α) (s : System α) :
    (s.runPush pick t v).1.load ≤ s.load + 1 := by
  unfold runPush
  split
  · simp only [load, Condition.load_park]; omega
  · split
    · simp
    · have := Condition.load_notifyOne pick s.data
      simp only [load]; omega

theorem load_resumePop {pick : Nat} {t : Ticket} {s s' : System α} {a : Answer α}
    (h : s.resumePop pick t = some (s', a)) : s'.load < s.load := by
  unfold resumePop at h
  split at h
  · rename_i ht
    have hm : t ∈ s.data.woken := by simpa using ht
    have hl := List.length_erase_of_mem hm
    have hp := List.length_pos_of_mem hm
    have := load_runPop pick t (s.leavePop t)
    rw [Option.some.inj h] at this
    simp only [load, Condition.load, leavePop, hl] at this ⊢
    omega
  · cases h

theorem load_resumePush {pick : Nat} {t : Ticket} {s s' : System α} {a : Answer α}
    (h : s.resumePush pick t = some (s', a)) : s'.load < s.load := by
  obtain ⟨⟨t', v⟩, hf, h⟩ := Option.map_eq_some_iff.mp h
  have hm := List.mem_of_find?_eq_some hf
  have hp := List.length_pos_of_mem hm
  have hl := List.length_eraseP_of_mem hm (List.find?_some hf)
  have := load_runPush pick t v (s.leavePush t)
  rw [h] at this
  simp only [load, Condition.load, leavePush, hl] at this ⊢
  omega

/-- Runs every woken call, in the order they were woken, until all sleep or
have returned. Gives the answers of those that returned. -/
def settle (s : System α) : System α × List (Ticket × Answer α) :=
  let finished (t : Ticket) (a : Answer α) (log : List (Ticket × Answer α)) :=
    match a with
    | .parked => log
    | a => (t, a) :: log
  match s.data.woken, s.space.woken with
  | t :: _, _ =>
    match _h : s.resumePop 0 t with
    | some (s', a) =>
      let (s'', log) := s'.settle
      (s'', finished t a log)
    | none => (s, [])
  | [], (t, _) :: _ =>
    match _h : s.resumePush 0 t with
    | some (s', a) =>
      let (s'', log) := s'.settle
      (s'', finished t a log)
    | none => (s, [])
  | [], [] => (s, [])
termination_by s.load
decreasing_by
  · exact load_resumePop _h
  · exact load_resumePush _h

end System

end Conduit.Blocking
