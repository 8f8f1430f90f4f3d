import Conduit.Proofs.Ring.Slots

/-!
# A ring as a list

One call after the other, through either handle. Between two calls nothing is
half done, so the ring is the list of its unread values, and each call does to
it what it would do to a list with a bound, with both handles there or with one
of them gone (`ring_is_bounded_list`).
-/

namespace Conduit.Ring

/-! ## A call on its own -/

def Stage.indices {α : Type} : Stage α → List Nat
  | .pushLook _ tail | .pushWrite _ tail => [tail]
  | .pushPublish next | .popPublish _ next => [next]
  | .popLook head | .popRead head | .lengthFrom head => [head]
  | .push _ | .pop | .length => []

namespace Buffer

variable {α : Type}

/-- The stages that a call comes through, at most so many. -/
def passes : Nat → Buffer α → Stage α → List (Stage α)
  | 0, _, _ => []
  | n + 1, b, stage =>
    stage :: match b.step stage with
      | (b, .goOn stage) => passes n b stage
      | (_, .done _) => []

theorem push_of_full {b : Buffer α} (h : b.increment b.tail = b.head) (v : α) : b.push v = (b, .rejected v) := by
  simp only [push, accesses, run, step, if_pos h]

theorem push_of_room {b : Buffer α} (h : b.increment b.tail ≠ b.head) (v : α) :
    b.push v = ({ b.write b.tail v with tail := b.increment b.tail }, .accepted) := by
  simp only [push, accesses, run, step, if_neg h]

theorem pop_of_empty {b : Buffer α} (h : b.head = b.tail) : b.pop = (b, .nothing) := by
  simp only [pop, accesses, run, step, if_pos h]

theorem pop_of_slot {b : Buffer α} (h : b.head ≠ b.tail) {v : α} (hv : b.slot b.head = some v) :
    b.pop = ({ (b.take b.head).2 with head := b.increment b.head }, .value v) := by
  have htake : b.take b.head = (some v, (b.take b.head).2) := Prod.ext hv rfl
  simp only [pop, accesses, run, step, if_neg h]
  rw [htake]

theorem run_length (b : Buffer α) : b.run accesses .length = (b, .length (b.distance b.head b.tail)) := rfl

/-- A call works with its own copies of the two indices and of what comes after them. -/
theorem mem_indices {b : Buffer α} {side : Side} {stage stage' : Stage α} {i : Nat} (ho : side.opens stage = true)
    (hs : stage' ∈ b.passes accesses stage) (hi : i ∈ stage'.indices) :
    i = b.head ∨ i = b.tail ∨ i = b.increment b.head ∨ i = b.increment b.tail := by
  cases stage with
  | push v =>
    by_cases hfull : b.increment b.tail = b.head
    · simp only [accesses, passes, step, if_pos hfull, List.mem_cons, List.not_mem_nil, or_false] at hs
      rcases hs with rfl | rfl <;> simp_all [Stage.indices]
    · simp only [accesses, passes, step, if_neg hfull, List.mem_cons, List.not_mem_nil, or_false] at hs
      rcases hs with rfl | rfl | rfl | rfl <;> simp_all [Stage.indices]
  | pop =>
    by_cases hempty : b.head = b.tail
    · simp only [accesses, passes, step, if_pos hempty, List.mem_cons, List.not_mem_nil, or_false] at hs
      rcases hs with rfl | rfl <;> simp_all [Stage.indices]
    · rcases hv : b.take b.head with ⟨_ | v, b'⟩
      · simp only [accesses, passes, step, if_neg hempty, hv, List.mem_cons, List.not_mem_nil, or_false] at hs
        rcases hs with rfl | rfl | rfl <;> simp_all [Stage.indices]
      · simp only [accesses, passes, step, if_neg hempty, hv, List.mem_cons, List.not_mem_nil, or_false] at hs
        rcases hs with rfl | rfl | rfl | rfl <;> simp_all [Stage.indices]
  | length =>
    simp only [accesses, passes, step, List.mem_cons, List.not_mem_nil, or_false] at hs
    rcases hs with rfl | rfl <;> simp_all [Stage.indices]
  | _ => cases side <;> cases ho

end Buffer

/-! ## Calls through the handles -/

namespace Ends

variable {α : Type}

def has (e : Ends α) : Side → Bool
  | .producer => e.producer
  | .consumer => e.consumer

def drop (side : Side) (e : Ends α) : List α × Ends α :=
  match side with
  | .producer => e.dropProducer
  | .consumer => e.dropConsumer

end Ends

inductive Use (α : Type)
  | call (side : Side) (stage : Stage α) (a : Answer α)
  | drop (side : Side) (destroyed : List α)

variable {α : Type}

/-- Any number of calls and drops through handles that are still there; the newest comes first. -/
inductive Uses (e : Ends α) : List (Use α) → Ends α → Prop
  | refl : Uses e [] e
  | call {past : List (Use α)} {e₁ : Ends α} (side : Side) (stage : Stage α) :
      Uses e past e₁ → e₁.has side = true → side.opens stage = true →
      Uses e (.call side stage (e₁.buffer.run Buffer.accesses stage).2 :: past)
        { e₁ with buffer := (e₁.buffer.run Buffer.accesses stage).1 }
  | drop {past : List (Use α)} {e₁ : Ends α} (side : Side) :
      Uses e past e₁ → e₁.has side = true → Uses e (.drop side (e₁.drop side).1 :: past) (e₁.drop side).2

def accepted : List (Use α) → List α
  | [] => []
  | .call _ (.push v) .accepted :: past => accepted past ++ [v]
  | _ :: past => accepted past

def taken : List (Use α) → List α
  | [] => []
  | .call _ _ (.value v) :: past => taken past ++ [v]
  | _ :: past => taken past

/-! ## Between two calls -/

section
variable {size m k : Nat} {ws : List α} {b : Buffer α} {past : List (Use α)} {e : Ends α} {v : α} {stage : Stage α}

theorem Shape.valuesFrom_eq (h : Shape size ws m m ws.length b) (hk : m ≤ k) (hk' : k ≤ ws.length) {fuel : Nat}
    (hfuel : ws.length ≤ k + fuel) : b.valuesFrom fuel (k % size) = ws.drop k := by
  have hroom := h.room
  induction fuel generalizing k with
  | zero =>
    rw [Buffer.valuesFrom, List.drop_eq_nil_of_le (by omega)]
  | succ fuel ih =>
    rw [Buffer.valuesFrom, h.tail]
    by_cases hlast : k = ws.length
    · rw [if_pos (by rw [hlast]), hlast, List.drop_length]
    · have hne : k % size ≠ ws.length % size := by
        intro he
        exact hlast (eq_of_mod_eq (a := m) hk (by omega) (by omega) (by omega) he)
      have hlt : k < ws.length := by omega
      have hslot : b.slots[k % size]?.join = some ws[k] := by
        have hs := h.slots k hk (by omega)
        rwa [List.getElem?_eq_getElem hlt] at hs
      have hpos := h.pos
      have hnext : b.increment (k % size) = (k + 1) % size := by
        rw [← h.size_eq] at hpos ⊢
        exact Buffer.increment_mod hpos k
      rw [if_neg hne, hslot, hnext, ih (by omega) hlt (by omega), List.drop_eq_getElem_cons hlt]
      rfl

theorem Shape.unread_eq (h : Shape size ws m m ws.length b) : b.unread = ws.drop m := by
  have hroom := h.room
  rw [Buffer.unread, h.head, h.size_eq]
  exact h.valuesFrom_eq (Nat.le_refl m) h.read_le (by omega)

/-- Nothing is half done: what was written is what was accepted, and what was read was taken. -/
structure Steady (size : Nat) (past : List (Use α)) (b : Buffer α) : Prop where
  shape : Shape size (accepted past) (taken past).length (taken past).length (accepted past).length b
  taken_from : taken past <+: accepted past

theorem Steady.unread_eq (h : Steady size past b) : b.unread = (accepted past).drop (taken past).length :=
  h.shape.unread_eq

theorem Steady.accepted_eq (h : Steady size past b) : accepted past = taken past ++ b.unread := by
  rw [h.unread_eq]
  exact (List.prefix_iff_eq_append.mp h.taken_from).symm

theorem Steady.length_eq (h : Steady size past b) :
    b.unread.length = (accepted past).length - (taken past).length := by
  rw [h.unread_eq, List.length_drop]

theorem Steady.full_iff (h : Steady size past b) :
    b.increment b.tail = b.head ↔ ¬ b.unread.length < size - 1 := by
  have hroom := h.shape.room
  have hle := h.shape.read_le
  rw [h.shape.full_iff, h.length_eq]
  omega

theorem Steady.empty_iff (h : Steady size past b) : b.head = b.tail ↔ b.unread = [] := by
  have hle := h.shape.read_le
  rw [h.shape.empty_iff, ← List.length_eq_zero_iff, h.length_eq]
  omega

theorem Steady.distance_eq (h : Steady size past b) : b.distance b.head b.tail = b.unread.length := by
  rw [h.shape.distance, h.length_eq]

/-! ## One call -/

theorem Steady.slot_head (h : Steady size past b) {vs : List α} (hv : b.unread = v :: vs) :
    b.slot b.head = some v ∧ (accepted past)[(taken past).length]? = some v := by
  have hw : (accepted past)[(taken past).length]? = some v := by
    rw [h.accepted_eq, hv, List.getElem?_append_right (Nat.le_refl _), Nat.sub_self]
    rfl
  obtain ⟨hlt, -⟩ := List.getElem?_eq_some_iff.mp hw
  obtain ⟨v', hv', hslot⟩ := h.shape.slot_head hlt
  rw [hw] at hv'
  exact ⟨hv' ▸ hslot, hw⟩

theorem Steady.quiet (h : Steady size past b) {u : Use α} (ha : accepted (u :: past) = accepted past)
    (ht : taken (u :: past) = taken past) : Steady size (u :: past) b := by
  constructor
  · rw [ha, ht]; exact h.shape
  · rw [ha, ht]; exact h.taken_from

theorem Steady.push (h : Steady size past b) (side : Side) (v : α) :
    Steady size (.call side (.push v) (b.push v).2 :: past) (b.push v).1 := by
  by_cases hfull : b.increment b.tail = b.head
  · rw [Buffer.push_of_full hfull v]
    exact h.quiet rfl rfl
  · rw [Buffer.push_of_room hfull v]
    have hroom := h.shape.room
    have hne : (accepted past).length + 1 ≠ (taken past).length + size :=
      fun he => hfull (h.shape.full_iff.mpr he)
    have hlen : (accepted past ++ [v]).length = (accepted past).length + 1 := List.length_append
    have hshape := (h.shape.write rfl (by omega) v).storeTail hlen
    rw [← h.shape.next_tail] at hshape
    refine ⟨?_, h.taken_from.trans (List.prefix_append _ _)⟩
    show Shape size (accepted past ++ [v]) _ _ (accepted past ++ [v]).length _
    rw [hlen]
    exact hshape

theorem Steady.pop (h : Steady size past b) (side : Side) : Steady size (.call side .pop b.pop.2 :: past) b.pop.1 := by
  by_cases hempty : b.head = b.tail
  · rw [Buffer.pop_of_empty hempty]
    exact h.quiet rfl rfl
  · obtain ⟨v, vs, hv⟩ := List.exists_cons_of_ne_nil (mt h.empty_iff.mpr hempty)
    obtain ⟨hslot, hw⟩ := h.slot_head hv
    obtain ⟨hlt, -⟩ := List.getElem?_eq_some_iff.mp hw
    rw [Buffer.pop_of_slot hempty hslot]
    have hlen : (taken past ++ [v]).length = (taken past).length + 1 := List.length_append
    have hshape := (h.shape.read hlt).storeHead
    rw [← h.shape.next_head] at hshape
    refine ⟨?_, isPrefix_concat h.taken_from hw⟩
    show Shape size _ (taken past ++ [v]).length (taken past ++ [v]).length _ _
    rw [hlen]
    exact hshape

theorem Steady.call (h : Steady size past b) (side : Side) (ho : side.opens stage = true) :
    Steady size (.call side stage (b.run Buffer.accesses stage).2 :: past) (b.run Buffer.accesses stage).1 := by
  cases stage with
  | push v => exact h.push side v
  | pop => exact h.pop side
  | length => exact h.quiet rfl rfl
  | _ => cases side <;> cases ho

theorem Ends.buffer_drop (side : Side) (e : Ends α) : (e.drop side).2.buffer = e.buffer := by
  cases side <;> rfl

theorem Uses.steady (hsize : 0 < size) (h : Uses { buffer := { size } } past e) : Steady size past e.buffer := by
  induction h with
  | refl => exact ⟨shape_new hsize, List.nil_prefix⟩
  | call side stage _ _ ho ih => exact ih.call side ho
  | drop side _ _ ih =>
    rw [Ends.buffer_drop]
    exact ih.quiet rfl rfl

/-! ## What a list with a bound does -/

theorem Steady.push_room (h : Steady size past b) (hlt : b.unread.length < size - 1) (v : α) :
    (b.push v).2 = .accepted ∧ (b.push v).1.unread = b.unread ++ [v] := by
  have hroom : b.increment b.tail ≠ b.head := fun he => h.full_iff.mp he hlt
  have hnext := h.push .producer v
  have hanswer : (b.push v).2 = .accepted := by rw [Buffer.push_of_room hroom v]
  refine ⟨hanswer, ?_⟩
  rw [hanswer] at hnext
  have hle := h.shape.read_le
  rw [hnext.unread_eq, h.unread_eq]
  exact List.drop_append_of_le_length hle

theorem Steady.pop_cons (h : Steady size past b) {vs : List α} (hv : b.unread = v :: vs) :
    b.pop.2 = .value v ∧ b.pop.1.unread = vs := by
  have hne : b.head ≠ b.tail := by
    intro he
    rw [h.empty_iff.mp he] at hv
    cases hv
  have hnext := h.pop .consumer
  have hanswer : b.pop.2 = .value v := by rw [Buffer.pop_of_slot hne (h.slot_head hv).1]
  refine ⟨hanswer, ?_⟩
  -- what was accepted is the same before and after, and begins with what was taken
  rw [hanswer] at hnext
  have hafter : accepted past = (taken past ++ [v]) ++ b.pop.1.unread := hnext.accepted_eq
  rw [h.accepted_eq, hv, List.append_assoc] at hafter
  exact (List.cons.inj (List.append_cancel_left hafter)).2.symm

/-- After any uses of its two handles a ring of so many slots is the list of the values
that were accepted and not taken yet. -/
structure ListLike (size : Nat) (past : List (Use α)) (b : Buffer α) : Prop where
  contents : accepted past = taken past ++ b.unread
  bound : b.unread.length ≤ size - 1
  push_accepted : ∀ v, b.unread.length < size - 1 →
    (b.push v).2 = .accepted ∧ (b.push v).1.unread = b.unread ++ [v]
  push_rejected : ∀ v, ¬ b.unread.length < size - 1 → b.push v = (b, .rejected v)
  pop_value : ∀ v vs, b.unread = v :: vs → b.pop.2 = .value v ∧ b.pop.1.unread = vs
  pop_nothing : b.unread = [] → b.pop = (b, .nothing)
  length : b.run Buffer.accesses .length = (b, .length b.unread.length)
  isEmpty : b.isEmpty = true ↔ b.unread.length = 0
  isFull : b.isFull = true ↔ b.unread.length = size - 1
  indices : ∀ side stage stage' i, Side.opens side stage = true → stage' ∈ b.passes Buffer.accesses stage →
    i ∈ stage'.indices → i < b.size
  size_eq : b.size = size

theorem Steady.indices_lt (h : Steady size past b) {side : Side} {stage' : Stage α} {i : Nat}
    (ho : side.opens stage = true) (hs : stage' ∈ b.passes Buffer.accesses stage) (hi : i ∈ stage'.indices) :
    i < b.size := by
  have hpos := h.shape.pos
  rw [h.shape.size_eq]
  rcases Buffer.mem_indices ho hs hi with rfl | rfl | rfl | rfl
  · rw [h.shape.head]; exact Nat.mod_lt _ hpos
  · rw [h.shape.tail]; exact Nat.mod_lt _ hpos
  · rw [h.shape.next_head]; exact Nat.mod_lt _ hpos
  · rw [h.shape.next_tail]; exact Nat.mod_lt _ hpos

theorem ring_is_bounded_list (hsize : 2 ≤ size) : ∃ b : Buffer α, Buffer.new? size = some b ∧
    ∀ past e, Uses { buffer := b } past e → ListLike size past e.buffer := by
  have hpos : 0 < size := Nat.lt_of_lt_of_le Nat.zero_lt_two hsize
  refine ⟨{ size }, if_pos hsize, fun past e hu => ?_⟩
  have h := hu.steady hpos
  have hlength : e.buffer.length = e.buffer.unread.length := h.distance_eq
  constructor
  · exact h.accepted_eq
  · have hroom := h.shape.room
    rw [h.length_eq]
    omega
  · exact fun v hlt => h.push_room hlt v
  · exact fun v hlt => Buffer.push_of_full (h.full_iff.mpr hlt) v
  · exact fun v vs hv => h.pop_cons hv
  · exact fun hv => Buffer.pop_of_empty (h.empty_iff.mpr hv)
  · rw [Buffer.run_length, h.distance_eq]
  · rw [Buffer.isEmpty, hlength, decide_eq_true_iff]
  · rw [Buffer.isFull, Buffer.capacity, hlength, h.shape.size_eq, decide_eq_true_iff]
  · exact fun side stage stage' i ho hs hi => h.indices_lt ho hs hi
  · exact h.shape.size_eq

end

/-- A third value finds the ring full, the fourth comes round to the first slot, and then
the producer goes. -/
def usedLog : List (Use Nat) :=
  [.drop .producer [], .call .consumer .length (.length 2), .call .producer (.push 8) .accepted,
    .call .consumer .pop (.value 5), .call .producer (.push 7) (.rejected 7),
    .call .producer (.push 6) .accepted, .call .producer (.push 5) .accepted]

theorem ring_is_bounded_list_wrapped : ∃ (b : Buffer Nat) (e : Ends Nat), Buffer.new? 3 = some b ∧
    Uses { buffer := b } usedLog e ∧ e.producer = false ∧ e.buffer.tail = 0 ∧
    accepted usedLog = [5, 6, 8] ∧ taken usedLog = [5] ∧ e.buffer.unread = [6, 8] ∧
    e.buffer.isFull = true ∧ e.buffer.pop.2 = .value 6 := by
  have full : Uses { buffer := { size := 3 } } _ (_ : Ends Nat) :=
    .call .producer (.push 7) (.call .producer (.push 6) (.call .producer (.push 5) .refl rfl rfl) rfl rfl) rfl rfl
  have wrapped := (full.call .consumer .pop rfl rfl).call .producer (.push 8) rfl rfl
  have run : Uses { buffer := { size := 3 } } usedLog (_ : Ends Nat) :=
    (wrapped.call .consumer .length rfl rfl).drop .producer rfl
  obtain ⟨b, hb, like⟩ := ring_is_bounded_list (α := Nat) (show 2 ≤ 3 by decide)
  obtain rfl : _ = b := Option.some.inj hb
  have h := like _ _ run
  exact ⟨_, _, rfl, run, rfl, rfl, rfl, rfl, rfl, h.isFull.mpr rfl, (h.pop_value 6 [8] rfl).1⟩

end Conduit.Ring
