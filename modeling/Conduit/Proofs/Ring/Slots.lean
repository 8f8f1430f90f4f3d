import Conduit.Proofs.Ring.Steps

/-!
# Slots of a ring

Count the stores of the head, the reads, the stores of the tail and the writes:
each count is at most the next, and the last is less than a whole round ahead of
the first. So the two sides never meet in a slot, and what lies between the
indices is what was pushed and not popped yet (`slots_are_safe`).
-/

namespace Conduit.Ring

section
variable {α : Type} {size m r n : Nat} {ws : List α} {b : Buffer α} {v : α}

/-- `ws` was written so far, and the head was stored `m` times, a slot read `r` times and
the tail stored `n` times. From the next read on, slots hold what was written there, and
nothing where a slot is to be written next. -/
structure Shape (size : Nat) (ws : List α) (m r n : Nat) (b : Buffer α) : Prop where
  pos : 0 < size
  size_eq : b.size = size
  head : b.head = m % size
  tail : b.tail = n % size
  popped_le : m ≤ r
  read_le : r ≤ n
  pushed_le : n ≤ ws.length
  room : ws.length < m + size
  slots : ∀ k, r ≤ k → k < r + size → b.slot (k % size) = ws[k]?

/-! ## Full and empty -/

theorem Shape.next_tail (h : Shape size ws m r n b) : b.increment b.tail = (n + 1) % size := by
  have hpos := h.pos
  rw [h.tail, ← h.size_eq] at *
  exact Buffer.increment_mod hpos n

theorem Shape.next_head (h : Shape size ws m r n b) : b.increment b.head = (m + 1) % size := by
  have hpos := h.pos
  rw [h.head, ← h.size_eq] at *
  exact Buffer.increment_mod hpos m

theorem Shape.full_iff (h : Shape size ws m r n b) : b.increment b.tail = b.head ↔ n + 1 = m + size := by
  have := h.popped_le
  have := h.read_le
  have := h.pushed_le
  have := h.room
  have := h.pos
  rw [h.next_tail, h.head, ← Nat.add_mod_right m size]
  refine ⟨fun he => ?_, fun he => by rw [he]⟩
  exact eq_of_mod_eq (a := m + 1) (by omega) (by omega) (by omega) (by omega) he

theorem Shape.empty_iff (h : Shape size ws m r n b) : b.head = b.tail ↔ m = n := by
  have := h.popped_le
  have := h.read_le
  have := h.pushed_le
  have := h.room
  rw [h.head, h.tail]
  refine ⟨fun he => ?_, fun he => by rw [he]⟩
  exact eq_of_mod_eq (a := m) (by omega) (by omega) (by omega) (by omega) he

/-! ## The four accesses that change the ring -/

theorem Shape.write (h : Shape size ws m r n b) (hw : ws.length = n) (hroom : n + 1 < m + size) (v : α) :
    Shape size (ws ++ [v]) m r n (b.write b.tail v) := by
  obtain ⟨hs, hh, ht⟩ := Buffer.write_indices b b.tail v
  have hmr := h.popped_le
  have hrn := h.read_le
  refine ⟨h.pos, hs.trans h.size_eq, hh.trans h.head, ht.trans h.tail, hmr, hrn, ?_, ?_, ?_⟩
  · rw [List.length_append, hw]; omega
  · rw [List.length_append, hw]; simpa using hroom
  · intro k hk hk'
    rw [Buffer.slot_write, h.tail]
    by_cases hkn : k = n
    · subst hkn
      rw [if_pos rfl, ← hw, List.getElem?_concat_length]
    · have hne : k % size ≠ n % size := fun he => hkn (eq_of_mod_eq hk hk' hrn (by omega) he)
      rw [if_neg hne, h.slots k hk hk']
      -- the only new place in the list is the one behind its end
      rcases Nat.lt_or_ge k ws.length with hlt | hge
      · rw [List.getElem?_append_left hlt]
      · rw [List.getElem?_eq_none hge, List.getElem?_eq_none]
        rw [List.length_append, List.length_singleton]
        omega

theorem Shape.storeTail (h : Shape size ws m r n b) (hw : ws.length = n + 1) :
    Shape size ws m r (n + 1) { b with tail := (n + 1) % size } :=
  ⟨h.pos, h.size_eq, h.head, rfl, h.popped_le, Nat.le_succ_of_le h.read_le, Nat.le_of_eq hw.symm, h.room, h.slots⟩

theorem Shape.slot_head (h : Shape size ws m m n b) (hlt : m < n) :
    ∃ v, ws[m]? = some v ∧ b.slot b.head = some v := by
  have hm : m < ws.length := Nat.lt_of_lt_of_le hlt h.pushed_le
  refine ⟨ws[m], List.getElem?_eq_getElem hm, ?_⟩
  rw [h.head, h.slots m (Nat.le_refl m) (Nat.lt_add_of_pos_right h.pos), List.getElem?_eq_getElem hm]

theorem Shape.take (h : Shape size ws m r n b) (hlt : r < n) : Shape size ws m (r + 1) n (b.take (r % size)).2 := by
  have hmr := h.popped_le
  have hroom := h.room
  refine ⟨h.pos, h.size_eq, h.head, h.tail, Nat.le_succ_of_le hmr, hlt, h.pushed_le, hroom, ?_⟩
  intro k hk hk'
  rw [Buffer.slot_take]
  by_cases hround : k = r + size
  · -- the slot comes round again, for a value that is not written yet
    rw [if_pos (by rw [hround, Nat.add_mod_right]), List.getElem?_eq_none (by omega)]
  · have hne : k % size ≠ r % size := by
      intro he
      have := eq_of_mod_eq (a := r) (by omega) (by omega) (Nat.le_refl r) (by omega) he
      omega
    rw [if_neg hne, h.slots k (by omega) (by omega)]

theorem Shape.read (h : Shape size ws m m n b) (hlt : m < n) : Shape size ws m (m + 1) n (b.take b.head).2 := by
  have htake := h.take hlt
  rwa [← h.head] at htake

theorem Shape.storeHead (h : Shape size ws m (m + 1) n b) :
    Shape size ws (m + 1) (m + 1) n { b with head := (m + 1) % size } := by
  have hroom := h.room
  exact ⟨h.pos, h.size_eq, rfl, h.tail, Nat.le_refl _, h.read_le, h.pushed_le, by omega, h.slots⟩

/-! ## The calls -/

/-- Where the producer's call stands; `last` is the value of its latest push. -/
def Produces (size : Nat) (last : Option α) (ws : List α) (m n : Nat) : Option (Stage α) → Prop
  | none | some (.push _) | some .length | some (.lengthFrom _) => ws.length = n
  | some (.pushLook v tail) => ws.length = n ∧ tail = n % size ∧ last = some v
  | some (.pushWrite v tail) => ws.length = n ∧ tail = n % size ∧ last = some v ∧ n + 1 < m + size
  | some (.pushPublish next) => ws.length = n + 1 ∧ next = (n + 1) % size ∧ last = ws[n]?
  | _ => False

def Consumes (size : Nat) (ws : List α) (m r n : Nat) : Option (Stage α) → Prop
  | none | some .pop | some .length | some (.lengthFrom _) => r = m
  | some (.popLook head) => r = m ∧ head = m % size
  | some (.popRead head) => r = m ∧ head = m % size ∧ m < n
  | some (.popPublish v next) => r = m + 1 ∧ next = (m + 1) % size ∧ ws[m]? = some v
  | _ => False

theorem Produces.mono {last : Option α} {m' : Nat} {c : Option (Stage α)} (h : Produces size last ws m n c)
    (hm : m ≤ m') : Produces size last ws m' n c := by
  rcases c with _ | c
  · exact h
  · cases c with
    | pushWrite v tail => exact ⟨h.1, h.2.1, h.2.2.1, Nat.lt_of_lt_of_le h.2.2.2 (by omega)⟩
    | _ => exact h

theorem Consumes.mono {d : List α} {n' : Nat} {c : Option (Stage α)} (h : Consumes size ws m r n c)
    (hn : n ≤ n') : Consumes size (ws ++ d) m r n' c := by
  rcases c with _ | c
  · exact h
  · cases c with
    | popRead head => exact ⟨h.1, h.2.1, Nat.lt_of_lt_of_le h.2.2 hn⟩
    | popPublish v next =>
      obtain ⟨hlt, -⟩ := List.getElem?_eq_some_iff.mp h.2.2
      exact ⟨h.1, h.2.1, by rw [List.getElem?_append_left hlt]; exact h.2.2⟩
    | _ => exact h

end

/-! ## What every step keeps -/

section
variable {α : Type} {size : Nat} {past : List (Event α)} {b : Buffer α} {p c : Option (Stage α)} {stage : Stage α}

structure Kept (size : Nat) (past : List (Event α)) (s : System α) : Prop where
  shape : Shape size (written past) (popped past).length (reads past) (pushed past).length s.buffer
  popped_from : popped past <+: written past
  pushed_from : pushed past <+: written past
  /-- What was written in the last round is there still, read or not. -/
  recent : ∀ k < (written past).length, (written past).length ≤ k + size →
    memory (k % size) past = (written past)[k]?
  producer : Produces size (lastPush past) (written past) (popped past).length (pushed past).length s.producer
  consumer : Consumes size (written past) (popped past).length (reads past) (pushed past).length s.consumer

theorem isPrefix_concat {l ws : List α} {v : α} (h : l <+: ws) (hv : ws[l.length]? = some v) :
    l ++ [v] <+: ws := by
  obtain ⟨rest, rfl⟩ := h
  rw [List.getElem?_append_right (Nat.le_refl _), Nat.sub_self] at hv
  cases rest with
  | nil => simp at hv
  | cons w rest =>
    simp only [List.getElem?_cons_zero, Option.some.injEq] at hv
    subst hv
    exact ⟨rest, by simp⟩

theorem Kept.quiet (h : Kept size past ⟨b, p, c⟩) {e : Event α} {p' c' : Option (Stage α)}
    (hwrite : e.write? = none) (hread : e.read? = none) (hpub : e.published = false) (hpop : e.popped? = none)
    (hp : Produces size (lastPush (e :: past)) (written past) (popped past).length (pushed past).length p')
    (hc : Consumes size (written past) (popped past).length (reads past) (pushed past).length c') :
    Kept size (e :: past) ⟨b, p', c'⟩ := by
  have hw : written (e :: past) = written past := by simp [written, hwrite]
  have hr : reads (e :: past) = reads past := by simp [reads, hread]
  have hn : pushed (e :: past) = pushed past := by simp [pushed, hpub]
  have hm : popped (e :: past) = popped past := by simp [popped, hpop]
  have hmem : ∀ i, memory i (e :: past) = memory i past := by simp [memory, hwrite]
  constructor
  · rw [hw, hr, hn, hm]; exact h.shape
  · rw [hw, hm]; exact h.popped_from
  · rw [hw, hn]; exact h.pushed_from
  · rw [hw]; simpa only [hmem] using h.recent
  · rw [hw, hn, hm]; exact hp
  · rw [hw, hr, hn, hm]; exact hc

/-! ### The producer -/

variable {v : α} {i : Nat}

theorem Kept.write (h : Kept size past ⟨b, some (.pushWrite v i), c⟩) :
    Kept size (⟨.producer, .pushWrite v i, .goOn (.pushPublish (b.increment i))⟩ :: past)
      ⟨b.write i v, some (.pushPublish (b.increment i)), c⟩ := by
  obtain ⟨hw, hi, hlast, hroom⟩ := h.producer
  have htail : b.tail = i := h.shape.tail.trans hi.symm
  have hshape := h.shape.write hw hroom v
  have hnext := h.shape.next_tail
  rw [htail] at hshape hnext
  refine ⟨hshape, h.popped_from.trans (List.prefix_append _ [v]), h.pushed_from.trans (List.prefix_append _ [v]),
    ?_, ⟨?_, hnext, ?_⟩, h.consumer.mono (Nat.le_refl _)⟩
  · intro k hk hk'
    have hlen : (written past ++ [v]).length = (written past).length + 1 := List.length_append
    change k < (written past ++ [v]).length at hk
    change (written past ++ [v]).length ≤ k + size at hk'
    change (if k % size = i then some v else memory (k % size) past) = (written past ++ [v])[k]?
    rw [hlen] at hk hk'
    by_cases hlast : k = (written past).length
    · rw [if_pos (by rw [hlast, hw, hi]), hlast, List.getElem?_concat_length]
    · -- in one round no other value has the slot that is written
      have hlt : k < (written past).length := by omega
      have hne : k % size ≠ i := by
        intro he
        rw [hi, ← hw] at he
        exact hlast (eq_of_mod_eq (Nat.le_refl k) (by omega) (by omega) (by omega) he)
      rw [if_neg hne, List.getElem?_append_left hlt]
      exact h.recent k hlt (by omega)
  · exact List.length_append.trans (by rw [hw]; rfl)
  · change lastPush past = (written past ++ [v])[(pushed past).length]?
    rw [hlast, ← hw, List.getElem?_concat_length]

theorem Kept.storeTail (h : Kept size past ⟨b, some (.pushPublish i), c⟩) :
    Kept size (⟨.producer, .pushPublish i, .done .accepted⟩ :: past) ⟨{ b with tail := i }, none, c⟩ := by
  obtain ⟨hw, rfl, hlast⟩ := h.producer
  obtain ⟨v, hv⟩ : ∃ v, (written past)[(pushed past).length]? = some v := by
    rw [List.getElem?_eq_getElem (by omega)]
    exact ⟨_, rfl⟩
  have hpushed : pushed (⟨.producer, .pushPublish (((pushed past).length + 1) % size), .done .accepted⟩ :: past) =
      pushed past ++ [v] := by
    change pushed past ++ (lastPush past).toList = _
    rw [hlast, hv]; rfl
  have hlen : (pushed past ++ [v]).length = (pushed past).length + 1 := List.length_append
  constructor
  · rw [hpushed, hlen]; exact h.shape.storeTail hw
  · exact h.popped_from
  · rw [hpushed]; exact isPrefix_concat h.pushed_from hv
  · exact h.recent
  · rw [hpushed, hlen]; exact hw
  · rw [hpushed, hlen]
    have := h.consumer.mono (d := []) (Nat.le_succ (pushed past).length)
    rwa [List.append_nil] at this

theorem Kept.produce (h : Kept size past ⟨b, some stage, c⟩) :
    Kept size (⟨.producer, stage, (b.step stage).2⟩ :: past) ⟨(b.step stage).1, (b.step stage).2.stage?, c⟩ := by
  have hp := h.producer
  cases stage with
  | push v => exact h.quiet rfl rfl rfl rfl ⟨hp, h.shape.tail, rfl⟩ h.consumer
  | pushLook v tail =>
    obtain ⟨hw, ht, hlast⟩ := hp
    have htail : b.tail = tail := h.shape.tail.trans ht.symm
    have hfull := h.shape.full_iff
    rw [htail] at hfull
    simp only [Buffer.step]
    split
    · exact h.quiet rfl rfl rfl rfl hw h.consumer
    · rename_i hne
      have hroom := h.shape.room
      have hlt : (pushed past).length + 1 ≠ (popped past).length + size := fun he => hne (hfull.mpr he)
      exact h.quiet rfl rfl rfl rfl ⟨hw, ht, hlast, by omega⟩ h.consumer
  | pushWrite v i => exact h.write
  | pushPublish i => exact h.storeTail
  | length => exact h.quiet rfl rfl rfl rfl hp h.consumer
  | lengthFrom head => exact h.quiet rfl rfl rfl rfl hp h.consumer
  | _ => exact hp.elim

/-! ### The consumer -/

theorem Kept.read (h : Kept size past ⟨b, p, some (.popRead i)⟩) :
    ∃ v, b.slot i = some v ∧
      Kept size (⟨.consumer, .popRead i, .goOn (.popPublish v (b.increment i))⟩ :: past)
        ⟨(b.take i).2, p, some (.popPublish v (b.increment i))⟩ := by
  obtain ⟨hr, hi, hlt⟩ := h.consumer
  have hhead : b.head = i := h.shape.head.trans hi.symm
  have hshape := h.shape
  have hnext := h.shape.next_head
  rw [hr] at hshape
  obtain ⟨v, hv, hslot⟩ := hshape.slot_head hlt
  have hread := hshape.read hlt
  rw [hhead] at hslot hread hnext
  refine ⟨v, hslot, ?_, h.popped_from, h.pushed_from, h.recent, h.producer, ?_, hnext, hv⟩
  · change Shape size (written past) (popped past).length (reads past + 1) (pushed past).length _
    rw [hr]; exact hread
  · change reads past + 1 = _
    rw [hr]; rfl

theorem Kept.storeHead (h : Kept size past ⟨b, p, some (.popPublish v i)⟩) :
    Kept size (⟨.consumer, .popPublish v i, .done (.value v)⟩ :: past) ⟨{ b with head := i }, p, none⟩ := by
  obtain ⟨hr, rfl, hv⟩ := h.consumer
  have hshape := h.shape
  have hlen : (popped past ++ [v]).length = (popped past).length + 1 := List.length_append
  rw [hr] at hshape
  constructor
  · change Shape size (written past) (popped past ++ [v]).length (reads past) (pushed past).length _
    rw [hr, hlen]
    exact hshape.storeHead
  · exact isPrefix_concat h.popped_from hv
  · exact h.pushed_from
  · exact h.recent
  · change Produces size (lastPush past) (written past) (popped past ++ [v]).length (pushed past).length p
    exact h.producer.mono (by omega)
  · exact hr.trans hlen.symm

theorem Kept.consume (h : Kept size past ⟨b, p, some stage⟩) :
    Kept size (⟨.consumer, stage, (b.step stage).2⟩ :: past) ⟨(b.step stage).1, p, (b.step stage).2.stage?⟩ := by
  have hc := h.consumer
  cases stage with
  | pop => exact h.quiet rfl rfl rfl rfl h.producer ⟨hc, h.shape.head⟩
  | popLook head =>
    obtain ⟨hr, hh⟩ := hc
    have hhead : b.head = head := h.shape.head.trans hh.symm
    have hempty := h.shape.empty_iff
    rw [hhead] at hempty
    simp only [Buffer.step]
    split
    · exact h.quiet rfl rfl rfl rfl h.producer hr
    · rename_i hne
      have hmr := h.shape.popped_le
      have hrn := h.shape.read_le
      have hlt : (popped past).length ≠ (pushed past).length := fun he => hne (hempty.mpr he)
      exact h.quiet rfl rfl rfl rfl h.producer ⟨hr, hh, by omega⟩
  | popRead i =>
    obtain ⟨v, hslot, hkept⟩ := h.read
    rw [Buffer.step_popRead hslot]
    exact hkept
  | popPublish v i => exact h.storeHead
  | length => exact h.quiet rfl rfl rfl rfl h.producer hc
  | lengthFrom head => exact h.quiet rfl rfl rfl rfl h.producer hc
  | _ => exact hc.elim

theorem Kept.enter {s : System α} (h : Kept size past s) (side : Side) (hc : s.call? side = none)
    (ho : side.opens stage = true) : Kept size past (s.enter side stage) := by
  obtain ⟨b, p, c⟩ := s
  cases side with
  | producer =>
    have hp := h.producer
    rw [show p = none from hc] at hp
    refine ⟨h.shape, h.popped_from, h.pushed_from, h.recent, ?_, h.consumer⟩
    cases stage with
    | push v | length => exact hp
    | _ => simp [Side.opens] at ho
  | consumer =>
    have hr := h.consumer
    rw [show c = none from hc] at hr
    refine ⟨h.shape, h.popped_from, h.pushed_from, h.recent, h.producer, ?_⟩
    cases stage with
    | pop | length => exact hr
    | _ => simp [Side.opens] at ho

theorem shape_new (hsize : 0 < size) : Shape size [] 0 0 0 ({ size } : Buffer α) := by
  refine ⟨hsize, rfl, ?_, ?_, Nat.le_refl 0, Nat.le_refl 0, Nat.le_refl 0, ?_, ?_⟩
  · exact (Nat.zero_mod size).symm
  · exact (Nat.zero_mod size).symm
  · rw [List.length_nil]; omega
  · simp [Buffer.slot]

theorem Steps.kept {s : System α} (hsize : 0 < size) (h : Steps { buffer := { size } } past s) :
    Kept size past s := by
  induction h with
  | refl => exact ⟨shape_new hsize, List.nil_prefix, List.nil_prefix, nofun, rfl, rfl⟩
  | enter side stage _ hc ho ih => exact ih.enter side hc ho
  | access side _ hc ih =>
    rename_i s₁ stage _
    obtain ⟨b, p, c⟩ := s₁
    cases side with
    | producer =>
      rw [System.advance_producer hc]
      rw [show p = some stage from hc] at ih
      exact ih.produce
    | consumer =>
      rw [System.advance_consumer hc]
      rw [show c = some stage from hc] at ih
      exact ih.consume

/-! ## Calls in vain -/

theorem Kept.full_of_rejected (h : Kept size past ⟨b, some stage, c⟩)
    (hr : (b.step stage).2 = .done (.rejected v)) : (pushed past).length + 1 = (popped past).length + size := by
  have hp := h.producer
  cases stage with
  | pushLook v' tail =>
    obtain ⟨-, ht, -⟩ := hp
    have htail : b.tail = tail := h.shape.tail.trans ht.symm
    simp only [Buffer.step] at hr
    split at hr
    · rename_i hfull
      rw [← htail] at hfull
      exact h.shape.full_iff.mp hfull
    · cases hr
  | push | pushWrite | pushPublish | length | lengthFrom => cases hr
  | pop | popLook | popRead | popPublish => exact hp.elim

theorem Kept.empty_of_nothing (h : Kept size past ⟨b, p, some stage⟩) (hr : (b.step stage).2 = .done .nothing) :
    (popped past).length = (pushed past).length := by
  have hc := h.consumer
  cases stage with
  | popLook head =>
    obtain ⟨-, hh⟩ := hc
    have hhead : b.head = head := h.shape.head.trans hh.symm
    simp only [Buffer.step] at hr
    split at hr
    · rename_i hempty
      rw [← hhead] at hempty
      exact h.shape.empty_iff.mp hempty
    · cases hr
  | popRead i =>
    obtain ⟨v, hv, -⟩ := h.read
    rw [Buffer.step_popRead hv] at hr
    cases hr
  | pop | popPublish | length | lengthFrom => cases hr
  | push | pushLook | pushWrite | pushPublish => exact hc.elim

end

/-! ## Between the indices -/

/-- The slots from the head up to the tail, in turn. -/
def Buffer.between {α : Type} (b : Buffer α) : List Nat :=
  (List.range (b.distance b.head b.tail)).map fun k => (b.head + k) % b.size

section
variable {α : Type} {size m r n : Nat} {ws : List α} {b : Buffer α} {past : List (Event α)} {s : System α}

theorem Shape.distance (h : Shape size ws m r n b) : b.distance b.head b.tail = n - m := by
  have := h.popped_le
  have := h.read_le
  have := h.pushed_le
  have := h.room
  have hlt := Nat.mod_lt m h.pos
  have htail : n % size = (m % size + (n - m)) % size := by
    rw [Nat.mod_add_mod]
    congr 1
    omega
  rw [Buffer.distance, h.head, h.tail, h.size_eq, htail]
  rcases Nat.lt_or_ge (m % size + (n - m)) size with hin | hwrap
  · rw [Nat.mod_eq_of_lt hin, if_pos (Nat.le_add_right _ _)]
    omega
  · have hmod : (m % size + (n - m)) % size = m % size + (n - m) - size := by
      rw [Nat.mod_eq_sub_mod hwrap, Nat.mod_eq_of_lt (a := m % size + (n - m) - size) (by omega)]
    rw [hmod, if_neg (by omega)]
    omega

theorem Shape.between (h : Shape size ws m r n b) :
    b.between = (List.range (n - m)).map fun k => (m + k) % size := by
  rw [Buffer.between, h.distance, h.head, h.size_eq]
  simp only [Nat.mod_add_mod]

theorem map_range_getElem? (l : List α) (m : Nat) :
    (List.range (l.length - m)).map (fun k => l[m + k]?) = (l.drop m).map some := by
  apply List.ext_getElem
  · simp
  · intro k hk hk'
    simp only [List.length_map, List.length_range] at hk
    simp [List.getElem?_eq_getElem (show m + k < l.length by omega)]

structure SlotSafe (size : Nat) (past : List (Event α)) (s : System α) : Prop where
  size_eq : s.buffer.size = size
  head_lt : s.buffer.head < size
  tail_lt : s.buffer.tail < size
  /-- The popped values and then the slots from the head up to the tail are all that was pushed. -/
  values : (popped past).map some ++ s.buffer.between.map (memory · past) = (pushed past).map some
  /-- Those slots hold their values, but for one that is read and not popped yet. -/
  held : ∀ i ∈ s.buffer.between, s.buffer.slot i = memory i past ∨
    i = s.buffer.head ∧ ∃ v next, s.consumer = some (.popPublish v next) ∧ memory i past = some v
  apart : ∀ v i, s.producer = some (.pushWrite v i) →
    i < size ∧ i ∉ s.buffer.between ∧ s.consumer ≠ some (.popRead i)
  read : ∀ e earlier i, e :: earlier <:+ past → e.stage = .popRead i →
    ∃ v, filled i earlier = some v ∧ e.read? = some (i, v)
  overwritten : ∀ e earlier i v, e :: earlier <:+ past → e.stage = .pushWrite v i → filled i earlier = none

theorem Consumes.reads_eq {c : Option (Stage α)} (h : Consumes size ws m r n c) :
    r = m ∨ r = m + 1 ∧ ∃ v next, c = some (.popPublish v next) ∧ ws[m]? = some v := by
  rcases c with _ | c
  · exact .inl h
  · cases c with
    | popPublish v next => exact .inr ⟨h.1, v, next, rfl, h.2.2⟩
    | pop | length | lengthFrom head => exact .inl h
    | popLook head | popRead head => exact .inl h.1
    | _ => exact h.elim

theorem Kept.memory_between (h : Kept size past s) {k : Nat} (hk : k < (pushed past).length - (popped past).length) :
    memory (((popped past).length + k) % size) past = (written past)[(popped past).length + k]? := by
  have hn := h.shape.pushed_le
  have hroom := h.shape.room
  exact h.recent ((popped past).length + k) (by omega) (by omega)

theorem Kept.values (h : Kept size past s) :
    (popped past).map some ++ s.buffer.between.map (memory · past) = (pushed past).map some := by
  have hmr := h.shape.popped_le
  have hrn := h.shape.read_le
  have hpre : popped past <+: pushed past :=
    List.prefix_of_prefix_length_le h.popped_from h.pushed_from (by omega)
  have hbetween : s.buffer.between.map (memory · past) =
      (List.range ((pushed past).length - (popped past).length)).map
        fun k => (pushed past)[(popped past).length + k]? := by
    rw [h.shape.between, List.map_map]
    apply List.map_congr_left
    intro k hk
    have hk := List.mem_range.mp hk
    have hlt : (popped past).length + k < (pushed past).length := by omega
    rw [Function.comp_apply, h.memory_between hk, List.getElem?_eq_getElem hlt]
    exact List.prefix_iff_getElem?.mp h.pushed_from _ hlt
  rw [hbetween, map_range_getElem?, ← List.map_append]
  congr 1
  nth_rewrite 1 [List.prefix_iff_eq_take.mp hpre]
  exact List.take_append_drop _ _

theorem Kept.held (h : Kept size past s) {i : Nat} (hi : i ∈ s.buffer.between) :
    s.buffer.slot i = memory i past ∨
      i = s.buffer.head ∧ ∃ v next, s.consumer = some (.popPublish v next) ∧ memory i past = some v := by
  rw [h.shape.between, List.mem_map] at hi
  obtain ⟨k, hk, rfl⟩ := hi
  have hk := List.mem_range.mp hk
  have hslot := h.shape.slots ((popped past).length + k)
  rw [h.memory_between hk]
  have hn := h.shape.pushed_le
  have hroom := h.shape.room
  rcases h.consumer.reads_eq with hr | ⟨hr, v, next, hc, hv⟩
  · exact .inl (hslot (by omega) (by omega))
  · -- the slot that is read is the first
    by_cases hk0 : k = 0
    · subst hk0
      exact .inr ⟨h.shape.head.symm, v, next, hc, hv⟩
    · exact .inl (hslot (by omega) (by omega))

theorem Kept.apart (h : Kept size past s) {v : α} {i : Nat} (hp : s.producer = some (.pushWrite v i)) :
    i < size ∧ i ∉ s.buffer.between ∧ s.consumer ≠ some (.popRead i) := by
  have hprod := h.producer
  have hmr := h.shape.popped_le
  have hrn := h.shape.read_le
  rw [hp] at hprod
  obtain ⟨hw, rfl, -, hroom⟩ := hprod
  refine ⟨Nat.mod_lt _ h.shape.pos, ?_, ?_⟩
  · rw [h.shape.between, List.mem_map]
    rintro ⟨k, hk, he⟩
    have hk := List.mem_range.mp hk
    have := eq_of_mod_eq (a := (popped past).length) (by omega) (by omega) (by omega) (by omega) he
    omega
  · intro hc
    have hcons := h.consumer
    rw [hc] at hcons
    obtain ⟨-, he, hlt⟩ := hcons
    have := eq_of_mod_eq (a := (popped past).length) (by omega) (by omega) (by omega) (by omega) he
    omega

theorem Kept.slot_of_popRead (h : Kept size past s) {side : Side} {i : Nat}
    (hc : s.call? side = some (.popRead i)) : ∃ v, s.buffer.slot i = some v := by
  obtain ⟨b, p, c⟩ := s
  cases side with
  | producer =>
    obtain rfl : p = _ := hc
    exact h.producer.elim
  | consumer =>
    obtain rfl : c = _ := hc
    obtain ⟨v, hv, -⟩ := h.read
    exact ⟨v, hv⟩

theorem Kept.slot_of_pushWrite (h : Kept size past s) {side : Side} {i : Nat} {v : α}
    (hc : s.call? side = some (.pushWrite v i)) : s.buffer.slot i = none := by
  obtain ⟨b, p, c⟩ := s
  cases side with
  | producer =>
    obtain rfl : p = _ := hc
    obtain ⟨hw, rfl, -, hroom⟩ := h.producer
    have hrn := h.shape.read_le
    have hmr := h.shape.popped_le
    refine (h.shape.slots (pushed past).length hrn (by omega)).trans ?_
    exact List.getElem?_eq_none (Nat.le_of_eq hw)
  | consumer =>
    obtain rfl : c = _ := hc
    exact h.consumer.elim

theorem Steps.read_filled (hsize : 0 < size) (h : Steps { buffer := { size } } past s) {e : Event α}
    {earlier : List (Event α)} {i : Nat} (he : e :: earlier <:+ past) (hi : e.stage = .popRead i) :
    ∃ v, filled i earlier = some v ∧ e.read? = some (i, v) := by
  obtain ⟨side, stage, outcome⟩ := e
  obtain rfl : stage = _ := hi
  obtain ⟨s₁, h₁, hc, ho⟩ := h.made he
  obtain ⟨v, hv⟩ := (h₁.kept hsize).slot_of_popRead hc
  refine ⟨v, (h₁.slot_eq_filled i).symm.trans hv, ?_⟩
  obtain rfl : outcome = _ := ho.trans (congrArg Prod.snd (Buffer.step_popRead hv))
  rfl

theorem Steps.overwritten_empty (hsize : 0 < size) (h : Steps { buffer := { size } } past s) {e : Event α}
    {earlier : List (Event α)} {i : Nat} {v : α} (he : e :: earlier <:+ past) (hi : e.stage = .pushWrite v i) :
    filled i earlier = none := by
  obtain ⟨side, stage, outcome⟩ := e
  obtain rfl : stage = _ := hi
  obtain ⟨s₁, h₁, hc, -⟩ := h.made he
  exact (h₁.slot_eq_filled i).symm.trans ((h₁.kept hsize).slot_of_pushWrite hc)

/-- A ring of two or more slots is made, and after any run of the two sides, one
access at a time, its slots are safe. -/
theorem slots_are_safe (hsize : 2 ≤ size) : ∃ b : Buffer α, Buffer.new? size = some b ∧
    ∀ past s, Steps { buffer := b } past s → SlotSafe size past s := by
  have hpos : 0 < size := Nat.lt_of_lt_of_le Nat.zero_lt_two hsize
  refine ⟨{ size }, if_pos hsize, fun past s h => ?_⟩
  have hk := h.kept hpos
  constructor
  · exact hk.shape.size_eq
  · rw [hk.shape.head]; exact Nat.mod_lt _ hpos
  · rw [hk.shape.tail]; exact Nat.mod_lt _ hpos
  · exact hk.values
  · exact fun i hi => hk.held hi
  · exact fun v i hp => hk.apart hp
  · exact fun e earlier i he hi => h.read_filled hpos he hi
  · exact fun e earlier i v he hi => h.overwritten_empty hpos he hi

end

/-- The third push has written its slot and the second pop has read its own, and neither
has stored its index. -/
def crossedLog : List (Event Nat) :=
  [⟨.consumer, .popRead 1, .goOn (.popPublish 6 2)⟩, ⟨.producer, .pushWrite 7 2, .goOn (.pushPublish 0)⟩,
    ⟨.consumer, .popLook 1, .goOn (.popRead 1)⟩, ⟨.producer, .pushLook 7 2, .goOn (.pushWrite 7 2)⟩,
    ⟨.producer, .push 7, .goOn (.pushLook 7 2)⟩, ⟨.consumer, .pop, .goOn (.popLook 1)⟩,
    ⟨.consumer, .popPublish 5 1, .done (.value 5)⟩, ⟨.producer, .pushPublish 2, .done .accepted⟩,
    ⟨.consumer, .popRead 0, .goOn (.popPublish 5 1)⟩, ⟨.producer, .pushWrite 6 1, .goOn (.pushPublish 2)⟩,
    ⟨.consumer, .popLook 0, .goOn (.popRead 0)⟩, ⟨.producer, .pushLook 6 1, .goOn (.pushWrite 6 1)⟩,
    ⟨.consumer, .pop, .goOn (.popLook 0)⟩, ⟨.producer, .push 6, .goOn (.pushLook 6 1)⟩,
    ⟨.producer, .pushPublish 1, .done .accepted⟩, ⟨.producer, .pushWrite 5 0, .goOn (.pushPublish 1)⟩,
    ⟨.producer, .pushLook 5 0, .goOn (.pushWrite 5 0)⟩, ⟨.producer, .push 5, .goOn (.pushLook 5 0)⟩]

theorem slots_are_safe_crossed : ∃ (b : Buffer Nat) (s : System Nat), Buffer.new? 3 = some b ∧
    Steps { buffer := b } crossedLog s ∧ s.buffer.between = [1] ∧ s.buffer.slot 1 = none ∧
    popped crossedLog = [5] ∧ pushed crossedLog = [5, 6] ∧
    [5].map some ++ [1].map (memory · crossedLog) = [5, 6].map some := by
  have five : Steps { buffer := { size := 3 } } _ (_ : System Nat) :=
    ((((Steps.refl.enter .producer (.push 5) rfl rfl).access .producer rfl).access .producer rfl).access
      .producer rfl).access .producer rfl
  have both := (((five.enter .producer (.push 6) rfl rfl).access .producer rfl).enter .consumer .pop rfl
    rfl).access .consumer rfl
  have moved := (((both.access .producer rfl).access .consumer rfl).access .producer rfl).access .consumer rfl
  have again := (((moved.access .producer rfl).access .consumer rfl).enter .consumer .pop rfl rfl).access
    .consumer rfl
  have third := ((again.enter .producer (.push 7) rfl rfl).access .producer rfl).access .producer rfl
  have run : Steps { buffer := { size := 3 } } crossedLog (_ : System Nat) :=
    ((third.access .consumer rfl).access .producer rfl).access .consumer rfl
  obtain ⟨b, hb, hsafe⟩ := slots_are_safe (α := Nat) (show 2 ≤ 3 by decide)
  obtain rfl : _ = b := Option.some.inj hb
  exact ⟨_, _, rfl, run, rfl, rfl, rfl, rfl, (hsafe _ _ run).values⟩

end Conduit.Ring
