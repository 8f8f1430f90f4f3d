import Conduit.Proofs.Ring.Calls

/-!
# What the two sides may conclude

A side that asks for the length reads the two indices one after the other, while
the other side goes on. One of the indices is its own and stands still meanwhile,
so the answer was true when the other one was read. After that the other side
only makes it easier: a producer that saw room finds room, and a consumer that
saw a value finds one (`observers_are_safe`).
-/

namespace Conduit.Ring

section
variable {α : Type}

def inRing (past : List (Event α)) : List α := (pushed past).drop (popped past).length

variable {size n : Nat} {side : Side} {b : Buffer α} {s s' : System α} {stage call : Stage α}
  {past during : List (Event α)} {a : Answer α} {v w : α}

/-! ## The length -/

theorem length_inRing (past : List (Event α)) :
    (inRing past).length = (pushed past).length - (popped past).length := List.length_drop

theorem Kept.contents (h : Kept size past s) : pushed past = popped past ++ inRing past ∧
    s.buffer.between.length = (inRing past).length ∧ (inRing past).length < size := by
  have hmr := h.shape.popped_le
  have hrn := h.shape.read_le
  have hn := h.shape.pushed_le
  have hroom := h.shape.room
  refine ⟨?_, ?_, ?_⟩
  · exact List.prefix_iff_eq_append.mp
      (List.prefix_of_prefix_length_le h.popped_from h.pushed_from (by omega)) |>.symm
  · rw [h.shape.between, List.length_map, List.length_range, length_inRing]
  · rw [length_inRing]
    omega

theorem Buffer.distance_of_size {b b' : Buffer α} (h : b.size = b'.size) (head tail : Nat) :
    b.distance head tail = b'.distance head tail := by
  rw [Buffer.distance, Buffer.distance, h]

theorem During.steps (h : Steps { buffer := b } past s) (hd : During side call s during s' stage) :
    Steps { buffer := b } (during ++ past) s' := (h.enter side call hd.idle hd.opens).trans hd.inside.steps

/-- Nobody else stores the tail, so the producer sees what was there when it read the head. -/
theorem During.producer_length (hsize : 0 < size) (h : Steps { buffer := { size } } past s)
    (hd : During .producer .length s during s' stage) :
    madeBy .producer during = 0 ∧ stage = .length ∨
      ∃ later s₁ earlier, during = later ++ ⟨.producer, .length, .goOn (.lengthFrom s₁.buffer.head)⟩ :: earlier ∧
        Steps (s.enter .producer .length) earlier s₁ ∧
        (s'.buffer.step stage).2 = .done (.length (inRing (earlier ++ past)).length) := by
  have h₀ := h.enter .producer .length hd.idle hd.opens
  rcases hd.inside.asks (System.call?_enter ..) with hfirst | ⟨later, s₁, earlier, rfl, hsteps, rfl⟩
  · exact .inl hfirst
  · refine .inr ⟨later, s₁, earlier, rfl, hsteps, ?_⟩
    have hun := hd.inside.unpublished hsize h₀
    have hun₁ : ∀ e ∈ earlier, e.published = false :=
      fun e he => hun e (List.mem_append_right _ (List.mem_cons_of_mem _ he))
    have hk := (hd.steps h).kept hsize
    have hk₁ := (h₀.trans hsteps).kept hsize
    have htail : s'.buffer.tail = s₁.buffer.tail := by
      rw [hk.shape.tail, hk₁.shape.tail, pushed_append hun, pushed_append hun₁]
    have hsize' := hk.shape.size_eq.trans hk₁.shape.size_eq.symm
    show Outcome.done (Answer.length (s'.buffer.distance s₁.buffer.head s'.buffer.tail)) = _
    rw [htail, Buffer.distance_of_size hsize', hk₁.shape.distance, length_inRing]

theorem During.consumer_length (hsize : 0 < size) (h : Steps { buffer := { size } } past s)
    (hd : During .consumer .length s during s' stage) :
    madeBy .consumer during = 0 ∧ stage = .length ∨
      madeBy .consumer during = 1 ∧ (s'.buffer.step stage).2 = .done (.length (inRing (during ++ past)).length) := by
  have h₀ := h.enter .consumer .length hd.idle hd.opens
  have hmade := hd.inside.made (System.call?_enter ..)
  rcases hd.inside.asks (System.call?_enter ..) with hfirst | ⟨later, s₁, earlier, hduring, hsteps, rfl⟩
  · exact .inl hfirst
  · refine .inr ⟨hmade, ?_⟩
    have hun := hd.inside.unpopped hsize h₀
    have hun₁ : ∀ e ∈ earlier, e.popped? = none :=
      fun e he => hun e (hduring ▸ List.mem_append_right _ (List.mem_cons_of_mem _ he))
    have hk := (hd.steps h).kept hsize
    have hk₁ := (h₀.trans hsteps).kept hsize
    have hhead : s₁.buffer.head = s'.buffer.head := by
      rw [hk.shape.head, hk₁.shape.head, popped_append hun, popped_append hun₁]
    show Outcome.done (Answer.length (s'.buffer.distance s₁.buffer.head s'.buffer.tail)) = _
    rw [hhead, hk.shape.distance, length_inRing]

/-! ## Acting on it -/

def Room (size : Nat) (past : List (Event α)) : Prop := (pushed past).length + 1 < (popped past).length + size

theorem Room.append (h : Room size past) (more : List (Event α)) (hmore : ∀ e ∈ more, e.published = false) :
    Room size (more ++ past) := by
  have hle := length_popped_le more past
  rw [Room] at h ⊢
  rw [pushed_append hmore]
  omega

def Filled (past : List (Event α)) : Prop := (popped past).length < (pushed past).length

theorem Filled.append (h : Filled past) (more : List (Event α)) (hmore : ∀ e ∈ more, e.popped? = none) :
    Filled (more ++ past) := by
  have hle := length_pushed_le more past
  rw [Filled] at h ⊢
  rw [popped_append hmore]
  omega

theorem Kept.push_of_room (h : Kept size past s) (hr : Room size past) (hc : s.producer = some stage)
    (hp : Pushes v stage) : (s.buffer.step stage).2 = .done a ↔ stage.made = 3 ∧ a = .accepted := by
  obtain ⟨b, p, c⟩ := s
  obtain rfl : p = _ := hc
  cases hp with
  | push | pushWrite => exact ⟨nofun, fun h => nomatch h.1⟩
  | pushLook tail =>
    refine ⟨fun ho => ?_, fun h => nomatch h.1⟩
    -- the only answer here is that of a full ring
    have hfull := h.full_of_rejected (v := v)
    simp only [Buffer.step] at ho hfull
    rw [Room] at hr
    split at ho
    · rename_i heq
      have := hfull (by rw [if_pos heq])
      omega
    · cases ho
  | pushPublish next =>
    refine ⟨fun ho => ?_, fun h => h.2 ▸ rfl⟩
    cases ho
    exact ⟨rfl, rfl⟩

theorem Kept.pop_of_filled (h : Kept size past s) (hf : Filled past) (hc : s.consumer = some stage)
    (hp : Pops stage) : if stage.made = 3 then ∃ v, (s.buffer.step stage).2 = .done (.value v)
      else (s.buffer.step stage).2.answer? = none := by
  obtain ⟨b, p, c⟩ := s
  obtain rfl : c = _ := hc
  cases hp with
  | pop => rfl
  | popLook head =>
    -- the only answer here is that of an empty ring
    have hempty := h.empty_of_nothing
    simp only [Buffer.step] at hempty
    rw [Filled] at hf
    show (Buffer.step b (.popLook head)).2.answer? = none
    simp only [Buffer.step]
    split
    · rename_i heq
      have := hempty (by rw [if_pos heq])
      omega
    · rfl
  | popRead head =>
    obtain ⟨v, hv, -⟩ := h.read
    show (Buffer.step b (.popRead head)).2.answer? = none
    rw [Buffer.step_popRead hv]
    rfl
  | popPublish v next => exact ⟨v, rfl⟩

theorem During.rejected (hsize : 0 < size) (h : Steps { buffer := { size } } past s)
    (hd : During .producer (.push v) s during s' stage) (ho : (s'.buffer.step stage).2 = .done (.rejected w)) :
    w = v ∧ (inRing (during ++ past)).length = size - 1 := by
  have hk := (hd.steps h).kept hsize
  have hfull : (pushed (during ++ past)).length + 1 = (popped (during ++ past)).length + size := by
    obtain ⟨b, p, c⟩ := s'
    obtain rfl : p = _ := hd.inside.at
    exact hk.full_of_rejected ho
  refine ⟨?_, by rw [length_inRing]; omega⟩
  cases hd.inside.pushes (System.call?_enter ..) with
  | pushLook tail =>
    simp only [Buffer.step] at ho
    split at ho <;> cases ho
    rfl
  | push | pushWrite | pushPublish => cases ho

theorem During.nothing (hsize : 0 < size) (h : Steps { buffer := { size } } past s)
    (hd : During .consumer .pop s during s' stage) (ho : (s'.buffer.step stage).2 = .done .nothing) :
    inRing (during ++ past) = [] := by
  have hk := (hd.steps h).kept hsize
  obtain ⟨b, p, c⟩ := s'
  obtain rfl : c = _ := hd.inside.at
  rw [inRing, hk.empty_of_nothing ho, List.drop_length]

theorem During.room_of_length (hsize : 0 < size) (h : Steps { buffer := { size } } past s)
    (hd : During .producer .length s during s' stage) (ho : (s'.buffer.step stage).2 = .done (.length n))
    (hn : n ≠ s'.buffer.capacity) :
    Room size (⟨.producer, stage, (s'.buffer.step stage).2⟩ :: (during ++ past)) := by
  have h₀ := h.enter .producer .length hd.idle hd.opens
  have hun := hd.inside.unpublished hsize h₀
  rw [Buffer.capacity, ((hd.steps h).kept hsize).shape.size_eq] at hn
  rcases hd.producer_length hsize h with ⟨-, rfl⟩ | ⟨later, s₁, earlier, rfl, hsteps, ho'⟩
  · cases ho
  · obtain rfl : (inRing (earlier ++ past)).length = n := by
      rw [ho] at ho'
      cases ho'
      rfl
    -- there was room when the head was read, and there is since
    have hlt := ((h₀.trans hsteps).kept hsize).contents.2.2
    have hroom : Room size (earlier ++ past) := by
      have hle := ((h₀.trans hsteps).kept hsize).shape
      rw [length_inRing] at hn hlt
      have := hle.popped_le
      have := hle.read_le
      rw [Room]
      omega
    have hafter := hroom.append (later ++ [_]) fun e he => hun e (by
      rw [List.append_cons]
      exact List.mem_append_left _ he)
    rw [← List.append_assoc, ← List.append_cons] at hafter
    refine hafter.append [_] ?_
    rw [ho, List.forall_mem_singleton]
    cases stage <;> rfl

theorem During.filled_of_length (hsize : 0 < size) (h : Steps { buffer := { size } } past s)
    (hd : During .consumer .length s during s' stage) (ho : (s'.buffer.step stage).2 = .done (.length n))
    (hn : n ≠ 0) : Filled (⟨.consumer, stage, (s'.buffer.step stage).2⟩ :: (during ++ past)) := by
  rcases hd.consumer_length hsize h with ⟨-, rfl⟩ | ⟨-, ho'⟩
  · cases ho
  · obtain rfl : (inRing (during ++ past)).length = n := by
      rw [ho] at ho'
      cases ho'
      rfl
    have hfilled : Filled (during ++ past) := by
      rw [length_inRing] at hn
      rw [Filled]
      omega
    refine hfilled.append [_] ?_
    rw [ho, List.forall_mem_singleton]
    rfl

/-! ## The two sides -/

/-- What each side may conclude from what it sees, after any run. -/
structure Trusted (size : Nat) (past : List (Event α)) (s : System α) : Prop where
  /-- What was pushed and not popped lies between the indices, and leaves a slot free. -/
  contents : pushed past = popped past ++ inRing past ∧ s.buffer.between.length = (inRing past).length ∧
    (inRing past).length < size
  /-- The producer's length is that of the instant at which it read the head. -/
  producer_length : ∀ during s' stage, During .producer .length s during s' stage →
    madeBy .producer during = 0 ∧ stage = .length ∨
      ∃ later s₁ earlier, during = later ++ ⟨.producer, .length, .goOn (.lengthFrom s₁.buffer.head)⟩ :: earlier ∧
        Steps (s.enter .producer .length) earlier s₁ ∧
        (s'.buffer.step stage).2 = .done (.length (inRing (earlier ++ past)).length) ∧
        (inRing (earlier ++ past)).length < size
  consumer_length : ∀ during s' stage, During .consumer .length s during s' stage →
    madeBy .consumer during = 0 ∧ stage = .length ∨
      madeBy .consumer during = 1 ∧
        (s'.buffer.step stage).2 = .done (.length (inRing (during ++ past)).length) ∧
        (inRing (during ++ past)).length < size
  /-- After a length below the capacity the next push is accepted by its fourth access. -/
  not_full : ∀ asked s' stage n, During .producer .length s asked s' stage →
    (s'.buffer.step stage).2 = .done (.length n) → n ≠ s'.buffer.capacity →
    ∀ more t, Steps (s'.advance .producer) more t → (∀ e ∈ more, e.published = false) →
    ∀ v during t' stage', During .producer (.push v) t during t' stage' →
      madeBy .producer during ≤ 3 ∧
        ∀ a, (t'.buffer.step stage').2 = .done a ↔ madeBy .producer during = 3 ∧ a = .accepted
  not_empty : ∀ asked s' stage n, During .consumer .length s asked s' stage →
    (s'.buffer.step stage).2 = .done (.length n) → n ≠ 0 →
    ∀ more t, Steps (s'.advance .consumer) more t → (∀ e ∈ more, e.popped? = none) →
    ∀ during t' stage', During .consumer .pop t during t' stage' →
      madeBy .consumer during ≤ 3 ∧
        if madeBy .consumer during = 3 then ∃ v, (t'.buffer.step stage').2 = .done (.value v)
        else (t'.buffer.step stage').2.answer? = none
  rejected : ∀ v w during s' stage, During .producer (.push v) s during s' stage →
    (s'.buffer.step stage).2 = .done (.rejected w) → w = v ∧ (inRing (during ++ past)).length = size - 1
  nothing : ∀ during s' stage, During .consumer .pop s during s' stage →
    (s'.buffer.step stage).2 = .done .nothing → inRing (during ++ past) = []

theorem Stage.made_le (stage : Stage α) : stage.made ≤ 3 := by
  cases stage <;> simp [made]

theorem During.made (hd : During side call s during s' stage) : madeBy side during = stage.made := by
  have hmade := hd.inside.made (System.call?_enter ..)
  have hopens := hd.opens
  cases call with
  | push | pop | length => exact hmade
  | _ => cases side <;> cases hopens

theorem observers_are_safe (hsize : 2 ≤ size) : ∃ b : Buffer α, Buffer.new? size = some b ∧
    ∀ past s, Steps { buffer := b } past s → Trusted size past s := by
  have hpos : 0 < size := Nat.lt_of_lt_of_le Nat.zero_lt_two hsize
  refine ⟨{ size }, if_pos hsize, fun past s h => ?_⟩
  constructor
  · exact (h.kept hpos).contents
  · intro during s' stage hd
    rcases hd.producer_length hpos h with hfirst | ⟨later, s₁, earlier, hduring, hsteps, ho⟩
    · exact .inl hfirst
    · have hk := ((h.enter .producer .length hd.idle hd.opens).trans hsteps).kept hpos
      exact .inr ⟨later, s₁, earlier, hduring, hsteps, ho, hk.contents.2.2⟩
  · intro during s' stage hd
    rcases hd.consumer_length hpos h with hfirst | ⟨hmade, ho⟩
    · exact .inl hfirst
    · exact .inr ⟨hmade, ho, ((hd.steps h).kept hpos).contents.2.2⟩
  · intro asked s' stage n hd ho hn more t hmore hun v during t' stage' hd'
    have ht := ((hd.steps h).access .producer hd.inside.at).trans hmore
    have hroom := (hd.room_of_length hpos h ho hn).append more hun
    have hroom' := hroom.append during (hd'.inside.unpublished hpos (ht.enter _ _ hd'.idle hd'.opens))
    rw [hd'.made]
    exact ⟨stage'.made_le, fun a => ((hd'.steps ht).kept hpos).push_of_room hroom' hd'.inside.at
      (hd'.inside.pushes (System.call?_enter ..))⟩
  · intro asked s' stage n hd ho hn more t hmore hun during t' stage' hd'
    have ht := ((hd.steps h).access .consumer hd.inside.at).trans hmore
    have hfilled := (hd.filled_of_length hpos h ho hn).append more hun
    have hfilled' := hfilled.append during (hd'.inside.unpopped hpos (ht.enter _ _ hd'.idle hd'.opens))
    rw [hd'.made]
    exact ⟨stage'.made_le, ((hd'.steps ht).kept hpos).pop_of_filled hfilled' hd'.inside.at
      (hd'.inside.pops (System.call?_enter ..))⟩
  · exact fun v w during s' stage hd ho => hd.rejected hpos h ho
  · exact fun during s' stage hd ho => hd.nothing hpos h ho

end

def firstLog : List (Event Nat) :=
  [⟨.producer, .pushPublish 1, .done .accepted⟩, ⟨.producer, .pushWrite 5 0, .goOn (.pushPublish 1)⟩,
    ⟨.producer, .pushLook 5 0, .goOn (.pushWrite 5 0)⟩, ⟨.producer, .push 5, .goOn (.pushLook 5 0)⟩]

def firstIn : System Nat := { buffer := ⟨3, 0, 1, #[some 5]⟩ }

/-- It is popped after the producer has read the head for its question. -/
def lateLog : List (Event Nat) :=
  [⟨.consumer, .popPublish 5 1, .done (.value 5)⟩, ⟨.consumer, .popRead 0, .goOn (.popPublish 5 1)⟩,
    ⟨.consumer, .popLook 0, .goOn (.popRead 0)⟩, ⟨.consumer, .pop, .goOn (.popLook 0)⟩,
    ⟨.producer, .length, .goOn (.lengthFrom 0)⟩]

def emptied : System Nat := { buffer := ⟨3, 1, 1, #[none]⟩ }

def secondLog : List (Event Nat) :=
  [⟨.producer, .pushWrite 6 1, .goOn (.pushPublish 2)⟩, ⟨.producer, .pushLook 6 1, .goOn (.pushWrite 6 1)⟩,
    ⟨.producer, .push 6, .goOn (.pushLook 6 1)⟩]

theorem observers_are_safe_late : ∃ (b : Buffer Nat) (s s' t : System Nat), Buffer.new? 3 = some b ∧
    Steps { buffer := b } firstLog s ∧ During .producer .length s lateLog s' (.lengthFrom 0) ∧
    inRing firstLog = [5] ∧ inRing (lateLog ++ firstLog) = [] ∧
    (s'.buffer.step (.lengthFrom 0)).2 = .done (.length 1) ∧
    During .producer (.push 6) (s'.advance .producer) secondLog t (.pushPublish 2) ∧
    (t.buffer.step (.pushPublish 2)).2 = .done .accepted := by
  have first : Steps { buffer := { size := 3 } } firstLog firstIn :=
    ((((Steps.refl.enter .producer (.push 5) rfl rfl).access .producer rfl).access .producer rfl).access
      .producer rfl).access .producer rfl
  have asked : Inside .producer (firstIn.enter .producer .length) _ (_ : System Nat) _ := .own (.start rfl) rfl
  have popping := ((asked.enter .consumer .pop rfl rfl).other .consumer (by decide) rfl).other .consumer
    (by decide) rfl
  have late : During .producer .length firstIn lateLog (_ : System Nat) _ :=
    ⟨rfl, rfl, (popping.other .consumer (by decide) rfl).other .consumer (by decide) rfl⟩
  have second : During .producer (.push 6) emptied secondLog (_ : System Nat) _ :=
    ⟨rfl, rfl, .own (.own (.own (.start rfl) rfl) rfl) rfl⟩
  obtain ⟨b, hb, trusted⟩ := observers_are_safe (α := Nat) (show 2 ≤ 3 by decide)
  obtain rfl : _ = b := Option.some.inj hb
  have accepted := (trusted _ _ first).not_full _ _ _ 1 late rfl (by decide) [] _ .refl nofun 6 _ _ _ second
  exact ⟨_, _, _, _, rfl, first, late, rfl, rfl, rfl, second, (accepted.2 _).mpr ⟨rfl, rfl⟩⟩

end Conduit.Ring
