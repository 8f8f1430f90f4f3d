import Conduit.Proofs.Ring.Contents
import Conduit.Proofs.Ring.Observers

/-!
# The end of each value

The two sides work at the same time and let go of the ring in any order. While
one of them is left nothing is destroyed. With the second the ring goes, and what
is destroyed with it is what was accepted and not popped, so each value that was
given to a push has one end (`values_end_once`).
-/

namespace Conduit.Ring

section
variable {α : Type}

/-! ## The loop over the slots -/

/-- From slot `i` on the loop destroys these values in these slots, one after the other, and
then stands at the tail. -/
inductive Walk : Buffer α → Nat → List (Nat × α) → Prop
  | stop {b : Buffer α} : Walk b b.tail []
  | visit {b : Buffer α} {i : Nat} {v : α} {seen : List (Nat × α)} : i ≠ b.tail → b.slot i = some v →
      Walk (b.take i).2 (b.increment i) seen → Walk b i ((i, v) :: seen)

variable {size m k : Nat} {ws : List α} {b : Buffer α} {seen seen' : List (Nat × α)} {i : Nat}

theorem Walk.unique (h : Walk b i seen) (h' : Walk b i seen') : seen = seen' := by
  induction h generalizing seen' with
  | stop =>
    cases h' with
    | stop => rfl
    | visit hne => exact absurd rfl hne
  | visit hne hv _ ih =>
    cases h' with
    | stop => exact absurd rfl hne
    | visit _ hv' hrest =>
      obtain rfl := Option.some.inj (hv.symm.trans hv')
      rw [ih hrest]

theorem Shape.walk (h : Shape size ws m k ws.length b) : ∃ seen, Walk b (k % size) seen ∧
    seen.map Prod.fst = (List.range (ws.length - k)).map (fun j => (k + j) % size) ∧
    seen.map Prod.snd = ws.drop k := by
  obtain ⟨left, hleft⟩ : ∃ left, ws.length - k = left := ⟨_, rfl⟩
  have hk := h.read_le
  induction left generalizing k b with
  | zero =>
    have hend : k = ws.length := by omega
    refine ⟨[], ?_, by rw [hleft]; rfl, by rw [hend, List.drop_length]; rfl⟩
    rw [hend, ← h.tail]
    exact .stop
  | succ left ih =>
    have hlt : k < ws.length := by omega
    have hmk := h.popped_le
    have hroom := h.room
    have hne : k % size ≠ b.tail := by
      intro he
      have := eq_of_mod_eq (a := m) hmk (by omega) (by omega) (by omega) (he.trans h.tail)
      omega
    have hslot : b.slot (k % size) = some ws[k] := by
      have hpos := h.pos
      rw [h.slots k (Nat.le_refl k) (by omega), List.getElem?_eq_getElem hlt]
    have hnext : b.increment (k % size) = (k + 1) % size := by
      have hpos := h.pos
      rw [← h.size_eq] at hpos ⊢
      exact Buffer.increment_mod hpos k
    obtain ⟨seen, hwalk, hslots, hvalues⟩ := ih (h.take hlt) (by omega) hlt
    rw [← hnext] at hwalk
    refine ⟨_, .visit hne hslot hwalk, ?_, ?_⟩
    · rw [List.map_cons, hslots, hleft, List.range_succ_eq_map, List.map_cons, List.map_map,
        show ws.length - (k + 1) = left by omega]
      congr 1
      apply List.map_congr_left
      intro j _
      show (k + 1 + j) % size = (k + (j + 1)) % size
      congr 1
      omega
    · rw [List.map_cons, hvalues, List.drop_eq_getElem_cons hlt]

end

/-! ## Runs with drops -/

section
variable {α : Type}

/-- What is done with a ring: an access of a call, or a side lets go of it. -/
inductive Deed (α : Type)
  | access (e : Event α)
  | drop (side : Side) (vs : List α)

def Side.other : Side → Side
  | .producer => .consumer
  | .consumer => .producer

/-- Any number of accesses and drops; the newest comes first. A side has its handle while
it is in a call. -/
inductive Lives (b : Buffer α) : List (Deed α) → System α → Ends α → Prop
  | start : Lives b [] { buffer := b } { buffer := b }
  | enter {past : List (Deed α)} {s : System α} {e : Ends α} (side : Side) (stage : Stage α) :
      Lives b past s e → e.has side = true → s.call? side = none → side.opens stage = true →
      Lives b past (s.enter side stage) e
  | access {past : List (Deed α)} {s : System α} {e : Ends α} (side : Side) {stage : Stage α} :
      Lives b past s e → s.call? side = some stage →
      Lives b (.access ⟨side, stage, (s.buffer.step stage).2⟩ :: past) (s.advance side)
        { e with buffer := (s.advance side).buffer }
  | drop {past : List (Deed α)} {s : System α} {e : Ends α} (side : Side) :
      Lives b past s e → e.has side = true → s.call? side = none →
      Lives b (.drop side (e.drop side).1 :: past) s (e.drop side).2

def accessesOf : List (Deed α) → List (Event α)
  | [] => []
  | .access e :: past => e :: accessesOf past
  | .drop _ _ :: past => accessesOf past

def destroyed : List (Deed α) → List α
  | [] => []
  | .access _ :: past => destroyed past
  | .drop _ vs :: past => destroyed past ++ vs

def Event.handedBack? (e : Event α) : Option α :=
  match e.outcome with
  | .done (.rejected v) => some v
  | _ => none

def given : List (Event α) → List α
  | [] => []
  | e :: past => given past ++ e.pushes?.toList

def handedBack : List (Event α) → List α
  | [] => []
  | e :: past => handedBack past ++ e.handedBack?.toList

def inHand (last : Option α) : Option (Stage α) → List α
  | some (.pushLook _ _) | some (.pushWrite _ _) | some (.pushPublish _) => last.toList
  | _ => []

variable {size : Nat} {b : Buffer α} {past : List (Event α)} {deeds : List (Deed α)} {s : System α} {e : Ends α}
  {p c : Option (Stage α)} {stage : Stage α} {side side' : Side} {w : α}

/-! ## What becomes of a value that is given -/

theorem Kept.push_of_rejected (h : Kept size past s) (hc : s.call? side = some stage)
    (ho : (s.buffer.step stage).2 = .done (.rejected w)) :
    side = .producer ∧ lastPush past = some w ∧ ∃ tail, stage = .pushLook w tail := by
  cases stage with
  | pushLook v tail =>
    simp only [Buffer.step] at ho
    split at ho <;> cases ho
    cases side with
    | producer =>
      have hprod := h.producer
      rw [show s.producer = _ from hc] at hprod
      exact ⟨rfl, hprod.2.2, tail, rfl⟩
    | consumer =>
      have hcons := h.consumer
      rw [show s.consumer = _ from hc] at hcons
      exact hcons.elim
  | popLook head =>
    simp only [Buffer.step] at ho
    split at ho <;> cases ho
  | popRead head =>
    simp only [Buffer.step] at ho
    split at ho <;> cases ho
  | push | pushWrite | pushPublish | pop | popPublish | length | lengthFrom => cases ho

/-- The values that were given so far: handed back, accepted, or in the hands of a push. -/
def Settled (past : List (Event α)) (p : Option (Stage α)) : Prop :=
  (given past).Perm (handedBack past ++ pushed past ++ inHand (lastPush past) p)

theorem Kept.settled_produce (h : Kept size past ⟨b, some stage, c⟩) (hs : Settled past (some stage)) :
    Settled (⟨.producer, stage, (b.step stage).2⟩ :: past) (b.step stage).2.stage? := by
  unfold Settled at hs ⊢
  cases stage with
  | push v =>
    show (given past ++ [v]).Perm (handedBack past ++ [] ++ pushed past ++ [v])
    change (given past).Perm (handedBack past ++ pushed past ++ []) at hs
    rw [List.append_nil] at hs ⊢
    exact hs.append_right [v]
  | pushLook v tail =>
    obtain ⟨-, -, hlast⟩ := h.producer
    rw [inHand, hlast] at hs
    simp only [Buffer.step]
    split
    · show (given past ++ []).Perm (handedBack past ++ [v] ++ pushed past ++ [])
      rw [List.append_nil, List.append_nil, List.append_assoc]
      rw [List.append_assoc] at hs
      exact hs.trans (List.Perm.append_left _ List.perm_append_comm)
    · show (given past ++ []).Perm (handedBack past ++ [] ++ pushed past ++ (lastPush past).toList)
      rwa [hlast, List.append_nil, List.append_nil]
  | pushWrite v tail =>
    show (given past ++ []).Perm (handedBack past ++ [] ++ pushed past ++ (lastPush past).toList)
    rwa [List.append_nil, List.append_nil]
  | pushPublish next =>
    show (given past ++ []).Perm (handedBack past ++ [] ++ (pushed past ++ (lastPush past).toList) ++ [])
    rwa [List.append_nil, List.append_nil, List.append_nil, ← List.append_assoc]
  | length | lengthFrom =>
    show (given past ++ []).Perm (handedBack past ++ [] ++ pushed past ++ [])
    change (given past).Perm (handedBack past ++ pushed past ++ []) at hs
    rwa [List.append_nil, List.append_nil (handedBack past)]
  | pop | popLook | popRead | popPublish => exact h.producer.elim

theorem Kept.settled_consume (h : Kept size past ⟨b, p, some stage⟩) (hs : Settled past p) :
    Settled (⟨.consumer, stage, (b.step stage).2⟩ :: past) p := by
  have hsame : ∀ {o : Outcome α}, Event.pushes? ⟨.consumer, stage, o⟩ = none →
      Event.handedBack? ⟨.consumer, stage, o⟩ = none → Event.published ⟨.consumer, stage, o⟩ = false →
      Settled (⟨.consumer, stage, o⟩ :: past) p := by
    intro o hpush hback hpub
    unfold Settled
    rw [given, handedBack, pushed, lastPush, hpush, hback, hpub]
    simpa [Settled] using hs
  cases stage with
  | popLook head =>
    simp only [Buffer.step]
    split <;> exact hsame rfl rfl rfl
  | popRead head =>
    obtain ⟨v, hv, -⟩ := h.read
    rw [Buffer.step_popRead hv]
    exact hsame rfl rfl rfl
  | pop | popPublish | length | lengthFrom => exact hsame rfl rfl rfl
  | push | pushLook | pushWrite | pushPublish => exact h.consumer.elim

theorem Steps.settled (hsize : 0 < size) (h : Steps { buffer := { size } } past s) : Settled past s.producer := by
  induction h with
  | refl => exact .refl _
  | enter side stage _ hc ho ih =>
    cases side with
    | consumer => exact ih
    | producer =>
      -- a call that has only been entered has nothing in hand
      rw [show System.producer _ = none from hc] at ih
      cases stage with
      | push | length => exact ih
      | _ => cases ho
  | access side h hc ih =>
    have hk := h.kept hsize
    rename_i s₁ stage
    obtain ⟨b, p, c⟩ := s₁
    cases side with
    | producer =>
      obtain rfl : p = some stage := hc
      rw [System.advance_producer rfl]
      exact hk.settled_produce ih
    | consumer =>
      obtain rfl : c = some stage := hc
      rw [System.advance_consumer rfl]
      exact hk.settled_consume ih

/-! ## The handles -/

theorem Side.eq_other (h : side' ≠ side) : side' = side.other := by
  cases side <;> cases side' <;> first | rfl | exact absurd rfl h

theorem Side.other_ne (side : Side) : side.other ≠ side := by
  cases side <;> nofun

theorem Kept.shape_of_idle (h : Kept size past s) (hp : s.producer = none) (hc : s.consumer = none) :
    Shape size (pushed past) (popped past).length (popped past).length (pushed past).length s.buffer := by
  have hprod := h.producer
  have hcons := h.consumer
  rw [hp] at hprod
  rw [hc] at hcons
  have hshape := h.shape
  have heq : pushed past = written past := h.pushed_from.eq_of_length hprod.symm
  rw [show reads past = (popped past).length from hcons, ← heq] at hshape
  exact hshape

theorem Ends.fst_drop (e : Ends α) (side : Side) :
    (e.drop side).1 = if e.has side.other = true then [] else e.buffer.unread := by
  cases side <;> rfl

theorem Ends.has_drop (e : Ends α) (side : Side) : (e.drop side).2.has side = false := by
  cases side <;> rfl

theorem Ends.has_drop_ne (e : Ends α) (h : side' ≠ side) : (e.drop side).2.has side' = e.has side' := by
  cases side <;> cases side' <;> first | exact absurd rfl h | rfl

structure Handled (size : Nat) (deeds : List (Deed α)) (s : System α) (e : Ends α) : Prop where
  buffer : e.buffer = s.buffer
  steps : Steps { buffer := { size } } (accessesOf deeds) s
  idle : ∀ side, e.has side = false → s.call? side = none
  spared : ∀ side, e.has side = true → destroyed deeds = []
  gone : e.producer = false → e.consumer = false → destroyed deeds = inRing (accessesOf deeds)

theorem Handled.unread_eq (hsize : 0 < size) (h : Handled size deeds s e) (hidle : ∀ side, s.call? side = none) :
    e.buffer.unread = inRing (accessesOf deeds) := by
  rw [h.buffer, ((h.steps.kept hsize).shape_of_idle (hidle .producer) (hidle .consumer)).unread_eq]
  rfl

theorem Handled.drop (hsize : 0 < size) (h : Handled size deeds s e) (hh : e.has side = true)
    (hc : s.call? side = none) : Handled size (.drop side (e.drop side).1 :: deeds) s (e.drop side).2 := by
  have hspared := h.spared side hh
  have hidle : ∀ side', (e.drop side).2.has side' = false → s.call? side' = none := by
    intro side' hgone
    by_cases hs : side' = side
    · rw [hs]
      exact hc
    · exact h.idle side' (e.has_drop_ne hs ▸ hgone)
  refine ⟨(Ends.buffer_drop side e).trans h.buffer, h.steps, hidle, ?_, ?_⟩
  · intro side' hleft
    have hne : side' ≠ side := by
      rintro rfl
      rw [e.has_drop] at hleft
      cases hleft
    show destroyed deeds ++ (e.drop side).1 = []
    rw [hspared, e.fst_drop, ← Side.eq_other hne, ← e.has_drop_ne hne, if_pos hleft]
    rfl
  · intro hp hcons
    have hall : ∀ side', (e.drop side).2.has side' = false := by
      intro side'
      cases side' with
      | producer => exact hp
      | consumer => exact hcons
    show destroyed deeds ++ (e.drop side).1 = inRing (accessesOf deeds)
    rw [hspared, e.fst_drop, ← e.has_drop_ne side.other_ne, hall, if_neg Bool.false_ne_true,
      h.unread_eq hsize fun side' => hidle side' (hall side')]
    rfl

theorem System.buffer_enter (s : System α) (side : Side) (stage : Stage α) :
    (s.enter side stage).buffer = s.buffer := by
  cases side <;> rfl

theorem Lives.handled (hsize : 0 < size) (h : Lives { size } deeds s e) : Handled size deeds s e := by
  induction h with
  | start => exact ⟨rfl, .refl, by rintro (_ | _) <;> nofun, fun _ _ => rfl, nofun⟩
  | enter side stage _ hh hc ho ih =>
    refine ⟨ih.buffer.trans (System.buffer_enter ..).symm, ih.steps.enter side stage hc ho, ?_, ih.spared, ih.gone⟩
    intro side' hgone
    have hne : side ≠ side' := by
      rintro rfl
      rw [hh] at hgone
      cases hgone
    rw [System.call?_enter_ne _ _ hne]
    exact ih.idle side' hgone
  | access side _ hc ih =>
    rename_i s e stage _
    have hbusy : ∀ side', e.has side' = false → side ≠ side' := by
      rintro side' hgone rfl
      rw [ih.idle side hgone] at hc
      cases hc
    refine ⟨rfl, ih.steps.access side hc, ?_, ?_, ?_⟩
    · intro side' hgone
      have hgone : e.has side' = false := by cases side' <;> exact hgone
      rw [System.call?_advance_ne hc (hbusy side' hgone)]
      exact ih.idle side' hgone
    · intro side' hleft
      exact ih.spared side' (by cases side' <;> exact hleft)
    · -- a side that is in a call has its handle
      intro hp hcons
      cases side with
      | producer => exact absurd rfl (hbusy .producer hp)
      | consumer => exact absurd rfl (hbusy .consumer hcons)
  | drop side _ hh hc ih => exact ih.drop hsize hh hc

/-! ## One end each -/

/-- What becomes of the values, after any run of the two sides and their handles. -/
structure EndOnce (size : Nat) (deeds : List (Deed α)) (s : System α) (e : Ends α) : Prop where
  spared : ∀ side, e.has side = true → destroyed deeds = []
  first : ∀ side, e.has side.other = true → (e.drop side).1 = []
  /-- The second destroys what was accepted and not popped: the loop goes from the head to
  the tail, and finds a value in each slot that it comes to. -/
  second : ∀ side, e.has side = true → e.has side.other = false → s.call? side = none →
    (e.drop side).1 = inRing (accessesOf deeds) ∧
      ∃ seen, Walk e.buffer e.buffer.head seen ∧ (∀ seen', Walk e.buffer e.buffer.head seen' → seen' = seen) ∧
        seen.map Prod.fst = e.buffer.between ∧ seen.map Prod.snd = (e.drop side).1
  handed_back : ∀ a earlier w, a :: earlier <:+ accessesOf deeds → a.outcome = .done (.rejected w) →
    lastPush earlier = some w
  /-- At every instant a value that was given is in one place. -/
  in_one_place : (given (accessesOf deeds)).Perm (handedBack (accessesOf deeds) ++ (popped (accessesOf deeds) ++
    inRing (accessesOf deeds)) ++ inHand (lastPush (accessesOf deeds)) s.producer)
  gone : e.producer = false → e.consumer = false →
    pushed (accessesOf deeds) = popped (accessesOf deeds) ++ destroyed deeds ∧
      (given (accessesOf deeds)).Perm
        (handedBack (accessesOf deeds) ++ (popped (accessesOf deeds) ++ destroyed deeds))

theorem Handled.second (hsize : 0 < size) (h : Handled size deeds s e) (hother : e.has side.other = false)
    (hc : s.call? side = none) : (e.drop side).1 = inRing (accessesOf deeds) ∧
      ∃ seen, Walk e.buffer e.buffer.head seen ∧ (∀ seen', Walk e.buffer e.buffer.head seen' → seen' = seen) ∧
        seen.map Prod.fst = e.buffer.between ∧ seen.map Prod.snd = (e.drop side).1 := by
  have hidle : ∀ side', s.call? side' = none := by
    intro side'
    by_cases hs : side' = side
    · rw [hs]
      exact hc
    · refine h.idle side' ?_
      rwa [Side.eq_other hs]
  have hshape := (h.steps.kept hsize).shape_of_idle (hidle .producer) (hidle .consumer)
  rw [← h.buffer] at hshape
  obtain ⟨seen, hwalk, hslots, hvalues⟩ := hshape.walk
  rw [← hshape.head] at hwalk
  rw [e.fst_drop, hother, if_neg Bool.false_ne_true]
  refine ⟨h.unread_eq hsize hidle, seen, hwalk, fun seen' hw => hw.unique hwalk, ?_, ?_⟩
  · rw [hslots, hshape.between]
  · rw [hvalues, h.unread_eq hsize hidle]
    rfl

theorem values_end_once (hsize : 2 ≤ size) : ∃ b : Buffer α, Buffer.new? size = some b ∧
    ∀ deeds s e, Lives b deeds s e → EndOnce size deeds s e := by
  have hpos : 0 < size := Nat.lt_of_lt_of_le Nat.zero_lt_two hsize
  refine ⟨{ size }, if_pos hsize, fun deeds s e hl => ?_⟩
  have h := hl.handled hpos
  have hsettled := h.steps.settled hpos
  obtain ⟨hpushed, -, -⟩ := (h.steps.kept hpos).contents
  constructor
  · exact h.spared
  · intro side hother
    rw [e.fst_drop, if_pos hother]
  · exact fun side _ hother hc => h.second hpos hother hc
  · intro a earlier w ha ho
    obtain ⟨s₁, h₁, hc, heq⟩ := h.steps.made ha
    exact ((h₁.kept hpos).push_of_rejected hc (heq ▸ ho)).2.1
  · rw [← hpushed]
    exact hsettled
  · intro hp hcons
    rw [h.gone hp hcons, ← hpushed]
    rw [show s.producer = none from h.idle .producer hp] at hsettled
    have hnothing := List.append_nil (handedBack (accessesOf deeds) ++ pushed (accessesOf deeds))
    exact ⟨rfl, hnothing ▸ hsettled⟩

end

/-- One value is popped, one is left when the consumer goes, and then there is no room for a third. -/
def wholeLog : List (Deed Nat) :=
  [.drop .producer [5], .access ⟨.producer, .pushLook 6 0, .done (.rejected 6)⟩,
    .access ⟨.producer, .push 6, .goOn (.pushLook 6 0)⟩, .drop .consumer [],
    .access ⟨.producer, .pushPublish 0, .done .accepted⟩, .access ⟨.producer, .pushWrite 5 1, .goOn (.pushPublish 0)⟩,
    .access ⟨.producer, .pushLook 5 1, .goOn (.pushWrite 5 1)⟩, .access ⟨.producer, .push 5, .goOn (.pushLook 5 1)⟩,
    .access ⟨.consumer, .popPublish 4 1, .done (.value 4)⟩, .access ⟨.consumer, .popRead 0, .goOn (.popPublish 4 1)⟩,
    .access ⟨.consumer, .popLook 0, .goOn (.popRead 0)⟩, .access ⟨.consumer, .pop, .goOn (.popLook 0)⟩,
    .access ⟨.producer, .pushPublish 1, .done .accepted⟩, .access ⟨.producer, .pushWrite 4 0, .goOn (.pushPublish 1)⟩,
    .access ⟨.producer, .pushLook 4 0, .goOn (.pushWrite 4 0)⟩, .access ⟨.producer, .push 4, .goOn (.pushLook 4 0)⟩]

theorem values_end_once_early : ∃ (b : Buffer Nat) (s : System Nat) (e : Ends Nat), Buffer.new? 2 = some b ∧
    Lives b wholeLog s e ∧ e.producer = false ∧ e.consumer = false ∧ handedBack (accessesOf wholeLog) = [6] ∧
    popped (accessesOf wholeLog) = [4] ∧ destroyed wholeLog = [5] ∧
    ([4, 5, 6] : List Nat).Perm ([6] ++ ([4] ++ [5])) := by
  have pushed : Lives { size := 2 } _ (_ : System Nat) _ :=
    ((((Lives.start.enter .producer (.push 4) rfl rfl rfl).access .producer rfl).access .producer rfl).access
      .producer rfl).access .producer rfl
  have popped := ((((pushed.enter .consumer .pop rfl rfl rfl).access .consumer rfl).access .consumer rfl).access
    .consumer rfl).access .consumer rfl
  have again := ((((popped.enter .producer (.push 5) rfl rfl rfl).access .producer rfl).access .producer rfl).access
    .producer rfl).access .producer rfl
  have alone := ((again.drop .consumer rfl rfl).enter .producer (.push 6) rfl rfl rfl).access .producer rfl
  have run : Lives { size := 2 } wholeLog (_ : System Nat) _ := (alone.access .producer rfl).drop .producer rfl rfl
  obtain ⟨b, hb, ends⟩ := values_end_once (α := Nat) (show 2 ≤ 2 by decide)
  obtain rfl : _ = b := Option.some.inj hb
  exact ⟨_, _, _, rfl, run, rfl, rfl, rfl, rfl, rfl, ((ends _ _ _ run).gone rfl rfl).2⟩

end Conduit.Ring
