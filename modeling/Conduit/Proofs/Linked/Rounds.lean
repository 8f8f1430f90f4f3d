import Conduit.Proofs.Linked.Calls

/-!
# Going round again

A call goes round its loop again once for nothing, and after that only where
another thread got on with its own (`retries_paid_by_others`). A push that goes
round moves its own tail on by one place, and of the places behind the first tail
that it read all but one were linked by others since. A pop that goes round has
seen the head leave a place, or has moved a tail that was at the head past it, and
each place of the head is good for one of either.
-/

namespace Conduit.Linked

section
variable {α : Type}

/-! ## What is counted -/

def Event.again (e : Event α) : Bool :=
  match e.stage, e.outcome with
  | .push _, _ => false
  | _, .goOn (.pushLook _ _) => true
  | _, .goOn .pop => true
  | _, _ => false

def byThread (t : Nat) (past : List (Event α)) : List (Event α) := past.filter fun e => e.thread = t

def byOthers (t : Nat) (past : List (Event α)) : List (Event α) := past.filter fun e => e.thread ≠ t

def rounds (t : Nat) (past : List (Event α)) : Nat := (byThread t past).countP Event.again

/-- What happened since a thread's newest push read the tail for the first time. -/
def sinceLoad (t : Nat) : List (Event α) → List (Event α)
  | [] => []
  | e :: past => if (e.pushes? t).isSome then [] else e :: sinceLoad t past

def Stage.depth : Stage α → Nat
  | .push _ | .pop | .ask => 0
  | .pushLook .. | .popTail _ | .askLook _ => 1
  | .pushLink .. | .popLook .. => 2
  | .pushHelp .. | .pushSwing .. | .popHelp .. | .popClaim .. => 3

/-- The call at hand has gone round `r` times. Others have linked `l` nodes since it
read the tail, and the head was at place `c` when it was entered. -/
def Tally (ns : List Nat) (c i j r l : Nat) : Stage α → Prop
  | .push _ | .ask | .askLook _ => r = 0
  | .pushLook _ tail | .pushHelp _ tail _ | .pushLink _ tail =>
    ∃ k, ns[k]? = some tail ∧ ns.length + r ≤ k + 2 + l
  | .pushSwing _ _ => r ≤ 1 + l
  | .pop => r + 2 * c ≤ 2 * i ∨ r + 2 * c ≤ 2 * i + 1 ∧ i < j
  | .popTail head => ∃ k ≤ i, ns[k]? = some head ∧ (r + 2 * c ≤ 2 * k ∨ r + 2 * c ≤ 2 * k + 1 ∧ k < j)
  | .popLook head tail =>
    ∃ k ≤ i, ns[k]? = some head ∧ (r + 2 * c ≤ 2 * k ∨ r + 2 * c ≤ 2 * k + 1 ∧ head ≠ tail)
  | .popHelp tail _ => ∃ k ≤ i, ns[k]? = some tail ∧ r + 2 * c ≤ 2 * k
  | .popClaim head _ => ∃ k ≤ i, ns[k]? = some head ∧ r + 2 * c ≤ 2 * k + 1

variable {past more during : List (Event α)} {s s' : System α} {e : Event α} {stage stage' call : Stage α}
  {h h' : Heap α} {ns : List Nat} {c i j j' k l n r t t' threads : Nat} {v : α}

/-! ## Reading the log -/

theorem byThread_self (t : Nat) (stage : Stage α) (o : Outcome α) (past : List (Event α)) :
    byThread t (⟨t, stage, o⟩ :: past) = ⟨t, stage, o⟩ :: byThread t past :=
  List.filter_cons_of_pos (decide_eq_true rfl)

theorem byThread_other (hne : t' ≠ t) (stage : Stage α) (o : Outcome α) (past : List (Event α)) :
    byThread t (⟨t', stage, o⟩ :: past) = byThread t past :=
  List.filter_cons_of_neg (by simpa using hne)

theorem byOthers_self (t : Nat) (stage : Stage α) (o : Outcome α) (past : List (Event α)) :
    byOthers t (⟨t, stage, o⟩ :: past) = byOthers t past :=
  List.filter_cons_of_neg (by simp)

theorem byOthers_other (hne : t' ≠ t) (stage : Stage α) (o : Outcome α) (past : List (Event α)) :
    byOthers t (⟨t', stage, o⟩ :: past) = ⟨t', stage, o⟩ :: byOthers t past :=
  List.filter_cons_of_pos (decide_eq_true hne)

theorem rounds_self (t : Nat) (stage : Stage α) (o : Outcome α) (past : List (Event α)) :
    rounds t (⟨t, stage, o⟩ :: past) = rounds t past + if Event.again ⟨t, stage, o⟩ then 1 else 0 := by
  rw [rounds, byThread_self, List.countP_cons, rounds]

theorem rounds_other (hne : t' ≠ t) (stage : Stage α) (o : Outcome α) (past : List (Event α)) :
    rounds t (⟨t', stage, o⟩ :: past) = rounds t past := by
  rw [rounds, byThread_other hne, rounds]

theorem sinceLoad_of_none (he : e.pushes? t = none) : sinceLoad t (e :: past) = e :: sinceLoad t past := by
  rw [sinceLoad, he]
  rfl

theorem sinceLoad_sublist (t : Nat) (past : List (Event α)) : (sinceLoad t past).Sublist past := by
  induction past with
  | nil => exact .slnil
  | cons e past ih =>
    rw [sinceLoad]
    split
    · exact List.nil_sublist _
    · exact ih.cons_cons e

theorem chain_cons_of_none (hl : e.link? = none) : chain (e :: past) = chain past := by
  rw [chain, links_cons_of_none hl, chain]

theorem length_links_cons (e : Event α) (past : List (Event α)) :
    (links (e :: past)).length = (links past).length + e.linked.length := by
  rw [links_cons, List.length_append, Event.linked, Option.toList_map, List.length_map]

theorem length_claims_goOn (t : Nat) (stage stage' : Stage α) (past : List (Event α)) :
    (claims (⟨t, stage, .goOn stage'⟩ :: past)).length = (claims past).length := by
  rw [length_claims_cons]
  cases stage <;> rfl

/-! ## One access of another thread -/

theorem Tally.mono {d : List Nat} {i' : Nat} (h : Tally ns c i j r l stage) (hi : i ≤ i') (hj : j ≤ j') :
    Tally (ns ++ d) c i' j' r (l + d.length) stage := by
  cases stage with
  | push | ask | askLook => exact h
  | pushLook | pushHelp | pushLink =>
    obtain ⟨k, hk, hr⟩ := h
    refine ⟨k, at_append hk, ?_⟩
    rw [List.length_append]
    omega
  | pushSwing =>
    have hr : r ≤ 1 + l := h
    show r ≤ 1 + (l + d.length)
    omega
  | pop =>
    have hr : r + 2 * c ≤ 2 * i ∨ r + 2 * c ≤ 2 * i + 1 ∧ i < j := h
    show r + 2 * c ≤ 2 * i' ∨ r + 2 * c ≤ 2 * i' + 1 ∧ i' < j'
    omega
  | popTail =>
    obtain ⟨k, hk, hn, hr⟩ := h
    exact ⟨k, by omega, at_append hn, by omega⟩
  | popLook | popHelp | popClaim =>
    obtain ⟨k, hk, hn, hr⟩ := h
    exact ⟨k, by omega, at_append hn, hr⟩

/-! ## One access of the call -/

theorem Leads.depth (hs : Leads h stage stage') :
    stage.depth + 1 ≤ 4 * (if Event.again ⟨t, stage, .goOn stage'⟩ then 1 else 0) + stage'.depth := by
  cases hs <;> simp [Stage.depth, Event.again]

theorem Leads.isPush (hs : Leads h stage stage') : stage'.isPush = stage.isPush := by
  cases hs <;> rfl

theorem Tally.moved {tail next : Nat} (hs : Shape ns i j h) (hv : Sees ns i j (.popHelp tail next : Stage α))
    (hs' : Shape ns i j' (h.moveTail tail next)) (ht : Tally ns c i j r l (.popHelp tail next : Stage α)) :
    r + 1 + 2 * c ≤ 2 * i ∨ r + 1 + 2 * c ≤ 2 * i + 1 ∧ i < j' := by
  obtain ⟨k, hk, hn, hr⟩ := ht
  obtain ⟨k', hk', hn', hnext⟩ := hv
  obtain rfl : k = k' := hs.place_inj hn hn'
  obtain ⟨j'', -, hkj, hmoved⟩ := hs.moveTail hk' hn hnext
  have := hmoved.place_inj hs'.tail hmoved.tail
  omega

theorem Tally.own {ns' : List Nat} {l' : Nat} (hs : Shape ns i j h) (hv : Sees ns i j stage)
    (he : h.step stage = (h', .goOn stage')) (hns : Event.link? ⟨t, stage, .goOn stage'⟩ = none → ns' = ns)
    (hl : Event.pushes? t ⟨t, stage, .goOn stage'⟩ = none → l' = l) (hs' : Shape ns' i j' h') (hj : j ≤ j')
    (ht : Tally ns c i j r l stage) :
    Tally ns' c i j' (r + if Event.again ⟨t, stage, .goOn stage'⟩ then 1 else 0) l' stage' := by
  cases leads_of_step (congrArg Prod.snd he) with
  | made v =>
    cases hns rfl
    obtain rfl : r = 0 := ht
    exact ⟨j, hs.tail, Nat.le_add_right_of_le hs.lag⟩
  | lagging | last | lost =>
    cases hns rfl
    cases hl rfl
    exact ht
  | helped =>
    cases hns rfl
    cases hl rfl
    obtain ⟨k, hk, hr⟩ := ht
    obtain ⟨k', -, hk', hnext⟩ := hv
    obtain rfl : k = k' := hs.place_inj hk hk'
    refine ⟨k + 1, hnext, ?_⟩
    show ns.length + (r + 1) ≤ k + 1 + 2 + l
    omega
  | linked =>
    cases hl rfl
    obtain ⟨k, hk, hr⟩ := ht
    have hlt := (List.getElem?_eq_some_iff.mp hk).1
    show r ≤ 1 + l
    omega
  | headRead =>
    cases hns rfl
    have hr : r + 2 * c ≤ 2 * i ∨ r + 2 * c ≤ 2 * i + 1 ∧ i < j := ht
    refine ⟨i, Nat.le_refl i, hs.head, ?_⟩
    show r + 2 * c ≤ 2 * i ∨ r + 2 * c ≤ 2 * i + 1 ∧ i < j'
    omega
  | tailRead =>
    cases hns rfl
    obtain ⟨k, hk, hn, hr⟩ := ht
    refine ⟨k, hk, hn, hr.imp_right ?_⟩
    rintro ⟨hr, hkj⟩
    refine ⟨hr, ?_⟩
    rintro rfl
    exact Nat.ne_of_lt hkj (hs.place_inj hn hs.tail)
  | together =>
    cases hns rfl
    obtain ⟨k, hk, hn, hr | ⟨-, hne⟩⟩ := ht
    · exact ⟨k, hk, hn, hr⟩
    · exact absurd rfl hne
  | apart =>
    cases hns rfl
    obtain ⟨k, hk, hn, hr | ⟨hr, -⟩⟩ := ht
    · exact ⟨k, hk, hn, Nat.le_succ_of_le hr⟩
    · exact ⟨k, hk, hn, hr⟩
  | moved =>
    cases hns rfl
    cases he
    exact ht.moved hs hv hs'
  | taken hne =>
    cases hns rfl
    obtain ⟨k, hk, hn, hr⟩ := ht
    -- the head has left the place where it was seen
    have hki : k ≠ i := by
      rintro rfl
      exact hne (Option.some.inj (hs.head.symm.trans hn))
    show r + 1 + 2 * c ≤ 2 * i ∨ r + 1 + 2 * c ≤ 2 * i + 1 ∧ i < j'
    omega
  | asked => exact ht

/-! ## A whole call -/

theorem tally_of_opens (ho : call.opens = true) (l : Nat) : Tally ns c c j 0 l call := by
  cases call with
  | push | ask => rfl
  | pop => exact .inl (Nat.le_of_eq (Nat.zero_add _))
  | pushLook | pushHelp | pushLink | pushSwing | popTail | popLook | popHelp | popClaim | askLook => cases ho

theorem Inside.tally (hc : s.calls[t]? = some none) (ho : call.opens = true) (ht : Tame past s j)
    (hin : Inside t (s.enter t call) during s' stage) :
    ∃ j', Tame (during ++ past) s' j' ∧
      (claims (during ++ past)).length = (claims past).length + (claims (byOthers t during)).length ∧
      Tally (chain (during ++ past)) (claims past).length (claims (during ++ past)).length j' (rounds t during)
        (links (byOthers t (sinceLoad t during))).length stage := by
  induction hin with
  | start ha =>
    cases (System.at_enter hc).inj ha
    exact ⟨j, ht.enter hc ho, rfl, tally_of_opens ho _⟩
  | enter t' stage' _ hc' ho' ih =>
    obtain ⟨j', ht', ih⟩ := ih
    exact ⟨j', ht'.enter hc' ho', ih⟩
  | @other during s₁ stage t' stage' _ hne hs ih =>
    obtain ⟨j', ht', hm, htally⟩ := ih
    obtain ⟨j'', hj, ht''⟩ := ht'.access (System.access_advance hs)
    -- what others link and move can only pay for more rounds
    refine ⟨j'', ht'', ?_, ?_⟩
    · rw [List.cons_append, length_claims_cons, byOthers_other hne, length_claims_cons, hm, Nat.add_assoc]
    · rw [List.cons_append, chain_cons, length_claims_cons, rounds_other hne,
        sinceLoad_of_none (pushes?_of_ne (Ne.symm hne)), byOthers_other hne, length_links_cons]
      exact htally.mono (Nat.le_add_right _ _) hj
  | own hin hgo ih =>
    obtain ⟨j', ht', hm, htally⟩ := ih
    have ha := System.access_own hin.at hgo
    obtain ⟨j'', hj, ht''⟩ := ht'.access ha
    have hs := ht''.shape
    rw [length_claims_goOn] at hs
    refine ⟨j'', ht'', ?_, ?_⟩
    · rw [List.cons_append, length_claims_goOn, byOthers_self]
      exact hm
    · rw [List.cons_append, length_claims_goOn, rounds_self]
      refine htally.own ht'.shape (ht'.seen ha rfl) ha.step chain_cons_of_none ?_ hs hj
      intro hp
      rw [sinceLoad_of_none hp, byOthers_self]

theorem Inside.isPush (hc : s.calls[t]? = some none) (hin : Inside t (s.enter t call) during s' stage) :
    stage.isPush = call.isPush := by
  induction hin with
  | start ha => rw [(System.at_enter hc).inj ha]
  | enter _ _ _ _ _ ih => exact ih
  | other _ _ _ _ ih => exact ih
  | own _ hgo ih => exact (leads_of_step hgo).isPush.trans ih

theorem Inside.length_le_depth (hin : Inside t s during s' stage) :
    (byThread t during).length ≤ 4 * rounds t during + stage.depth := by
  induction hin with
  | start => exact Nat.zero_le _
  | enter _ _ _ _ _ ih => exact ih
  | other _ _ hne _ ih =>
    rw [byThread_other hne, rounds_other hne]
    exact ih
  | own _ hgo ih =>
    have hdepth := (leads_of_step hgo).depth (t := t)
    rw [byThread_self, rounds_self, List.length_cons]
    omega

theorem Stage.depth_le (stage : Stage α) : stage.depth ≤ 3 := by
  cases stage <;> simp [Stage.depth]

theorem Inside.length_byThread (hin : Inside t s during s' stage) :
    (byThread t during).length ≤ 4 * rounds t during + 3 :=
  Nat.le_trans hin.length_le_depth (Nat.add_le_add_left stage.depth_le _)

theorem Tally.push (ht : Tally ns c i j r l stage) (hp : stage.isPush = true) : r ≤ 1 + l := by
  cases stage with
  | push =>
    obtain rfl : r = 0 := ht
    exact Nat.zero_le _
  | pushLook | pushHelp | pushLink =>
    obtain ⟨k, hk, hr⟩ := ht
    have hlt := (List.getElem?_eq_some_iff.mp hk).1
    omega
  | pushSwing => exact ht
  | pop | popTail | popLook | popHelp | popClaim | ask | askLook => cases hp

theorem Tally.pop {m : Nat} (ht : Tally ns c (c + m) j r l stage) (hp : stage.isPush = false) : r ≤ 1 + 2 * m := by
  cases stage with
  | ask | askLook =>
    obtain rfl : r = 0 := ht
    exact Nat.zero_le _
  | pop =>
    have hr : r + 2 * c ≤ 2 * (c + m) ∨ r + 2 * c ≤ 2 * (c + m) + 1 ∧ c + m < j := ht
    omega
  | popTail | popLook | popHelp | popClaim =>
    obtain ⟨k, hk, -, hr⟩ := ht
    omega
  | push | pushLook | pushHelp | pushLink | pushSwing => cases hp

/-! ## The bounds -/

theorem Inside.rounds_push (h : Steps (.start threads .new) past s) (hc : s.calls[t]? = some none)
    (ho : call.opens = true) (hin : Inside t (s.enter t call) during s' stage) (hp : call.isPush = true) :
    rounds t during ≤ 1 + (links (byOthers t (sinceLoad t during))).length := by
  obtain ⟨j, ht⟩ := h.tame
  obtain ⟨j', -, -, htally⟩ := hin.tally hc ho ht
  exact htally.push ((hin.isPush hc).trans hp)

theorem Inside.rounds_pop (h : Steps (.start threads .new) past s) (hc : s.calls[t]? = some none)
    (ho : call.opens = true) (hin : Inside t (s.enter t call) during s' stage) (hp : call.isPush = false) :
    rounds t during ≤ 1 + 2 * (claims (byOthers t during)).length := by
  obtain ⟨j, ht⟩ := h.tame
  obtain ⟨j', -, hm, htally⟩ := hin.tally hc ho ht
  rw [hm] at htally
  exact htally.pop ((hin.isPush hc).trans hp)

/-! ## A call that is alone -/

theorem byThread_alone (hself : ∀ e ∈ during, e.thread = t) : byThread t during = during :=
  List.filter_eq_self.mpr fun e he => decide_eq_true (hself e he)

theorem byOthers_alone (hself : ∀ e ∈ during, e.thread = t) : byOthers t during = [] := by
  refine List.filter_eq_nil_iff.mpr ?_
  intro e he hne
  exact of_decide_eq_true hne (hself e he)

theorem Inside.rounds_alone (h : Steps (.start threads .new) past s) (hc : s.calls[t]? = some none)
    (ho : call.opens = true) (hin : Inside t (s.enter t call) during s' stage)
    (hself : ∀ e ∈ during, e.thread = t) : rounds t during ≤ 1 := by
  cases hp : call.isPush with
  | true =>
    have hbound := hin.rounds_push h hc ho hp
    have hsince : ∀ e ∈ sinceLoad t during, e.thread = t :=
      fun e he => hself e ((sinceLoad_sublist t during).subset he)
    rwa [byOthers_alone hsince] at hbound
  | false =>
    have hbound := hin.rounds_pop h hc ho hp
    rwa [byOthers_alone hself] at hbound

theorem Inside.length_alone (h : Steps (.start threads .new) past s) (hc : s.calls[t]? = some none)
    (ho : call.opens = true) (hin : Inside t (s.enter t call) during s' stage)
    (hself : ∀ e ∈ during, e.thread = t) : during.length ≤ 7 := by
  have hrounds := hin.rounds_alone h hc ho hself
  have hlen := hin.length_byThread
  rw [byThread_alone hself] at hlen
  omega

/-- It ends, or goes on for as long as one likes. -/
theorem Inside.alone (ha : s.At t call) (n : Nat) : ∃ during s' stage, Inside t s during s' stage ∧
    (∀ e ∈ during, e.thread = t) ∧ ((∃ a, (s'.heap.step stage).2 = .done a) ∨ during.length = n) := by
  induction n with
  | zero => exact ⟨[], s, call, .start ha, nofun, .inr rfl⟩
  | succ n ih =>
    obtain ⟨during, s', stage, hin, hself, hdone | hlen⟩ := ih
    · exact ⟨during, s', stage, hin, hself, .inl hdone⟩
    · cases hgo : (s'.heap.step stage).2 with
      | done a => exact ⟨during, s', stage, hin, hself, .inl ⟨a, hgo⟩⟩
      | goOn stage' =>
        have hmore : ∀ e ∈ (⟨t, stage, .goOn stage'⟩ :: during : List (Event α)), e.thread = t :=
          List.forall_mem_cons.mpr ⟨rfl, hself⟩
        exact ⟨_, _, stage', hin.own hgo, hmore, .inr (congrArg (· + 1) hlen)⟩

/-- How often a call of thread `t` that was entered in `s` goes round again, up to its return. -/
structure Brief (t : Nat) (call : Stage α) (s : System α) : Prop where
  push : ∀ v, call = .push v → ∀ during s' stage, Inside t s during s' stage →
    rounds t during ≤ 1 + (links (byOthers t (sinceLoad t during))).length
  pop : call = .pop → ∀ during s' stage, Inside t s during s' stage →
    rounds t during ≤ 1 + 2 * (claims (byOthers t during)).length
  accesses : ∀ during s' stage, Inside t s during s' stage →
    (byThread t during).length ≤ 4 * rounds t during + 3
  alone : ∀ during s' stage, Inside t s during s' stage → (∀ e ∈ during, e.thread = t) →
    rounds t during ≤ 1 ∧ during.length ≤ 7
  ends : ∃ during s' stage a, Inside t s during s' stage ∧ (∀ e ∈ during, e.thread = t) ∧
    (s'.heap.step stage).2 = .done a

theorem retries_paid_by_others (h : Steps (.start threads .new) past s) (hc : s.calls[t]? = some none)
    (ho : call.opens = true) : Brief t call (s.enter t call) := by
  constructor
  · rintro v rfl during s' stage hin
    exact hin.rounds_push h hc ho rfl
  · rintro rfl during s' stage hin
    exact hin.rounds_pop h hc ho rfl
  · intro during s' stage hin
    exact hin.length_byThread
  · intro during s' stage hin hself
    exact ⟨hin.rounds_alone h hc ho hself, hin.length_alone h hc ho hself⟩
  · obtain ⟨during, s', stage, hin, hself, ⟨a, hdone⟩ | hlen⟩ := Inside.alone (System.at_enter hc) 8
    · exact ⟨during, s', stage, a, hin, hself, hdone⟩
    · have := hin.length_alone h hc ho hself
      omega

end

def linkedOnce : System Nat :=
  ⟨⟨#[⟨none, some 1⟩, ⟨some 7, none⟩], 0, 0⟩, #[some (.pushSwing 1 0), none, none]⟩

/-- The tail lags, then another pop wins, then the tail lags again: three rounds
beside one move of the head. -/
theorem retries_paid_by_others_thrice : ∃ (past during : List (Event Nat)) (s' : System Nat),
    Steps (.start 3 .new) past linkedOnce ∧ linkedOnce.calls[1]? = some none ∧
    Inside 1 (linkedOnce.enter 1 .pop) during s' .pop ∧
    rounds 1 during = 3 ∧ (claims (byOthers 1 during)).length = 1 ∧
    rounds 1 during ≤ 1 + 2 * (claims (byOthers 1 during)).length := by
  have called : Steps (.start 3 .new) _ (_ : System Nat) := .enter 0 (.push 7) .refl rfl rfl
  have linked : Steps (.start 3 .new) _ linkedOnce := ((called.access 0 rfl).access 0 rfl).access 0 rfl
  have popping : Inside 1 (linkedOnce.enter 1 .pop) [] _ .pop := .start rfl
  have seen : Inside 1 _ _ (_ : System Nat) (.popHelp 0 1) := ((popping.own rfl).own rfl).own rfl
  have again : Inside 1 _ _ (_ : System Nat) (.popClaim 0 1) := (((seen.own rfl).own rfl).own rfl).own rfl
  have rival := again.enter 2 .pop rfl rfl
  have taken := (((rival.other 2 (by decide) rfl).other 2 (by decide) rfl).other 2 (by decide) rfl).other 2
    (by decide) rfl
  have pushing := (taken.other 0 (by decide) rfl).enter 0 (.push 8) rfl rfl
  have lagging := ((pushing.other 0 (by decide) rfl).other 0 (by decide) rfl).other 0 (by decide) rfl
  have lost : Inside 1 _ _ (_ : System Nat) .pop := lagging.own rfl
  have thrice : Inside 1 _ _ (_ : System Nat) .pop := (((lost.own rfl).own rfl).own rfl).own rfl
  exact ⟨_, _, _, linked, rfl, thrice, rfl, rfl, (retries_paid_by_others linked rfl rfl).pop rfl _ _ _ thrice⟩

end Conduit.Linked
