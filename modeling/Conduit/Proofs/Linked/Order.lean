import Conduit.Proofs.Linked.Tame
import Conduit.Proofs.Linked.Drop

/-!
# First in, first out

Seen from outside the queue is one list. A push adds to it where it links its
node, a pop takes from it where it moves the head, whatever the tail is at; a
pop that answers that there is nothing has looked at an empty list.
-/

namespace Conduit.Linked

/-! ## Pushed and returned values -/

structure Entry (α : Type) where
  thread : Nat
  node : Nat
  value : α
  deriving DecidableEq, Repr

section
variable {α : Type}

def Outcome.value? : Outcome α → Option α
  | .done (.value v) => some v
  | _ => none

def Event.pushes? (t : Nat) : Event α → Option α
  | ⟨t', .push v, _⟩ => if t' = t then some v else none
  | _ => none

def started (t : Nat) (past : List (Event α)) : List α := past.reverse.filterMap (Event.pushes? t)

def Event.entry? (e : Event α) (past : List (Event α)) : Option (Entry α) :=
  match e.link?, (started e.thread past).getLast? with
  | some p, some v => some ⟨e.thread, p.2, v⟩
  | _, _ => none

/-- The pushed values, in the order in which they were linked. -/
def pushed : List (Event α) → List (Entry α)
  | [] => []
  | e :: past => pushed past ++ (e.entry? past).toList

/-- The values that pops returned, in the order in which they moved the head. -/
def returned (past : List (Event α)) : List α := past.reverse.filterMap fun e => e.outcome.value?

/-- The value that a thread is pushing, from its first access until it is linked. -/
def System.pending (s : System α) (t : Nat) : List α := ((s.owned? t).bind fun n => s.heap.value? n).toList

variable {past : List (Event α)} {s s' : System α} {e : Event α} {i j t n threads : Nat} {v : α}

theorem started_cons (t : Nat) (e : Event α) (past : List (Event α)) :
    started t (e :: past) = started t past ++ (e.pushes? t).toList := by
  simp only [started, List.reverse_cons, List.filterMap_append]
  cases h : e.pushes? t <;> simp [h]

theorem returned_cons (e : Event α) (past : List (Event α)) :
    returned (e :: past) = returned past ++ e.outcome.value?.toList := by
  simp only [returned, List.reverse_cons, List.filterMap_append]
  cases h : e.outcome.value? <;> simp [h]

theorem pushes?_self (hv : e.stage = .push v) : e.pushes? e.thread = some v := by
  obtain ⟨t, st, outcome⟩ := e
  cases hv
  exact if_pos rfl

theorem pushes?_of_ne (hne : t ≠ e.thread) : e.pushes? t = none := by
  unfold Event.pushes?
  split
  · exact if_neg (Ne.symm hne)
  · rfl

theorem pushes?_of_stage (hv : ∀ v, e.stage ≠ .push v) : e.pushes? t = none := by
  unfold Event.pushes?
  split
  · rename_i v _
    exact absurd rfl (hv v)
  · rfl

theorem pushed_cons_of_none (hl : e.link? = none) : pushed (e :: past) = pushed past := by
  rw [pushed, Event.entry?, hl]
  exact List.append_nil _

theorem pushed_cons_of_link {p : Nat × Nat} (hl : e.link? = some p)
    (hv : (started e.thread past).getLast? = some v) :
    pushed (e :: past) = pushed past ++ [⟨e.thread, p.2, v⟩] := by
  rw [pushed, Event.entry?, hl, hv]
  rfl

theorem links_cons_of_none (hl : e.link? = none) : links (e :: past) = links past := by
  rw [links_cons, hl]
  exact List.append_nil _

/-! ## From the call to the link -/

/-- Every node holds the value that was pushed with it, and a thread's values
are linked in the order of its calls. -/
structure Kept (past : List (Event α)) (s : System α) : Prop where
  nodes : (pushed past).map Entry.node = (links past).map Prod.snd
  values : ∀ x ∈ pushed past, s.heap.value? x.node = some x.value
  made : ∀ t n, s.owned? t = some n → ∃ v, s.heap.value? n = some v
  calls : ∀ t, started t past = ((pushed past).filter (·.thread = t)).map Entry.value ++ s.pending t

theorem pending_eq (ht : Tame past s j) (ha : Access s e s') (ho : s'.owned? t = s.owned? t) :
    s'.pending t = s.pending t := by
  rw [System.pending, System.pending, ho]
  cases hn : s.owned? t with
  | none => rfl
  | some n =>
    have hlt := (ht.fresh t n hn).2
    exact congrArg Option.toList (value?_step ha.step hlt)

theorem Kept.values_step (hk : Kept past s) (ht : Tame past s j) (ha : Access s e s') :
    ∀ x ∈ pushed past, s'.heap.value? x.node = some x.value := by
  intro x hx
  have hmem : x.node ∈ chain past := by
    rw [chain, ← hk.nodes]
    exact List.mem_cons_of_mem _ (List.mem_map_of_mem hx)
  rw [value?_step ha.step (ht.shape.bound _ hmem)]
  exact hk.values x hx

theorem Kept.made_step (hk : Kept past s) (ht : Tame past s j) (ha : Access s e s') (t n : Nat)
    (hn : s'.owned? t = some n) : ∃ v, s'.heap.value? n = some v := by
  rcases (ht.owned_back ha hn).2 with hn | ⟨-, rfl, hsize⟩
  · obtain ⟨v, hv⟩ := hk.made t n hn
    exact ⟨v, (value?_step ha.step (ht.fresh t n hn).2).trans hv⟩
  · rcases nodes_cases ha.step with ⟨v, -, hh, -⟩ | ⟨p, -, -, hh, -⟩ | ⟨-, -, hh, -⟩
    · exact ⟨v, by rw [hh, Heap.value?_alloc, if_pos rfl]⟩
    · rw [hh, Heap.size_link] at hsize
      omega
    · rw [hh] at hsize
      omega

theorem pending_other (ht : Tame past s j) (ha : Access s e s') (hne : t ≠ e.thread) :
    s'.pending t = s.pending t := pending_eq ht ha (ha.owned?_other hne)

theorem Kept.of_alloc (hk : Kept past s) (ht : Tame past s j) (ha : Access s e s') (hv : e.stage = .push v)
    (hh : s'.heap = s.heap.alloc v) (ho : e.outcome = .goOn (.pushLook s.heap.nodes.size s.heap.tail)) :
    Kept (e :: past) s' := by
  have hl : e.link? = none := link?_of_push hv
  refine ⟨?_, ?_, hk.made_step ht ha, ?_⟩
  · rw [pushed_cons_of_none hl, links_cons_of_none hl]
    exact hk.nodes
  · rw [pushed_cons_of_none hl]
    exact hk.values_step ht ha
  · intro t
    rw [started_cons, hk.calls t, pushed_cons_of_none hl, List.append_assoc]
    by_cases hte : t = e.thread
    · subst hte
      have hbefore : s.pending e.thread = [] := by
        rw [System.pending, ha.owned?_was, hv]
        rfl
      have hafter : s'.pending e.thread = [v] := by
        rw [System.pending, ha.owned?_self, ho]
        show (s'.heap.value? s.heap.nodes.size).toList = [v]
        rw [hh, Heap.value?_alloc, if_pos rfl]
        rfl
      rw [hbefore, hafter, pushes?_self hv]
      rfl
    · rw [pushes?_of_ne hte, pending_other ht ha hte]
      exact congrArg _ (List.append_nil _)

theorem Kept.last_started (hk : Kept past s) (hn : s.owned? t = some n) (hv : s.heap.value? n = some v) :
    (started t past).getLast? = some v := by
  have hpending : s.pending t = [v] := by
    rw [System.pending, hn]
    exact congrArg Option.toList hv
  rw [hk.calls, hpending]
  exact List.getLast?_concat

theorem Kept.of_link (hk : Kept past s) (ht : Tame past s j) (ha : Access s e s') {p : Nat × Nat}
    (hl : e.link? = some p) (ho : e.outcome = .goOn (.pushSwing p.2 p.1)) : Kept (e :: past) s' := by
  have hown : s.owned? e.thread = some p.2 := by
    rw [ha.owned?_was, link?_eq_some hl]
    rfl
  obtain ⟨v, hval⟩ := hk.made e.thread p.2 hown
  have hbefore : s.pending e.thread = [v] := by
    rw [System.pending, hown]
    exact congrArg Option.toList hval
  have hlast : (started e.thread past).getLast? = some v := hk.last_started hown hval
  have hstage : ∀ v, e.stage ≠ .push v := by
    intro v hv
    cases hl.symm.trans (link?_of_push hv)
  refine ⟨?_, ?_, hk.made_step ht ha, ?_⟩
  · rw [pushed_cons_of_link hl hlast, links_cons, hl, List.map_append, List.map_append, hk.nodes]
    rfl
  · intro x hx
    rw [pushed_cons_of_link hl hlast] at hx
    rcases List.mem_append.mp hx with hx | hx
    · exact hk.values_step ht ha x hx
    · obtain rfl := List.mem_singleton.mp hx
      exact (value?_step ha.step (ht.fresh _ _ hown).2).trans hval
  · intro t
    rw [started_cons, pushes?_of_stage hstage, hk.calls t, pushed_cons_of_link hl hlast]
    by_cases hte : t = e.thread
    · subst hte
      have hafter : s'.pending e.thread = [] := by
        rw [System.pending, ha.owned?_self, ho]
        rfl
      rw [hbefore, hafter]
      simp
    · rw [pending_other ht ha hte]
      simp [Ne.symm hte]

theorem Kept.of_quiet (hk : Kept past s) (ht : Tame past s j) (ha : Access s e s')
    (hv : ∀ v, e.stage ≠ .push v) (hl : e.link? = none)
    (ho : e.outcome.stage?.bind Stage.owned? = e.stage.owned?) : Kept (e :: past) s' := by
  refine ⟨?_, ?_, hk.made_step ht ha, ?_⟩
  · rw [pushed_cons_of_none hl, links_cons_of_none hl]
    exact hk.nodes
  · rw [pushed_cons_of_none hl]
    exact hk.values_step ht ha
  · intro t
    have hpend : s'.pending t = s.pending t := by
      by_cases hte : t = e.thread
      · subst hte
        exact pending_eq ht ha (by rw [ha.owned?_self, ha.owned?_was, ho])
      · exact pending_other ht ha hte
    rw [started_cons, pushes?_of_stage hv, pushed_cons_of_none hl, hpend, hk.calls t]
    exact List.append_nil _

theorem Kept.access (hk : Kept past s) (ht : Tame past s j) (ha : Access s e s') : Kept (e :: past) s' := by
  rcases nodes_cases ha.step with ⟨v, hv, hh, ho⟩ | ⟨p, hl, -, -, ho⟩ | ⟨hv, hl, -, ho⟩
  · exact hk.of_alloc ht ha hv hh ho
  · exact hk.of_link ht ha hl ho
  · exact hk.of_quiet ht ha hv hl ho

theorem Kept.enter {stage : Stage α} (hk : Kept past s) (hc : s.calls[t]? = some none)
    (ho : stage.opens = true) : Kept past (s.enter t stage) := by
  refine ⟨hk.nodes, hk.values, ?_, ?_⟩
  · intro t' n hn
    rw [System.owned?_enter hc ho] at hn
    exact hk.made t' n hn
  · intro t'
    rw [System.pending, System.owned?_enter hc ho]
    exact hk.calls t'

theorem Steps.kept (h : Steps (.start threads .new) past s) : Kept past s := by
  refine h.invariant (P := Kept) ⟨rfl, nofun, ?_, ?_⟩ (fun _ _ _ _ hk hc ho => hk.enter hc ho)
    (fun _ _ _ _ _ _ ht ha hk => hk.access ht ha)
  · intro t n hn
    rw [System.owned?, System.join_start] at hn
    cases hn
  · intro t
    rw [System.pending, System.owned?, System.join_start]
    rfl

/-! ## From the link to the answer -/

/-- The pops have returned the oldest of the pushed values, each move of the head
the next one, and a pop that found nothing came when all were returned. -/
structure Drawn (past : List (Event α)) : Prop where
  answers : returned past = ((pushed past).take (claims past).length).map Entry.value
  taken : ∀ later e earlier p, past = later ++ e :: earlier → e.claim? = some p →
    ∃ x ∈ pushed earlier, x.node = p.2 ∧ e.outcome = .done (.value x.value)
  nothing : ∀ later e earlier, past = later ++ e :: earlier → e.outcome = .done .nothing →
    returned earlier = (pushed earlier).map Entry.value

theorem Kept.pushed_at (hk : Kept past s) (hn : (chain past)[i + 1]? = some n) :
    ∃ x, (pushed past)[i]? = some x ∧ x.node = n := by
  rw [chain, List.getElem?_cons_succ, ← hk.nodes, List.getElem?_map, Option.map_eq_some_iff] at hn
  exact hn

theorem Kept.length_pushed (hk : Kept past s) : (pushed past).length + 1 = (chain past).length := by
  have := congrArg List.length hk.nodes
  rw [List.length_map] at this
  rw [chain, List.length_cons, this]

theorem Kept.claim (hk : Kept past s) (ht : Tame past s j) (ha : Access s e s') {p : Nat × Nat}
    (hp : e.claim? = some p) : ∃ x, (pushed past)[(claims past).length]? = some x ∧ x.node = p.2 ∧
      e.outcome = .done (.value x.value) := by
  obtain ⟨x, hx, hnode⟩ := hk.pushed_at (ht.claim_at ha hp).2
  refine ⟨x, hx, hnode, (claim_of_step ha.step hp).2 x.value ?_⟩
  rw [← hnode]
  exact hk.values x (List.mem_of_getElem? hx)

theorem Kept.nothing (hk : Kept past s) (ht : Tame past s j) (ha : Access s e s')
    (ho : e.outcome = .done .nothing) : (pushed past).length = (claims past).length := by
  rcases answer_cases ha.step ho with ⟨p, hp⟩ | h | ⟨b, h⟩ | ⟨-, head, tail, hstage, hn⟩
  · obtain ⟨x, -, -, hx⟩ := hk.claim ht ha hp
    cases ho.symm.trans hx
  · cases h
  · cases h
  · obtain ⟨k, hki, hk', -⟩ := ht.seen ha hstage
    -- the head it saw is the last node, and the head has not moved back
    have hlast := ht.shape.last_of_next_none hk' hn
    have hi := (List.getElem?_eq_some_iff.mp ht.shape.head).1
    have := hk.length_pushed
    omega

theorem value?_of_claim_none {h h' : Heap α} (he : h.step e.stage = (h', e.outcome)) (hp : e.claim? = none) :
    e.outcome.value? = none := by
  unfold Outcome.value?
  split
  · rename_i v ho
    rcases answer_cases he ho with ⟨p, hp'⟩ | ha | ⟨b, ha⟩ | ⟨ha, -⟩
    · cases hp.symm.trans hp'
    · cases ha
    · cases ha
    · cases ha
  · rfl

theorem Drawn.access (hd : Drawn past) (hk : Kept past s) (ht : Tame past s j) (ha : Access s e s') :
    Drawn (e :: past) := by
  have hle : (claims past).length ≤ (pushed past).length := by
    have := (List.getElem?_eq_some_iff.mp ht.shape.head).1
    have := hk.length_pushed
    omega
  refine ⟨?_, ?_, ?_⟩
  · rw [returned_cons, length_claims_cons, pushed, hd.answers, Event.claimed]
    cases hp : e.claim? with
    | some p =>
      obtain ⟨x, hx, -, ho⟩ := hk.claim ht ha hp
      have hlt := (List.getElem?_eq_some_iff.mp hx).1
      show _ = (((pushed past) ++ _).take ((claims past).length + 1)).map Entry.value
      rw [ho, List.take_append_of_le_length hlt, List.take_add_one, hx, List.map_append]
      rfl
    | none =>
      show _ = (((pushed past) ++ _).take (claims past).length).map Entry.value
      rw [value?_of_claim_none ha.step hp, List.take_append_of_le_length hle]
      exact List.append_nil _
  · rintro (_ | ⟨e', later⟩) e'' earlier p heq hp
    · cases heq
      obtain ⟨x, hx, hnode⟩ := hk.claim ht ha hp
      exact ⟨x, List.mem_of_getElem? hx, hnode⟩
    · exact hd.taken later e'' earlier p (List.cons.inj heq).2 hp
  · rintro (_ | ⟨e', later⟩) e'' earlier heq ho
    · cases heq
      rw [hd.answers, List.take_of_length_le (Nat.le_of_eq (hk.nothing ht ha ho))]
    · exact hd.nothing later e'' earlier (List.cons.inj heq).2 ho

theorem Steps.drawn (h : Steps (.start threads .new) past s) : Drawn past := by
  refine h.invariant (P := fun past _ => Drawn past) ⟨rfl, by simp, by simp⟩ (fun _ _ _ _ hd _ _ => hd) ?_
  intro past s j e s' h ht ha hd
  exact hd.access h.kept ht ha

/-! ## What is left -/

theorem Kept.nodes_left (hk : Kept past s) :
    (chain past).drop (i + 1) = ((pushed past).drop i).map Entry.node := by
  rw [chain, List.drop_succ_cons, ← hk.nodes, List.map_drop]

theorem Kept.values_left (hk : Kept past s) (ht : Tame past s j) :
    s.heap.values = ((pushed past).drop (claims past).length).map Entry.value := by
  rw [ht.shape.values_eq, hk.nodes_left, List.filterMap_map, List.filterMap_eq_map_iff_forall_eq_some]
  intro x hx
  exact hk.values x (List.mem_of_mem_drop hx)

theorem Steps.fifo (h : Steps (.start threads .new) past s) :
    returned past ++ s.heap.values = (pushed past).map Entry.value := by
  obtain ⟨j, ht⟩ := h.tame
  rw [h.drawn.answers, h.kept.values_left ht, ← List.map_append, List.take_append_drop]

theorem Kept.drop_eq (hk : Kept past s) (ht : Tame past s j) (hq : ∀ t stage, ¬ s.At t stage) :
    s.heap.drop.toList = s.heap.values := by
  -- nobody is there to move a tail that lags, so it does not
  have hlast : (chain past).length = j + 1 := by
    have hlag := ht.shape.lag
    have hlt := (List.getElem?_eq_some_iff.mp ht.shape.tail).1
    by_contra hne
    obtain ⟨t, node, h⟩ := ht.swing (by omega)
    exact hq t _ h
  refine ht.shape.drop_eq hlast ?_
  intro n hn
  rw [hk.nodes_left] at hn
  obtain ⟨x, hx, rfl⟩ := List.mem_map.mp hn
  exact ⟨x.value, hk.values x (List.mem_of_mem_drop hx)⟩

structure InOrder (past : List (Event α)) (s : System α) : Prop where
  fifo : returned past ++ s.heap.values = (pushed past).map Entry.value
  nodes : (pushed past).map Entry.node = (links past).map Prod.snd
  nodes_once : ((pushed past).map Entry.node).Nodup
  taken : ∀ later e earlier p, past = later ++ e :: earlier → e.claim? = some p →
    ∃ x ∈ pushed earlier, x.node = p.2 ∧ e.outcome = .done (.value x.value)
  taken_once : ((claims past).map Prod.snd).Nodup
  nothing : ∀ later e earlier, past = later ++ e :: earlier → e.outcome = .done .nothing →
    returned earlier = (pushed earlier).map Entry.value
  /-- A thread's values are linked in the order of its calls, the newest not yet perhaps. -/
  calls : ∀ t, started t past = ((pushed past).filter (·.thread = t)).map Entry.value ++ s.pending t
  /-- So a thread's values are popped in the order of its calls. -/
  producer : ∀ t, (((pushed past).take (returned past).length).filter (·.thread = t)).map Entry.value <+:
    started t past
  dropped : (∀ t stage, ¬ s.At t stage) →
    returned past ++ s.heap.drop.toList = (pushed past).map Entry.value

/-- The returned values and then those left are the pushed ones in the order of their links.
Each is taken once, after its link, each thread's in the order of its calls, and a drop at rest
takes what is left. -/
theorem first_in_first_out (h : Steps (.start threads .new) past s) : InOrder past s := by
  obtain ⟨j, ht⟩ := h.tame
  have hk := h.kept
  have hd := h.drawn
  have fifo := h.fifo
  have once : ((pushed past).map Entry.node).Nodup := by
    rw [hk.nodes]
    exact (List.nodup_cons.mp ht.shape.nodup).2
  refine ⟨fifo, hk.nodes, once, hd.taken, ?_, hd.nothing, hk.calls, ?_, ?_⟩
  · rw [hk.nodes] at once
    exact once.sublist (h.claims_le_links.map Prod.snd).sublist
  · intro t
    rw [hk.calls t]
    have hfirst := List.take_prefix (returned past).length (pushed past)
    exact ((hfirst.filter _).map _).trans (List.prefix_append _ _)
  · intro hq
    rw [hk.drop_eq ht hq]
    exact fifo

end

/-- A push links its node, another helps the tail on to it and links a second one
behind, and a pop takes the first value. -/
def helpedLog : List (Event Nat) :=
  [⟨1, .popClaim 0 1, .done (.value 7)⟩, ⟨1, .popLook 0 2, .goOn (.popClaim 0 1)⟩,
    ⟨1, .popTail 0, .goOn (.popLook 0 2)⟩, ⟨1, .pop, .goOn (.popTail 0)⟩,
    ⟨0, .pushSwing 1 0, .done .pushed⟩, ⟨1, .pushSwing 2 1, .done .pushed⟩,
    ⟨1, .pushLink 2 1, .goOn (.pushSwing 2 1)⟩, ⟨1, .pushLook 2 1, .goOn (.pushLink 2 1)⟩,
    ⟨1, .pushHelp 2 0 1, .goOn (.pushLook 2 1)⟩, ⟨1, .pushLook 2 0, .goOn (.pushHelp 2 0 1)⟩,
    ⟨1, .push 8, .goOn (.pushLook 2 0)⟩, ⟨0, .pushLink 1 0, .goOn (.pushSwing 1 0)⟩,
    ⟨0, .pushLook 1 0, .goOn (.pushLink 1 0)⟩, ⟨0, .push 7, .goOn (.pushLook 1 0)⟩]

theorem first_in_first_out_helped : ∃ s : System Nat, Steps (.start 2 .new) helpedLog s ∧
    pushed helpedLog = [⟨0, 1, 7⟩, ⟨1, 2, 8⟩] ∧ returned helpedLog = [7] ∧
    returned helpedLog ++ s.heap.values = [7, 8] ∧ (∀ t stage, ¬ s.At t stage) ∧
    returned helpedLog ++ s.heap.drop.toList = [7, 8] := by
  have called : Steps (.start 2 .new) _ (_ : System Nat) := .enter 0 (.push 7) .refl rfl rfl
  have linked := ((called.access 0 rfl).access 0 rfl).access 0 rfl
  have pushing := linked.enter 1 (.push 8) rfl rfl
  have helped := ((pushing.access 1 rfl).access 1 rfl).access 1 rfl
  have swung := (((helped.access 1 rfl).access 1 rfl).access 1 rfl).access 0 rfl
  have popping := swung.enter 1 .pop rfl rfl
  have run : Steps (.start 2 .new) helpedLog (_ : System Nat) :=
    (((popping.access 1 rfl).access 1 rfl).access 1 rfl).access 1 rfl
  have h := first_in_first_out run
  refine ⟨_, run, rfl, rfl, h.fifo, ?rest, h.dropped ?rest⟩
  intro t stage hat
  rcases t with _ | _ | t <;> cases hat

end Conduit.Linked
