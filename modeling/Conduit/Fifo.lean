/-!
# Queues of values

A first-in first-out queue as two lists, with its size at hand. Everything
else is said through `toList`, oldest value first.
-/

namespace Conduit

structure Fifo (α : Type) where
  front : List α
  /-- The newest first. -/
  back : List α
  size : Nat
  size_eq : size = front.length + back.length := by simp

namespace Fifo

variable {α : Type}

def empty : Fifo α := ⟨[], [], 0, rfl⟩

instance : Inhabited (Fifo α) := ⟨empty⟩

def toList (q : Fifo α) : List α := q.front ++ q.back.reverse

def isEmpty (q : Fifo α) : Bool := q.size == 0

def push (v : α) (q : Fifo α) : Fifo α :=
  ⟨q.front, v :: q.back, q.size + 1, by simp [q.size_eq, Nat.add_assoc]⟩

def pop? (q : Fifo α) : Option (α × Fifo α) :=
  match q with
  | ⟨v :: front, back, size, h⟩ => some (v, ⟨front, back, size - 1, by simp at h; omega⟩)
  | ⟨[], back, size, h⟩ =>
    match hb : back.reverse with
    | [] => none
    | v :: front => some (v, ⟨front, [], size - 1, by
        have := congrArg List.length hb
        simp at h this
        simp
        omega⟩)

@[simp] theorem toList_empty : (empty : Fifo α).toList = [] := rfl

@[simp] theorem toList_push (v : α) (q : Fifo α) : (q.push v).toList = q.toList ++ [v] := by
  simp [push, toList]

@[simp] theorem length_toList (q : Fifo α) : q.toList.length = q.size := by
  simp [toList, q.size_eq]

theorem toList_of_pop? {q r : Fifo α} {v : α} (h : q.pop? = some (v, r)) :
    q.toList = v :: r.toList := by
  unfold pop? at h
  split at h
  · simp only [Option.some.injEq, Prod.mk.injEq] at h
    obtain ⟨rfl, rfl⟩ := h
    rfl
  · split at h
    · cases h
    · rename_i hb
      simp only [Option.some.injEq, Prod.mk.injEq] at h
      obtain ⟨rfl, rfl⟩ := h
      simp [toList, hb]

theorem pop?_eq_none {q : Fifo α} : q.pop? = none ↔ q.toList = [] := by
  constructor
  · intro h
    unfold pop? at h
    split at h
    · cases h
    · split at h
      · rename_i hb
        simp [toList, hb]
      · cases h
  · intro h
    cases hp : q.pop? with
    | none => rfl
    | some p =>
      have := toList_of_pop? (v := p.1) (r := p.2) hp
      rw [h] at this
      cases this

end Fifo

end Conduit
