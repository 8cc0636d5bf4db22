import Mathlib.Algebra.Order.Ring.Nat
import Mathlib.Tactic.Common

/-!
# Bounded queues

A first-in first-out queue with a capacity. An item is sent to the back unless the queue is full,
and received from the front unless it is empty. That the capacity is kept is part of the type.
-/

/-- A queue of at most `capacity` items, the oldest one first. -/
structure Fifo (capacity : ℕ) (α : Type) where
  items : List α
  bounded : items.length ≤ capacity

namespace Fifo

variable {capacity : ℕ} {α : Type}

def empty : Fifo capacity α := ⟨[], Nat.zero_le capacity⟩

/-- Append an item, if there is room. -/
def send (q : Fifo capacity α) (item : α) : Option (Fifo capacity α) :=
  if h : q.items.length < capacity then
    some ⟨q.items ++ [item], by rw [List.length_append]; exact h⟩
  else none

/-- Remove the oldest item, if there is one. -/
def receive (q : Fifo capacity α) : Option (α × Fifo capacity α) :=
  match h : q.items with
  | [] => none
  | item :: items => some (item, ⟨items, by
    have hbounded := q.bounded
    rw [h, List.length_cons] at hbounded
    exact Nat.le_of_succ_le hbounded⟩)

@[simp] theorem items_empty : (empty : Fifo capacity α).items = [] := rfl

theorem send_eq_some {q q' : Fifo capacity α} {item : α} (h : q.send item = some q') :
    q.items.length < capacity ∧ q'.items = q.items ++ [item] := by
  unfold send at h
  by_cases hroom : q.items.length < capacity
  · rw [dif_pos hroom] at h
    rw [← Option.some.inj h]
    exact ⟨hroom, rfl⟩
  · rw [dif_neg hroom] at h
    cases h

theorem send_eq_none {q : Fifo capacity α} {item : α} (h : q.send item = none) :
    q.items.length = capacity := by
  unfold send at h
  by_cases hroom : q.items.length < capacity
  · rw [dif_pos hroom] at h
    cases h
  · exact Nat.le_antisymm q.bounded (Nat.not_lt.mp hroom)

theorem receive_eq_some {q q' : Fifo capacity α} {item : α} (h : q.receive = some (item, q')) :
    q.items = item :: q'.items := by
  unfold receive at h
  split at h
  · cases h
  · next hitems =>
    cases h
    exact hitems

theorem receive_eq_none {q : Fifo capacity α} (h : q.receive = none) : q.items = [] := by
  unfold receive at h
  split at h
  · next hitems => exact hitems
  · cases h

end Fifo
