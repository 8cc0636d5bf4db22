import Mathlib.Algebra.Order.Ring.Nat
import Mathlib.Tactic.Common

/-!
# Rings of slots

The slots of a ring are numbered without end, and slot number `j` is `Fin.ofNat n j`. As many
numbers in a row as there are slots belong to different slots.
-/

namespace Ring

variable {n : ℕ} [NeZero n] {α : Type}

theorem slot_eq_iff {i j : ℕ} : Fin.ofNat n i = Fin.ofNat n j ↔ i % n = j % n :=
  Fin.ext_iff

/-- Numbers of one slot that are less than a turn apart are equal. -/
theorem eq_of_slot_eq {low i j : ℕ} (hi : low ≤ i) (hin : i < low + n) (hj : low ≤ j)
    (hjn : j < low + n) (h : Fin.ofNat n i = Fin.ofNat n j) : i = j := by
  have hmod : i % n = j % n := slot_eq_iff.mp h
  have hi' := Nat.div_add_mod i n
  have hj' := Nat.div_add_mod j n
  rcases Nat.lt_trichotomy (i / n) (j / n) with hlt | heq | hlt
  · have := Nat.mul_le_mul_left n (Nat.succ_le_of_lt hlt)
    rw [Nat.mul_succ] at this
    omega
  · rw [heq] at hi'
    omega
  · have := Nat.mul_le_mul_left n (Nat.succ_le_of_lt hlt)
    rw [Nat.mul_succ] at this
    omega

/-- A write to a slot does not show at the other numbers of the same turn. -/
theorem update_slot_of_ne (f : Fin n → α) (a : α) {low i j : ℕ} (hi : low ≤ i) (hin : i < low + n)
    (hj : low ≤ j) (hjn : j < low + n) (hne : j ≠ i) :
    Function.update f (Fin.ofNat n i) a (Fin.ofNat n j) = f (Fin.ofNat n j) :=
  Function.update_of_ne (fun h => hne (eq_of_slot_eq hj hjn hi hin h)) a f

end Ring
