import Mathlib.Algebra.Order.Ring.Nat
import Mathlib.Data.List.FinRange
import Mathlib.Tactic.Common

/-!
# Tables of keyed slots

A fixed number of slots, each free or holding an entry under a key. An entry goes to the slot
that holds its key already, or else to the first free one; so a key is never in two slots
(`Distinct`), and the table is a partial map from keys to entries. `holds_store` and `holds_free`
say what the two operations do to that map.
-/

namespace SlotTable

variable {κ α : Type} {n : ℕ} (key : α → Option κ)

@[simp]
theorem get_eq_getElem (table : Vector α n) (i : Fin n) : table.get i = table[(i : ℕ)] := rfl

/-- The table holds `a` under `k`. -/
def Holds (table : Vector α n) (k : κ) (a : α) : Prop := ∃ i : Fin n, table[i] = a ∧ key a = some k

/-- No key is in two slots. -/
def Distinct (table : Vector α n) : Prop :=
  ∀ (i j : Fin n) (k : κ), key table[i] = some k → key table[j] = some k → i = j

/-- The slot for `k`: the one that holds it, or the first free one. -/
def slot [DecidableEq κ] (table : Vector α n) (k : κ) : Option (Fin n) :=
  match (List.finRange n).find? fun i => key table[i] = some k with
  | some i => some i
  | none => (List.finRange n).find? fun i => key table[i] = none

variable {key} {table : Vector α n} {k : κ} {a : α} {i : Fin n}

theorem getElem_set (j : Fin n) : (table.set i a)[j] = if i = j then a else table[j] := by
  show (table.set i.val a i.isLt)[j.val] = _
  rw [Vector.getElem_set]
  exact if_congr Fin.ext_iff.symm rfl rfl

theorem get_set (j : Fin n) : (table.set i a).get j = if i = j then a else table.get j :=
  getElem_set j

theorem of_find {p : Fin n → Prop} [DecidablePred p] {l : List (Fin n)}
    (h : l.find? (fun j => decide (p j)) = some i) : p i := by
  have := List.find?_some h
  exact of_decide_eq_true this

theorem Distinct.eq (hd : Distinct key table) {b : α} (ha : Holds key table k a)
    (hb : Holds key table k b) : a = b := by
  obtain ⟨i, rfl, hi⟩ := ha
  obtain ⟨j, rfl, hj⟩ := hb
  rw [hd i j k hi hj]

/-- A free table holds nothing twice. -/
theorem distinct_of_free (h : ∀ i : Fin n, key table[i] = none) : Distinct key table := by
  intro i j k hi
  rw [h] at hi
  cases hi

section Slot

variable [DecidableEq κ]

/-- The slot for a key holds it, or is free and no slot holds it. -/
theorem slot_eq_some (h : slot key table k = some i) :
    key table[i] = some k ∨ key table[i] = none ∧ ∀ j : Fin n, key table[j] ≠ some k := by
  unfold slot at h
  split at h
  · rename_i j hj
    cases h
    exact .inl (of_find (p := fun i => key table[i] = some k) hj)
  · rename_i hnone
    refine .inr ⟨of_find (p := fun i => key table[i] = none) h, fun j hj => ?_⟩
    exact List.find?_eq_none.1 hnone j (List.mem_finRange j) (decide_eq_true hj)

theorem slot_of_key (hd : Distinct key table) (h : key table[i] = some k) :
    slot key table k = some i := by
  unfold slot
  split
  · rename_i j hj
    rw [hd j i k (of_find (p := fun i => key table[i] = some k) hj) h]
  · rename_i hnone
    exact absurd (decide_eq_true h) (List.find?_eq_none.1 hnone i (List.mem_finRange i))

theorem slot_eq_none (h : slot key table k = none) :
    ∀ j : Fin n, key table[j] ≠ none ∧ key table[j] ≠ some k := by
  unfold slot at h
  split at h
  · cases h
  · rename_i hnone
    intro j
    have hj := List.mem_finRange j
    exact ⟨fun hj' => List.find?_eq_none.1 h j hj (decide_eq_true hj'),
      fun hj' => List.find?_eq_none.1 hnone j hj (decide_eq_true hj')⟩

/-- A slot is left for a key when there are at least as many slots as keys. -/
theorem slot_ne_none {keys : List κ} (hd : Distinct key table)
    (hkeys : ∀ (j : Fin n) (k' : κ), key table[j] = some k' → k' ∈ keys)
    (hlen : keys.length ≤ n) (hk : k ∈ keys) : slot key table k ≠ none := by
  intro hnone
  have hheld : ∀ j : Fin n, ∃ k', key table[j] = some k' := fun j =>
    Option.ne_none_iff_exists'.1 (slot_eq_none hnone j).1
  choose f hf using hheld
  have hinj : Function.Injective f := fun i j hij => hd i j (f i) (hf i) (hij ▸ hf j)
  have hsub : (List.finRange n).map f ⊆ keys := fun x hx => by
    obtain ⟨j, -, rfl⟩ := List.mem_map.1 hx
    exact hkeys j _ (hf j)
  have hperm := List.subperm_of_subset ((List.nodup_finRange n).map hinj) hsub
  have hmem := (hperm.perm_of_length_le (by simpa using hlen)).mem_iff.2 hk
  obtain ⟨j, -, hj⟩ := List.mem_map.1 hmem
  exact (slot_eq_none hnone j).2 (hj ▸ hf j)

/-- Storing an entry in the slot for its key replaces the entry under that key. -/
theorem holds_store (hd : Distinct key table) (hi : slot key table k = some i)
    (ha : key a = some k) (k' : κ) (b : α) :
    Holds key (table.set i a) k' b ↔ if k' = k then b = a else Holds key table k' b := by
  constructor
  · rintro ⟨j, hj, hb⟩
    rw [getElem_set] at hj
    split at hj
    · subst hj
      rw [ha] at hb
      rw [if_pos (Option.some.inj hb).symm]
    · rename_i hne
      have hk : k' ≠ k := by
        rintro rfl
        rcases slot_eq_some hi with h | ⟨-, h⟩
        · exact hne (hd i j k' h (hj ▸ hb))
        · exact h j (hj ▸ hb)
      rw [if_neg hk]
      exact ⟨j, hj, hb⟩
  · intro h
    split at h
    · rename_i hk
      subst hk h
      exact ⟨i, by rw [getElem_set, if_pos rfl], ha⟩
    · rename_i hk
      obtain ⟨j, hj, hb⟩ := h
      have hne : i ≠ j := by
        rintro rfl
        rcases slot_eq_some hi with h | ⟨h, -⟩
        · rw [hj, hb] at h
          exact hk (Option.some.inj h)
        · rw [hj, hb] at h
          cases h
      exact ⟨j, by rw [getElem_set, if_neg hne, hj], hb⟩

theorem distinct_store (hd : Distinct key table) (hi : slot key table k = some i)
    (ha : key a = some k) : Distinct key (table.set i a) := by
  have hold : ∀ j : Fin n, i ≠ j → key table[j] ≠ some k := fun j hij hj => by
    rcases slot_eq_some hi with h | ⟨-, h⟩
    · exact hij (hd i j k h hj)
    · exact h j hj
  intro p q k' hp hq
  rw [getElem_set] at hp hq
  split at hp <;> split at hq
  · rename_i h h'
    rw [← h, ← h']
  · rename_i h
    rw [ha] at hp
    cases hp
    exact absurd hq (hold q h)
  · rename_i h _
    rw [ha] at hq
    cases hq
    exact absurd hp (hold p h)
  · exact hd p q k' hp hq

end Slot

/-- Freeing the slot of a key removes the entry under that key. -/
theorem holds_free (hd : Distinct key table) (hi : key table[i] = some k) (ha : key a = none)
    (k' : κ) (b : α) :
    Holds key (table.set i a) k' b ↔ k' ≠ k ∧ Holds key table k' b := by
  constructor
  · rintro ⟨j, hj, hb⟩
    rw [getElem_set] at hj
    split at hj
    · rw [← hj, ha] at hb
      cases hb
    · rename_i hne
      refine ⟨?_, j, hj, hb⟩
      rintro rfl
      exact hne (hd i j k' hi (hj ▸ hb))
  · rintro ⟨hk, j, hj, hb⟩
    have hne : i ≠ j := by
      rintro rfl
      rw [hj, hb] at hi
      exact hk (Option.some.inj hi)
    exact ⟨j, by rw [getElem_set, if_neg hne, hj], hb⟩

theorem distinct_free (hd : Distinct key table) (ha : key a = none) :
    Distinct key (table.set i a) := by
  intro p q k hp hq
  rw [getElem_set] at hp hq
  split at hp
  · rw [ha] at hp
    cases hp
  · split at hq
    · rw [ha] at hq
      cases hq
    · exact hd p q k hp hq

end SlotTable
