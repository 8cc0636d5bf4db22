import Mathlib.Algebra.Order.Ring.Nat
import Mathlib.Data.List.Nodup
import Mathlib.Logic.Function.Basic
import Mathlib.Tactic.Common

/-!
# Lists of keyed entries

A list whose entries carry a key each stands for a partial map: `lookup` finds the first entry of
a key. While no key occurs twice, the three ways a table is changed are updates of that map:
replacing the entry of a key (`lookup_set`), adding one at the end (`lookup_append`) and taking
one out (`lookup_eraseIdx`); and none of them makes a key occur twice.
-/

namespace KeyedList

variable {α κ : Type} [DecidableEq κ] {key : α → κ} {l : List α} {a : α} {k : κ} {p : ℕ}

/-- The first entry of a key. -/
def lookup (key : α → κ) (l : List α) (k : κ) : Option α := l.find? fun a => key a = k

/-- No key occurs twice. -/
def Distinct (key : α → κ) (l : List α) : Prop := (l.map key).Nodup

theorem lookup_some (h : lookup key l k = some a) : a ∈ l ∧ key a = k :=
  ⟨List.mem_of_find?_eq_some h, of_decide_eq_true (List.find?_some (p := fun a => key a = k) h)⟩

theorem lookup_eq_none : lookup key l k = none ↔ ∀ a ∈ l, key a ≠ k := by
  simp [lookup, List.find?_eq_none]

theorem lookup_isSome : (lookup key l k).isSome = true ↔ ∃ a ∈ l, key a = k := by
  simp [lookup]

omit [DecidableEq κ] in
theorem Distinct.eq {b : α} (h : Distinct key l) (ha : a ∈ l) (hb : b ∈ l)
    (hkey : key a = key b) : a = b :=
  List.inj_on_of_nodup_map h ha hb hkey

/-- The entries of the list are what the map holds. -/
theorem lookup_iff (h : Distinct key l) : lookup key l k = some a ↔ a ∈ l ∧ key a = k := by
  refine ⟨lookup_some, ?_⟩
  rintro ⟨ha, rfl⟩
  have hsome : (lookup key l (key a)).isSome = true := lookup_isSome.mpr ⟨a, ha, rfl⟩
  obtain ⟨b, hb⟩ := Option.isSome_iff_exists.mp hsome
  obtain ⟨hmem, hkey⟩ := lookup_some hb
  rw [hb, h.eq hmem ha hkey]

/-! ## Other keys -/

/-- Replacing an entry does not matter to a key that neither the old nor the new one has. -/
theorem lookup_set_of_ne (hold : ∀ b ∈ l[p]?, key b ≠ k) (ha : key a ≠ k) :
    lookup key (l.set p a) k = lookup key l k := by
  unfold lookup
  induction l generalizing p with
  | nil => rfl
  | cons b l ih =>
    cases p with
    | zero =>
      have hb : key b ≠ k := hold b rfl
      rw [List.set_cons_zero, List.find?_cons_of_neg (by simp [ha]),
        List.find?_cons_of_neg (by simp [hb])]
    | succ p =>
      rw [List.set_cons_succ, List.find?_cons, List.find?_cons, ih hold]

/-- Nor does taking it out. -/
theorem lookup_eraseIdx_of_ne (hold : ∀ b ∈ l[p]?, key b ≠ k) :
    lookup key (l.eraseIdx p) k = lookup key l k := by
  unfold lookup
  induction l generalizing p with
  | nil => rfl
  | cons b l ih =>
    cases p with
    | zero =>
      have hb : key b ≠ k := hold b rfl
      rw [List.eraseIdx_cons_zero, List.find?_cons_of_neg (by simp [hb])]
    | succ p =>
      rw [List.eraseIdx_cons_succ, List.find?_cons, List.find?_cons, ih hold]

/-! ## The three changes -/

omit [DecidableEq κ] in
theorem Distinct.set (h : Distinct key l) (hp : p < l.length) (hkey : key l[p] = key a) :
    Distinct key (l.set p a) := by
  have hsame : (l.set p a).map key = l.map key := by
    have hp' : p < (l.map key).length := by rwa [List.length_map]
    rw [List.map_set, ← hkey, ← List.getElem_map key (h := hp'), List.set_getElem_self]
  rwa [Distinct, hsame]

omit [DecidableEq κ] in
theorem Distinct.append (h : Distinct key l) (hfresh : ∀ b ∈ l, key b ≠ key a) :
    Distinct key (l ++ [a]) := by
  rw [Distinct, List.map_append, List.nodup_append]
  refine ⟨h, List.nodup_singleton _, fun b hb c hc => ?_⟩
  obtain ⟨b, hmem, rfl⟩ := List.mem_map.mp hb
  rw [List.mem_singleton.mp hc]
  exact hfresh b hmem

omit [DecidableEq κ] in
theorem Distinct.eraseIdx (h : Distinct key l) : Distinct key (l.eraseIdx p) :=
  h.sublist ((List.eraseIdx_sublist l p).map key)

/-- The entry of a key replaced. -/
theorem lookup_set (h : Distinct key l) (hp : p < l.length) (hkey : key l[p] = key a) :
    lookup key (l.set p a) = Function.update (lookup key l) (key a) (some a) := by
  funext k
  by_cases hk : k = key a
  · rw [hk, Function.update_self]
    exact (lookup_iff (h.set hp hkey)).mpr ⟨List.mem_set hp a, rfl⟩
  · rw [Function.update_of_ne hk]
    refine lookup_set_of_ne (fun b hb => ?_) (Ne.symm hk)
    rw [List.getElem?_eq_getElem hp, Option.mem_some_iff] at hb
    rw [← hb, hkey]
    exact Ne.symm hk

/-- An entry of a new key added at the end. -/
theorem lookup_append (hfresh : ∀ b ∈ l, key b ≠ key a) :
    lookup key (l ++ [a]) = Function.update (lookup key l) (key a) (some a) := by
  funext k
  by_cases hk : k = key a
  · rw [hk, Function.update_self]
    have hnone : lookup key l (key a) = none := lookup_eq_none.mpr hfresh
    unfold lookup at hnone ⊢
    rw [List.find?_append, hnone]
    simp
  · rw [Function.update_of_ne hk]
    simp [lookup, List.find?_append, Ne.symm hk]

/-- An entry taken out. -/
theorem lookup_eraseIdx (h : Distinct key l) (hp : p < l.length) :
    lookup key (l.eraseIdx p) = Function.update (lookup key l) (key l[p]) none := by
  funext k
  by_cases hk : k = key l[p]
  · rw [hk, Function.update_self, lookup_eq_none]
    intro b hb hkey
    obtain ⟨i, hi, hne, rfl⟩ := List.mem_eraseIdx_iff_getElem.mp hb
    have hp' : p < (l.map key).length := by rwa [List.length_map]
    have hi' : i < (l.map key).length := by rwa [List.length_map]
    have hsame : (l.map key)[i] = (l.map key)[p] := by
      rw [List.getElem_map, List.getElem_map, hkey]
    exact hne (List.Nodup.getElem_inj_iff h |>.mp hsame)
  · rw [Function.update_of_ne hk]
    refine lookup_eraseIdx_of_ne fun b hb => ?_
    rw [List.getElem?_eq_getElem hp, Option.mem_some_iff] at hb
    rw [← hb]
    exact Ne.symm hk

end KeyedList
