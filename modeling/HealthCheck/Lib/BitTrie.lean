import Mathlib.Algebra.Order.Ring.Nat
import Mathlib.Data.List.Basic
import Mathlib.Data.List.Perm.Basic
import Mathlib.Tactic.Common

/-!
# Walking a binary trie from leaf to leaf

Elements are told apart by their bits, read from position 0 on. `visits` lists them depth first,
the zero branch before the one branch. A walker who keeps nothing but the last leaf and the
deepest position where that leaf turned to zero although there was a one branch finds the next
leaf of the list in a single descent:

* `descend_first` — without such a position a descent finds the first leaf;
* `descend_next` — with it, the leaf behind the last one; and there is no such position exactly
  when the last one was the end of the list.
-/

namespace BitTrie

variable {α : Type} (bit : α → ℕ → Bool)

/-- The elements with bit `b` at position `i`. -/
def branch (i : ℕ) (b : Bool) (M : List α) : List α := M.filter fun r => bit r i = b

/-- The elements in depth-first order, `n` positions from `i` on being read. -/
def visits : ℕ → ℕ → List α → List α
  | 0, _, M => M
  | n + 1, i, M =>
    visits n (i + 1) (branch bit i false M) ++ visits n (i + 1) (branch bit i true M)

/-- The way a descent takes at position `i`: where both branches exist, that of `prev` before
position `last`, one at it and zero behind it. Positions are counted from 1 in `last`. -/
def direction (last : ℕ) (prev : ℕ → Bool) (i : ℕ) (M : List α) : Bool :=
  if branch bit i true M = [] then false
  else if branch bit i false M = [] then true
  else if i + 1 < last then prev i
  else decide (i + 1 = last)

/-- What a descent finds, and the deepest position where it turned to zero although there was a
one branch, or 0. -/
def descend (last : ℕ) (prev : ℕ → Bool) : ℕ → ℕ → List α → List α × ℕ
  | 0, _, M => (M, 0)
  | n + 1, i, M =>
    let b := direction bit last prev i M
    let found := descend last prev n (i + 1) (branch bit i b M)
    (found.1, if found.2 ≠ 0 then found.2
      else if b = false ∧ branch bit i true M ≠ [] then i + 1 else 0)

/-- That position for the element `w`. -/
def lastTurn : ℕ → ℕ → List α → α → ℕ
  | 0, _, _, _ => 0
  | n + 1, i, M, w =>
    let below := lastTurn n (i + 1) (branch bit i (bit w i) M) w
    if below ≠ 0 then below
    else if bit w i = false ∧ branch bit i true M ≠ [] then i + 1 else 0

/-- Any two elements differ in one of the `n` positions from `i` on. -/
def Separated (n i : ℕ) (M : List α) : Prop :=
  M.Pairwise fun r s => ∃ j, i ≤ j ∧ j < i + n ∧ bit r j ≠ bit s j

variable {bit} {M : List α} {n i : ℕ}

theorem mem_branch {b : Bool} {r : α} : r ∈ branch bit i b M ↔ r ∈ M ∧ bit r i = b := by
  rw [branch, List.mem_filter, decide_eq_true_eq]

theorem branch_perm (i : ℕ) (M : List α) :
    (branch bit i false M ++ branch bit i true M).Perm M := by
  have htrue : branch bit i true M = M.filter fun r => !decide (bit r i = false) :=
    List.filter_congr fun r _ => by cases bit r i <;> rfl
  rw [htrue]
  exact List.filter_append_perm _ _

/-- **Every element is visited once.** -/
theorem visits_perm (n i : ℕ) (M : List α) : (visits bit n i M).Perm M := by
  induction n generalizing i M with
  | zero => exact .refl _
  | succ n ih => exact ((ih _ _).append (ih _ _)).trans (branch_perm i M)

theorem separated_branch (h : Separated bit (n + 1) i M) (b : Bool) :
    Separated bit n (i + 1) (branch bit i b M) := by
  have hsub : Separated bit (n + 1) i (branch bit i b M) := h.filter _
  refine List.Pairwise.imp_of_mem (fun {r s} hr hs hne => ?_) hsub
  obtain ⟨j, hij, hj, hne⟩ := hne
  refine ⟨j, ?_, by omega, hne⟩
  rcases Nat.eq_or_lt_of_le hij with rfl | hlt
  · exact absurd ((mem_branch.1 hr).2.trans (mem_branch.1 hs).2.symm) hne
  · exact hlt

/-- Where no position is left there is one element at most. -/
theorem Separated.eq_singleton (h : Separated bit 0 i M) {w : α} (hw : w ∈ M) : M = [w] := by
  cases M with
  | nil => cases hw
  | cons r M =>
    cases M with
    | nil => rw [List.mem_singleton.1 hw]
    | cons s M =>
      obtain ⟨j, hij, hj, -⟩ := (List.pairwise_cons.1 h).1 s List.mem_cons_self
      exact absurd hj (by omega)

/-- A descent goes where there are elements. -/
theorem branch_direction_ne_nil (last : ℕ) (prev : ℕ → Bool) (h : M ≠ []) :
    branch bit i (direction bit last prev i M) M ≠ [] := by
  unfold direction
  split
  · rename_i htrue
    intro hfalse
    have hperm := @branch_perm _ bit i M
    rw [htrue, hfalse, List.append_nil] at hperm
    exact h hperm.nil_eq.symm
  · split
    · assumption
    · rename_i htrue hfalse
      split
      · cases prev i
        · exact hfalse
        · exact htrue
      · cases decide (i + 1 = last)
        · exact hfalse
        · exact htrue

theorem lastTurn_eq_zero_or_lt (n i : ℕ) (M : List α) (w : α) :
    lastTurn bit n i M w = 0 ∨ i < lastTurn bit n i M w := by
  induction n generalizing i M with
  | zero => exact .inl rfl
  | succ n ih =>
    simp only [lastTurn]
    rcases ih (i + 1) (branch bit i (bit w i) M) with hzero | hlt
    · rw [if_neg (not_not_intro hzero)]
      split
      · exact .inr (Nat.lt_succ_self i)
      · exact .inl rfl
    · rw [if_pos (by omega)]
      exact .inr (by omega)

/-- **A fresh descent** finds the first element. -/
theorem descend_first (h : Separated bit n i M) (hne : M ≠ []) {last : ℕ} (hlast : last ≤ i)
    (prev : ℕ → Bool) : ∃ e rest, visits bit n i M = e :: rest ∧
      descend bit last prev n i M = ([e], lastTurn bit n i M e) := by
  induction n generalizing i M with
  | zero =>
    obtain ⟨w, hw⟩ := List.exists_mem_of_ne_nil _ hne
    rw [h.eq_singleton hw]
    exact ⟨w, [], rfl, rfl⟩
  | succ n ih =>
    have hdirection : direction bit last prev i M = decide (branch bit i false M = []) := by
      unfold direction
      by_cases htrue : branch bit i true M = []
      · rw [if_pos htrue, eq_comm, decide_eq_false_iff_not]
        intro hfalse
        have hperm := @branch_perm _ bit i M
        rw [htrue, hfalse, List.append_nil] at hperm
        exact hne hperm.nil_eq.symm
      · rw [if_neg htrue]
        by_cases hfalse : branch bit i false M = []
        · rw [if_pos hfalse, decide_eq_true hfalse]
        · rw [if_neg hfalse, if_neg (by omega), decide_eq_false hfalse,
            decide_eq_false (by omega)]
    have hbranch := @branch_direction_ne_nil _ bit _ i last prev hne
    obtain ⟨e, rest, hvisits, hdescend⟩ := ih (separated_branch h _) hbranch (by omega)
    have he : bit e i = direction bit last prev i M := by
      have hmem : e ∈ branch bit i (direction bit last prev i M) M :=
        (@visits_perm _ bit n (i + 1) _).mem_iff.1 (hvisits ▸ List.mem_cons_self)
      exact (mem_branch.1 hmem).2
    have hturn : descend bit last prev (n + 1) i M = ([e], lastTurn bit (n + 1) i M e) := by
      simp only [descend, lastTurn, hdescend, he]
    by_cases hfalse : branch bit i false M = []
    · rw [hdirection, decide_eq_true hfalse] at hvisits
      have hnil : visits bit n (i + 1) (branch bit i false M) = [] := by
        rw [hfalse]
        exact (visits_perm n (i + 1) []).eq_nil
      refine ⟨e, rest, ?_, hturn⟩
      rw [visits, hnil, List.nil_append, hvisits]
    · rw [hdirection, decide_eq_false hfalse] at hvisits
      refine ⟨e, rest ++ visits bit n (i + 1) (branch bit i true M), ?_, hturn⟩
      rw [visits, hvisits, List.cons_append]

/-- **The next descent** from a leaf finds the one behind it, and the turn it starts from is
missing exactly at the last leaf. -/
theorem descend_next (h : Separated bit n i M) {w : α} (hw : w ∈ M) :
    ∃ before after, visits bit n i M = before ++ w :: after ∧
      (lastTurn bit n i M w = 0 ↔ after = []) ∧
      ∀ prev : ℕ → Bool, (∀ j, i ≤ j → j < i + n → prev j = bit w j) →
        lastTurn bit n i M w ≠ 0 → ∃ e rest, after = e :: rest ∧
          descend bit (lastTurn bit n i M w) prev n i M = ([e], lastTurn bit n i M e) := by
  induction n generalizing i M with
  | zero =>
    rw [h.eq_singleton hw]
    exact ⟨[], [], rfl, iff_of_true rfl rfl, fun _ _ hne => absurd rfl hne⟩
  | succ n ih =>
    have hmem : w ∈ branch bit i (bit w i) M := mem_branch.2 ⟨hw, rfl⟩
    obtain ⟨before, after, hvisits, hlast, hnext⟩ := ih (separated_branch h _) hmem
    have hturn : lastTurn bit (n + 1) i M w =
        if lastTurn bit n (i + 1) (branch bit i (bit w i) M) w ≠ 0 then
          lastTurn bit n (i + 1) (branch bit i (bit w i) M) w
        else if bit w i = false ∧ branch bit i true M ≠ [] then i + 1 else 0 := rfl
    generalize hbelow : lastTurn bit n (i + 1) (branch bit i (bit w i) M) w = below at *
    have hlt : below = 0 ∨ i + 1 < below := hbelow ▸ lastTurn_eq_zero_or_lt _ _ _ _
    -- A turn below the branch of `w`: the next leaf is in the same branch.
    have hsame : below ≠ 0 → ∀ prev : ℕ → Bool, (∀ j, i ≤ j → j < i + (n + 1) → prev j = bit w j) →
        ∃ e rest, after = e :: rest ∧
          descend bit below prev (n + 1) i M = ([e], lastTurn bit (n + 1) i M e) := by
      intro hne prev hprev
      have hdirection : direction bit below prev i M = bit w i := by
        unfold direction
        cases hb : bit w i with
        | false =>
          split
          · rfl
          · split
            · rename_i hnil
              rw [hb, hnil] at hmem
              cases hmem
            · rw [if_pos (by omega), hprev i (Nat.le_refl i) (by omega), hb]
        | true =>
          rw [hb] at hmem
          rw [if_neg (List.ne_nil_of_mem hmem)]
          split
          · rfl
          · rw [if_pos (by omega), hprev i (Nat.le_refl i) (by omega), hb]
      obtain ⟨e, rest, hafter, hdescend⟩ :=
        hnext prev (fun j hj hj' => hprev j (by omega) (by omega))
        hne
      have he : bit e i = bit w i := by
        have hin : e ∈ branch bit i (bit w i) M := (@visits_perm _ bit n (i + 1) _).mem_iff.1
          (hvisits ▸ hafter ▸ by simp)
        exact (mem_branch.1 hin).2
      refine ⟨e, rest, hafter, ?_⟩
      simp only [descend, lastTurn, hdirection, hdescend, he]
    rw [hturn]
    cases hb : bit w i with
    | true =>
      refine ⟨visits bit n (i + 1) (branch bit i false M) ++ before, after, ?_, ?_, ?_⟩
      · rw [visits, ← hb, hvisits, List.append_assoc]
      · simp only [Bool.true_eq_false, false_and, if_false]
        rw [← hlast]
        split <;> simp_all
      · intro prev hprev hne
        have hbelow0 : below ≠ 0 := fun hzero => hne (by simp [hzero])
        rw [if_pos hbelow0]
        exact hsame hbelow0 prev hprev
    | false =>
      have hbranch : branch bit i false M ≠ [] := List.ne_nil_of_mem (hb ▸ hmem)
      refine ⟨before, after ++ visits bit n (i + 1) (branch bit i true M), ?_, ?_, ?_⟩
      · rw [visits, ← hb, hvisits, List.append_assoc, List.cons_append]
      · by_cases hbelow0 : below = 0
        · rw [if_neg (not_not_intro hbelow0), hlast.1 hbelow0, List.nil_append]
          by_cases hone : branch bit i true M = []
          · rw [if_neg fun hboth => hboth.2 hone, hone]
            exact iff_of_true rfl (visits_perm n (i + 1) []).eq_nil
          · rw [if_pos ⟨rfl, hone⟩]
            refine iff_of_false (Nat.succ_ne_zero i) fun hnil => hone ?_
            have hperm := @visits_perm _ bit n (i + 1) (branch bit i true M)
            rw [hnil] at hperm
            exact hperm.nil_eq.symm
        · rw [if_pos hbelow0]
          exact iff_of_false hbelow0 fun hnil =>
            hbelow0 (hlast.2 (List.append_eq_nil_iff.1 hnil).1)
      · intro prev hprev hne
        by_cases hbelow0 : below = 0
        · rw [if_neg (not_not_intro hbelow0)] at hne ⊢
          have hone : branch bit i true M ≠ [] := fun hnil => hne (if_neg fun hboth => hboth.2 hnil)
          rw [if_pos ⟨rfl, hone⟩, hlast.1 hbelow0, List.nil_append]
          obtain ⟨e, rest, hvisits', hdescend⟩ := descend_first (separated_branch h true) hone
            (Nat.le_refl (i + 1)) prev
          have hdirection : direction bit (i + 1) prev i M = true := by
            rw [direction, if_neg hone, if_neg hbranch, if_neg (Nat.lt_irrefl _), decide_eq_true rfl]
          have he : bit e i = true := by
            have hin : e ∈ branch bit i true M :=
              (@visits_perm _ bit n (i + 1) _).mem_iff.1 (hvisits' ▸ List.mem_cons_self)
            exact (mem_branch.1 hin).2
          refine ⟨e, rest, hvisits', ?_⟩
          simp only [descend, lastTurn, hdirection, hdescend, he]
        · rw [if_pos hbelow0] at hne ⊢
          obtain ⟨e, rest, hafter, hdescend⟩ := hsame hbelow0 prev hprev
          exact ⟨e, rest ++ visits bit n (i + 1) (branch bit i true M), by
            rw [hafter, List.cons_append], hdescend⟩

end BitTrie
