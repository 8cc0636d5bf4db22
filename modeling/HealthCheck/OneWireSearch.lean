import HealthCheck.Lib.BitTrie
import HealthCheck.OneWire
import Mathlib.Algebra.Order.Ring.Nat
import Mathlib.Data.Nat.Bitwise

/-!
# The ROM search finds every device

A pass of `oneWire_SearchUnlocked` over a bus with devices is one descent in the binary trie of
their ROM codes (`searchBits_descend`): the directions it writes pick a branch, the last ROM and
`lastDiscrepancy` are all it knows of the pass before. So the passes visit the devices one after
the other, in depth-first order (`searchLoop_visits`), until all are found or six are
(`search_exact`).
-/

namespace HealthCheck.OneWire

open BitTrie

/-! ## Bits of a ROM code -/

theorem bitMask_toNat (romBit : ℕ) : (bitMask romBit).toNat = 2 ^ ((romBit - 1) % 8) := by
  have hlt : (romBit - 1) % 8 < 8 := Nat.mod_lt _ (by decide)
  rw [bitMask, UInt8.toNat_ofNat', Nat.one_shiftLeft]
  exact Nat.mod_eq_of_lt (Nat.pow_lt_pow_right (by decide) hlt)

theorem and_bitMask_ne_zero (byte : UInt8) (romBit : ℕ) :
    decide (byte &&& bitMask romBit ≠ 0) = byte.toNat.testBit ((romBit - 1) % 8) := by
  have hzero : byte &&& bitMask romBit = 0 ↔ byte.toNat &&& 2 ^ ((romBit - 1) % 8) = 0 := by
    rw [← UInt8.toNat_inj, UInt8.toNat_and, bitMask_toNat]
    rfl
  cases hbit : byte.toNat.testBit ((romBit - 1) % 8) <;> simp [hzero, Nat.and_two_pow, hbit]

/-- Bits are bits of bytes. -/
theorem test_eq (rom : Rom) (romBit : ℕ) : rom.test romBit =
    (rom.toList.getD ((romBit - 1) / 8) 0).toNat.testBit ((romBit - 1) % 8) :=
  and_bitMask_ne_zero _ _

theorem testBit_or_bitMask (byte : UInt8) (romBit k : ℕ) :
    (byte ||| bitMask romBit).toNat.testBit k =
      (byte.toNat.testBit k || decide ((romBit - 1) % 8 = k)) := by
  rw [UInt8.toNat_or, bitMask_toNat, Nat.testBit_or, Nat.testBit_two_pow]

theorem testBit_and_not_bitMask (byte : UInt8) (romBit : ℕ) {k : ℕ} (hk : k < 8) :
    (byte &&& ~~~bitMask romBit).toNat.testBit k =
      (byte.toNat.testBit k && !decide ((romBit - 1) % 8 = k)) := by
  have hnot : (~~~bitMask romBit).toNat = 2 ^ 8 - 1 - 2 ^ ((romBit - 1) % 8) := by
    rw [UInt8.toNat_not, bitMask_toNat]
    rfl
  rw [UInt8.toNat_and, Nat.testBit_and, hnot, Nat.sub_sub, Nat.add_comm 1,
    Nat.testBit_two_pow_sub_succ (Nat.pow_lt_pow_right (by decide) (Nat.mod_lt _ (by decide))),
    Nat.testBit_two_pow, decide_eq_true hk, Bool.true_and]

theorem length_toList (rom : Rom) : rom.toList.length = 8 := Vector.length_toList ..

theorem getD_assign (rom : Rom) {romBit : ℕ} (h : romBit < 65) (direction : Bool) (i : ℕ) :
    (rom.assign romBit direction).toList.getD i 0 = if (romBit - 1) / 8 = i then
      (if direction then rom.toList.getD ((romBit - 1) / 8) 0 ||| bitMask romBit
        else rom.toList.getD ((romBit - 1) / 8) 0 &&& ~~~bitMask romBit)
      else rom.toList.getD i 0 := by
  have hbyte : (romBit - 1) / 8 < rom.toList.length := by
    rw [length_toList]
    omega
  rw [Rom.assign]
  simp only [Vector.toList_setIfInBounds]
  rw [List.getD_eq_getElem?_getD, List.getElem?_set]
  split
  · rfl
  · rw [← List.getD_eq_getElem?_getD]

/-- **Assigning a bit** changes that bit alone. -/
theorem test_assign (rom : Rom) {romBit other : ℕ} (h : romBit < 65) (hpos : 0 < romBit)
    (hother : 0 < other) (direction : Bool) : (rom.assign romBit direction).test other =
      if other = romBit then direction else rom.test other := by
  have hlt : (other - 1) % 8 < 8 := Nat.mod_lt _ (by decide)
  rw [test_eq, test_eq, getD_assign rom h]
  by_cases hbyte : (romBit - 1) / 8 = (other - 1) / 8
  · rw [if_pos hbyte, ← hbyte]
    have hsame : (romBit - 1) % 8 = (other - 1) % 8 ↔ other = romBit := by omega
    cases direction with
    | true =>
      rw [if_pos rfl, testBit_or_bitMask]
      by_cases heq : other = romBit <;> simp [hsame, heq]
    | false =>
      rw [if_neg (by decide), testBit_and_not_bitMask _ _ hlt]
      by_cases heq : other = romBit <;> simp [hsame, heq]
  · rw [if_neg hbyte, if_neg fun heq => hbyte (by rw [heq])]

/-- A ROM code is made of its 64 bits. -/
theorem rom_ext {r s : Rom} (h : ∀ j < 64, r.test (j + 1) = s.test (j + 1)) : r = s := by
  refine Vector.toList_inj.1 (List.ext_getElem (by simp) fun i hi hi' => ?_)
  rw [length_toList] at hi
  refine UInt8.toNat_inj.1 (Nat.eq_of_testBit_eq fun k => ?_)
  by_cases hk : k < 8
  · have hbit := h (i * 8 + k) (by omega)
    rw [test_eq, test_eq, Nat.add_sub_cancel, show (i * 8 + k) / 8 = i by omega,
      show (i * 8 + k) % 8 = k by omega, List.getD_eq_getElem _ _ (by rw [length_toList]; omega),
      List.getD_eq_getElem _ _ (by rw [length_toList]; omega)] at hbit
    exact hbit
  · have hbig : ∀ b : UInt8, b.toNat.testBit k = false := fun b => by
      refine Nat.testBit_lt_two_pow (b.toNat_lt.trans_le ?_)
      exact Nat.pow_le_pow_right (by decide) (Nat.le_of_not_lt hk)
    rw [hbig, hbig]

/-! ## One pass -/

/-- The bit of a ROM code at a position from 0 on. -/
def romBits (rom : Rom) (i : ℕ) : Bool := rom.test (i + 1)

/-- The levels of the two read slots of a bit. -/
theorem all_test_iff (M : List Rom) (i : ℕ) :
    M.all (·.test (i + 1)) = true ↔ branch romBits i false M = [] := by
  rw [List.all_eq_true, branch, List.filter_eq_nil_iff]
  refine forall₂_congr fun r _ => ?_
  rw [romBits, decide_eq_true_eq, Bool.not_eq_false]

theorem all_not_test_iff (M : List Rom) (i : ℕ) :
    M.all (!·.test (i + 1)) = true ↔ branch romBits i true M = [] := by
  rw [List.all_eq_true, branch, List.filter_eq_nil_iff]
  refine forall₂_congr fun r _ => ?_
  rw [romBits, decide_eq_true_eq, Bool.not_eq_true, Bool.not_eq_true']

theorem branch_ne_nil_or {M : List Rom} (h : M ≠ []) (i : ℕ) :
    branch romBits i true M ≠ [] ∨ branch romBits i false M ≠ [] := by
  by_contra hnone
  obtain ⟨htrue, hfalse⟩ := not_or.1 hnone
  have hperm := @branch_perm _ romBits i M
  rw [not_not.1 htrue, not_not.1 hfalse] at hperm
  exact h hperm.nil_eq.symm

/-- The direction `oneWire_SearchUnlocked` writes is the one of a descent. -/
theorem direction_eq {M : List Rom} (h : M ≠ []) (last i : ℕ) (rom : Rom) :
    (if M.all (·.test (i + 1)) ≠ M.all (!·.test (i + 1)) then M.all (·.test (i + 1))
      else if i + 1 < last then rom.test (i + 1) else decide (i + 1 = last)) =
      direction romBits last (romBits rom) i M := by
  unfold direction
  by_cases htrue : branch romBits i true M = []
  · have hfalse := (branch_ne_nil_or h i).resolve_left (not_not_intro htrue)
    have hbit : M.all (·.test (i + 1)) = false :=
      Bool.eq_false_iff.2 fun hall => hfalse ((all_test_iff M i).1 hall)
    rw [(all_not_test_iff M i).2 htrue, hbit, if_pos (by decide), if_pos htrue]
  · have hcomplement : M.all (!·.test (i + 1)) = false :=
      Bool.eq_false_iff.2 fun hall => htrue ((all_not_test_iff M i).1 hall)
    rw [hcomplement, if_neg htrue]
    by_cases hfalse : branch romBits i false M = []
    · rw [(all_test_iff M i).2 hfalse, if_pos (by decide), if_pos hfalse]
    · have hbit : M.all (·.test (i + 1)) = false :=
        Bool.eq_false_iff.2 fun hall => hfalse ((all_test_iff M i).1 hall)
      rw [hbit, if_neg (by decide), if_neg hfalse]
      rfl

/-- A conflict that is answered with a zero is a turn to remember. -/
theorem conflict_iff {M : List Rom} (h : M ≠ []) {last i : ℕ} {prev : ℕ → Bool}
    (hzero : direction romBits last prev i M = false) :
    M.all (·.test (i + 1)) = M.all (!·.test (i + 1)) ↔ branch romBits i true M ≠ [] := by
  have hfalse : branch romBits i false M ≠ [] := by
    have hne := @branch_direction_ne_nil _ romBits _ i last prev h
    rwa [hzero] at hne
  have hbit : M.all (·.test (i + 1)) = false :=
    Bool.eq_false_iff.2 fun hall => hfalse ((all_test_iff M i).1 hall)
  rw [hbit, ne_eq, ← all_not_test_iff, Bool.not_eq_true, eq_comm]

/-- A descent reads `prev` from its first position on. -/
theorem descend_congr {last : ℕ} {prev prev' : ℕ → Bool} {n i : ℕ}
    (h : ∀ j, i ≤ j → prev j = prev' j) (M : List Rom) :
    descend romBits last prev n i M = descend romBits last prev' n i M := by
  induction n generalizing i M with
  | zero => rfl
  | succ n ih =>
    have hdirection : direction romBits last prev i M = direction romBits last prev' i M := by
      rw [direction, direction, h i le_rfl]
    simp only [descend, hdirection]
    rw [ih fun j hj => h j (Nat.le_of_succ_le hj)]

theorem searchBits_step (S : List Rom) (last n i : ℕ) (rom : Rom) (discrepancy : ℕ) {M : List Rom}
    {b : Bool} (hanswer : (M.all (·.test (i + 1)) && M.all (!·.test (i + 1))) = false)
    (hb : (if M.all (·.test (i + 1)) ≠ M.all (!·.test (i + 1)) then M.all (·.test (i + 1))
      else if i + 1 < last then rom.test (i + 1) else decide (i + 1 = last)) = b) :
    searchBits (romBus S) last (n + 1) (i + 1) rom discrepancy (.bit M (i + 1)) =
      searchBits (romBus S) last n (i + 1 + 1) (rom.assign (i + 1) b)
        (if M.all (·.test (i + 1)) = M.all (!·.test (i + 1)) ∧ b = false then i + 1
          else discrepancy) (.bit (branch romBits i b M) (i + 1 + 1)) := by
  subst hb
  show (if (M.all (·.test (i + 1)) && M.all (!·.test (i + 1))) = true then _ else _) = _
  rw [if_neg (by rw [hanswer]; decide)]
  rfl

/-- **The bits of a pass are a descent** in the ROM codes of the devices: `rom` takes the bits of
the devices that are left, and `discrepancy` is the deepest turn, if there is one. -/
theorem searchBits_descend (S : List Rom) (last : ℕ) {n i : ℕ} (hn : i + n = 64) {M : List Rom}
    (hM : M ≠ []) (rom : Rom) (discrepancy : ℕ) : ∃ rom' discrepancy',
      searchBits (romBus S) last n (i + 1) rom discrepancy (.bit M (i + 1)) =
        (true, rom', discrepancy',
          .bit (descend romBits last (romBits rom) n i M).1 65) ∧
      (discrepancy' = if (descend romBits last (romBits rom) n i M).2 ≠ 0 then
        (descend romBits last (romBits rom) n i M).2 else discrepancy) ∧
      (∀ j < i, romBits rom' j = romBits rom j) ∧
      ∀ e ∈ (descend romBits last (romBits rom) n i M).1, e ∈ M ∧
        ∀ j, i ≤ j → j < 64 → romBits rom' j = romBits e j := by
  induction n generalizing i M rom discrepancy with
  | zero =>
    obtain rfl : i = 64 := by omega
    exact ⟨rom, discrepancy, rfl, rfl, fun _ _ => rfl, fun e he => ⟨he, fun j hj hj' => by omega⟩⟩
  | succ n ih =>
    have hdirection := direction_eq hM last i rom
    generalize hb : direction romBits last (romBits rom) i M = b at hdirection
    have hbranch : branch romBits i b M ≠ [] :=
      hb ▸ branch_direction_ne_nil last (romBits rom) hM
    have hanswer : (M.all (·.test (i + 1)) && M.all (!·.test (i + 1))) = false := by
      rw [Bool.and_eq_false_iff, Bool.eq_false_iff, Bool.eq_false_iff, ne_eq, ne_eq, all_test_iff,
        all_not_test_iff]
      exact (branch_ne_nil_or hM i).symm
    have hassign : ∀ j, romBits (rom.assign (i + 1) b) j = if j = i then b else romBits rom j := by
      intro j
      rw [romBits, test_assign rom (by omega) (Nat.succ_pos i) (Nat.succ_pos j)]
      simp only [Nat.succ_inj]
      rfl
    generalize hnow : (if M.all (·.test (i + 1)) = M.all (!·.test (i + 1)) ∧ b = false then i + 1
      else discrepancy) = now
    obtain ⟨rom', discrepancy', hsearch, hdiscrepancy, hbefore, hfound⟩ :=
      ih (i := i + 1) (by omega) hbranch (rom.assign (i + 1) b) now
    have hcongr : descend romBits last (romBits (rom.assign (i + 1) b)) n (i + 1)
        (branch romBits i b M) = descend romBits last (romBits rom) n (i + 1)
        (branch romBits i b M) := by
      refine descend_congr (fun j hj => ?_) _
      rw [hassign, if_neg (by omega)]
    rw [hcongr] at hsearch hdiscrepancy hfound
    have hdescend : descend romBits last (romBits rom) (n + 1) i M =
        ((descend romBits last (romBits rom) n (i + 1) (branch romBits i b M)).1,
          if (descend romBits last (romBits rom) n (i + 1) (branch romBits i b M)).2 ≠ 0 then
            (descend romBits last (romBits rom) n (i + 1) (branch romBits i b M)).2
          else if b = false ∧ branch romBits i true M ≠ [] then i + 1 else 0) := by
      simp only [descend, hb]
    have hconflict : (M.all (·.test (i + 1)) = M.all (!·.test (i + 1)) ∧ b = false) ↔
        (b = false ∧ branch romBits i true M ≠ []) := by
      rw [and_comm]
      exact and_congr_right fun hzero => conflict_iff hM (hb.trans hzero)
    refine ⟨rom', discrepancy', ?_, ?_, fun j hj => ?_, fun e he => ?_⟩
    · rw [hdescend, ← hsearch, ← hnow]
      exact searchBits_step S last n i rom discrepancy hanswer hdirection
    · rw [hdescend, hdiscrepancy, ← hnow]
      simp only [hconflict]
      split
      · rfl
      · split
        · rw [if_pos (Nat.succ_ne_zero i)]
        · rw [if_neg (not_not_intro rfl)]
    · rw [hbefore j (by omega), hassign, if_neg (by omega)]
    · rw [hdescend] at he
      obtain ⟨hmem, hbits⟩ := hfound e he
      obtain ⟨hin, hbit⟩ := mem_branch.1 hmem
      refine ⟨hin, fun j hij hj => ?_⟩
      rcases Nat.eq_or_lt_of_le hij with rfl | hlt
      · rw [hbefore _ (Nat.lt_succ_self _), hassign, if_pos rfl, hbit]
      · exact hbits j hlt hj

/-! ## All passes -/

theorem separated_of_nodup {S : List Rom} (h : S.Nodup) : Separated romBits 64 0 S := by
  refine List.Pairwise.imp (fun {r s} hne => ?_) h
  by_contra hsame
  refine hne (rom_ext fun j hj => ?_)
  by_contra hbit
  exact hsame ⟨j, Nat.zero_le j, by omega, hbit⟩

theorem writeByte_command (S : List Rom) :
    writeByte (romBus S) commandSearchRom (.command []) = .bit S 1 := rfl

/-- Two ways to split a list without repetitions at one element. -/
theorem split_unique {α : Type} {l before after before' after' : List α} {w : α} (h : l.Nodup)
    (hl : l = before ++ w :: after) (hl' : l = before' ++ w :: after') : after = after' := by
  subst hl
  induction before generalizing before' with
  | nil =>
    cases before' with
    | nil => exact (List.cons.inj hl').2
    | cons x before' =>
      obtain ⟨rfl, hrest⟩ := List.cons.inj hl'
      exact absurd (hrest ▸ by simp) (List.nodup_cons.1 h).1
  | cons y before ih =>
    cases before' with
    | nil =>
      obtain ⟨rfl, -⟩ := List.cons.inj hl'
      exact absurd (by simp) (List.nodup_cons.1 h).1
    | cons x before' => exact ih (List.nodup_cons.1 h).2 (List.cons.inj hl').2

/-- A pass that finds `e` records it, and ends the search if it turned nowhere. -/
theorem searchLoop_pass {S : List Rom} {e : Rom} (he : e ∈ S) (hcrc : e.crc = 0) (room : ℕ)
    {rom : Rom} {last : ℕ} (devices : List Rom) (phase : Phase)
    (hdescend : descend romBits last (romBits rom) 64 0 S = ([e], lastTurn romBits 64 0 S e)) :
    searchLoop (romBus S) (room + 1) rom last devices phase =
      if lastTurn romBits 64 0 S e = 0 then (devices ++ [e], .bit [e] 65)
      else searchLoop (romBus S) room e (lastTurn romBits 64 0 S e) (devices ++ [e])
        (.bit [e] 65) := by
  obtain ⟨rom', discrepancy', hsearch, hdiscrepancy, -, hfound⟩ :=
    searchBits_descend S last (n := 64) (i := 0) rfl (List.ne_nil_of_mem he) rom 0
  rw [hdescend] at hsearch hdiscrepancy hfound
  generalize lastTurn romBits 64 0 S e = turn at hsearch hdiscrepancy hfound ⊢
  have hrom : rom' = e := rom_ext fun j hj => (hfound e List.mem_cons_self).2 j (Nat.zero_le j) hj
  have hturn : discrepancy' = turn := by
    by_cases hzero : turn = 0
    · rw [hdiscrepancy, if_neg (not_not_intro hzero), hzero]
    · rw [hdiscrepancy, if_pos hzero]
  have hreset : (romBus S).reset phase = (false, .command []) := by
    show (S.isEmpty, Phase.command []) = _
    rw [List.isEmpty_eq_false_iff.2 (List.ne_nil_of_mem he)]
  have hpass : searchBits (romBus S) last 64 1 rom 0 (.bit S 1) = (true, e, turn, .bit [e] 65) := by
    rw [← hrom, ← hturn]
    exact hrom ▸ hsearch
  rw [searchLoop, hreset]
  simp only [writeByte_command, hpass, hcrc, Bool.false_eq_true, Bool.true_eq_false, if_false,
    ne_eq, not_true_eq_false]

/-- **The passes visit the devices one after the other**: a pass that finds `e` is followed by
passes that find the devices behind it, as far as there is room. -/
theorem searchLoop_visits {S : List Rom} (hnodup : S.Nodup) (hcrc : ∀ r ∈ S, r.crc = 0)
    (room : ℕ) {rom : Rom} {last : ℕ} {devices before rest : List Rom} {e : Rom} (phase : Phase)
    (hdescend : descend romBits last (romBits rom) 64 0 S = ([e], lastTurn romBits 64 0 S e))
    (hvisits : visits romBits 64 0 S = before ++ e :: rest) :
    (searchLoop (romBus S) (room + 1) rom last devices phase).1 =
      devices ++ (e :: rest).take (room + 1) := by
  have hperm := @visits_perm _ romBits 64 0 S
  induction room generalizing rom last devices before rest e phase with
  | zero =>
    have he : e ∈ S := hperm.mem_iff.1 (hvisits ▸ by simp)
    rw [searchLoop_pass he (hcrc e he) 0 devices phase hdescend]
    split <;> rfl
  | succ room ih =>
    have he : e ∈ S := hperm.mem_iff.1 (hvisits ▸ by simp)
    obtain ⟨before', after, hvisits', hlast, hnext⟩ := descend_next (separated_of_nodup hnodup) he
    obtain rfl := split_unique (hperm.nodup_iff.2 hnodup) hvisits hvisits'
    rw [searchLoop_pass he (hcrc e he) (room + 1) devices phase hdescend]
    split
    · rename_i hzero
      rw [hlast.1 hzero]
      rfl
    · rename_i hturn
      obtain ⟨e', rest', rfl, hdescend'⟩ := hnext (romBits e) (fun _ _ _ => rfl) hturn
      have hsplit : visits romBits 64 0 S = (before ++ [e]) ++ e' :: rest' := by
        rw [hvisits, List.append_assoc, List.singleton_append]
      rw [ih (.bit [e] 65) hdescend' hsplit, List.append_assoc, List.singleton_append]
      rfl

/-- **The search** records the devices in depth-first order, six at most. -/
theorem searchUnlocked_visits {S : List Rom} (hnodup : S.Nodup) (hcrc : ∀ r ∈ S, r.crc = 0)
    (phase : Phase) : (searchUnlocked (romBus S) phase).2.1 =
      (visits romBits 64 0 S).take maxDevices := by
  by_cases hne : S = []
  · subst hne
    have hnil : visits romBits 64 0 ([] : List Rom) = [] := (visits_perm 64 0 []).eq_nil
    rw [hnil]
    rfl
  · obtain ⟨e, rest, hvisits, hdescend⟩ := descend_first (separated_of_nodup hnodup) hne
      (Nat.zero_le 0) (romBits (Vector.replicate 8 0))
    have hloop : (searchLoop _ 6 _ 0 [] phase).1 = [] ++ (e :: rest).take 6 :=
      searchLoop_visits hnodup hcrc 5 phase hdescend (show _ = [] ++ e :: rest from hvisits)
    rw [hvisits]
    exact hloop

/-- **The search is complete and exact**: it records no code twice and none that is not there,
all devices if there are at most six and six of them otherwise, and reports success exactly if
there is one. -/
theorem search_exact {S : List Rom} (hnodup : S.Nodup) (hcrc : ∀ r ∈ S, r.crc = 0)
    (phase : Phase) : let out := searchUnlocked (romBus S) phase
    out.2.1.Nodup ∧ out.2.1 ⊆ S ∧ out.2.1.length = min S.length maxDevices ∧
      (S.length ≤ maxDevices → out.2.1.Perm S) ∧ (out.1 = true ↔ S ≠ []) := by
  have hvisits := searchUnlocked_visits hnodup hcrc phase
  have hperm := @visits_perm _ romBits 64 0 S
  have hlength : (searchUnlocked (romBus S) phase).2.1.length = min S.length maxDevices := by
    rw [hvisits, List.length_take, hperm.length_eq, Nat.min_comm]
  refine ⟨?_, ?_, hlength, fun hfew => ?_, ?_⟩
  · rw [hvisits]
    exact (hperm.nodup_iff.2 hnodup).sublist (List.take_sublist _ _)
  · rw [hvisits]
    exact fun r hr => hperm.mem_iff.1 (List.mem_of_mem_take hr)
  · rw [hvisits, List.take_of_length_le (hperm.length_eq.trans_le hfew)]
    exact hperm
  · show decide ((searchUnlocked (romBus S) phase).2.1.length > 0) = true ↔ _
    rw [decide_eq_true_eq, hlength, gt_iff_lt, Nat.lt_min, ← List.length_pos_iff]
    exact and_iff_left (by decide)

/-- Two thermometers. -/
def thermometers : List Rom :=
  [#v[0x28, 1, 2, 3, 0, 0, 0, 34], #v[0x28, 2, 2, 3, 0, 0, 0, 123]]

theorem crc_thermometers : ∀ r ∈ thermometers, r.crc = 0 := by
  intro r hr
  have hall : thermometers.all (fun r => r.crc = 0) = true := by decide +kernel
  exact of_decide_eq_true (List.all_eq_true.1 hall r hr)

theorem search_exact_thermometers :
    (searchUnlocked (romBus thermometers) .idle).2.1.Perm thermometers :=
  (search_exact (by decide +kernel) crc_thermometers .idle).2.2.2.1 (by decide)

end HealthCheck.OneWire
