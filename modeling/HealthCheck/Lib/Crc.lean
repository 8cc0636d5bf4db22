import Mathlib.Algebra.Order.Ring.Nat
import Mathlib.Data.List.Basic
import Mathlib.Logic.Function.Iterate
import Mathlib.Tactic.Common

/-!
# Cyclic redundancy checks

The reflected CRC of any width, one bit at a time, and the reflected CRC-32 with polynomial
`0xEDB88320` as one of them.

A shift of the register is linear in exclusive or, and, because the polynomial has its top bit,
injective. A message that fits in the register can therefore be fed in at once, which gives both
things a checksum is for:

* `Crc.detects` — messages that differ, but only in as many neighbouring bytes as the register
  holds, have different checksums;
* `Crc.foldl_append_eq_zero_iff` — a message and its checksum leave zero, and nothing else does.
-/

namespace Crc

variable {w : ℕ}

/-- One shift of the register. -/
def shift (poly v : BitVec w) : BitVec w := (v >>> 1) ^^^ (if v.getLsbD 0 then poly else 0)

/-- One byte. -/
def absorb (poly crc : BitVec w) (byte : UInt8) : BitVec w :=
  (shift poly)^[8] (crc ^^^ byte.toBitVec.setWidth w)

/-- Bytes in a register, the first in the lowest bits. -/
def word (w : ℕ) : List UInt8 → BitVec w
  | [] => 0
  | byte :: bytes => byte.toBitVec.setWidth w ^^^ (word w bytes <<< 8)

/-! ## Shifts -/

theorem xor_swap (a b c d : BitVec w) : a ^^^ b ^^^ (c ^^^ d) = a ^^^ c ^^^ (b ^^^ d) := by
  ac_rfl

/-- **A shift is linear.** -/
theorem shift_xor (poly a b : BitVec w) :
    shift poly (a ^^^ b) = shift poly a ^^^ shift poly b := by
  have hfeedback : (if (a ^^^ b).getLsbD 0 then poly else 0) =
      (if a.getLsbD 0 then poly else 0) ^^^ (if b.getLsbD 0 then poly else 0) := by
    rw [BitVec.getLsbD_xor]
    cases a.getLsbD 0 <;> cases b.getLsbD 0 <;> simp
  rw [shift, shift, shift, hfeedback, BitVec.ushiftRight_xor_distrib, xor_swap]

theorem shift_zero (poly : BitVec w) : shift poly 0 = 0 := by
  simp [shift]

/-- What leaves an empty register was one, if the polynomial has its top bit. -/
theorem eq_zero_of_shift {poly v : BitVec w} (hpoly : poly.msb = true) (h : shift poly v = 0) :
    v = 0 := by
  have hlow : v.getLsbD 0 = false := by
    by_contra hset
    rw [Bool.not_eq_false] at hset
    have htop := congrArg BitVec.msb h
    rw [shift, if_pos hset, BitVec.msb_xor, hpoly, BitVec.msb_ushiftRight] at htop
    simp at htop
  rw [shift, if_neg (by rw [hlow]; decide)] at h
  apply BitVec.eq_of_getLsbD_eq
  intro i hi
  rcases i with _ | i
  · simpa using hlow
  · have hbit := congrArg (BitVec.getLsbD · i) h
    simpa [Nat.add_comm] using hbit

theorem shift_injective {poly : BitVec w} (hpoly : poly.msb = true) :
    Function.Injective (shift poly) := by
  intro a b h
  have hzero : shift poly (a ^^^ b) = 0 := by
    rw [shift_xor, h, BitVec.xor_self]
    rfl
  exact BitVec.xor_eq_zero_iff.1 (eq_zero_of_shift hpoly hzero)

theorem iterate_shift_xor (poly : BitVec w) (n : ℕ) (a b : BitVec w) :
    (shift poly)^[n] (a ^^^ b) = (shift poly)^[n] a ^^^ (shift poly)^[n] b := by
  induction n generalizing a b with
  | zero => rfl
  | succ n ih => rw [Function.iterate_succ_apply, shift_xor, ih]; rfl

theorem iterate_shift_zero (poly : BitVec w) (n : ℕ) : (shift poly)^[n] 0 = 0 :=
  Function.iterate_fixed (shift_zero poly) n

/-- A register whose low bits are clear is only moved down. -/
theorem iterate_shift_shiftLeft (poly : BitVec w) {v : BitVec w} {n : ℕ}
    (h : v.toNat * 2 ^ n < 2 ^ w) : (shift poly)^[n] (v <<< n) = v := by
  induction n with
  | zero => simp
  | succ n ih =>
    have hfits : v.toNat * 2 ^ n < 2 ^ w := by
      refine Nat.lt_of_le_of_lt (Nat.mul_le_mul_left _ (Nat.pow_le_pow_right ?_ ?_)) h <;> omega
    have hdown : shift poly (v <<< (n + 1)) = v <<< n := by
      have hlow : (v <<< (n + 1)).getLsbD 0 = false := by simp
      rw [shift, if_neg (by rw [hlow]; decide)]
      apply BitVec.eq_of_toNat_eq
      simp only [BitVec.ofNat_eq_ofNat, BitVec.xor_zero, BitVec.toNat_ushiftRight,
        BitVec.toNat_shiftLeft, Nat.shiftLeft_eq, Nat.shiftRight_eq_div_pow, Nat.pow_one]
      rw [Nat.mod_eq_of_lt h, Nat.mod_eq_of_lt hfits, Nat.pow_succ, ← Nat.mul_assoc,
        Nat.mul_div_cancel _ Nat.two_pos]
    rw [Function.iterate_succ_apply, hdown, ih hfits]

/-! ## Words -/

theorem toNat_word_cons {byte : UInt8} {bytes : List UInt8} (hw : 8 ≤ w)
    (h : (word w bytes).toNat * 2 ^ 8 < 2 ^ w) :
    (word w (byte :: bytes)).toNat = byte.toNat ^^^ ((word w bytes).toNat * 2 ^ 8) := by
  have hbyte : byte.toNat < 2 ^ w :=
    Nat.lt_of_lt_of_le byte.toNat_lt (Nat.pow_le_pow_right Nat.two_pos hw)
  rw [word, BitVec.toNat_xor, BitVec.toNat_setWidth, BitVec.toNat_shiftLeft, Nat.shiftLeft_eq,
    Nat.mod_eq_of_lt h]
  exact congrArg (· ^^^ _) (Nat.mod_eq_of_lt hbyte)

theorem toNat_word_lt {bytes : List UInt8} (h : 8 * bytes.length ≤ w) :
    (word w bytes).toNat < 2 ^ (8 * bytes.length) := by
  induction bytes with
  | nil => simp [word]
  | cons byte bytes ih =>
    rw [List.length_cons] at h ⊢
    have hrest : (word w bytes).toNat * 2 ^ 8 < 2 ^ (8 * (bytes.length + 1)) := by
      rw [Nat.mul_add, Nat.pow_add]
      exact Nat.mul_lt_mul_of_pos_right (ih (by omega)) (by decide)
    have hbyte : byte.toNat < 2 ^ (8 * (bytes.length + 1)) :=
      Nat.lt_of_lt_of_le byte.toNat_lt (Nat.pow_le_pow_right Nat.two_pos (by omega))
    rw [toNat_word_cons (by omega)
      (Nat.lt_of_lt_of_le hrest (Nat.pow_le_pow_right Nat.two_pos h))]
    exact Nat.xor_lt_two_pow hbyte hrest

theorem word_fits {byte : UInt8} {bytes : List UInt8} (h : 8 * (byte :: bytes).length ≤ w) :
    (word w bytes).toNat * 2 ^ 8 < 2 ^ w := by
  rw [List.length_cons] at h
  refine Nat.lt_of_lt_of_le (Nat.mul_lt_mul_of_pos_right (toNat_word_lt (by omega)) (by decide)) ?_
  rw [← Nat.pow_add]
  exact Nat.pow_le_pow_right Nat.two_pos (by omega)

/-- The bytes in a register can be told from it. -/
theorem word_injective {x y : List UInt8} (hlen : x.length = y.length) (h : 8 * x.length ≤ w)
    (hword : word w x = word w y) : x = y := by
  induction x generalizing y with
  | nil => exact (List.length_eq_zero_iff.1 hlen.symm).symm
  | cons a x ih =>
    cases y with
    | nil => cases hlen
    | cons b y =>
      have hw : 8 ≤ w := by
        rw [List.length_cons] at h
        omega
      have heq : a.toNat ^^^ ((word w x).toNat * 2 ^ 8) =
          b.toNat ^^^ ((word w y).toNat * 2 ^ 8) := by
        rw [← toNat_word_cons hw (word_fits h), hword,
          toNat_word_cons hw (word_fits (hlen ▸ h))]
      have hlow := congrArg (· % 2 ^ 8) heq
      have hhigh := congrArg (· / 2 ^ 8) heq
      simp only [Nat.xor_mod_two_pow, Nat.mul_mod_left, Nat.xor_zero,
        Nat.mod_eq_of_lt a.toNat_lt, Nat.mod_eq_of_lt b.toNat_lt] at hlow
      simp only [Nat.xor_div_two_pow, Nat.div_eq_of_lt a.toNat_lt, Nat.div_eq_of_lt b.toNat_lt,
        Nat.mul_div_cancel _ (Nat.two_pow_pos 8), Nat.zero_xor] at hhigh
      rw [List.length_cons] at h
      rw [UInt8.toNat_inj.1 hlow, ih (Nat.succ.inj hlen) (by omega) (BitVec.eq_of_toNat_eq hhigh)]

/-! ## Messages -/

/-- **Bytes that fit in the register can be fed in at once.** -/
theorem foldl_absorb (poly s : BitVec w) {x : List UInt8} (h : 8 * x.length ≤ w) :
    x.foldl (absorb poly) s = (shift poly)^[8 * x.length] (s ^^^ word w x) := by
  induction x generalizing s with
  | nil =>
    change s = s ^^^ 0
    simp
  | cons byte x ih =>
    have hfits := word_fits h
    rw [List.length_cons] at h
    have hword : word w x = (shift poly)^[8] (word w x <<< 8) :=
      (iterate_shift_shiftLeft poly hfits).symm
    have hregister : absorb poly s byte ^^^ word w x =
        (shift poly)^[8] (s ^^^ word w (byte :: x)) := by
      conv_lhs => rw [hword, absorb, ← iterate_shift_xor, BitVec.xor_assoc]
      rfl
    rw [List.foldl_cons, ih _ (by omega), hregister, ← Function.iterate_add_apply,
      List.length_cons, Nat.mul_add]

section Top

variable {poly : BitVec w} (hpoly : poly.msb = true)
include hpoly

/-- A message keeps registers apart. -/
theorem foldl_absorb_injective (x : List UInt8) :
    Function.Injective fun s => x.foldl (absorb poly) s := by
  induction x with
  | nil => exact Function.injective_id
  | cons byte x ih =>
    intro a b h
    have hxor := ((shift_injective hpoly).iterate 8) (ih h)
    exact (BitVec.xor_left_inj _).1 hxor

/-- **Different bytes in a window** of no more bytes than the register holds leave different
registers. -/
theorem detects (s : BitVec w) {before x y after : List UInt8} (hlen : x.length = y.length)
    (h : 8 * x.length ≤ w) (heq : (before ++ x ++ after).foldl (absorb poly) s =
      (before ++ y ++ after).foldl (absorb poly) s) : x = y := by
  rw [List.foldl_append, List.foldl_append, List.foldl_append, List.foldl_append] at heq
  have hwindow : x.foldl (absorb poly) (before.foldl (absorb poly) s) =
      y.foldl (absorb poly) (before.foldl (absorb poly) s) :=
    foldl_absorb_injective hpoly after heq
  generalize before.foldl (absorb poly) s = r at hwindow
  rw [foldl_absorb poly _ h, foldl_absorb poly _ (hlen ▸ h), hlen] at hwindow
  have hwords := ((shift_injective hpoly).iterate _) hwindow
  exact word_injective hlen h ((BitVec.xor_right_inj _).1 hwords)

/-- **A message is accepted with its checksum only.** -/
theorem foldl_append_eq_zero_iff (s : BitVec w) (m : List UInt8) {c : List UInt8}
    (h : 8 * c.length ≤ w) :
    (m ++ c).foldl (absorb poly) s = 0 ↔ word w c = m.foldl (absorb poly) s := by
  rw [List.foldl_append, foldl_absorb poly _ h]
  constructor
  · intro hzero
    rw [← iterate_shift_zero poly (8 * c.length)] at hzero
    have hregister := ((shift_injective hpoly).iterate _) hzero
    exact (BitVec.xor_eq_zero_iff.1 hregister).symm
  · intro hword
    rw [hword, BitVec.xor_self]
    exact iterate_shift_zero poly _

end Top

/-! ## Windows -/

/-- The same bytes everywhere but in a window of `n` bytes from `p` on. -/
def AgreeOutside (p n : ℕ) (a b : List UInt8) : Prop := ∀ i, i < p ∨ p + n ≤ i → a[i]? = b[i]?

theorem AgreeOutside.split {p n : ℕ} {a b : List UInt8} (h : AgreeOutside p n a b)
    (hlen : a.length = b.length) :
    ∃ before x y after, a = before ++ x ++ after ∧ b = before ++ y ++ after ∧
      x.length = y.length ∧ x.length ≤ n := by
  have hbefore : a.take p = b.take p := by
    apply List.ext_getElem?
    intro i
    by_cases hi : i < p
    · rw [List.getElem?_take_of_lt hi, List.getElem?_take_of_lt hi, h i (.inl hi)]
    · rw [List.getElem?_take_eq_none (by omega), List.getElem?_take_eq_none (by omega)]
  have hafter : (a.drop p).drop n = (b.drop p).drop n := by
    apply List.ext_getElem?
    intro i
    rw [List.drop_drop, List.drop_drop, List.getElem?_drop, List.getElem?_drop]
    exact h _ (.inr (by omega))
  refine ⟨a.take p, (a.drop p).take n, (b.drop p).take n, (a.drop p).drop n, ?_, ?_, ?_,
    List.length_take_le ..⟩
  · rw [List.append_assoc, List.take_append_drop, List.take_append_drop]
  · rw [hbefore, hafter, List.append_assoc, List.take_append_drop, List.take_append_drop]
  · simp only [List.length_take, List.length_drop, hlen]

end Crc

namespace Crc32

/-- One bit of one byte. -/
def shiftBit (crc : UInt32) : UInt32 :=
  (crc >>> 1) ^^^ (if crc &&& 1 ≠ 0 then 0xEDB88320 else 0)

/-- One byte. -/
def absorb (crc : UInt32) (byte : UInt8) : UInt32 :=
  shiftBit^[8] (crc ^^^ byte.toUInt32)

/-- The checksum of a message. -/
def crc32 (bytes : List UInt8) : UInt32 := ~~~ bytes.foldl absorb 0xFFFFFFFF

/-! ## As a register of 32 bits -/

theorem and_one_ne_zero {c : UInt32} : c &&& 1 ≠ 0 ↔ c.toBitVec.getLsbD 0 = true := by
  rw [Ne, ← UInt32.toBitVec_inj, UInt32.toBitVec_and]
  change ¬(c.toBitVec &&& 1#32 = 0#32) ↔ _
  rw [BitVec.and_one_eq_setWidth_ofBool_getLsbD]
  cases c.toBitVec.getLsbD 0 <;> decide

theorem toBitVec_shiftBit (c : UInt32) :
    (shiftBit c).toBitVec = Crc.shift 0xEDB88320#32 c.toBitVec := by
  rw [shiftBit, Crc.shift]
  by_cases hlow : c &&& 1 ≠ 0
  · rw [if_pos hlow, if_pos (and_one_ne_zero.1 hlow)]
    rfl
  · rw [if_neg hlow, if_neg (mt and_one_ne_zero.2 hlow)]
    rfl

theorem toBitVec_absorb (c : UInt32) (byte : UInt8) :
    (absorb c byte).toBitVec = Crc.absorb 0xEDB88320#32 c.toBitVec byte := by
  have hiterate (n : ℕ) (d : UInt32) :
      (shiftBit^[n] d).toBitVec = (Crc.shift 0xEDB88320#32)^[n] d.toBitVec := by
    induction n generalizing d with
    | zero => rfl
    | succ n ih =>
      rw [Function.iterate_succ_apply, ih, toBitVec_shiftBit, Function.iterate_succ_apply]
  rw [absorb, hiterate, UInt32.toBitVec_xor]
  rfl

theorem toBitVec_foldl (bytes : List UInt8) (s : UInt32) :
    (bytes.foldl absorb s).toBitVec =
      bytes.foldl (Crc.absorb 0xEDB88320#32) s.toBitVec := by
  induction bytes generalizing s with
  | nil => rfl
  | cons byte bytes ih => rw [List.foldl_cons, ih, toBitVec_absorb, List.foldl_cons]

/-- **Messages that agree outside a window of four bytes** are told apart by their checksums. -/
theorem eq_of_crc32 {a b : List UInt8} (hlen : a.length = b.length) {p : ℕ}
    (h : Crc.AgreeOutside p 4 a b) (heq : crc32 a = crc32 b) : a = b := by
  obtain ⟨before, x, y, after, rfl, rfl, hxy, hfour⟩ := h.split hlen
  have hregister := congrArg (fun c : UInt32 => (~~~c).toBitVec) heq
  simp only [crc32, UInt32.not_not, toBitVec_foldl] at hregister
  rw [Crc.detects (by decide) _ hxy (by omega) hregister]

end Crc32
