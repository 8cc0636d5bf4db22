import Mathlib.Algebra.Order.Ring.Nat
import Mathlib.Data.List.Basic
import Mathlib.Tactic.Common

/-!
# Memory layouts

How a value lies in memory on a little-endian machine. A `Layout α` has a fixed size, an
encoder and a total decoder: reading back what was stored gives the value, and any other bytes
give some value too, as a C structure read from storage does.

Layouts are put together the way a structure is declared: words, arrays (`array`), fields in
sequence (`pair`), and a structure with named fields over the tuple of them (`as`). Padding is
a field like any other.
-/

namespace Memory

/-- A fixed-size representation of `α`. -/
structure Layout (α : Type) where
  size : ℕ
  encode : α → List UInt8
  decode : List UInt8 → α
  length_encode : ∀ a, (encode a).length = size
  decode_encode : ∀ a, decode (encode a) = a

/-! ## Words -/

/-- The `n` low bytes of a number, least significant first. -/
def littleEndian : ℕ → ℕ → List UInt8
  | 0, _ => []
  | n + 1, x => UInt8.ofNat x :: littleEndian n (x / 256)

/-- The number a little-endian word denotes. -/
def wordValue : List UInt8 → ℕ
  | [] => 0
  | b :: bytes => b.toNat + 256 * wordValue bytes

@[simp] theorem length_littleEndian (n x : ℕ) : (littleEndian n x).length = n := by
  induction n generalizing x with
  | zero => rfl
  | succ n ih => simp [littleEndian, ih]

theorem wordValue_littleEndian (n : ℕ) {x : ℕ} (h : x < 256 ^ n) :
    wordValue (littleEndian n x) = x := by
  induction n generalizing x with
  | zero =>
    simp only [littleEndian, wordValue]
    omega
  | succ n ih =>
    have hdiv : x / 256 < 256 ^ n :=
      Nat.div_lt_of_lt_mul (by rwa [Nat.pow_succ, Nat.mul_comm] at h)
    simp only [littleEndian, wordValue, ih hdiv, UInt8.toNat_ofNat']
    omega

theorem wordValue_lt (bytes : List UInt8) : wordValue bytes < 256 ^ bytes.length := by
  induction bytes with
  | nil => decide
  | cons b bytes ih =>
    have := b.toNat_lt
    simp only [wordValue, List.length_cons, Nat.pow_succ]
    omega

/-- The largest word has all bits set. -/
theorem eq_of_wordValue_max {bytes : List UInt8}
    (h : wordValue bytes + 1 = 256 ^ bytes.length) : ∀ b ∈ bytes, b = 0xFF := by
  induction bytes with
  | nil => intro b hb; cases hb
  | cons b bytes ih =>
    have hb := b.toNat_lt
    have hrest := wordValue_lt bytes
    simp only [wordValue, List.length_cons, Nat.pow_succ] at h
    intro c hc
    rcases List.mem_cons.1 hc with rfl | hc
    · exact UInt8.toNat_inj.1 (by show c.toNat = 255; omega)
    · exact ih (by omega) c hc

/-- `uint8_t`. -/
def u8 : Layout UInt8 where
  size := 1
  encode b := [b]
  decode bytes := bytes.headD 0
  length_encode _ := rfl
  decode_encode _ := rfl

/-- `uint16_t`. -/
def u16 : Layout UInt16 where
  size := 2
  encode x := littleEndian 2 x.toNat
  decode bytes := UInt16.ofNat (wordValue bytes)
  length_encode _ := length_littleEndian ..
  decode_encode x := by rw [wordValue_littleEndian 2 x.toNat_lt, UInt16.ofNat_toNat]

/-- `uint32_t`. -/
def u32 : Layout UInt32 where
  size := 4
  encode x := littleEndian 4 x.toNat
  decode bytes := UInt32.ofNat (wordValue bytes)
  length_encode _ := length_littleEndian ..
  decode_encode x := by rw [wordValue_littleEndian 4 x.toNat_lt, UInt32.ofNat_toNat]

/-! ## Composition -/

/-- Two fields in sequence. -/
def pair {α β : Type} (A : Layout α) (B : Layout β) : Layout (α × β) where
  size := A.size + B.size
  encode p := A.encode p.1 ++ B.encode p.2
  decode bytes := (A.decode (bytes.take A.size), B.decode (bytes.drop A.size))
  length_encode p := by simp [A.length_encode, B.length_encode]
  decode_encode p := by
    have hlen := A.length_encode p.1
    rw [List.take_left' hlen, List.drop_left' hlen, A.decode_encode, B.decode_encode]

/-- A structure, given the tuple of its fields. -/
def Layout.as {α β : Type} (A : Layout α) (fields : β → α) (make : α → β)
    (h : ∀ b, make (fields b) = b) : Layout β where
  size := A.size
  encode b := A.encode (fields b)
  decode bytes := make (A.decode bytes)
  length_encode b := A.length_encode _
  decode_encode b := by rw [A.decode_encode, h]

/-- The elements of an array of `n` elements. -/
def elements {α : Type} (A : Layout α) : ℕ → List UInt8 → List α
  | 0, _ => []
  | n + 1, bytes => A.decode (bytes.take A.size) :: elements A n (bytes.drop A.size)

@[simp] theorem length_elements {α : Type} (A : Layout α) (n : ℕ) (bytes : List UInt8) :
    (elements A n bytes).length = n := by
  induction n generalizing bytes with
  | zero => rfl
  | succ n ih => simp [elements, ih]

theorem elements_flatMap {α : Type} (A : Layout α) {n : ℕ} {as : List α}
    (h : as.length = n) : elements A n (as.flatMap A.encode) = as := by
  subst h
  induction as with
  | nil => rfl
  | cons a as ih =>
    have hlen := A.length_encode a
    rw [List.flatMap_cons, List.length_cons, elements, List.take_left' hlen,
      List.drop_left' hlen, A.decode_encode, ih]

/-- An array of `n` elements. -/
def array {α : Type} (A : Layout α) (n : ℕ) : Layout (Vector α n) where
  size := n * A.size
  encode v := v.toList.flatMap A.encode
  decode bytes := ⟨(elements A n bytes).toArray, by simp⟩
  length_encode v := by
    simp [List.length_flatMap, A.length_encode]
  decode_encode v := by
    apply Vector.toList_inj.1
    exact elements_flatMap A Vector.length_toList

end Memory
