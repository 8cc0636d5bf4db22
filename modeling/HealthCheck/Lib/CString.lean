import Mathlib.Algebra.Order.Ring.Nat
import Mathlib.Data.List.GetD
import Mathlib.Data.List.Infix
import Mathlib.Data.List.TakeWhile
import Mathlib.Tactic.Common

/-!
# C strings on byte lists

The string functions of the C library, read as functions on lists of bytes. A `char*` that
points into a buffer is the list of bytes from that position on; the text it denotes is
`cstr`, everything before the first NUL.

The facts the parsers built on these functions need are about growth: a buffer that is filled
piece by piece only ever extends its text (`cstr_mono`), and a pattern found once stays where
it was found (`strstr_of_isPrefix`).
-/

namespace CString

/-- Raw bytes: a message, a buffer, a text without its terminator. -/
abbrev Bytes := List UInt8

/-- The bytes of a string literal. -/
def ascii (s : String) : Bytes := s.toList.map fun c => UInt8.ofNat c.toNat

/-- The text a buffer denotes: the bytes before its first NUL. -/
def cstr (buffer : Bytes) : Bytes := buffer.takeWhile (· ≠ 0)

/-- `strstr`: the position of the first occurrence of `pattern` in `text`. -/
def strstr (pattern : Bytes) : Bytes → Option ℕ
  | [] => if pattern.isEmpty then some 0 else none
  | c :: text =>
    if pattern.isPrefixOf (c :: text) then some 0 else (strstr pattern text).map (· + 1)

/-- `isspace` in the C locale. -/
def isSpace (c : UInt8) : Bool := c = 0x20 || (0x09 ≤ c && c ≤ 0x0D)

/-- `isdigit`. -/
def isDigit (c : UInt8) : Bool := 0x30 ≤ c && c ≤ 0x39

/-- The value of a run of decimal digits, most significant first. -/
def decimal (digits : Bytes) : ℕ := digits.foldl (fun n c => n * 10 + (c.toNat - 0x30)) 0

/-- `%<width>s` of `sscanf`: skip white space, then take at most `width` other characters.
The conversion fails when nothing is left to take. -/
def scanWord (width : ℕ) (text : Bytes) : Option (Bytes × Bytes) :=
  let text := text.dropWhile isSpace
  let word := (text.takeWhile (!isSpace ·)).take width
  if word.isEmpty then none else some (word, text.drop word.length)

/-- `strtoul(text, NULL, 10)` where `unsigned long` has 32 bits: white space, an optional
sign, digits. A value out of range gives `ULONG_MAX`; a minus sign negates modulo `2 ^ 32`. -/
def strtoul (text : Bytes) : ℕ :=
  let text := text.dropWhile isSpace
  let negative := text.head? = some 0x2D
  let text := if text.head? = some 0x2D ∨ text.head? = some 0x2B then text.tail else text
  let value := decimal (text.takeWhile isDigit)
  if 2 ^ 32 ≤ value then 2 ^ 32 - 1
  else if negative then (2 ^ 32 - value) % 2 ^ 32
  else value

/-- `%<width>u` of `sscanf`: skip white space, then take an optional sign and digits, at most
`width` characters. A minus sign negates modulo `2 ^ 32`. -/
def scanUnsigned (width : ℕ) (text : Bytes) : Option (ℕ × Bytes) :=
  let text := text.dropWhile isSpace
  let field := text.take width
  let sign := if field.head? = some 0x2D ∨ field.head? = some 0x2B then 1 else 0
  let digits := (field.drop sign).takeWhile isDigit
  if digits.isEmpty then none
  else some (strtoul (field.take (sign + digits.length)), text.drop (sign + digits.length))

/-- `strtol(text, &end, 10)` where `long` has 32 bits: the number and the text from `end` on, or
nothing when `end` is `text`. A value out of range gives `LONG_MAX` or `LONG_MIN`. -/
def strtol (text : Bytes) : Option (ℤ × Bytes) :=
  let text := text.dropWhile isSpace
  let negative := text.head? = some 0x2D
  let text := if text.head? = some 0x2D ∨ text.head? = some 0x2B then text.tail else text
  let digits := text.takeWhile isDigit
  if digits.isEmpty then none
  else
    let value : ℤ := if negative then -decimal digits else decimal digits
    some (max (-2 ^ 31) (min value (2 ^ 31 - 1)), text.drop digits.length)

/-- `%lu` and `%u` of `snprintf`. -/
def decimalText (n : ℕ) : Bytes := ascii (toString n)

/-- `strncpy(array, text, n - 1)` into a zeroed array of `n` characters. -/
def charArray (n : ℕ) (text : Bytes) : Vector UInt8 n :=
  .ofFn fun i => (text.take (n - 1)).getD i 0

/-- `memcpy(array, data, length)` into a zeroed array of `n` bytes. -/
def byteArray (n : ℕ) (data : Bytes) : Vector UInt8 n := .ofFn fun i => data.getD i 0

/-- The length of a literal, without decoding it. -/
theorem length_ascii_ofList (l : List Char) : (ascii (String.ofList l)).length = l.length := by
  simp [ascii]

/-! ## Texts in arrays -/

@[simp] theorem cstr_nil : cstr [] = [] := rfl

theorem zero_notMem_cstr (b : Bytes) : 0 ∉ cstr b := fun h => by
  simpa using List.mem_takeWhile_imp h

/-- A text without a NUL is itself. -/
theorem cstr_of_notMem {text : Bytes} (h : 0 ∉ text) : cstr text = text := by
  refine List.takeWhile_eq_self_iff.2 fun c hc => ?_
  simpa using fun h0 : c = 0 => h (h0 ▸ hc)

@[simp] theorem cstr_cstr (b : Bytes) : cstr (cstr b) = cstr b :=
  cstr_of_notMem (zero_notMem_cstr b)

/-- What comes behind a NUL is not part of the text. -/
theorem cstr_append_zero {text : Bytes} (h : 0 ∉ text) (rest : Bytes) :
    cstr (text ++ 0 :: rest) = text := by
  induction text with
  | nil => simp [cstr]
  | cons c text ih =>
    simp only [List.mem_cons, not_or] at h
    rw [List.cons_append, cstr, List.takeWhile_cons_of_pos (by simpa using Ne.symm h.1)]
    exact congrArg (c :: ·) (ih h.2)

theorem toList_charArray (n : ℕ) (text : Bytes) : (charArray n text).toList =
    (List.range n).map fun i => (text.take (n - 1)).getD i 0 := by
  refine List.ext_getElem (by simp) fun i h h' => ?_
  simp [charArray]

/-- A short text comes back from its array. -/
theorem cstr_charArray {n : ℕ} {text : Bytes} (hlen : text.length < n) (h : 0 ∉ text) :
    cstr (charArray n text).toList = text := by
  have hsplit : (charArray n text).toList = text ++ 0 :: List.replicate (n - text.length - 1) 0 := by
    rw [toList_charArray, List.take_of_length_le (by omega)]
    refine List.ext_getElem (by simp; omega) fun i hi hi' => ?_
    simp only [List.getElem_map, List.getElem_range]
    by_cases hlt : i < text.length
    · rw [List.getElem_append_left hlt, List.getD_eq_getElem _ _ hlt]
    · rw [List.getElem_append_right (by omega), List.getD_eq_default _ _ (by omega)]
      rcases Nat.eq_zero_or_pos (i - text.length) with h0 | h0
      · simp [h0]
      · simp [List.getElem_cons, h0.ne']
  rw [hsplit, cstr_append_zero h]

/-- An array with a NUL in it denotes a text shorter than the array. -/
theorem length_cstr_lt {n : ℕ} {array : Vector UInt8 n} (h : 0 ∈ array.toList) :
    (cstr array.toList).length < n := by
  have hpre : cstr array.toList <+: array.toList := List.takeWhile_prefix _
  rcases hpre.length_le.lt_or_eq with hlt | heq
  · simpa only [Vector.length_toList] using hlt
  · have hself := hpre.eq_of_length heq
    exact absurd (hself.symm ▸ h) (zero_notMem_cstr array.toList)

theorem zero_mem_charArray {n : ℕ} (hn : 0 < n) (text : Bytes) :
    0 ∈ (charArray n text).toList := by
  rw [toList_charArray]
  refine List.mem_map.2 ⟨n - 1, List.mem_range.2 (by omega), ?_⟩
  exact List.getD_eq_default _ _ (by rw [List.length_take]; omega)

theorem toList_byteArray {n : ℕ} {data : Bytes} (h : data.length ≤ n) :
    (byteArray n data).toList = data ++ List.replicate (n - data.length) 0 := by
  refine List.ext_getElem (by simp; omega) fun i hi hi' => ?_
  simp only [byteArray, Vector.getElem_toList, Vector.getElem_ofFn]
  by_cases hlt : i < data.length
  · rw [List.getElem_append_left hlt, List.getD_eq_getElem _ _ hlt]
  · rw [List.getElem_append_right (by omega), List.getD_eq_default _ _ (by omega),
      List.getElem_replicate]

/-- The text ends at the first NUL, in it or behind it. -/
theorem cstr_append_cons_zero (text rest : Bytes) : cstr (text ++ 0 :: rest) = cstr text := by
  induction text with
  | nil => simp [cstr]
  | cons c text ih =>
    by_cases hc : c = 0
    · simp [cstr, hc]
    · simpa [cstr, hc] using ih

/-- A terminated text comes back from its array. -/
theorem cstr_byteArray {n : ℕ} {text : Bytes} (h : text.length < n) :
    cstr (byteArray n (text ++ [0])).toList = cstr text := by
  have hlen : (text ++ [0]).length ≤ n := List.length_append.trans_le h
  rw [toList_byteArray hlen, List.append_assoc, List.singleton_append, cstr_append_cons_zero]

theorem zero_mem_byteArray {n : ℕ} {text : Bytes} (h : text.length < n) :
    0 ∈ (byteArray n (text ++ [0])).toList := by
  have hlen : (text ++ [0]).length ≤ n := List.length_append.trans_le h
  rw [toList_byteArray hlen]
  simp

/-! ## Texts in a growing buffer -/

theorem cstr_isPrefix (b : Bytes) : cstr b <+: b := List.takeWhile_prefix _

/-- The text of a buffer only grows when bytes are appended. -/
theorem cstr_mono {a b : Bytes} (h : a <+: b) : cstr a <+: cstr b := by
  obtain ⟨t, rfl⟩ := h
  induction a with
  | nil => exact List.nil_prefix
  | cons c a ih =>
    by_cases hc : c = 0
    · simp [cstr, hc]
    · simpa [cstr, hc] using ih

/-! ## `strstr` -/

theorem strstr_add_length_le {pattern text : Bytes} {i : ℕ} (h : strstr pattern text = some i) :
    i + pattern.length ≤ text.length := by
  induction text generalizing i with
  | nil =>
    simp only [strstr, List.isEmpty_iff] at h
    split_ifs at h with hp
    cases h
    simp [hp]
  | cons c text ih =>
    simp only [strstr] at h
    split_ifs at h with hp
    · cases h
      simpa using (List.isPrefixOf_iff_prefix.1 hp).length_le
    · obtain ⟨j, hj, rfl⟩ := Option.map_eq_some_iff.1 h
      have := ih hj
      simp only [List.length_cons]
      omega

/-- What is found stays found, at the same place, when the text grows. -/
theorem strstr_of_isPrefix {pattern a b : Bytes} {i : ℕ} (h : strstr pattern a = some i)
    (hab : a <+: b) : strstr pattern b = some i := by
  obtain ⟨t, rfl⟩ := hab
  induction a generalizing i with
  | nil =>
    simp only [strstr, List.isEmpty_iff] at h
    split_ifs at h with hp
    cases h
    cases t <;> simp [strstr, hp]
  | cons c a ih =>
    simp only [strstr] at h
    split_ifs at h with hp
    · cases h
      have hp' : pattern <+: c :: (a ++ t) :=
        (List.isPrefixOf_iff_prefix.1 hp).trans ⟨t, by simp⟩
      rw [List.cons_append, strstr, if_pos (List.isPrefixOf_iff_prefix.2 hp')]
    · obtain ⟨j, hj, rfl⟩ := Option.map_eq_some_iff.1 h
      have hlen := strstr_add_length_le hj
      have hp' : ¬ pattern.isPrefixOf (c :: (a ++ t)) := by
        rw [List.isPrefixOf_iff_prefix] at hp ⊢
        intro hpre
        refine hp (List.prefix_of_prefix_length_le hpre ⟨t, by simp⟩ ?_)
        simp only [List.length_cons]
        omega
      rw [List.cons_append, strstr, if_neg hp', ih hj]
      rfl

/-- A pattern is found exactly when it occurs. -/
theorem strstr_eq_none_iff {pattern text : Bytes} :
    strstr pattern text = none ↔ ¬ pattern <:+: text := by
  induction text with
  | nil => simp [strstr]
  | cons c text ih =>
    rw [strstr, List.infix_cons_iff, ← List.isPrefixOf_iff_prefix]
    by_cases hp : pattern.isPrefixOf (c :: text)
    · simp [hp]
    · simp [hp, ih]

end CString
