import HealthCheck.Lib.CString

/-!
# Terminated texts under a cursor

A text in memory ends at its NUL, and a program on it has a cursor and looks at one character at a
time. `Text.peek` gives a character up to and with the terminator; behind it there is nothing to
read, and a function of this file that tries is `none`. The string functions of the C library
are here a second time as such programs.

* `Text.At` — the cursor stands before a rest of the text.
* `skip_at`, `strchr_at`, `strstr_at`, `startsWith_at`, `digits_at`, `copy_at` — from there no
  function reads behind the terminator, and each finds what its counterpart on lists finds.
-/

namespace CString

/-- A text in memory, up to the NUL that ends it. -/
structure Text where
  bytes : Bytes
  noNul : 0 ∉ bytes

namespace Text

variable (t : Text)

/-- The character under a cursor. -/
def peek (cursor : ℕ) : Option UInt8 := (t.bytes ++ [0])[cursor]?

theorem lt_of_peek {t : Text} {cursor : ℕ} {c : UInt8} (h : t.peek cursor = some c) :
    cursor < t.bytes.length + 1 := by
  simpa using (List.getElem?_eq_some_iff.1 h).1

/-- `while (p(*cursor)) ++cursor;` -/
def skip (p : UInt8 → Bool) (cursor : ℕ) : Option ℕ :=
  match h : t.peek cursor with
  | none => none
  | some c => if p c then skip p (cursor + 1) else some cursor
termination_by t.bytes.length + 1 - cursor
decreasing_by
  have := lt_of_peek h
  omega

/-- `strchr`. The inner `none` is `NULL`. -/
def strchr (c : UInt8) (cursor : ℕ) : Option (Option ℕ) :=
  match h : t.peek cursor with
  | none => none
  | some d =>
    if d = c then some (some cursor)
    else if d = 0 then some none
    else strchr c (cursor + 1)
termination_by t.bytes.length + 1 - cursor
decreasing_by
  have := lt_of_peek h
  omega

/-- `strncmp(cursor, pattern, strlen(pattern)) == 0`, up to the first difference. -/
def startsWith : Bytes → ℕ → Option Bool
  | [], _ => some true
  | c :: pattern, cursor =>
    match t.peek cursor with
    | none => none
    | some d => if d = c then startsWith pattern (cursor + 1) else some false

/-- `strstr`. The inner `none` is `NULL`. -/
def strstr (pattern : Bytes) (cursor : ℕ) : Option (Option ℕ) :=
  match t.startsWith pattern cursor with
  | none => none
  | some true => some (some cursor)
  | some false =>
    match h : t.peek cursor with
    | none => none
    | some d => if d = 0 then some none else strstr pattern (cursor + 1)
termination_by t.bytes.length + 1 - cursor
decreasing_by
  have := lt_of_peek h
  omega

/-- The loop of `strtoul` over the digits: their value behind `value`, and the cursor. -/
def digits (value cursor : ℕ) : Option (ℕ × ℕ) :=
  match h : t.peek cursor with
  | none => none
  | some c =>
    if isDigit c then digits (value * 10 + (c.toNat - 0x30)) (cursor + 1)
    else some (value, cursor)
termination_by t.bytes.length + 1 - cursor
decreasing_by
  have := lt_of_peek h
  omega

/-- `strtoul(cursor, &end, 10)` where `unsigned long` has 32 bits: the value, `end`, and whether
`errno` is set to `ERANGE`. -/
def strtoul (cursor : ℕ) : Option (ℕ × ℕ × Bool) := do
  let start ← t.skip isSpace cursor
  let sign ← t.peek start
  let first := if sign = 0x2D ∨ sign = 0x2B then start + 1 else start
  let (value, last) ← t.digits 0 first
  if last = first then return (0, cursor, false)
  if 2 ^ 32 ≤ value then return (2 ^ 32 - 1, last, true)
  return (if sign = 0x2D then (2 ^ 32 - value) % 2 ^ 32 else value, last, false)

/-- The bytes `memcpy` reads. -/
def copy : ℕ → ℕ → Option Bytes
  | 0, _ => some []
  | n + 1, cursor => do
    let c ← t.peek cursor
    let rest ← copy n (cursor + 1)
    return c :: rest

/-! ## Cursors -/

/-- The cursor stands before a rest of the text. -/
def At (cursor : ℕ) (rest : Bytes) : Prop :=
  ∃ before, t.bytes = before ++ rest ∧ before.length = cursor

variable {t} {cursor : ℕ} {c : UInt8} {rest : Bytes}

theorem at_start : t.At 0 t.bytes := ⟨[], rfl, rfl⟩

theorem At.length (h : t.At cursor rest) : cursor + rest.length = t.bytes.length := by
  obtain ⟨before, hbytes, rfl⟩ := h
  rw [hbytes, List.length_append]

theorem At.drop (h : t.At cursor rest) : t.bytes.drop cursor = rest := by
  obtain ⟨before, hbytes, rfl⟩ := h
  rw [hbytes, List.drop_left]

/-- Behind the text stands its terminator. -/
theorem At.peek_nil (h : t.At cursor []) : t.peek cursor = some 0 := by
  have hlen := h.length
  rw [List.length_nil, Nat.add_zero] at hlen
  rw [peek, hlen, List.getElem?_concat_length]

theorem At.peek_cons (h : t.At cursor (c :: rest)) : t.peek cursor = some c := by
  obtain ⟨before, hbytes, rfl⟩ := h
  rw [peek, hbytes, List.append_assoc, List.getElem?_append_right (Nat.le_refl _), Nat.sub_self]
  rfl

theorem At.ne_zero (h : t.At cursor (c :: rest)) : c ≠ 0 := by
  obtain ⟨before, hbytes, -⟩ := h
  rintro rfl
  exact t.noNul (hbytes ▸ List.mem_append_right _ List.mem_cons_self)

theorem At.next (h : t.At cursor (c :: rest)) : t.At (cursor + 1) rest := by
  obtain ⟨before, hbytes, rfl⟩ := h
  exact ⟨before ++ [c], by rw [hbytes, List.append_assoc]; rfl, by simp⟩

theorem At.advance {text : Bytes} (h : t.At cursor (text ++ rest)) :
    t.At (cursor + text.length) rest := by
  obtain ⟨before, hbytes, rfl⟩ := h
  exact ⟨before ++ text, by rw [hbytes, List.append_assoc], List.length_append⟩

/-! ## What the functions find -/

/-- A loop that is not behind the terminator looks at a character. -/
theorem match_peek {α : Type} {next : UInt8 → Option α} (h : t.peek cursor = some c) :
    (match _h : t.peek cursor with
      | none => none
      | some c => next c) = next c := by
  split
  · rename_i hpeek
    rw [h] at hpeek
    cases hpeek
  · rename_i hpeek
    rw [Option.some.inj (h.symm.trans hpeek)]

theorem skip_of_peek {p : UInt8 → Bool} (h : t.peek cursor = some c) :
    t.skip p cursor = if p c then t.skip p (cursor + 1) else some cursor := by
  rw [skip]
  exact match_peek h

theorem skip_at {p : UInt8 → Bool} (hp : p 0 = false) (h : t.At cursor rest) :
    ∃ cursor', t.skip p cursor = some cursor' ∧ t.At cursor' (rest.dropWhile p) := by
  induction rest generalizing cursor with
  | nil =>
    refine ⟨cursor, ?_, h⟩
    rw [skip_of_peek h.peek_nil, hp]
    rfl
  | cons c rest ih =>
    rw [skip_of_peek h.peek_cons]
    by_cases hc : p c = true
    · rw [if_pos hc, List.dropWhile_cons_of_pos hc]
      exact ih h.next
    · rw [if_neg hc, List.dropWhile_cons_of_neg hc]
      exact ⟨cursor, rfl, h⟩

theorem strchr_of_peek {d : UInt8} (h : t.peek cursor = some d) : t.strchr c cursor =
    if d = c then some (some cursor) else if d = 0 then some none else t.strchr c (cursor + 1) := by
  rw [strchr]
  exact match_peek h

theorem strchr_at (hc : c ≠ 0) (h : t.At cursor rest) :
    (rest.dropWhile (· ≠ c) = [] ∧ t.strchr c cursor = some none) ∨
      ∃ cursor' behind, rest.dropWhile (· ≠ c) = c :: behind ∧
        t.strchr c cursor = some (some cursor') ∧ t.At cursor' (c :: behind) := by
  induction rest generalizing cursor with
  | nil =>
    refine .inl ⟨rfl, ?_⟩
    rw [strchr_of_peek h.peek_nil, if_neg hc.symm, if_pos rfl]
  | cons d rest ih =>
    rw [strchr_of_peek h.peek_cons]
    by_cases hd : d = c
    · subst hd
      rw [if_pos rfl, List.dropWhile_cons_of_neg (by simp)]
      exact .inr ⟨cursor, rest, rfl, rfl, h⟩
    · rw [if_neg hd, if_neg h.ne_zero, List.dropWhile_cons_of_pos (by simpa using hd)]
      exact ih h.next

theorem startsWith_at {pattern : Bytes} (hpattern : 0 ∉ pattern) (h : t.At cursor rest) :
    t.startsWith pattern cursor = some (pattern.isPrefixOf rest) := by
  induction pattern generalizing cursor rest with
  | nil => rfl
  | cons c pattern ih =>
    rw [List.mem_cons, not_or] at hpattern
    rw [startsWith]
    cases rest with
    | nil =>
      rw [h.peek_nil]
      exact if_neg hpattern.1
    | cons d rest =>
      rw [h.peek_cons]
      dsimp only
      by_cases hd : d = c
      · subst hd
        rw [if_pos rfl, ih hpattern.2 h.next]
        simp
      · rw [if_neg hd]
        have hne : (c == d) = false := beq_eq_false_iff_ne.2 (Ne.symm hd)
        rw [List.isPrefixOf, hne, Bool.false_and]

theorem strstr_of_peek {pattern : Bytes} (hstarts : t.startsWith pattern cursor = some false)
    (h : t.peek cursor = some c) : t.strstr pattern cursor =
      if c = 0 then some none else t.strstr pattern (cursor + 1) := by
  rw [strstr, hstarts]
  dsimp only
  exact match_peek h

theorem strstr_at {pattern : Bytes} (hpattern : 0 ∉ pattern) (h : t.At cursor rest) :
    t.strstr pattern cursor = some ((CString.strstr pattern rest).map (cursor + ·)) := by
  have hstarts {cursor : ℕ} {rest : Bytes} (h : t.At cursor rest) :=
    startsWith_at hpattern h
  induction rest generalizing cursor with
  | nil =>
    cases pattern with
    | nil => rw [strstr, startsWith]; rfl
    | cons c pattern => rw [strstr_of_peek (hstarts h) h.peek_nil, if_pos rfl]; rfl
  | cons c rest ih =>
    rw [CString.strstr]
    cases hp : pattern.isPrefixOf (c :: rest) with
    | true =>
      rw [strstr, hstarts h, hp]
      rfl
    | false =>
      rw [strstr_of_peek (hp ▸ hstarts h) h.peek_cons, if_neg h.ne_zero, ih h.next]
      simp [Option.map_map, Function.comp_def, Nat.add_assoc, Nat.add_comm 1]

theorem digits_of_peek {value : ℕ} (h : t.peek cursor = some c) : t.digits value cursor =
    if isDigit c then t.digits (value * 10 + (c.toNat - 0x30)) (cursor + 1)
    else some (value, cursor) := by
  rw [digits]
  exact match_peek h

theorem digits_at (value : ℕ) (h : t.At cursor rest) :
    t.digits value cursor = some ((rest.takeWhile isDigit).foldl
      (fun n c => n * 10 + (c.toNat - 0x30)) value, cursor + (rest.takeWhile isDigit).length) := by
  induction rest generalizing value cursor with
  | nil => rw [digits_of_peek h.peek_nil]; rfl
  | cons c rest ih =>
    rw [digits_of_peek h.peek_cons]
    by_cases hc : isDigit c = true
    · rw [if_pos hc, ih _ h.next, List.takeWhile_cons_of_pos hc, List.foldl_cons,
        List.length_cons, Nat.add_assoc, Nat.add_comm 1]
    · rw [if_neg hc, List.takeWhile_cons_of_neg hc]
      rfl

/-- A number that starts with a digit. -/
theorem strtoul_at (h : t.At cursor (c :: rest)) (hc : isDigit c = true) : t.strtoul cursor =
    some (if 2 ^ 32 ≤ decimal ((c :: rest).takeWhile isDigit) then 2 ^ 32 - 1
      else decimal ((c :: rest).takeWhile isDigit),
      cursor + ((c :: rest).takeWhile isDigit).length,
      decide (2 ^ 32 ≤ decimal ((c :: rest).takeWhile isDigit))) := by
  have hrange : 0x30 ≤ c ∧ c ≤ 0x39 := by
    simpa [isDigit, Bool.and_eq_true, decide_eq_true_eq] using hc
  have hspace : isSpace c = false := by
    simp only [isSpace, Bool.or_eq_false_iff, Bool.and_eq_false_iff, decide_eq_false_iff_not,
      UInt8.not_le, ← UInt8.toNat_inj, UInt8.lt_iff_toNat_lt]
    have hlow : 0x30 ≤ c.toNat := hrange.1
    exact ⟨by simp; omega, .inr (by simp; omega)⟩
  have hsign : ¬(c = 0x2D ∨ c = 0x2B) := by
    rintro (rfl | rfl)
    · exact absurd hrange.1 (by decide)
    · exact absurd hrange.1 (by decide)
  have hstart : t.skip isSpace cursor = some cursor := by
    rw [skip_of_peek h.peek_cons, hspace]
    rfl
  have hmore : cursor + ((c :: rest).takeWhile isDigit).length ≠ cursor := by
    rw [List.takeWhile_cons_of_pos hc, List.length_cons]
    omega
  have hvalue : ((c :: rest).takeWhile isDigit).foldl (fun n c => n * 10 + (c.toNat - 0x30)) 0 =
      decimal ((c :: rest).takeWhile isDigit) := rfl
  rw [strtoul, hstart, Option.bind_eq_bind, Option.bind_some, h.peek_cons, Option.bind_eq_bind,
    Option.bind_some, if_neg hsign]
  dsimp only
  rw [digits_at 0 h, Option.bind_eq_bind, Option.bind_some, hvalue]
  dsimp only
  rw [if_neg hmore]
  by_cases hbig : 2 ^ 32 ≤ decimal ((c :: rest).takeWhile isDigit)
  · rw [if_pos hbig, if_pos hbig, decide_eq_true hbig]
    rfl
  · rw [if_neg hbig, if_neg hbig, decide_eq_false hbig, if_neg fun h => hsign (.inl h)]
    rfl

theorem copy_at {text : Bytes} (h : t.At cursor (text ++ rest)) :
    t.copy text.length cursor = some text := by
  induction text generalizing cursor with
  | nil => rfl
  | cons c text ih =>
    rw [List.length_cons, copy, h.peek_cons, Option.bind_eq_bind, Option.bind_some, ih h.next]
    rfl

end Text

/-! ## Arrays -/

/-- Bytes written to the start of an array, if they fit. -/
def store {n : ℕ} (array : Vector UInt8 n) (bytes : Bytes) : Option (Vector UInt8 n) :=
  if bytes.length ≤ n then some (.ofFn fun i => bytes[i]?.getD (array.get i)) else none

theorem store_eq {n : ℕ} (array : Vector UInt8 n) {bytes : Bytes} (h : bytes.length ≤ n) :
    ∃ array', store array bytes = some array' ∧
      array'.toList = bytes ++ array.toList.drop bytes.length := by
  refine ⟨_, if_pos h, List.ext_getElem (by simp; omega) fun i hi hi' => ?_⟩
  simp only [Vector.getElem_toList, Vector.getElem_ofFn, Fin.getElem?_fin, Vector.get, Fin.val_cast,
    Vector.getElem_toArray]
  by_cases hlt : i < bytes.length
  · rw [List.getElem_append_left hlt, List.getElem?_eq_getElem hlt]
    rfl
  · rw [List.getElem_append_right (by omega), List.getElem?_eq_none (by omega)]
    simp only [Vector.getElem_toList, Option.getD_none, List.getElem_drop,
      Nat.add_sub_cancel' (Nat.not_lt.1 hlt)]

end CString
