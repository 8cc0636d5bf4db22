import HealthCheck.Api.JsonObject
import HealthCheck.Lib.Terminated

/-!
# The extractors on the buffer

`apiService_JsonString`, `apiService_JsonBoolean` and `apiService_JsonNumber` with their cursors:
every character they look at is read from the body, and one behind its terminator cannot be. What
they do with the rest of the text is what the extractors on lists do.

* `jsonString_eq`, `jsonBoolean_eq`, `jsonNumber_eq` — they read nothing behind the terminator, and
  agree with the extractors on lists.
* `extractors_safe` — on any body, and for any key and capacity.
-/

namespace HealthCheck.ApiService

open CString

namespace Cursor

/-! ## The extractors -/

/-- The loop of `apiService_JsonString` over the value: its length and the cursor behind it, or
`return 0U`. -/
def stringLoop (json : Text) (capacity length cursor : ℕ) : Option (Option (ℕ × ℕ)) :=
  match h : json.peek cursor with
  | none => none
  | some c =>
    if c = 0 ∨ c = 0x22 then some (some (length, cursor))
    else if c = 0x5C ∨ c < 0x20 ∨ length ≥ capacity - 1 then some none
    else stringLoop json capacity (length + 1) (cursor + 1)
termination_by json.bytes.length + 1 - cursor
decreasing_by
  have := Text.lt_of_peek h
  omega

/-- `apiService_JsonString` into an array of `capacity` characters: what it returns, and the array
then. -/
def jsonString (json key : Text) {capacity : ℕ} (output : Vector UInt8 capacity) :
    Option (Bool × Vector UInt8 capacity) := do
  if capacity = 0 then return (false, output)
  let some found ← json.strstr (pattern key.bytes) 0 | return (false, output)
  let cursor ← json.skip isBlank (found + (pattern key.bytes).length)
  if (← json.peek cursor) ≠ 0x3A then return (false, output)
  let cursor ← json.skip isBlank (cursor + 1)
  if (← json.peek cursor) ≠ 0x22 then return (false, output)
  let value := cursor + 1
  let some (length, cursor) ← stringLoop json capacity 0 value | return (false, output)
  if (← json.peek cursor) ≠ 0x22 then return (false, output)
  let cursor ← json.skip isWhite (cursor + 1)
  let c ← json.peek cursor
  if c ≠ 0x2C ∧ c ≠ 0x7D then return (false, output)
  let text ← json.copy length value
  let output ← store output (text ++ [0])
  return (true, output)

/-- The branches of `apiService_JsonBoolean` over the value. -/
def booleanToken (json : Text) (cursor : ℕ) : Option (Option (UInt8 × ℕ)) := do
  if ← json.startsWith (ascii "true") cursor then return some (1, cursor + 4)
  if ← json.startsWith (ascii "false") cursor then return some (0, cursor + 5)
  return none

/-- `apiService_JsonBoolean`. -/
def jsonBoolean (json key : Text) (value : UInt8) : Option (Bool × UInt8) := do
  let some found ← json.strstr (pattern key.bytes) 0 | return (false, value)
  let some colon ← json.strchr 0x3A (found + (pattern key.bytes).length) | return (false, value)
  let cursor ← json.skip isBlank (colon + 1)
  let some (parsed, cursor) ← booleanToken json cursor | return (false, value)
  let cursor ← json.skip isWhite cursor
  let c ← json.peek cursor
  if c ≠ 0x2C ∧ c ≠ 0x7D then return (false, value)
  return (true, parsed)

/-- `apiService_JsonNumber`. -/
def jsonNumber (json key : Text) (value : UInt32) : Option (Bool × UInt32) := do
  let some found ← json.strstr (pattern key.bytes) 0 | return (false, value)
  let some colon ← json.strchr 0x3A (found + (pattern key.bytes).length) | return (false, value)
  let cursor ← json.skip isBlank (colon + 1)
  let c ← json.peek cursor
  if c < 0x30 ∨ c > 0x39 then return (false, value)
  let (parsed, last, range) ← json.strtoul cursor
  if last = cursor ∨ range ∨ parsed > 2 ^ 32 - 1 then return (false, value)
  let cursor ← json.skip isWhite last
  let c ← json.peek cursor
  if c ≠ 0x2C ∧ c ≠ 0x7D then return (false, value)
  return (true, UInt32.ofNat parsed)

/-! ## What they read -/

variable {json key : Text} {cursor : ℕ} {rest : Bytes}

theorem isBlank_zero : isBlank 0 = false := by decide

theorem isWhite_zero : isWhite 0 = false := by decide

theorem zero_notMem_pattern (key : Text) : 0 ∉ pattern key.bytes := by
  intro h
  have hmem : (0 : UInt8) ∈ 0x22 :: (key.bytes ++ [0x22]) := List.mem_of_mem_take h
  simp only [List.mem_cons, List.mem_append, List.not_mem_nil, or_false] at hmem
  rcases hmem with h | h | h
  · exact absurd h (by decide)
  · exact key.noNul h
  · exact absurd h (by decide)

/-- The cursor behind the key. -/
theorem find_at (json key : Text) :
    (findKey json.bytes key.bytes = none ∧ json.strstr (pattern key.bytes) 0 = some none) ∨
      ∃ found rest, findKey json.bytes key.bytes = some rest ∧
        json.strstr (pattern key.bytes) 0 = some (some found) ∧
        json.At (found + (pattern key.bytes).length) rest := by
  have hstrstr := Text.strstr_at (zero_notMem_pattern key) (Text.at_start (t := json))
  rw [findKey]
  cases hfound : strstr (pattern key.bytes) json.bytes with
  | none =>
    rw [hfound] at hstrstr
    exact .inl ⟨rfl, hstrstr⟩
  | some found =>
    rw [hfound] at hstrstr
    refine .inr ⟨0 + found, _, rfl, hstrstr, ?_⟩
    have hlen := strstr_add_length_le hfound
    refine ⟨json.bytes.take (found + (pattern key.bytes).length), ?_, ?_⟩
    · rw [List.take_append_drop]
    · rw [List.length_take]
      omega

/-- The check behind a value. -/
theorem ends_at (h : json.At cursor rest) : ∃ cursor' c, json.skip isWhite cursor = some cursor' ∧
    json.peek cursor' = some c ∧ (valueEnds rest = true ↔ ¬(c ≠ 0x2C ∧ c ≠ 0x7D)) := by
  obtain ⟨cursor', hskip, hat⟩ := Text.skip_at isWhite_zero h
  rw [valueEnds]
  cases hrest : rest.dropWhile isWhite with
  | nil =>
    rw [hrest] at hat
    exact ⟨cursor', 0, hskip, hat.peek_nil, by simp⟩
  | cons c behind =>
    rw [hrest] at hat
    refine ⟨cursor', c, hskip, hat.peek_cons, ?_⟩
    simp only [Bool.or_eq_true, decide_eq_true_eq, not_and_or, not_not]

/-- A character that has to come next. -/
theorem expect_at {c : UInt8} (hc : c ≠ 0) (h : json.At cursor rest) :
    ∃ d, json.peek cursor = some d ∧
      ((expect c rest = none ∧ d ≠ c) ∨
        ∃ behind, expect c rest = some behind ∧ d = c ∧ json.At (cursor + 1) behind) := by
  cases rest with
  | nil => exact ⟨0, h.peek_nil, .inl ⟨rfl, hc.symm⟩⟩
  | cons d rest =>
    refine ⟨d, h.peek_cons, ?_⟩
    rw [expect]
    by_cases hd : d = c
    · exact .inr ⟨rest, if_pos hd, hd, h.next⟩
    · exact .inl ⟨if_neg hd, hd⟩

/-- The next colon, and the blanks behind it. -/
theorem behindColon_at (h : json.At cursor rest) :
    (behindColon rest = none ∧ json.strchr 0x3A cursor = some none) ∨
      ∃ colon cursor' behind, behindColon rest = some behind ∧
        json.strchr 0x3A cursor = some (some colon) ∧
        json.skip isBlank (colon + 1) = some cursor' ∧ json.At cursor' behind := by
  rw [behindColon, strchr]
  rcases Text.strchr_at (c := 0x3A) (by decide) h with
    ⟨hnone, hstrchr⟩ | ⟨colon, behind, hsome, hstrchr, hat⟩
  · rw [hnone]
    exact .inl ⟨rfl, hstrchr⟩
  · obtain ⟨cursor', hskip, hat'⟩ := Text.skip_at isBlank_zero hat.next
    rw [hsome]
    exact .inr ⟨colon, cursor', _, rfl, hstrchr, hskip, hat'⟩

theorem stringLoop_of_peek {capacity length : ℕ} {c : UInt8} (h : json.peek cursor = some c) :
    stringLoop json capacity length cursor =
      if c = 0 ∨ c = 0x22 then some (some (length, cursor))
      else if c = 0x5C ∨ c < 0x20 ∨ length ≥ capacity - 1 then some none
      else stringLoop json capacity (length + 1) (cursor + 1) := by
  rw [stringLoop]
  exact Text.match_peek h

/-- The value of a string: it is refused, it goes on to the terminator, or a quote ends it. -/
theorem stringLoop_at (capacity length : ℕ) (h : json.At cursor rest) :
    (stringValue capacity length rest = none ∧ (stringLoop json capacity length cursor = some none ∨
      ∃ n last, stringLoop json capacity length cursor = some (some (n, last)) ∧
        json.peek last = some 0)) ∨
    ∃ text behind, stringValue capacity length rest = some (text, behind) ∧
      rest = text ++ 0x22 :: behind ∧ stringLoop json capacity length cursor =
        some (some (length + text.length, cursor + text.length)) := by
  induction rest generalizing cursor length with
  | nil =>
    refine .inl ⟨rfl, .inr ⟨length, cursor, ?_, h.peek_nil⟩⟩
    rw [stringLoop_of_peek h.peek_nil, if_pos (.inl rfl)]
  | cons c rest ih =>
    rw [stringLoop_of_peek h.peek_cons, stringValue]
    by_cases hquote : c = 0x22
    · subst hquote
      rw [if_pos rfl, if_pos (.inr rfl)]
      exact .inr ⟨[], rest, rfl, rfl, rfl⟩
    · rw [if_neg hquote, if_neg (not_or.2 ⟨h.ne_zero, hquote⟩)]
      by_cases hrefused : c = 0x5C ∨ c < 0x20 ∨ length ≥ capacity - 1
      · rw [if_pos hrefused, if_pos hrefused]
        exact .inl ⟨rfl, .inl rfl⟩
      · rw [if_neg hrefused, if_neg hrefused]
        rcases ih (length + 1) h.next with ⟨hnone, hloop⟩ | ⟨text, behind, hsome, rfl, hloop⟩
        · rw [hnone]
          exact .inl ⟨rfl, hloop⟩
        · rw [hsome, hloop]
          refine .inr ⟨c :: text, behind, rfl, rfl, ?_⟩
          rw [List.length_cons, Nat.add_right_comm length, Nat.add_right_comm cursor]
          rfl

theorem booleanToken_at (h : json.At cursor rest) :
    (ApiService.booleanToken rest = none ∧ booleanToken json cursor = some none) ∨
      ∃ parsed behind cursor', ApiService.booleanToken rest = some (parsed, behind) ∧
        booleanToken json cursor = some (some (if parsed then 1 else 0, cursor')) ∧
        json.At cursor' behind := by
  have hstarts {word : Bytes} (hword : 0 ∉ word) := Text.startsWith_at hword h
  rw [ApiService.booleanToken, booleanToken, hstarts (by decide), hstarts (by decide)]
  simp only [Option.bind_eq_bind, Option.bind_some]
  by_cases htrue : (ascii "true").isPrefixOf rest = true
  · obtain ⟨behind, rfl⟩ := List.isPrefixOf_iff_prefix.1 htrue
    rw [if_pos htrue, if_pos htrue]
    exact .inr ⟨true, _, cursor + 4, rfl, rfl, h.advance⟩
  rw [if_neg htrue, if_neg htrue]
  by_cases hfalse : (ascii "false").isPrefixOf rest = true
  · obtain ⟨behind, rfl⟩ := List.isPrefixOf_iff_prefix.1 hfalse
    rw [if_pos hfalse, if_pos hfalse]
    exact .inr ⟨false, _, cursor + 5, rfl, rfl, h.advance⟩
  rw [if_neg hfalse, if_neg hfalse]
  exact .inl ⟨rfl, rfl⟩

/-! ## What they do -/

/-- An extractor on the buffer returns `1U` with what the one on lists has read, or it returns `0U`
and its output is unchanged. -/
def Agrees {α β : Type} (output : β) (written : α → β → Prop) (r : Option α)
    (x : Option (Bool × β)) : Prop :=
  (r = none ∧ x = some (false, output)) ∨ ∃ a b, r = some a ∧ x = some (true, b) ∧ written a b

theorem Agrees.refused {α β : Type} {output : β} {written : α → β → Prop} :
    Agrees output written none (some (false, output)) := .inl ⟨rfl, rfl⟩

/-- The array behind a text that was copied into it. -/
def Copied {capacity : ℕ} (output : Vector UInt8 capacity) (text : Bytes)
    (output' : Vector UInt8 capacity) : Prop :=
  output'.toList = text ++ 0 :: output.toList.drop (text.length + 1)

/-- **`apiService_JsonString` reads nothing behind the terminator**, and does what the extractor on
lists does. -/
theorem jsonString_agrees (json key : Text) {capacity : ℕ} (output : Vector UInt8 capacity) :
    Agrees output (Copied output) (ApiService.jsonString json.bytes key.bytes capacity)
      (jsonString json key output) := by
  unfold jsonString ApiService.jsonString
  by_cases hcapacity : capacity = 0
  · rw [if_pos hcapacity, if_pos hcapacity]
    exact .refused
  rw [if_neg hcapacity, if_neg hcapacity]
  rcases find_at json key with ⟨hnone, hstrstr⟩ | ⟨found, rest, hsome, hstrstr, hat⟩
  · rw [hnone, hstrstr]
    exact .refused
  rw [hsome, hstrstr]
  simp only [Option.bind_eq_bind, Option.bind_some, stringAt]
  obtain ⟨cursor₁, hskip₁, hat₁⟩ := Text.skip_at isBlank_zero hat
  rw [hskip₁, Option.bind_some]
  obtain ⟨colon, hpeek₁, ⟨hnone, hcolon⟩ | ⟨rest₁, hsome, rfl, hat₂⟩⟩ :=
    expect_at (c := 0x3A) (by decide) hat₁
  · rw [hpeek₁, hnone, Option.bind_some, if_pos hcolon]
    exact .refused
  rw [hpeek₁, hsome, Option.bind_some, Option.bind_some, if_neg (not_not.2 rfl)]
  obtain ⟨cursor₂, hskip₂, hat₃⟩ := Text.skip_at isBlank_zero hat₂
  rw [hskip₂, Option.bind_some]
  obtain ⟨quote, hpeek₂, ⟨hnone, hquote⟩ | ⟨rest₂, hsome, rfl, hat₄⟩⟩ :=
    expect_at (c := 0x22) (by decide) hat₃
  · rw [hpeek₂, hnone, Option.bind_some, if_pos hquote]
    exact .refused
  rw [hpeek₂, hsome, Option.bind_some, Option.bind_some, if_neg (not_not.2 rfl)]
  rcases stringLoop_at capacity 0 hat₄ with ⟨hnone, hloop | ⟨n, last, hloop, hpeek⟩⟩ |
    ⟨text, behind, hsome, rfl, hloop⟩
  · rw [hnone, hloop]
    exact .refused
  · rw [hnone, hloop, Option.bind_some]
    dsimp only
    rw [hpeek, Option.bind_some, if_pos (by decide)]
    exact .refused
  have hquote := hat₄.advance
  obtain ⟨cursor₃, c, hskip₃, hpeek₃, hends⟩ := ends_at hquote.next
  rw [hsome, hloop, Option.bind_some, Option.bind_some, Nat.zero_add]
  dsimp only
  rw [hquote.peek_cons, Option.bind_some, if_neg (not_not.2 rfl), hskip₃, Option.bind_some, hpeek₃,
    Option.bind_some]
  by_cases hend : c ≠ 0x2C ∧ c ≠ 0x7D
  · rw [if_pos hend, if_neg fun h => hends.1 h hend]
    exact .refused
  have hlength : (text ++ [0]).length ≤ capacity := by
    rw [List.length_append, List.length_singleton]
    by_cases hnil : text = []
    · rw [hnil, List.length_nil]
      omega
    · have hshort := (stringValue_eq_some.1 hsome).2.2 hnil
      omega
  obtain ⟨output', hstore, houtput⟩ := store_eq output hlength
  rw [if_neg hend, if_pos (hends.2 hend), Text.copy_at hat₄, Option.bind_some, hstore]
  refine .inr ⟨text, output', rfl, rfl, ?_⟩
  rw [Copied, houtput, List.append_assoc, List.length_append]
  rfl

/-- **So does `apiService_JsonBoolean`.** -/
theorem jsonBoolean_agrees (json key : Text) (value : UInt8) :
    Agrees value (fun parsed value' => value' = if parsed then 1 else 0)
      (ApiService.jsonBoolean json.bytes key.bytes) (jsonBoolean json key value) := by
  unfold jsonBoolean ApiService.jsonBoolean
  rcases find_at json key with ⟨hnone, hstrstr⟩ | ⟨found, rest, hsome, hstrstr, hat⟩
  · rw [hnone, hstrstr]
    exact .refused
  rw [hsome, hstrstr]
  simp only [Option.bind_eq_bind, Option.bind_some, booleanAt]
  rcases behindColon_at hat with ⟨hnone, hstrchr⟩ |
    ⟨colon, cursor, rest, hsome, hstrchr, hskip, hat⟩
  · rw [hnone, hstrchr]
    exact .refused
  rw [hsome, hstrchr, Option.bind_some, Option.bind_some]
  dsimp only
  rw [hskip, Option.bind_some]
  rcases booleanToken_at hat with ⟨hnone, htoken⟩ | ⟨parsed, behind, cursor', hsome, htoken, hat⟩
  · rw [hnone, htoken]
    exact .refused
  obtain ⟨last, c, hskip, hpeek, hends⟩ := ends_at hat
  rw [hsome, htoken, Option.bind_some, Option.bind_some]
  dsimp only
  rw [hskip, Option.bind_some, hpeek, Option.bind_some]
  by_cases hend : c ≠ 0x2C ∧ c ≠ 0x7D
  · rw [if_pos hend, if_neg fun h => hends.1 h hend]
    exact .refused
  · rw [if_neg hend, if_pos (hends.2 hend)]
    exact .inr ⟨parsed, _, rfl, rfl, rfl⟩

/-- **And `apiService_JsonNumber`.** -/
theorem jsonNumber_agrees (json key : Text) (value : UInt32) :
    Agrees value (fun parsed value' => value' = UInt32.ofNat parsed)
      (ApiService.jsonNumber json.bytes key.bytes) (jsonNumber json key value) := by
  unfold jsonNumber ApiService.jsonNumber
  rcases find_at json key with ⟨hnone, hstrstr⟩ | ⟨found, rest, hsome, hstrstr, hat⟩
  · rw [hnone, hstrstr]
    exact .refused
  rw [hsome, hstrstr]
  simp only [Option.bind_eq_bind, Option.bind_some, numberAt]
  rcases behindColon_at hat with ⟨hnone, hstrchr⟩ |
    ⟨colon, cursor, rest, hsome, hstrchr, hskip, hat⟩
  · rw [hnone, hstrchr]
    exact .refused
  rw [hsome, hstrchr, Option.bind_some, Option.bind_some]
  dsimp only
  rw [hskip, Option.bind_some]
  cases rest with
  | nil =>
    rw [hat.peek_nil, Option.bind_some, if_pos (by decide)]
    exact .refused
  | cons c rest =>
    rw [hat.peek_cons, Option.bind_some]
    have hrange : (c < 0x30 ∨ c > 0x39) ↔ ¬isDigit c = true := by
      rw [isDigit, Bool.and_eq_true, decide_eq_true_eq, decide_eq_true_eq, not_and_or,
        UInt8.not_le, UInt8.not_le]
    by_cases hdigit : isDigit c = true
    · have hsplit : (c :: rest).takeWhile isDigit ++
          (c :: rest).drop ((c :: rest).takeWhile isDigit).length = c :: rest :=
        List.prefix_iff_eq_append.1 (List.takeWhile_prefix isDigit)
      have hne : ((c :: rest).takeWhile isDigit).isEmpty = false := by
        rw [List.takeWhile_cons_of_pos hdigit]
        rfl
      rw [if_neg fun h => hrange.1 h hdigit, Text.strtoul_at hat hdigit, Option.bind_some, hne]
      rw [← hsplit] at hat
      generalize (c :: rest).takeWhile isDigit = digits at *
      have hpos : cursor + digits.length ≠ cursor := by
        have hlen := List.length_pos_iff.2 (mt List.isEmpty_iff.2 (Bool.eq_false_iff.1 hne))
        omega
      dsimp only
      by_cases hbig : 2 ^ 32 ≤ decimal digits
      · have hrefused : cursor + digits.length = cursor ∨ decide (2 ^ 32 ≤ decimal digits) = true ∨
            2 ^ 32 - 1 > 2 ^ 32 - 1 := .inr (.inl (decide_eq_true hbig))
        rw [if_pos hbig, if_pos hbig, if_pos hrefused]
        exact .refused
      have hread : ¬(cursor + digits.length = cursor ∨ decide (2 ^ 32 ≤ decimal digits) = true ∨
          decimal digits > 2 ^ 32 - 1) := by
        rw [decide_eq_true_eq]
        omega
      obtain ⟨last, d, hskip, hpeek, hends⟩ := ends_at hat.advance
      rw [if_neg hbig, if_neg hbig, if_neg hread, hskip, Option.bind_some, hpeek, Option.bind_some]
      by_cases hend : d ≠ 0x2C ∧ d ≠ 0x7D
      · rw [if_pos hend, if_neg fun h => hends.1 h hend]
        exact .refused
      · rw [if_neg hend, if_pos (hends.2 hend)]
        exact .inr ⟨_, _, rfl, rfl, rfl⟩
    · rw [if_pos (hrange.2 hdigit), List.takeWhile_cons_of_neg hdigit]
      exact .refused

/-! ## On any body -/

/-- A text that stands in the body between quotes. -/
def Quoted (json : Text) (text : Bytes) : Prop := 0x22 :: (text ++ [0x22]) <:+: json.bytes

theorem findKey_suffix {json key rest : Bytes} (h : findKey json key = some rest) :
    rest <:+ json := by
  obtain ⟨i, -, rfl⟩ := Option.map_eq_some_iff.1 h
  exact List.drop_suffix _ _

/-- What `apiService_JsonString` reads. -/
theorem jsonString_spec {json key : Text} {capacity : ℕ} {text : Bytes}
    (h : ApiService.jsonString json.bytes key.bytes capacity = some text) :
    text.length < capacity ∧ Quoted json text ∧ Plain text := by
  rw [ApiService.jsonString, Option.ite_none_left_eq_some] at h
  obtain ⟨hcapacity, h⟩ := h
  obtain ⟨rest, hfind, hstring⟩ := Option.bind_eq_some_iff.1 h
  obtain ⟨⟨b, b', behind, rfl, -, -, hplain, -⟩, hlength⟩ :=
    (stringAt_eq_some (Nat.pos_of_ne_zero hcapacity)).1 hstring
  refine ⟨hlength, ?_, hplain⟩
  have hinfix : 0x22 :: (text ++ [0x22]) <:+:
      b ++ 0x3A :: (b' ++ 0x22 :: (text ++ 0x22 :: behind)) := ⟨b ++ 0x3A :: b', behind, by simp⟩
  exact hinfix.trans (findKey_suffix hfind).isInfix

/-- **The extractors are safe on garbage**: whatever the body and the key are, each returns without
a look behind the terminator and without a write behind the array; one that fails leaves its output
as it was; and `apiService_JsonString` succeeds with a terminated text shorter than the array, which
stands in the body between quotes and has no quote, escape or control character in it. -/
theorem extractors_safe (json key : Text) :
    (∀ (capacity : ℕ) (output : Vector UInt8 capacity),
      jsonString json key output = some (false, output) ∨
      ∃ text output', jsonString json key output = some (true, output') ∧
        output'.toList = text ++ 0 :: output.toList.drop (text.length + 1) ∧
        text.length < capacity ∧ Quoted json text ∧ Plain text) ∧
    (∀ value, jsonBoolean json key value = some (false, value) ∨
      ∃ parsed, jsonBoolean json key value = some (true, parsed)) ∧
    (∀ value, jsonNumber json key value = some (false, value) ∨
      ∃ parsed, jsonNumber json key value = some (true, parsed)) := by
  refine ⟨fun capacity output => ?_, fun value => ?_, fun value => ?_⟩
  · rcases jsonString_agrees json key output with
      ⟨-, hfails⟩ | ⟨text, output', hread, hsucceeds, hout⟩
    · exact .inl hfails
    · exact .inr ⟨text, output', hsucceeds, hout, jsonString_spec hread⟩
  · rcases jsonBoolean_agrees json key value with ⟨-, hfails⟩ | ⟨-, parsed, -, hsucceeds, -⟩
    · exact .inl hfails
    · exact .inr ⟨parsed, hsucceeds⟩
  · rcases jsonNumber_agrees json key value with ⟨-, hfails⟩ | ⟨-, parsed, -, hsucceeds, -⟩
    · exact .inl hfails
    · exact .inr ⟨parsed, hsucceeds⟩

end Cursor

end HealthCheck.ApiService
