import HealthCheck.Api.Json
import HealthCheck.Lib.Lines

/-!
# What the extractors make of a flat JSON object

A flat object has members with distinct names and a string, an unsigned integer or a boolean
for value; white space may stand between any two tokens. The extractors agree with it under a
condition on its text.

* `JsonObject`, `JsonObject.text` — the objects and their texts.
* `Behind` — what an extractor can read behind a place in a text, stated as a grammar.
* `stringAt_eq_some`, `numberAt_eq_some`, `booleanAt_eq_some` — they read exactly that.
* `agrees_iff` — the extractors agree with an object exactly when its text is `Legible` for the
  key: the quoted key first occurs as the name of the member, with blanks only where the
  extractors skip only blanks.
-/

namespace HealthCheck.ApiService

open CString

/-! ## Objects -/

/-- A text without quotes, escapes and control characters. -/
def Plain (text : Bytes) : Prop := ∀ c ∈ text, c ≠ 0x22 ∧ c ≠ 0x5C ∧ 0x20 ≤ c

instance (text : Bytes) : Decidable (Plain text) :=
  decidable_of_iff (text.all fun c => c != 0x22 && c != 0x5C && decide (0x20 ≤ c))
    (by simp [Plain, and_assoc])

/-- The values of the members of a flat object. -/
inductive JsonValue where
  | string (text : Bytes)
  | number (n : ℕ)
  | boolean (b : Bool)
deriving DecidableEq, Repr

namespace JsonValue

/-- How a value is written. -/
def text : JsonValue → Bytes
  | string v => 0x22 :: (v ++ [0x22])
  | number n => decimalText n
  | boolean b => if b then ascii "true" else ascii "false"

/-- Strings are written as they are. -/
def Plain : JsonValue → Prop
  | string v => ApiService.Plain v
  | _ => True

/-- The value fits the type its extractor returns. -/
def Fits : JsonValue → Prop
  | number n => n < 2 ^ 32
  | _ => True

end JsonValue

/-- A member with the white space before its name, around its colon and behind its value. -/
structure Member where
  before : Bytes
  name : Bytes
  beforeColon : Bytes
  afterColon : Bytes
  value : JsonValue
  after : Bytes
  white : ∀ c ∈ before ++ beforeColon ++ afterColon ++ after, isWhite c
  name_plain : Plain name
  value_plain : value.Plain

namespace Member

/-- The text of a member behind its name. -/
def tail (m : Member) : Bytes :=
  m.beforeColon ++ 0x3A :: (m.afterColon ++ (m.value.text ++ m.after))

def text (m : Member) : Bytes := m.before ++ (0x22 :: (m.name ++ [0x22])) ++ m.tail

/-- Where an extractor skips blanks only, there are only blanks. -/
def Compact (m : Member) : Prop :=
  match m.value with
  | .string _ => (∀ c ∈ m.beforeColon, isBlank c) ∧ ∀ c ∈ m.afterColon, isBlank c
  | .number n => n < 2 ^ 32 → ∀ c ∈ m.afterColon, isBlank c
  | .boolean _ => ∀ c ∈ m.afterColon, isBlank c

end Member

/-- The members of an object, each behind a comma, up to the brace that closes the object. -/
def membersTail : List Member → Bytes
  | [] => [0x7D]
  | m :: members => 0x2C :: (m.text ++ membersTail members)

/-- The members of an object up to and with the brace that closes it. `inner` is the white space
of an object without members. -/
def membersText (inner : Bytes) : List Member → Bytes
  | [] => inner ++ [0x7D]
  | m :: members => m.text ++ membersTail members

/-- A flat object, with the white space around it and, when it is empty, in it. -/
structure JsonObject where
  lead : Bytes
  members : List Member
  inner : Bytes
  trail : Bytes
  white : ∀ c ∈ lead ++ inner ++ trail, isWhite c
  distinct : (members.map (·.name)).Nodup

/-- What stands before the name of the member that follows these members. -/
def JsonObject.textBefore (o : JsonObject) (members : List Member) (m : Member) : Bytes :=
  o.lead ++ 0x7B :: (members.flatMap (·.text ++ [0x2C]) ++ m.before)

namespace JsonObject

def text (o : JsonObject) : Bytes := o.lead ++ 0x7B :: (membersText o.inner o.members ++ o.trail)

/-- The value of the member with the given name. -/
def lookup (o : JsonObject) (key : Bytes) : Option JsonValue :=
  (o.members.find? (·.name = key)).map (·.value)

end JsonObject

/-! ## What can be read -/

/-- White space and then what ends a value. -/
def Closed (cursor : Bytes) : Prop :=
  ∃ w c rest, cursor = w ++ c :: rest ∧ (∀ d ∈ w, isWhite d) ∧ (c = 0x2C ∨ c = 0x7D)

/-- The value stands behind a place in a text, in the form in which its extractor reads it from
there: a string behind blanks, a colon and blanks; a number or a boolean behind the next colon,
wherever that is, and blanks. -/
def Behind (cursor : Bytes) : JsonValue → Prop
  | .string v => ∃ b b' rest, cursor = b ++ 0x3A :: (b' ++ 0x22 :: (v ++ 0x22 :: rest)) ∧
      (∀ c ∈ b, isBlank c) ∧ (∀ c ∈ b', isBlank c) ∧ Plain v ∧ Closed rest
  | .number n => ∃ skip b digits rest, cursor = skip ++ 0x3A :: (b ++ (digits ++ rest)) ∧
      0x3A ∉ skip ∧ (∀ c ∈ b, isBlank c) ∧ digits ≠ [] ∧ (∀ c ∈ digits, isDigit c) ∧
      decimal digits = n ∧ n < 2 ^ 32 ∧ Closed rest
  | .boolean v => ∃ skip b rest,
      cursor = skip ++ 0x3A :: (b ++ ((JsonValue.boolean v).text ++ rest)) ∧
      0x3A ∉ skip ∧ (∀ c ∈ b, isBlank c) ∧ Closed rest

/-- An extractor reads the value behind a place, or, when the value does not fit, none reads
anything there. -/
def Served (cursor : Bytes) (value : JsonValue) : Prop :=
  (value.Fits → Behind cursor value) ∧ (¬ value.Fits → ∀ w, ¬ Behind cursor w)

/-! ## The cursor -/

/-- A run of characters of one kind is over at the first character of another kind. -/
theorem dropWhile_append_cons {p : UInt8 → Bool} {run : Bytes} {c : UInt8} {rest : Bytes}
    (hrun : ∀ d ∈ run, p d) (hc : ¬ p c) : (run ++ c :: rest).dropWhile p = c :: rest := by
  rw [List.dropWhile_append_of_pos hrun, List.dropWhile_cons_of_neg hc]

theorem takeWhile_append_cons {p : UInt8 → Bool} {run : Bytes} {c : UInt8} {rest : Bytes}
    (hrun : ∀ d ∈ run, p d) (hc : ¬ p c) : (run ++ c :: rest).takeWhile p = run := by
  rw [List.takeWhile_append_of_pos hrun, List.takeWhile_cons_of_neg hc, List.append_nil]

/-- A text splits at the end of a run. -/
theorem exists_run (p : UInt8 → Bool) (cursor : Bytes) :
    ∃ run, cursor = run ++ cursor.dropWhile p ∧ ∀ c ∈ run, p c :=
  ⟨cursor.takeWhile p, (List.takeWhile_append_dropWhile ..).symm, fun _ => List.mem_takeWhile_imp⟩

/-- What a run stops at is of another kind. -/
theorem not_of_dropWhile_eq_cons {p : UInt8 → Bool} {cursor rest : Bytes} {c : UInt8}
    (h : cursor.dropWhile p = c :: rest) : ¬ p c := by
  have hne : cursor.dropWhile p ≠ [] := fun hnil => by simp [hnil] at h
  have hhead := List.head_dropWhile_not p hne
  simp only [h, List.head_cons] at hhead
  exact Bool.eq_false_iff.1 hhead

theorem expect_eq_some {c : UInt8} {cursor rest : Bytes} :
    expect c cursor = some rest ↔ cursor = c :: rest := by
  cases cursor with
  | nil => simp [expect]
  | cons d cursor => by_cases h : d = c <;> simp [expect, h]

theorem strchr_append {c : UInt8} {skip rest : Bytes} (h : c ∉ skip) :
    strchr c (skip ++ c :: rest) = some (c :: rest) := by
  have hdrop : (skip ++ c :: rest).dropWhile (· ≠ c) = c :: rest :=
    dropWhile_append_cons (fun d hd => by simpa using fun hc : d = c => h (hc ▸ hd)) (by simp)
  simp only [strchr, hdrop]
  rfl

theorem strchr_eq_some {c : UInt8} {cursor found : Bytes} (h : strchr c cursor = some found) :
    ∃ skip rest, cursor = skip ++ c :: rest ∧ c ∉ skip ∧ found = c :: rest := by
  obtain ⟨skip, hskip, hmem⟩ := exists_run (· ≠ c) cursor
  simp only [strchr] at h
  cases hd : cursor.dropWhile (· ≠ c) with
  | nil =>
    rw [hd] at h
    exact absurd h (by simp)
  | cons d rest =>
    have hdc : d = c := by simpa using not_of_dropWhile_eq_cons hd
    subst hdc
    rw [hd] at hskip h
    refine ⟨skip, rest, hskip, fun hc => ?_, (Option.some.inj h).symm⟩
    simpa using hmem _ hc

/-- Behind the next colon and its blanks stands what stands there. -/
theorem behindColon_append {skip b : Bytes} {c : UInt8} {rest : Bytes} (hskip : 0x3A ∉ skip)
    (hb : ∀ d ∈ b, isBlank d) (hc : ¬ isBlank c) :
    behindColon (skip ++ 0x3A :: (b ++ c :: rest)) = some (c :: rest) := by
  rw [behindColon, strchr_append hskip, Option.map_some, List.tail_cons,
    dropWhile_append_cons hb hc]

theorem behindColon_eq_some {cursor found : Bytes} (h : behindColon cursor = some found) :
    ∃ skip b, cursor = skip ++ 0x3A :: (b ++ found) ∧ 0x3A ∉ skip ∧ ∀ d ∈ b, isBlank d := by
  obtain ⟨colon, hcolon, rfl⟩ := Option.map_eq_some_iff.1 h
  obtain ⟨skip, rest, rfl, hskip, rfl⟩ := strchr_eq_some hcolon
  obtain ⟨b, hb, hblank⟩ := exists_run isBlank rest
  exact ⟨skip, b, by rw [List.tail_cons, ← hb], hskip, hblank⟩

theorem isWhite_of_isBlank {c : UInt8} (h : isBlank c) : isWhite c := by
  simp [isWhite, h]

theorem valueEnds_iff {cursor : Bytes} : valueEnds cursor ↔ Closed cursor := by
  constructor
  · intro h
    obtain ⟨w, hw, hwhite⟩ := exists_run isWhite cursor
    cases hd : cursor.dropWhile isWhite with
    | nil => simp [valueEnds, hd] at h
    | cons c rest => exact ⟨w, c, rest, hd ▸ hw, hwhite, by simpa [valueEnds, hd] using h⟩
  · rintro ⟨w, c, rest, rfl, hw, hc⟩
    have hnot : ¬ isWhite c := by rcases hc with rfl | rfl <;> decide
    rw [valueEnds, dropWhile_append_cons hw hnot]
    simpa using hc

/-! ## The extractors read exactly what can be read -/

theorem not_isBlank_quote : ¬ isBlank 0x22 := by decide

theorem not_isBlank_colon : ¬ isBlank 0x3A := by decide

theorem colon_notMem {b : Bytes} (h : ∀ c ∈ b, isBlank c) : 0x3A ∉ b := fun hc =>
  not_isBlank_colon (h _ hc)

theorem stringValue_eq_some {capacity : ℕ} {cursor text rest : Bytes} : ∀ {length : ℕ},
    stringValue capacity length cursor = some (text, rest) ↔
      cursor = text ++ 0x22 :: rest ∧ Plain text ∧
        (text ≠ [] → length + text.length ≤ capacity - 1) := by
  induction cursor generalizing text with
  | nil => simp [stringValue]
  | cons c cursor ih =>
    intro length
    by_cases hquote : c = 0x22
    · subst hquote
      cases text with
      | nil => simp [stringValue, Plain, eq_comm]
      | cons d text =>
        simp only [stringValue, if_true, Option.some.injEq, Prod.mk.injEq, List.cons_append,
          List.cons.injEq, reduceCtorEq, false_and, false_iff]
        rintro ⟨⟨rfl, -⟩, hplain, -⟩
        exact (hplain _ List.mem_cons_self).1 rfl
    · by_cases hbad : c = 0x5C ∨ c < 0x20 ∨ length ≥ capacity - 1
      · simp only [stringValue, if_neg hquote, if_pos hbad, reduceCtorEq, false_iff]
        rintro ⟨hsplit, hplain, hlen⟩
        cases text with
        | nil => exact hquote (List.cons.inj hsplit).1
        | cons d text =>
          obtain ⟨rfl, -⟩ := List.cons.inj hsplit
          obtain ⟨-, hne, hle⟩ := hplain _ List.mem_cons_self
          have hlen := hlen (by simp)
          rw [List.length_cons] at hlen
          rcases hbad with h | h | h
          · exact hne h
          · exact absurd hle (UInt8.not_le.2 h)
          · omega
      · simp only [stringValue, if_neg hquote, if_neg hbad, Option.map_eq_some_iff, Prod.exists]
        simp only [not_or, Nat.not_le, ge_iff_le, UInt8.not_lt] at hbad
        constructor
        · rintro ⟨text, rest, h, hsplit⟩
          cases hsplit
          obtain ⟨rfl, hplain, hlen⟩ := ih.1 h
          refine ⟨rfl, List.forall_mem_cons.2 ⟨⟨hquote, hbad.1, hbad.2.1⟩, hplain⟩, fun _ => ?_⟩
          rw [List.length_cons]
          by_cases hnil : text = []
          · subst hnil
            show length + (0 + 1) ≤ capacity - 1
            omega
          · have := hlen hnil
            omega
        · rintro ⟨hsplit, hplain, hlen⟩
          cases text with
          | nil => exact absurd (List.cons.inj hsplit).1 hquote
          | cons d text =>
            obtain ⟨rfl, rfl⟩ := List.cons.inj hsplit
            refine ⟨text, rest, ih.2 ⟨rfl, (List.forall_mem_cons.1 hplain).2, fun _ => ?_⟩, rfl⟩
            have := hlen (by simp)
            rw [List.length_cons] at this
            omega

/-- **A string is read exactly where it stands**, when the capacity holds it. -/
theorem stringAt_eq_some {capacity : ℕ} {cursor v : Bytes} (hcap : 0 < capacity) :
    stringAt capacity cursor = some v ↔ Behind cursor (.string v) ∧ v.length < capacity := by
  simp only [stringAt, Option.bind_eq_bind, Option.bind_eq_some_iff, expect_eq_some, Prod.exists,
    stringValue_eq_some, Option.ite_none_right_eq_some, Option.some.injEq, valueEnds_iff]
  constructor
  · rintro ⟨colon, hcolon, value, hvalue, text, rest, ⟨rfl, hplain, hlen⟩, hclosed, rfl⟩
    obtain ⟨b, hb, hblank⟩ := exists_run isBlank cursor
    obtain ⟨b', hb', hblank'⟩ := exists_run isBlank colon
    rw [hvalue] at hb'
    rw [hcolon, hb'] at hb
    refine ⟨⟨b, b', rest, hb, hblank, hblank', hplain, hclosed⟩, ?_⟩
    by_cases hnil : text = []
    · subst hnil
      exact hcap
    · have := hlen hnil
      omega
  · rintro ⟨⟨b, b', rest, rfl, hblank, hblank', hplain, hclosed⟩, hlen⟩
    exact ⟨_, dropWhile_append_cons hblank not_isBlank_colon, _,
      dropWhile_append_cons hblank' not_isBlank_quote, v, rest, ⟨rfl, hplain, fun _ => by omega⟩,
      hclosed, rfl⟩

theorem not_isDigit_of_closed {rest : Bytes} (h : Closed rest) :
    ∃ c t, rest = c :: t ∧ ¬ isDigit c := by
  obtain ⟨w, c, t, rfl, hw, hc⟩ := h
  cases w with
  | nil => exact ⟨c, t, rfl, by rcases hc with rfl | rfl <;> decide⟩
  | cons d w =>
    refine ⟨d, w ++ c :: t, rfl, fun hdigit => ?_⟩
    have hwhite := hw d List.mem_cons_self
    simp only [isWhite, isBlank, isDigit, Bool.or_eq_true, decide_eq_true_eq,
      Bool.and_eq_true] at hwhite hdigit
    rcases hwhite with ((rfl | rfl) | rfl) | rfl <;> exact absurd hdigit (by decide)

theorem not_isWhite_of_isDigit {c : UInt8} (h : isDigit c) : ¬ isWhite c := by
  intro hwhite
  simp only [isWhite, isBlank, Bool.or_eq_true, decide_eq_true_eq] at hwhite
  rcases hwhite with ((rfl | rfl) | rfl) | rfl <;> exact absurd h (by decide)

theorem not_isBlank_of_not_isWhite {c : UInt8} (h : ¬ isWhite c) : ¬ isBlank c := fun hb =>
  h (isWhite_of_isBlank hb)

/-- Digits behind a colon and blanks are read, unless 32 bits do not hold them. -/
theorem numberAt_append {skip b digits rest : Bytes} (hskip : 0x3A ∉ skip)
    (hblank : ∀ c ∈ b, isBlank c) (hne : digits ≠ []) (hdigits : ∀ c ∈ digits, isDigit c)
    (hclosed : Closed rest) : numberAt (skip ++ 0x3A :: (b ++ (digits ++ rest))) =
      if 2 ^ 32 ≤ decimal digits then none else some (decimal digits) := by
  obtain ⟨c, t, rfl, hc⟩ := not_isDigit_of_closed hclosed
  obtain ⟨d, digits, rfl⟩ := List.exists_cons_of_ne_nil hne
  have hd := not_isBlank_of_not_isWhite (not_isWhite_of_isDigit (hdigits d List.mem_cons_self))
  have hfound : behindColon (skip ++ 0x3A :: (b ++ (d :: digits ++ c :: t))) =
      some (d :: digits ++ c :: t) := behindColon_append hskip hblank hd
  simp only [numberAt, hfound, Option.bind_eq_bind, Option.bind_some]
  rw [takeWhile_append_cons hdigits hc, List.drop_left, if_neg (by simp),
    if_pos (valueEnds_iff.2 hclosed)]

/-- **A number is read exactly where it stands.** -/
theorem numberAt_eq_some {cursor : Bytes} {n : ℕ} :
    numberAt cursor = some n ↔ Behind cursor (.number n) := by
  simp only [numberAt, Option.bind_eq_bind, Option.bind_eq_some_iff]
  constructor
  · rintro ⟨found, hfound, h⟩
    obtain ⟨skip, b, rfl, hskip, hblank⟩ := behindColon_eq_some hfound
    split_ifs at h with hempty hbig hends
    refine ⟨skip, b, found.takeWhile isDigit, found.drop (found.takeWhile isDigit).length, ?_,
      hskip, hblank, by simpa using hempty, fun _ => List.mem_takeWhile_imp, Option.some.inj h,
      ?_, valueEnds_iff.1 hends⟩
    · have hpre := List.prefix_iff_eq_append.1 (List.takeWhile_prefix (l := found) isDigit)
      rw [hpre]
    · rw [← Option.some.inj h]
      exact Nat.not_le.1 hbig
  · rintro ⟨skip, b, digits, rest, rfl, hskip, hblank, hne, hdigits, rfl, hlt, hclosed⟩
    have hread := numberAt_append hskip hblank hne hdigits hclosed
    rw [if_neg (Nat.not_le.2 hlt)] at hread
    simpa only [numberAt, Option.bind_eq_bind, Option.bind_eq_some_iff] using hread

theorem booleanToken_eq_some {cursor rest : Bytes} {v : Bool} :
    booleanToken cursor = some (v, rest) ↔ cursor = (JsonValue.boolean v).text ++ rest := by
  have hsplit : ∀ word : Bytes, word.isPrefixOf cursor = true ↔
      cursor = word ++ cursor.drop word.length := fun word => by
    rw [List.isPrefixOf_iff_prefix, List.prefix_iff_eq_append, eq_comm]
  have hother : ∀ t t', ascii "true" ++ t ≠ ascii "false" ++ t' := fun t t' h =>
    absurd (List.cons.inj h).1 (by decide)
  simp only [booleanToken, hsplit]
  constructor
  · intro h
    split_ifs at h with htrue hfalse
    · obtain ⟨rfl, rfl⟩ := Prod.mk.inj (Option.some.inj h)
      exact htrue
    · obtain ⟨rfl, rfl⟩ := Prod.mk.inj (Option.some.inj h)
      exact hfalse
  · rintro rfl
    cases v with
    | true =>
      show (if ascii "true" ++ rest = ascii "true" ++ (ascii "true" ++ rest).drop _ then _
        else _) = _
      rw [List.drop_left, if_pos rfl]
      rfl
    | false =>
      show (if ascii "false" ++ rest = ascii "true" ++ _ then _ else
        if ascii "false" ++ rest = ascii "false" ++ (ascii "false" ++ rest).drop _ then _
        else _) = _
      rw [if_neg (hother _ _).symm, List.drop_left, if_pos rfl]
      rfl

/-- A boolean starts with a letter. -/
theorem boolean_text_cons (v : Bool) : ∃ c t, (JsonValue.boolean v).text = c :: t ∧
    ¬ isWhite c ∧ ¬ isDigit c ∧ c ≠ 0x22 := by
  cases v
  · exact ⟨0x66, ascii "alse", by decide, by decide, by decide, by decide⟩
  · exact ⟨0x74, ascii "rue", by decide, by decide, by decide, by decide⟩

/-- **A boolean is read exactly where it stands.** -/
theorem booleanAt_eq_some {cursor : Bytes} {v : Bool} :
    booleanAt cursor = some v ↔ Behind cursor (.boolean v) := by
  simp only [booleanAt, Option.bind_eq_bind, Option.bind_eq_some_iff, Prod.exists,
    Option.ite_none_right_eq_some, valueEnds_iff, booleanToken_eq_some]
  constructor
  · rintro ⟨found, hfound, parsed, rest, rfl, hclosed, hv⟩
    cases hv
    obtain ⟨skip, b, rfl, hskip, hblank⟩ := behindColon_eq_some hfound
    exact ⟨skip, b, rest, rfl, hskip, hblank, hclosed⟩
  · rintro ⟨skip, b, rest, rfl, hskip, hblank, hclosed⟩
    obtain ⟨c, t, htext, hwhite, -⟩ := boolean_text_cons v
    refine ⟨(JsonValue.boolean v).text ++ rest, ?_, v, rest, rfl, hclosed, rfl⟩
    rw [htext]
    exact behindColon_append hskip hblank (not_isBlank_of_not_isWhite hwhite)

/-! ## One value at a place -/

/-- The character a value starts with. -/
def startsLike (c : UInt8) : JsonValue → Prop
  | .string _ => c = 0x22
  | .number _ => isDigit c
  | .boolean _ => c ≠ 0x22 ∧ ¬ isDigit c ∧ ¬ isWhite c

theorem not_isWhite_of_startsLike {c : UInt8} {value : JsonValue} (h : startsLike c value) :
    ¬ isWhite c := by
  cases value with
  | string v => exact h ▸ (by decide : ¬ isWhite 0x22)
  | number n => exact not_isWhite_of_isDigit h
  | boolean b => exact h.2.2

/-- What can be read shows its kind behind the colon. -/
theorem Behind.behindColon {cursor : Bytes} {value : JsonValue} (h : Behind cursor value) :
    ∃ c t, behindColon cursor = some (c :: t) ∧ startsLike c value := by
  cases value with
  | string v =>
    obtain ⟨b, b', rest, rfl, hblank, hblank', -⟩ := h
    exact ⟨_, _, behindColon_append (colon_notMem hblank) hblank' not_isBlank_quote, rfl⟩
  | number n =>
    obtain ⟨skip, b, digits, rest, rfl, hskip, hblank, hne, hdigits, -⟩ := h
    obtain ⟨d, digits, rfl⟩ := List.exists_cons_of_ne_nil hne
    have hd := hdigits d List.mem_cons_self
    exact ⟨_, _, behindColon_append hskip hblank
      (not_isBlank_of_not_isWhite (not_isWhite_of_isDigit hd)), hd⟩
  | boolean v =>
    obtain ⟨skip, b, rest, rfl, hskip, hblank, -⟩ := h
    obtain ⟨c, t, htext, hwhite, hdigit, hquote⟩ := boolean_text_cons v
    rw [htext]
    exact ⟨_, _, behindColon_append hskip hblank (not_isBlank_of_not_isWhite hwhite),
      hquote, hdigit, hwhite⟩

/-- At most one value can be read behind a place. -/
theorem Behind.unique {cursor : Bytes} {v w : JsonValue} (hv : Behind cursor v)
    (hw : Behind cursor w) : v = w := by
  obtain ⟨c, t, hc, hcv⟩ := hv.behindColon
  obtain ⟨c', t', hc', hcw⟩ := hw.behindColon
  obtain ⟨rfl, rfl⟩ := List.cons.inj (Option.some.inj (hc.symm.trans hc'))
  have hquote : ¬ isDigit 0x22 := by decide
  cases v with
  | string v =>
    cases w with
    | string w =>
      have hcap : 0 < v.length + w.length + 1 := by omega
      have hv' := (stringAt_eq_some hcap).2 ⟨hv, by omega⟩
      have hw' := (stringAt_eq_some hcap).2 ⟨hw, by omega⟩
      exact congrArg _ (Option.some.inj (hv'.symm.trans hw'))
    | number m => exact absurd (hcv ▸ hcw) hquote
    | boolean b => exact absurd hcv hcw.1
  | number n =>
    cases w with
    | string w => exact absurd (hcw ▸ hcv) hquote
    | number m =>
      exact congrArg _ (Option.some.inj
        ((numberAt_eq_some.2 hv).symm.trans (numberAt_eq_some.2 hw)))
    | boolean b => exact absurd hcv hcw.2.1
  | boolean b =>
    cases w with
    | string w => exact absurd hcw hcv.1
    | number m => exact absurd hcw hcv.2.1
    | boolean b' =>
      exact congrArg _ (Option.some.inj
        ((booleanAt_eq_some.2 hv).symm.trans (booleanAt_eq_some.2 hw)))

/-! ## Behind the name of a member -/

/-- A value starts with a character of its kind. -/
theorem text_cons (value : JsonValue) : ∃ c t, value.text = c :: t ∧ startsLike c value := by
  cases value with
  | string v => exact ⟨_, _, rfl, rfl⟩
  | number n =>
    obtain ⟨hne, hdigits, -⟩ := decimalText_spec n
    obtain ⟨d, digits, hd⟩ := List.exists_cons_of_ne_nil hne
    exact ⟨d, digits, hd, hdigits d (hd ▸ List.mem_cons_self)⟩
  | boolean b =>
    obtain ⟨c, t, htext, hwhite, hdigit, hquote⟩ := boolean_text_cons b
    exact ⟨c, t, htext, hquote, hdigit, hwhite⟩

/-- A text splits in one way at the first character of a kind. -/
theorem split_unique {p : UInt8 → Bool} {a a' t t' : Bytes} {c c' : UInt8}
    (ha : ∀ d ∈ a, p d) (ha' : ∀ d ∈ a', p d) (hc : ¬ p c) (hc' : ¬ p c')
    (h : a ++ c :: t = a' ++ c' :: t') : a = a' ∧ c = c' ∧ t = t' := by
  have hrun := congrArg (List.takeWhile p) h
  rw [takeWhile_append_cons ha hc, takeWhile_append_cons ha' hc'] at hrun
  subst hrun
  exact ⟨rfl, List.cons.inj (List.append_cancel_left h)⟩

theorem notMem_of_white {c : UInt8} {w : Bytes} (hc : ¬ isWhite c) (hw : ∀ d ∈ w, isWhite d) :
    c ∉ w := fun h => hc (hw c h)

/-- A closed text stays closed behind white space. -/
theorem Closed.white_append {w rest : Bytes} (hw : ∀ d ∈ w, isWhite d) (h : Closed rest) :
    Closed (w ++ rest) := by
  obtain ⟨w', c, t, rfl, hw', hc⟩ := h
  refine ⟨w ++ w', c, t, by rw [List.append_assoc], ?_, hc⟩
  exact fun d hd => (List.mem_append.1 hd).elim (hw d) (hw' d)

namespace Member

variable (m : Member)

theorem white_beforeColon : ∀ c ∈ m.beforeColon, isWhite c := fun c hc =>
  m.white c (by simp [hc])

theorem white_afterColon : ∀ c ∈ m.afterColon, isWhite c := fun c hc =>
  m.white c (by simp [hc])

theorem white_after : ∀ c ∈ m.after, isWhite c := fun c hc => m.white c (by simp [hc])

/-- What follows the name of a member: white space, the colon, white space, and the value. -/
theorem tail_append (rest : Bytes) : m.tail ++ rest =
    m.beforeColon ++ 0x3A :: (m.afterColon ++ (m.value.text ++ (m.after ++ rest))) := by
  simp [tail]

/-- Behind the name of a member nothing else than its value can be read, and that only behind
blanks. -/
theorem behind_tail {rest : Bytes} {w : JsonValue} (h : Behind (m.tail ++ rest) w) :
    (∀ c ∈ m.afterColon, isBlank c) ∧ ∃ c, startsLike c w ∧ startsLike c m.value := by
  obtain ⟨c, t, hfound, hlike⟩ := h.behindColon
  obtain ⟨skip, b, hsplit, hskip, hblank⟩ := behindColon_eq_some hfound
  obtain ⟨d, u, htext, hlike'⟩ := text_cons m.value
  rw [tail_append, htext] at hsplit
  have hnot := notMem_of_white (by decide : ¬ isWhite 0x3A) m.white_beforeColon
  have hcolon : ∀ {a : Bytes}, 0x3A ∉ a → ∀ e ∈ a, (e != 0x3A) = true := fun h e he => by
    simpa using fun heq : e = 0x3A => h (heq ▸ he)
  obtain ⟨-, -, hbehind⟩ :=
    split_unique (hcolon hnot) (hcolon hskip) (by decide) (by decide) hsplit
  obtain ⟨hb, rfl, -⟩ := split_unique m.white_afterColon
    (fun e he => isWhite_of_isBlank (hblank e he)) (not_isWhite_of_startsLike hlike')
    (not_isWhite_of_startsLike hlike) hbehind
  exact ⟨hb ▸ hblank, d, hlike, hlike'⟩

/-- **Behind its name a member is served exactly when it is compact.** -/
theorem served_tail_iff {rest : Bytes} (hrest : Closed rest) :
    Served (m.tail ++ rest) m.value ↔ m.Compact := by
  have hclosed : Closed (m.after ++ rest) := hrest.white_append m.white_after
  have hcolon := notMem_of_white (by decide : ¬ isWhite 0x3A) m.white_beforeColon
  cases hvalue : m.value with
  | string v =>
    have hplain : Plain v := by simpa [hvalue, JsonValue.Plain] using m.value_plain
    simp only [Served, JsonValue.Fits, true_imp_iff, not_true, false_imp_iff, and_true, Compact,
      hvalue]
    constructor
    · intro h
      refine ⟨?_, (m.behind_tail h).1⟩
      obtain ⟨b, b', text, hsplit, hblank, -⟩ := h
      rw [tail_append] at hsplit
      have hne : ∀ {a : Bytes}, 0x3A ∉ a → ∀ e ∈ a, (e != 0x3A) = true := fun h e he => by
        simpa using fun heq : e = 0x3A => h (heq ▸ he)
      obtain ⟨hb, -⟩ :=
        split_unique (hne hcolon) (hne (colon_notMem hblank)) (by decide) (by decide) hsplit
      exact hb ▸ hblank
    · rintro ⟨hblank, hblank'⟩
      refine ⟨m.beforeColon, m.afterColon, m.after ++ rest, ?_, hblank, hblank', hplain, hclosed⟩
      rw [tail_append, hvalue]
      simp [JsonValue.text]
  | number n =>
    simp only [Served, JsonValue.Fits, Compact, hvalue]
    obtain ⟨hne, hdigits, hdecimal⟩ := decimalText_spec n
    constructor
    · exact fun h hn => (m.behind_tail (h.1 hn)).1
    · refine fun h => ⟨fun hn => ?_, fun hn w hw => ?_⟩
      · refine ⟨m.beforeColon, m.afterColon, decimalText n, m.after ++ rest, ?_, hcolon, h hn, hne,
          hdigits, hdecimal, hn, hclosed⟩
        rw [tail_append, hvalue]
        rfl
      · obtain ⟨hblank, c, hc, hc'⟩ := m.behind_tail hw
        rw [hvalue] at hc'
        have hnone : numberAt (m.tail ++ rest) = none := by
          rw [tail_append, hvalue, JsonValue.text, numberAt_append hcolon hblank hne hdigits
            hclosed, hdecimal, if_pos (Nat.not_lt.1 hn)]
        cases w with
        | string v => exact absurd (hc ▸ hc') (by decide : ¬ isDigit 0x22)
        | number n' => exact absurd (hnone.symm.trans (numberAt_eq_some.2 hw)) (by simp)
        | boolean b => exact absurd hc' hc.2.1
  | boolean b =>
    simp only [Served, JsonValue.Fits, true_imp_iff, not_true, false_imp_iff, and_true, Compact,
      hvalue]
    constructor
    · exact fun h => (m.behind_tail h).1
    · intro hblank
      refine ⟨m.beforeColon, m.afterColon, m.after ++ rest, ?_, hcolon, hblank, hclosed⟩
      rw [tail_append, hvalue]

end Member

/-! ## The text of an object around a member -/

theorem closed_membersTail (members : List Member) (rest : Bytes) :
    Closed (membersTail members ++ rest) := by
  cases members with
  | nil => exact ⟨[], 0x7D, rest, rfl, List.forall_mem_nil _, .inr rfl⟩
  | cons m members =>
    exact ⟨[], 0x2C, m.text ++ membersTail members ++ rest, rfl, List.forall_mem_nil _, .inl rfl⟩

theorem membersTail_append (before : List Member) (m : Member) (after : List Member) :
    membersTail (before ++ m :: after) =
      0x2C :: (before.flatMap (·.text ++ [0x2C]) ++ m.text ++ membersTail after) := by
  induction before with
  | nil => rfl
  | cons m' before ih =>
    rw [List.cons_append, membersTail, ih, List.flatMap_cons]
    simp only [List.append_assoc, List.cons_append, List.nil_append]

theorem membersText_append (inner : Bytes) (before : List Member) (m : Member)
    (after : List Member) : membersText inner (before ++ m :: after) =
      before.flatMap (·.text ++ [0x2C]) ++ m.text ++ membersTail after := by
  cases before with
  | nil => rfl
  | cons m' before =>
    rw [List.cons_append, membersText, membersTail_append, List.flatMap_cons]
    simp only [List.append_assoc, List.cons_append, List.nil_append]

namespace JsonObject

/-- The quoted name of a member stands in the text, with the rest of the member behind it. -/
theorem text_split {o : JsonObject} {before after : List Member} {m : Member}
    (h : o.members = before ++ m :: after) : ∃ rest, Closed rest ∧
      o.text = o.textBefore before m ++ (0x22 :: (m.name ++ [0x22])) ++ (m.tail ++ rest) := by
  refine ⟨membersTail after ++ o.trail, closed_membersTail _ _, ?_⟩
  rw [text, h, membersText_append, textBefore, Member.text]
  simp only [List.append_assoc, List.cons_append]

theorem lookup_eq_none_iff {o : JsonObject} {key : Bytes} :
    o.lookup key = none ↔ ∀ m ∈ o.members, m.name ≠ key := by
  simp [lookup]

/-- A member is found under its name. -/
theorem lookup_of_split {o : JsonObject} {before after : List Member} {m : Member}
    (h : o.members = before ++ m :: after) : o.lookup m.name = some m.value := by
  have hdistinct := o.distinct
  rw [h, List.map_append, List.map_cons, List.nodup_append] at hdistinct
  have hbefore : before.find? (·.name = m.name) = none := by
    rw [List.find?_eq_none]
    intro m' hm' heq
    exact hdistinct.2.2 _ (List.mem_map_of_mem hm') _ List.mem_cons_self (by simpa using heq)
  simp [lookup, h, List.find?_append, hbefore]

end JsonObject

/-! ## Agreement -/

/-- The extractors agree with an object about a key. -/
structure Agrees (o : JsonObject) (key : Bytes) : Prop where
  string : ∀ capacity v, jsonString o.text key capacity = some v ↔
    o.lookup key = some (.string v) ∧ v.length < capacity
  number : ∀ n, jsonNumber o.text key = some n ↔
    o.lookup key = some (.number n) ∧ n ≤ 2 ^ 32 - 1
  boolean : ∀ b, jsonBoolean o.text key = some b ↔ o.lookup key = some (.boolean b)
  hasKey : jsonHasKey o.text key ↔ ∃ m ∈ o.members, m.name = key

/-- Where the text of an object leads the extractors to the member they look for. `pattern` is
the quoted key, cut to 39 characters. -/
inductive Legible (o : JsonObject) (key : Bytes) : Prop
  /-- There is no such member, and the quoted key does not occur in the text. -/
  | absent (no : ∀ m ∈ o.members, m.name ≠ key) (short : key.length ≤ 37)
    (free : ¬ (0x22 :: (key ++ [0x22])) <:+: o.text)
  /-- There is no such member, and nothing can be read where a pattern without its closing quote
  first occurs. -/
  | cut (no : ∀ m ∈ o.members, m.name ≠ key) (long : 37 < key.length)
    (free : ∀ i, strstr (pattern key) o.text = some i → ∀ w, ¬ Behind (o.text.drop (i + 39)) w)
  /-- The quoted key first occurs as the name of the member, and the member is compact. -/
  | first {before after : List Member} {m : Member} (split : o.members = before ++ m :: after)
    (name : m.name = key) (short : key.length ≤ 37)
    (first : strstr (pattern key) o.text = some (o.textBefore before m).length)
    (compact : m.Compact)
  /-- The quoted key occurs before the name of the member, and what can be read there happens to
  be the value of the member. -/
  | earlier {before after : List Member} {m : Member} {i : ℕ}
    (split : o.members = before ++ m :: after)
    (name : m.name = key) (short : key.length ≤ 37)
    (found : strstr (pattern key) o.text = some i) (earlier : i ≠ (o.textBefore before m).length)
    (served : Served (o.text.drop (i + key.length + 2)) m.value)

theorem pattern_of_short {key : Bytes} (h : key.length ≤ 37) :
    pattern key = 0x22 :: (key ++ [0x22]) :=
  List.take_of_length_le (by simp; omega)

theorem length_pattern_of_long {key : Bytes} (h : 37 < key.length) :
    (pattern key).length = 39 := by
  simp only [pattern, List.length_take, List.length_cons, List.length_append, List.length_nil]
  omega

/-- When the pattern does not occur, nothing is found and nothing is read. -/
theorem agrees_iff_of_not_found {o : JsonObject} {key : Bytes}
    (h : strstr (pattern key) o.text = none) :
    Agrees o key ↔ ∀ m ∈ o.members, m.name ≠ key := by
  have hfind : findKey o.text key = none := by rw [findKey, h]; rfl
  have hhas : jsonHasKey o.text key = false := by simp [jsonHasKey, h]
  constructor
  · intro hagrees m hm hname
    have := hagrees.hasKey.2 ⟨m, hm, hname⟩
    exact absurd (hhas.symm.trans this) (by decide)
  · intro hno
    have hlookup := JsonObject.lookup_eq_none_iff.2 hno
    refine ⟨fun capacity v => ?_, fun n => ?_, fun b => ?_, ?_⟩
    · simp [jsonString, hfind, hlookup]
    · simp [jsonNumber, hfind, hlookup]
    · simp [jsonBoolean, hfind, hlookup]
    · simp [hhas]
      exact hno

/-- When the pattern occurs, what counts is what can be read behind its first occurrence. -/
theorem agrees_iff_of_found {o : JsonObject} {key : Bytes} {i : ℕ}
    (h : strstr (pattern key) o.text = some i) :
    Agrees o key ↔ (key.length ≤ 37 ↔ ∃ m ∈ o.members, m.name = key) ∧
      ∀ w, Behind (o.text.drop (i + (pattern key).length)) w ↔
        o.lookup key = some w ∧ w.Fits := by
  have hfind : findKey o.text key = some (o.text.drop (i + (pattern key).length)) := by
    rw [findKey, h]
    rfl
  have hhas : jsonHasKey o.text key ↔ key.length ≤ 37 := by
    simp only [jsonHasKey, h, Option.isSome_some, Bool.and_true, decide_eq_true_eq]
    omega
  generalize o.text.drop (i + (pattern key).length) = cursor at hfind
  have hstring : ∀ capacity v, jsonString o.text key capacity = some v ↔
      Behind cursor (.string v) ∧ v.length < capacity := by
    intro capacity v
    by_cases hcap : capacity = 0
    · simp [jsonString, hcap]
    · rw [jsonString, if_neg hcap, hfind, Option.bind_some,
        stringAt_eq_some (Nat.pos_of_ne_zero hcap)]
  have hnumber : ∀ n, jsonNumber o.text key = some n ↔ Behind cursor (.number n) := fun n => by
    rw [jsonNumber, hfind, Option.bind_some, numberAt_eq_some]
  have hboolean : ∀ b, jsonBoolean o.text key = some b ↔ Behind cursor (.boolean b) := fun b => by
    rw [jsonBoolean, hfind, Option.bind_some, booleanAt_eq_some]
  have hlt : ∀ n, n ≤ 2 ^ 32 - 1 ↔ n < 2 ^ 32 := fun n => by omega
  constructor
  · rintro ⟨hs, hn, hb, hk⟩
    refine ⟨hhas.symm.trans hk, fun w => ?_⟩
    cases w with
    | string v =>
      have := (hstring (v.length + 1) v).symm.trans (hs (v.length + 1) v)
      simpa [JsonValue.Fits] using this
    | number n =>
      have := (hnumber n).symm.trans (hn n)
      rwa [hlt] at this
    | boolean b =>
      have := (hboolean b).symm.trans (hb b)
      simpa [JsonValue.Fits] using this
  · rintro ⟨hk, hw⟩
    refine ⟨fun capacity v => ?_, fun n => ?_, fun b => ?_, hhas.trans hk⟩
    · rw [hstring, hw]
      simp [JsonValue.Fits]
    · rw [hnumber, hw, hlt]
      rfl
    · rw [hboolean, hw]
      simp [JsonValue.Fits]

/-- At the first occurrence of a member's key, agreement is that the member's value is served. -/
theorem agrees_iff_served {o : JsonObject} {before after : List Member} {m : Member} {i : ℕ}
    (split : o.members = before ++ m :: after) (short : m.name.length ≤ 37)
    (found : strstr (pattern m.name) o.text = some i) :
    Agrees o m.name ↔ Served (o.text.drop (i + m.name.length + 2)) m.value := by
  have hmem : ∃ m' ∈ o.members, m'.name = m.name := ⟨m, by simp [split], rfl⟩
  have hlen : i + (pattern m.name).length = i + m.name.length + 2 := by
    rw [pattern_of_short short]
    simp
    omega
  rw [agrees_iff_of_found found, hlen, JsonObject.lookup_of_split split]
  simp only [short, hmem, true_and, Option.some.injEq]
  constructor
  · refine fun h => ⟨fun hfits => (h m.value).2 ⟨rfl, hfits⟩, fun hfits w hw => ?_⟩
    obtain ⟨rfl, hw⟩ := (h w).1 hw
    exact hfits hw
  · refine fun h w => ⟨fun hw => ?_, ?_⟩
    · by_cases hfits : m.value.Fits
      · obtain rfl := (h.1 hfits).unique hw
        exact ⟨rfl, hfits⟩
      · exact absurd hw (h.2 hfits w)
    · rintro ⟨rfl, hfits⟩
      exact h.1 hfits

/-- At the name of the member, the value is served when the member is compact. -/
theorem served_name_iff {o : JsonObject} {before after : List Member} {m : Member}
    (split : o.members = before ++ m :: after) :
    Served (o.text.drop ((o.textBefore before m).length + m.name.length + 2)) m.value ↔
      m.Compact := by
  obtain ⟨rest, hclosed, htext⟩ := JsonObject.text_split split
  have hlen : (o.textBefore before m).length + m.name.length + 2 =
      (o.textBefore before m ++ (0x22 :: (m.name ++ [0x22]))).length := by
    simp
    omega
  rw [hlen, htext, List.drop_left]
  exact m.served_tail_iff hclosed

/-- **The extractors agree with a flat object about a key exactly when its text is legible for
that key.** -/
theorem agrees_iff (o : JsonObject) (key : Bytes) : Agrees o key ↔ Legible o key := by
  by_cases hno : ∀ m ∈ o.members, m.name ≠ key
  · have hlookup := JsonObject.lookup_eq_none_iff.2 hno
    have hmem : ¬ ∃ m ∈ o.members, m.name = key := fun ⟨m, hm, hname⟩ => hno m hm hname
    have hsplit : ∀ {before after : List Member} {m : Member},
        o.members = before ++ m :: after → m.name ≠ key := fun h => hno _ (by simp [h])
    by_cases hshort : key.length ≤ 37
    · have hfree : strstr (pattern key) o.text = none ↔
          ¬ (0x22 :: (key ++ [0x22])) <:+: o.text := by
        rw [pattern_of_short hshort, strstr_eq_none_iff]
      constructor
      · intro hagrees
        refine .absent hno hshort (hfree.1 ?_)
        cases hfound : strstr (pattern key) o.text with
        | none => rfl
        | some i => exact absurd (((agrees_iff_of_found hfound).1 hagrees).1.1 hshort) hmem
      · intro hlegible
        cases hlegible with
        | absent _ _ free => exact (agrees_iff_of_not_found (hfree.2 free)).2 hno
        | cut _ long _ => omega
        | first split name => exact absurd name (hsplit split)
        | earlier split name => exact absurd name (hsplit split)
    · have hlong : 37 < key.length := Nat.not_le.1 hshort
      constructor
      · intro hagrees
        refine .cut hno hlong fun i hi w hw => ?_
        have := ((agrees_iff_of_found hi).1 hagrees).2 w
        rw [length_pattern_of_long hlong, hlookup] at this
        exact absurd (this.1 hw).1 (by simp)
      · intro hlegible
        cases hlegible with
        | absent _ short _ => omega
        | cut _ _ free =>
          cases hfound : strstr (pattern key) o.text with
          | none => exact (agrees_iff_of_not_found hfound).2 hno
          | some i =>
            refine (agrees_iff_of_found hfound).2 ⟨by simp [hshort, hmem], fun w => ?_⟩
            rw [length_pattern_of_long hlong, hlookup]
            simp [free i hfound w]
        | first _ _ short _ _ => omega
        | earlier _ _ short _ _ _ => omega
  · have hmem : ∃ m ∈ o.members, m.name = key := by simpa using hno
    obtain ⟨m, hm, rfl⟩ := hmem
    obtain ⟨before, after, split⟩ := List.append_of_mem hm
    constructor
    · intro hagrees
      cases hfound : strstr (pattern m.name) o.text with
      | none => exact absurd ((agrees_iff_of_not_found hfound).1 hagrees) hno
      | some i =>
        have hshort := ((agrees_iff_of_found hfound).1 hagrees).1.2 ⟨m, hm, rfl⟩
        have hserved := (agrees_iff_served split hshort hfound).1 hagrees
        by_cases hi : i = (o.textBefore before m).length
        · subst hi
          exact .first split rfl hshort hfound ((served_name_iff split).1 hserved)
        · exact .earlier split rfl hshort hfound hi hserved
    · intro hlegible
      cases hlegible with
      | absent no _ _ => exact absurd no hno
      | cut no _ _ => exact absurd no hno
      | first split' name short found compact =>
        rw [← name] at found short ⊢
        exact (agrees_iff_served split' short found).2 ((served_name_iff split').2 compact)
      | earlier split' name short found _ served =>
        rw [← name] at found short served ⊢
        exact (agrees_iff_served split' short found).2 served

/-- `{"username":"role"}`. -/
def roleAsName : JsonObject where
  lead := []
  members := [⟨[], ascii "username", [], [], .string (ascii "role"), [], by simp, by decide,
    (by decide : Plain (ascii "role"))⟩]
  inner := []
  trail := []
  white := by simp
  distinct := by simp

/-- The value `"role"` passes for a member of that name. -/
theorem role_found : ¬ ∀ (o : JsonObject) (key : Bytes), Agrees o key := by
  intro h
  have hkey := (h roleAsName (ascii "role")).hasKey.1 (by decide +kernel)
  simp only [roleAsName, List.mem_singleton, exists_eq_left] at hkey
  exact absurd hkey (by decide)

end HealthCheck.ApiService
