import HealthCheck.Lib.Lines

/-!
# Reading JSON texts

A reader of JSON texts: strings, integers, booleans, arrays and objects, with white space between
any two tokens. It accepts a part of JSON only (no fractions, no exponents, no `\u` escapes and no
`null`), so a text it accepts is a complete and well-formed JSON text.

* `Json`, `parse` — the values and the reader.
* `Spells` — a text is read as a value wherever it stands.
* `spells_string`, `spells_number`, `spells_boolean`, `spells_array`, `spells_object` — how texts
  of values are put together.
-/

namespace JsonText

open CString

/-! ## Values and the reader -/

/-- A JSON value. The members of an object are kept in their order. -/
inductive Json where
  | string (text : Bytes)
  | number (n : ℤ)
  | boolean (b : Bool)
  | array (elements : List Json)
  | object (members : List (Bytes × Json))

/-- The white space of JSON. -/
def isBlank (c : UInt8) : Bool := c = 0x20 || c = 0x09 || c = 0x0D || c = 0x0A

def skip (text : Bytes) : Bytes := text.dropWhile isBlank

/-- What a character behind a backslash stands for. -/
def unescape (c : UInt8) : Option UInt8 :=
  if c = 0x22 ∨ c = 0x5C ∨ c = 0x2F then some c
  else if c = 0x62 then some 0x08
  else if c = 0x66 then some 0x0C
  else if c = 0x6E then some 0x0A
  else if c = 0x72 then some 0x0D
  else if c = 0x74 then some 0x09
  else none

/-- A string behind its first quote, and what follows its last. `escaped` is the state behind a
backslash. -/
def stringFrom : Bool → Bytes → Option (Bytes × Bytes)
  | _, [] => none
  | escaped, c :: text =>
    if escaped then
      (unescape c).bind fun e => (stringFrom false text).map fun (s, rest) => (e :: s, rest)
    else if c = 0x22 then some ([], text)
    else if c = 0x5C then stringFrom true text
    else if c < 0x20 then none
    else (stringFrom false text).map fun (s, rest) => (c :: s, rest)

def string (text : Bytes) : Option (Bytes × Bytes) := stringFrom false text

/-- An integer: a sign, and digits without a leading zero. -/
def number (text : Bytes) : Option (ℤ × Bytes) :=
  let negative := text.head? = some 0x2D
  let text := if negative then text.tail else text
  let digits := text.takeWhile isDigit
  if digits = [] ∨ digits.head? = some 0x30 ∧ digits ≠ [0x30] then none
  else some (if negative then -decimal digits else decimal digits, text.drop digits.length)

/-- The items of a list that has some, with commas between them, up to and with `close`. -/
def items {α : Type} (item : Bytes → Option (α × Bytes)) (close : UInt8) :
    ℕ → Bytes → Option (List α × Bytes)
  | 0, _ => none
  | n + 1, text =>
    (item text).bind fun (x, rest) =>
      match skip rest with
      | [] => none
      | c :: rest =>
        if c = close then some ([x], rest)
        else if c = 0x2C then (items item close n rest).map fun (xs, rest) => (x :: xs, rest)
        else none

/-- A list behind its opening bracket. -/
def list {α : Type} (item : Bytes → Option (α × Bytes)) (close : UInt8) (text : Bytes) :
    Option (List α × Bytes) :=
  match skip text with
  | [] => none
  | c :: rest => if c = close then some ([], rest) else items item close text.length text

/-- A member of an object: a name, a colon and a value. -/
def member {α : Type} (item : Bytes → Option (α × Bytes)) (text : Bytes) :
    Option ((Bytes × α) × Bytes) :=
  match skip text with
  | [] => none
  | c :: text =>
    if c = 0x22 then
      (string text).bind fun (name, rest) =>
        match skip rest with
        | [] => none
        | c :: rest =>
          if c = 0x3A then (item rest).map fun (v, rest) => ((name, v), rest) else none
    else none

/-- A value of at most the given depth, and what follows it. -/
def value : ℕ → Bytes → Option (Json × Bytes)
  | 0, _ => none
  | n + 1, text =>
    match skip text with
    | [] => none
    | c :: text =>
      if c = 0x22 then (string text).map fun (s, rest) => (.string s, rest)
      else if c = 0x5B then (list (value n) 0x5D text).map fun (l, rest) => (.array l, rest)
      else if c = 0x7B then
        (list (member (value n)) 0x7D text).map fun (l, rest) => (.object l, rest)
      else if c = 0x74 then
        if ascii "rue" <+: text then some (.boolean true, text.drop 3) else none
      else if c = 0x66 then
        if ascii "alse" <+: text then some (.boolean false, text.drop 4) else none
      else (number (c :: text)).map fun (i, rest) => (.number i, rest)

/-- The value of a JSON text. -/
def parse (text : Bytes) : Option Json :=
  (value text.length text).bind fun (v, rest) => if skip rest = [] then some v else none

/-! ## Spelling a value -/

/-- **A text of a value**: the reader takes exactly this text for the value, whatever follows that
does not continue a number. -/
def Spells (text : Bytes) (v : Json) : Prop :=
  ∀ n rest, text.length ≤ n → (∀ c ∈ rest.head?, ¬ isDigit c) →
    value n (text ++ rest) = some (v, rest)

theorem Spells.parse {text : Bytes} {v : Json} (h : Spells text v) : parse text = some v := by
  have hread := h text.length [] (Nat.le_refl _) (by simp)
  rw [List.append_nil] at hread
  rw [JsonText.parse, hread]
  rfl

/-- Nothing is read from an empty text. -/
theorem Spells.ne_nil {text : Bytes} {v : Json} (h : Spells text v) : text ≠ [] := by
  rintro rfl
  have hread := h 0 [] (Nat.le_refl _) (by simp)
  simp [value] at hread

theorem skip_cons {c : UInt8} {text : Bytes} (hc : ¬ isBlank c) : skip (c :: text) = c :: text :=
  List.dropWhile_cons_of_neg hc

/-! ### Strings -/

/-- A text without quotes, backslashes and control characters. -/
def Plain (text : Bytes) : Prop := ∀ c ∈ text, c ≠ 0x22 ∧ c ≠ 0x5C ∧ 0x20 ≤ c

/-- A text with a backslash before each quote and each backslash. -/
def escape (text : Bytes) : Bytes :=
  text.flatMap fun c => if c = 0x22 ∨ c = 0x5C then [0x5C, c] else [c]

def quoted (text : Bytes) : Bytes := 0x22 :: (text ++ [0x22])

theorem zero_notMem_of_plain {text : Bytes} (h : Plain text) : 0 ∉ text := fun hzero =>
  absurd (h 0 hzero).2.2 (by decide)

theorem escape_of_plain {text : Bytes} (h : Plain text) : escape text = text := by
  induction text with
  | nil => rfl
  | cons c text ih =>
    obtain ⟨⟨hquote, hslash, -⟩, hrest⟩ := List.forall_mem_cons.1 h
    rw [escape, List.flatMap_cons, if_neg (by simp [hquote, hslash]), List.singleton_append]
    exact congrArg (c :: ·) (ih hrest)

theorem string_escape {text : Bytes} (h : ∀ c ∈ text, 0x20 ≤ c) (rest : Bytes) :
    string (escape text ++ 0x22 :: rest) = some (text, rest) := by
  unfold string
  induction text with
  | nil => rfl
  | cons c text ih =>
    obtain ⟨hc, hrest⟩ := List.forall_mem_cons.1 h
    have htail : stringFrom false (escape text ++ 0x22 :: rest) = some (text, rest) := ih hrest
    rw [escape, List.flatMap_cons]
    change stringFrom false
      ((if c = 0x22 ∨ c = 0x5C then [0x5C, c] else [c]) ++ escape text ++ 0x22 :: rest) =
        some (c :: text, rest)
    by_cases hspecial : c = 0x22 ∨ c = 0x5C
    · have hunescape : unescape c = some c := if_pos (by tauto)
      rw [if_pos hspecial]
      show stringFrom true (c :: (escape text ++ 0x22 :: rest)) = some (c :: text, rest)
      rw [stringFrom, if_pos rfl, hunescape, Option.bind_some, htail]
      rfl
    · rw [if_neg hspecial]
      show stringFrom false (c :: (escape text ++ 0x22 :: rest)) = some (c :: text, rest)
      rw [not_or] at hspecial
      rw [stringFrom, if_neg (by decide), if_neg hspecial.1, if_neg hspecial.2,
        if_neg (UInt8.not_lt.2 hc), htail]
      rfl

theorem string_plain {text : Bytes} (h : Plain text) (rest : Bytes) :
    string (text ++ 0x22 :: rest) = some (text, rest) := by
  have hread := string_escape (fun c hc => (h c hc).2.2) rest
  rwa [escape_of_plain h] at hread

theorem value_quote {n : ℕ} {s text rest : Bytes} (h : string text = some (s, rest)) :
    value (n + 1) (0x22 :: text) = some (.string s, rest) := by
  simp only [value, skip_cons (by decide : ¬ isBlank 0x22), if_true, h, Option.map_some]

/-- **A string with its quotes and backslashes escaped.** -/
theorem spells_escape {text : Bytes} (h : ∀ c ∈ text, 0x20 ≤ c) :
    Spells (quoted (escape text)) (.string text) := by
  intro n rest hn _
  obtain ⟨n, rfl⟩ : ∃ k, n = k + 1 := ⟨n - 1, by rw [quoted, List.length_cons] at hn; omega⟩
  have hread := string_escape h rest
  rw [quoted, List.cons_append, List.append_assoc]
  exact value_quote hread

/-- **A string that needs no escapes.** -/
theorem spells_string {text : Bytes} (h : Plain text) : Spells (quoted text) (.string text) := by
  have hescape := spells_escape fun c hc => (h c hc).2.2
  rwa [escape_of_plain h] at hescape

/-! ### Numbers and booleans -/

/-- `%ld`. -/
def integerText (n : ℤ) : Bytes := ascii (toString n)

theorem integerText_negSucc (n : ℕ) : integerText (.negSucc n) = 0x2D :: decimalText (n + 1) := by
  have htext : (toString (Int.negSucc n)).toList = '-' :: (toString (n + 1)).toList := by
    show ("-" ++ Nat.repr (n + 1)).toList = _
    rw [String.toList_append]
    rfl
  rw [integerText, ascii, htext]
  rfl

/-- How long the text of an integer is, with its sign. -/
theorem length_integerText_le {i : ℤ} {k : ℕ} (hk : 0 < k) (h : i.natAbs < 10 ^ k) :
    (integerText i).length ≤ k + 1 := by
  cases i with
  | ofNat n => exact Nat.le_succ_of_le (length_decimalText_le hk h)
  | negSucc n =>
    rw [integerText_negSucc, List.length_cons]
    exact Nat.succ_le_succ (length_decimalText_le hk h)

/-- The digits of a number are read as this number. -/
theorem takeWhile_decimalText (n : ℕ) {rest : Bytes} (hrest : ∀ c ∈ rest.head?, ¬ isDigit c) :
    (decimalText n ++ rest).takeWhile isDigit = decimalText n := by
  rw [List.takeWhile_append_of_pos (decimalText_spec n).2.1]
  cases rest with
  | nil => simp
  | cons c rest => simp [hrest c rfl]

theorem not_leading (n : ℕ) :
    ¬(decimalText n = [] ∨ (decimalText n).head? = some 0x30 ∧ decimalText n ≠ [0x30]) := by
  rintro (hnil | ⟨hzero, hne⟩)
  · exact (decimalText_spec n).1 hnil
  · exact hne (decimalText_leading n hzero)

theorem head_decimalText (n : ℕ) : ∃ d digits, decimalText n = d :: digits ∧ isDigit d := by
  obtain ⟨d, digits, htext⟩ := List.exists_cons_of_ne_nil (decimalText_spec n).1
  exact ⟨d, digits, htext, (decimalText_spec n).2.1 d (htext ▸ List.mem_cons_self)⟩

theorem number_decimalText (n : ℕ) {rest : Bytes} (hrest : ∀ c ∈ rest.head?, ¬ isDigit c) :
    number (decimalText n ++ rest) = some ((n : ℤ), rest) := by
  obtain ⟨d, digits, htext, hd⟩ := head_decimalText n
  have hplus : ¬ (decimalText n ++ rest).head? = some 0x2D := by
    rw [htext, List.cons_append, List.head?_cons, Option.some.injEq]
    rintro rfl
    exact absurd hd (by decide)
  simp only [number, if_neg hplus, takeWhile_decimalText n hrest, if_neg (not_leading n),
    List.drop_left, (decimalText_spec n).2.2]

theorem number_negative (n : ℕ) {rest : Bytes} (hrest : ∀ c ∈ rest.head?, ¬ isDigit c) :
    number (0x2D :: (decimalText n ++ rest)) = some (-(n : ℤ), rest) := by
  simp only [number, List.head?_cons, if_true, List.tail_cons, takeWhile_decimalText n hrest,
    if_neg (not_leading n), List.drop_left, (decimalText_spec n).2.2]

/-- What starts a number starts nothing else. -/
theorem value_number {n : ℕ} {i : ℤ} {c : UInt8} {text rest : Bytes} (hc : isDigit c ∨ c = 0x2D)
    (h : number (c :: text) = some (i, rest)) :
    value (n + 1) (c :: text) = some (.number i, rest) := by
  have hblank : ¬ isBlank c := by
    rcases hc with hdigit | rfl
    · intro hblank
      simp only [isBlank, Bool.or_eq_true, decide_eq_true_eq] at hblank
      rcases hblank with ((rfl | rfl) | rfl) | rfl <;> exact absurd hdigit (by decide)
    · decide
  have hother : ∀ d : UInt8, ¬ isDigit d → d ≠ 0x2D → c ≠ d := by
    rintro d hd hd' rfl
    exact hc.elim hd hd'
  simp only [value, skip_cons hblank]
  rw [if_neg (hother _ (by decide) (by decide)), if_neg (hother _ (by decide) (by decide)),
    if_neg (hother _ (by decide) (by decide)), if_neg (hother _ (by decide) (by decide)),
    if_neg (hother _ (by decide) (by decide)), h, Option.map_some]

theorem spells_integer (i : ℤ) : Spells (integerText i) (.number i) := by
  intro n rest hn hrest
  cases i with
  | ofNat k =>
    obtain ⟨d, digits, htext, hd⟩ := head_decimalText k
    have hread := number_decimalText k hrest
    change (decimalText k).length ≤ n at hn
    show value n (decimalText k ++ rest) = some (.number k, rest)
    rw [htext] at hn hread ⊢
    obtain ⟨n, rfl⟩ : ∃ m, n = m + 1 := ⟨n - 1, by rw [List.length_cons] at hn; omega⟩
    exact value_number (.inl hd) hread
  | negSucc k =>
    have hread := number_negative (k + 1) hrest
    rw [integerText_negSucc] at hn ⊢
    obtain ⟨n, rfl⟩ : ∃ m, n = m + 1 := ⟨n - 1, by rw [List.length_cons] at hn; omega⟩
    exact value_number (.inr rfl) hread

theorem spells_number (n : ℕ) : Spells (decimalText n) (.number n) := spells_integer n

theorem spells_boolean (b : Bool) :
    Spells (if b then ascii "true" else ascii "false") (.boolean b) := by
  intro n rest hn _
  cases b with
  | true =>
    obtain ⟨n, rfl⟩ : ∃ m, n = m + 1 := ⟨n - 1, by change 4 ≤ n at hn; omega⟩
    show value (n + 1) (0x74 :: (ascii "rue" ++ rest)) = _
    simp only [value, skip_cons (by decide : ¬ isBlank 0x74)]
    rw [if_neg (by decide), if_neg (by decide), if_neg (by decide), if_pos trivial,
      if_pos (List.prefix_append ..)]
    rfl
  | false =>
    obtain ⟨n, rfl⟩ : ∃ m, n = m + 1 := ⟨n - 1, by change 5 ≤ n at hn; omega⟩
    show value (n + 1) (0x66 :: (ascii "alse" ++ rest)) = _
    simp only [value, skip_cons (by decide : ¬ isBlank 0x66)]
    rw [if_neg (by decide), if_neg (by decide), if_neg (by decide), if_neg (by decide),
      if_pos trivial, if_pos (List.prefix_append ..)]
    rfl

/-! ### Lists and objects -/

/-- Items with commas between them, up to the bracket that closes them. -/
theorem items_intercalate {α β : Type} {item : Bytes → Option (α × Bytes)} {close : UInt8}
    (hclose : close ≠ 0x2C ∧ ¬ isBlank close) {text : β → Bytes} {val : β → α} {xs : List β}
    (hne : xs ≠ []) (h : ∀ x ∈ xs, ∀ c rest, c = 0x2C ∨ c = close →
      item (text x ++ c :: rest) = some (val x, c :: rest)) (rest : Bytes) :
    ∀ {n}, xs.length ≤ n →
      items item close n ([0x2C].intercalate (xs.map text) ++ close :: rest) =
        some (xs.map val, rest) := by
  induction xs with
  | nil => exact absurd rfl hne
  | cons x xs ih =>
    intro n hn
    obtain ⟨n, rfl⟩ : ∃ k, n = k + 1 := ⟨n - 1, by rw [List.length_cons] at hn; omega⟩
    obtain ⟨hx, hxs⟩ := List.forall_mem_cons.1 h
    cases xs with
    | nil =>
      have hread := hx close rest (.inr rfl)
      rw [List.map_singleton, List.intercalate_singleton, items, hread, Option.bind_some]
      simp only [skip_cons hclose.2, if_true, List.map_singleton]
    | cons y ys =>
      have hread := hx 0x2C ([0x2C].intercalate ((y :: ys).map text) ++ close :: rest) (.inl rfl)
      have hrest := ih (by simp) hxs (Nat.le_of_succ_le_succ hn)
      have hsplit : [0x2C].intercalate ((x :: y :: ys).map text) ++ close :: rest =
          text x ++ 0x2C :: ([0x2C].intercalate ((y :: ys).map text) ++ close :: rest) := by
        simp [List.intercalate_cons_cons, List.append_assoc]
      rw [hsplit, items, hread, Option.bind_some]
      simp only [skip_cons (by decide : ¬ isBlank 0x2C), if_neg (Ne.symm hclose.1), if_true]
      rw [hrest]
      rfl

/-- The items are parts of the text, and there are commas between them. -/
theorem length_le_intercalate {texts : List Bytes} (h : ∀ t ∈ texts, t ≠ []) :
    texts.length ≤ ([0x2C].intercalate texts).length ∧
      ∀ t ∈ texts, t.length ≤ ([0x2C].intercalate texts).length := by
  induction texts with
  | nil => simp
  | cons t texts ih =>
    obtain ⟨ht, hrest⟩ := List.forall_mem_cons.1 h
    have hpos := List.length_pos_iff.2 ht
    cases texts with
    | nil =>
      rw [List.intercalate_singleton, List.forall_mem_singleton, List.length_singleton]
      exact ⟨hpos, Nat.le_refl _⟩
    | cons u us =>
      obtain ⟨hlength, hparts⟩ := ih hrest
      rw [List.intercalate_cons_cons, List.length_append, List.length_append, List.length_singleton,
        List.length_cons]
      refine ⟨by omega, List.forall_mem_cons.2 ⟨by omega, fun v hv => ?_⟩⟩
      have := hparts v hv
      omega

theorem skip_append {text : Bytes} {c : UInt8} {t : Bytes} (h : skip text = c :: t)
    (rest : Bytes) : skip (text ++ rest) = c :: (t ++ rest) := by
  have hne : ¬(text.dropWhile isBlank).isEmpty := by
    change ¬(skip text).isEmpty
    simp [h]
  rw [skip, List.dropWhile_append, if_neg hne]
  exact congrArg (· ++ rest) h

/-- A list in its brackets. -/
theorem list_intercalate {α β : Type} {item : Bytes → Option (α × Bytes)} {close : UInt8}
    (hclose : close ≠ 0x2C ∧ ¬ isBlank close) {text : β → Bytes} {val : β → α} {xs : List β}
    (h : ∀ x ∈ xs, ∀ c rest, c = 0x2C ∨ c = close →
      item (text x ++ c :: rest) = some (val x, c :: rest))
    (hhead : ∀ x ∈ xs, ∃ c t, skip (text x) = c :: t ∧ c ≠ close) (rest : Bytes) :
    list item close ([0x2C].intercalate (xs.map text) ++ close :: rest) =
      some (xs.map val, rest) := by
  cases xs with
  | nil =>
    rw [List.map_nil, List.intercalate_nil, List.nil_append, list]
    simp only [skip_cons hclose.2, if_true, List.map_nil]
  | cons x xs =>
    have hnil : ∀ u ∈ (x :: xs).map text, u ≠ [] := by
      intro u hu
      obtain ⟨y, hy, rfl⟩ := List.mem_map.1 hu
      obtain ⟨d, v, hv, -⟩ := hhead y hy
      intro hempty
      rw [hempty] at hv
      exact absurd hv (by simp [skip])
    have hlength := (length_le_intercalate hnil).1
    rw [List.length_map] at hlength
    have hitems : items item close ([0x2C].intercalate ((x :: xs).map text) ++ close :: rest).length
        ([0x2C].intercalate ((x :: xs).map text) ++ close :: rest) =
          some ((x :: xs).map val, rest) :=
      items_intercalate hclose (List.cons_ne_nil x xs) h rest (by rw [List.length_append]; omega)
    obtain ⟨c, t, htext, hne⟩ := hhead x List.mem_cons_self
    -- the first item shows that the list is not empty
    obtain ⟨u, hu⟩ :
        ∃ u, skip ([0x2C].intercalate ((x :: xs).map text) ++ close :: rest) = c :: u := by
      cases xs with
      | nil =>
        rw [List.map_singleton, List.intercalate_singleton]
        exact ⟨_, skip_append htext _⟩
      | cons y ys =>
        rw [List.map_cons, List.map_cons, List.intercalate_cons_cons, List.append_assoc,
          List.append_assoc]
        exact ⟨_, skip_append htext _⟩
    rw [list, hu]
    simp only [if_neg hne, hitems]

/-- The first character of a value opens it, and closes nothing. -/
theorem Spells.head {text : Bytes} {v : Json} (h : Spells text v) :
    ∃ c t, skip text = c :: t ∧ c ≠ 0x5D ∧ c ≠ 0x7D := by
  obtain ⟨n, hn⟩ : ∃ n, text.length = n + 1 :=
    Nat.exists_eq_succ_of_ne_zero (List.length_pos_iff.2 h.ne_nil).ne'
  have hread := h text.length [] (Nat.le_refl _) (by simp)
  rw [List.append_nil, hn, value] at hread
  cases hskip : skip text with
  | nil => simp [hskip] at hread
  | cons c t =>
    refine ⟨c, t, rfl, ?_, ?_⟩
    · rintro rfl
      simp [hskip, number, isDigit] at hread
    · rintro rfl
      simp [hskip, number, isDigit] at hread

theorem brackets {c : UInt8} (hc : c = 0x2C ∨ c = 0x5D ∨ c = 0x7D) : ¬ isDigit c := by
  rcases hc with rfl | rfl | rfl <;> decide

/-- **An array**, from the texts of its elements. -/
theorem spells_array {β : Type} {xs : List β} {text : β → Bytes} {v : β → Json}
    (h : ∀ x ∈ xs, Spells (text x) (v x)) :
    Spells (0x5B :: ([0x2C].intercalate (xs.map text) ++ [0x5D])) (.array (xs.map v)) := by
  intro n rest hn _
  obtain ⟨n, rfl⟩ : ∃ m, n = m + 1 := ⟨n - 1, by rw [List.length_cons] at hn; omega⟩
  rw [List.length_cons, List.length_append, List.length_singleton] at hn
  have hparts : ∀ t ∈ xs.map text, t.length ≤ ([0x2C].intercalate (xs.map text)).length :=
    (length_le_intercalate (by simpa using fun x hx => (h x hx).ne_nil)).2
  have hlist : list (value n) 0x5D ([0x2C].intercalate (xs.map text) ++ 0x5D :: rest) =
      some (xs.map v, rest) := by
    refine list_intercalate (by decide) (fun x hx c rest hc => ?_) (fun x hx => ?_) rest
    · have := hparts (text x) (List.mem_map_of_mem hx)
      refine h x hx n (c :: rest) (by omega) fun d hd => ?_
      rw [List.head?_cons, Option.mem_some_iff] at hd
      exact hd ▸ brackets (by tauto)
    · obtain ⟨c, t, hskip, hne, -⟩ := (h x hx).head
      exact ⟨c, t, hskip, hne⟩
  rw [List.cons_append, List.append_assoc, List.singleton_append]
  simp only [value, skip_cons (by decide : ¬ isBlank 0x5B)]
  rw [if_neg (by decide), if_pos trivial, hlist]
  rfl

/-- **An object**, from the names and the texts of its members. -/
theorem spells_object {β : Type} {ms : List β} (name text : β → Bytes) (v : β → Json)
    (h : ∀ m ∈ ms, Plain (name m) ∧ Spells (text m) (v m)) :
    Spells (0x7B ::
        ([0x2C].intercalate (ms.map fun m => quoted (name m) ++ 0x3A :: text m) ++ [0x7D]))
      (.object (ms.map fun m => (name m, v m))) := by
  intro n rest hn _
  obtain ⟨n, rfl⟩ : ∃ k, n = k + 1 := ⟨n - 1, by rw [List.length_cons] at hn; omega⟩
  rw [List.length_cons, List.length_append, List.length_singleton] at hn
  have hnil : ∀ t ∈ ms.map fun m => quoted (name m) ++ 0x3A :: text m, t ≠ [] := by simp [quoted]
  have hparts := (length_le_intercalate hnil).2
  have hlist : list (member (value n)) 0x7D
      ([0x2C].intercalate (ms.map fun m => quoted (name m) ++ 0x3A :: text m) ++ 0x7D :: rest) =
        some (ms.map fun m => (name m, v m), rest) := by
    refine list_intercalate (by decide) (fun m hm c rest hc => ?_) (fun m hm => ?_) rest
    · obtain ⟨hname, htext⟩ := h m hm
      have hlength := hparts _ (List.mem_map_of_mem hm)
      rw [List.length_append, List.length_cons] at hlength
      have hread : value n (text m ++ c :: rest) = some (v m, c :: rest) := by
        refine htext n (c :: rest) (by omega) fun d hd => ?_
        rw [List.head?_cons, Option.mem_some_iff] at hd
        exact hd ▸ brackets (by tauto)
      have hstring : string (name m ++ 0x22 :: (0x3A :: (text m ++ c :: rest))) =
          some (name m, 0x3A :: (text m ++ c :: rest)) := string_plain hname _
      have hsplit : quoted (name m) ++ 0x3A :: text m ++ c :: rest =
          0x22 :: (name m ++ 0x22 :: (0x3A :: (text m ++ c :: rest))) := by
        simp [quoted]
      rw [hsplit, member]
      simp only [skip_cons (by decide : ¬ isBlank 0x22), if_true, hstring, Option.bind_some,
        skip_cons (by decide : ¬ isBlank 0x3A), hread, Option.map_some]
    · refine ⟨0x22, name m ++ [0x22] ++ 0x3A :: text m, ?_, by decide⟩
      show skip (0x22 :: (name m ++ [0x22] ++ 0x3A :: text m)) = _
      exact skip_cons (by decide)
  rw [List.cons_append, List.append_assoc, List.singleton_append]
  simp only [value, skip_cons (by decide : ¬ isBlank 0x7B)]
  rw [if_neg (by decide), if_neg (by decide), if_pos trivial, hlist]
  rfl

end JsonText
