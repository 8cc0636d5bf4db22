import HealthCheck.Lib.CString

/-!
# Texts made of lines

A text whose lines are separated by CRLF and whose readers look for `"\r\n"` followed by the
name of a field, or for the empty line that ends a header. On such a text both searches find
what they should: the first line that starts with the name (`strstr_field`, `strstr_no_field`)
and the end of the last line (`strstr_blank`).

A number written in decimal is read back by `strtoul` (`strtoul_decimal`).
-/

namespace CString

/-! ## Searching past what cannot match -/

theorem strstr_of_startsWith {pattern text : Bytes} (h : pattern <+: text) :
    strstr pattern text = some 0 := by
  cases text with
  | nil => simp [strstr, List.prefix_nil.1 h]
  | cons c text => rw [strstr, if_pos (List.isPrefixOf_iff_prefix.2 h)]

theorem strstr_cons_of_not_startsWith {pattern text : Bytes} {c : UInt8}
    (h : ¬ pattern <+: c :: text) :
    strstr pattern (c :: text) = (strstr pattern text).map (· + 1) := by
  rw [strstr, if_neg (by rwa [List.isPrefixOf_iff_prefix])]

/-- A stretch of text without the first character of the pattern holds no occurrence. -/
theorem strstr_append_of_notMem {c : UInt8} {pattern text : Bytes} (h : c ∉ text)
    (rest : Bytes) : strstr (c :: pattern) (text ++ rest) =
      (strstr (c :: pattern) rest).map (· + text.length) := by
  induction text with
  | nil => simp
  | cons d text ih =>
    simp only [List.mem_cons, not_or] at h
    have hne : ¬ c :: pattern <+: d :: (text ++ rest) := fun hp =>
      h.1 (List.cons_prefix_cons.1 hp).1
    rw [List.cons_append, strstr_cons_of_not_startsWith hne, ih h.2, Option.map_map]
    rfl

/-! ## Lines -/

/-- `"\r\n"`. -/
def crlf : Bytes := [0x0D, 0x0A]

/-- A line: neither of the characters that end lines occurs in it. -/
def IsLine (text : Bytes) : Prop := 0x0D ∉ text ∧ 0x0A ∉ text

instance (text : Bytes) : Decidable (IsLine text) :=
  inferInstanceAs (Decidable (0x0D ∉ text ∧ 0x0A ∉ text))

/-- The lines behind a first one, each behind its CRLF. -/
def following (lines : List Bytes) : Bytes := lines.flatMap (crlf ++ ·)

@[simp] theorem following_nil : following [] = [] := rfl

theorem following_cons (line : Bytes) (lines : List Bytes) :
    following (line :: lines) = crlf ++ line ++ following lines := rfl

theorem following_append (a b : List Bytes) :
    following (a ++ b) = following a ++ following b := List.flatMap_append ..

/-- The lines are over where the text is, or where the next CRLF stands. -/
theorem following_head (lines : List Bytes) : following lines = [] ∨
    ∃ rest, following lines = 0x0D :: rest := by
  cases lines with
  | nil => exact .inl rfl
  | cons line lines => exact .inr ⟨_, rfl⟩

/-- A name without a CR does not run over the end of a line. -/
theorem prefix_line_append_iff {name line rest : Bytes} (hname : 0x0D ∉ name)
    (hrest : rest = [] ∨ ∃ t, rest = 0x0D :: t) : name <+: line ++ rest ↔ name <+: line := by
  refine ⟨fun h => ?_, fun h => h.trans (List.prefix_append ..)⟩
  rcases hrest with rfl | ⟨t, rfl⟩
  · rwa [List.append_nil] at h
  · refine List.prefix_of_prefix_length_le h (List.prefix_append ..) ?_
    by_contra hlt
    obtain ⟨u, hu⟩ := h
    have hlt' : line.length < name.length := by omega
    have hget : (name ++ u)[line.length]? = some 0x0D := by rw [hu]; simp
    rw [List.getElem?_append_left hlt'] at hget
    exact hname (List.mem_of_getElem? hget)

/-- Nothing that starts with CRLF occurs in a stretch of text without a CR. -/
theorem strstr_crlf_append {name text : Bytes} (h : 0x0D ∉ text) (rest : Bytes) :
    strstr (crlf ++ name) (text ++ rest) =
      (strstr (crlf ++ name) rest).map (· + text.length) :=
  strstr_append_of_notMem h rest

/-- What does not occur at the start of a line does not occur in it. -/
theorem strstr_line_of_not_startsWith {name line rest : Bytes} (hline : IsLine line)
    (h : ¬ crlf ++ name <+: crlf ++ line ++ rest) :
    strstr (crlf ++ name) (crlf ++ line ++ rest) =
      (strstr (crlf ++ name) rest).map (· + (crlf ++ line).length) := by
  have hskip : (0x0D : UInt8) ∉ 0x0A :: line := by
    simp only [List.mem_cons, not_or]
    exact ⟨by decide, hline.1⟩
  have hsplit : crlf ++ line ++ rest = 0x0D :: (0x0A :: line ++ rest) := rfl
  rw [hsplit] at h ⊢
  rw [strstr_cons_of_not_startsWith h, strstr_crlf_append hskip, Option.map_map]
  rfl

theorem crlf_prefix_iff {name line rest : Bytes} :
    crlf ++ name <+: crlf ++ line ++ rest ↔ name <+: line ++ rest := by
  rw [List.append_assoc, List.prefix_append_right_inj]

/-- No line starts with the name: the search fails. -/
theorem strstr_no_field {name first : Bytes} {lines : List Bytes} (hname : 0x0D ∉ name)
    (hfirst : 0x0D ∉ first) (hlines : ∀ line ∈ lines, IsLine line)
    (hno : ∀ line ∈ lines, ¬ name <+: line) :
    strstr (crlf ++ name) (first ++ following lines) = none := by
  rw [strstr_crlf_append hfirst, Option.map_eq_none_iff]
  induction lines with
  | nil => rfl
  | cons line lines ih =>
    simp only [List.forall_mem_cons] at hlines hno
    have hnot : ¬ crlf ++ name <+: crlf ++ line ++ following lines := by
      rw [crlf_prefix_iff, prefix_line_append_iff hname (following_head lines)]
      exact hno.1
    rw [following_cons, strstr_line_of_not_startsWith hlines.1 hnot, ih hlines.2 hno.2]
    rfl

/-- The search finds the first line that starts with the name. -/
theorem strstr_field {name first line : Bytes} {before after : List Bytes}
    (hname : 0x0D ∉ name) (hfirst : 0x0D ∉ first) (hlines : ∀ l ∈ before, IsLine l)
    (hno : ∀ l ∈ before, ¬ name <+: l) (hline : name <+: line) :
    strstr (crlf ++ name) (first ++ following (before ++ line :: after)) =
      some (first.length + (following before).length) := by
  rw [strstr_crlf_append hfirst]
  suffices h : strstr (crlf ++ name) (following (before ++ line :: after)) =
      some (following before).length by
    rw [h, Option.map_some, Nat.add_comm]
  induction before with
  | nil =>
    refine strstr_of_startsWith ?_
    show crlf ++ name <+: crlf ++ line ++ following after
    exact crlf_prefix_iff.2 (hline.trans (List.prefix_append ..))
  | cons l before ih =>
    simp only [List.forall_mem_cons] at hlines hno
    have hnot : ¬ crlf ++ name <+: crlf ++ l ++ following (before ++ line :: after) := by
      rw [crlf_prefix_iff, prefix_line_append_iff hname (following_head _)]
      exact hno.1
    rw [List.cons_append, following_cons, strstr_line_of_not_startsWith hlines.1 hnot,
      ih hlines.2 hno.2, following_cons, Option.map_some, @List.length_append _ (crlf ++ l),
      Nat.add_comm]

/-- The first empty line is the one behind the last line that is not. -/
theorem strstr_blank {first : Bytes} {lines : List Bytes} (hfirst : 0x0D ∉ first)
    (hlines : ∀ line ∈ lines, line ≠ [] ∧ IsLine line) :
    strstr (crlf ++ crlf) (first ++ following lines ++ (crlf ++ crlf)) =
      some (first ++ following lines).length := by
  rw [List.append_assoc, strstr_crlf_append hfirst]
  suffices h : strstr (crlf ++ crlf) (following lines ++ (crlf ++ crlf)) =
      some (following lines).length by
    rw [h, Option.map_some, List.length_append, Nat.add_comm]
  induction lines with
  | nil => exact strstr_of_startsWith (List.prefix_refl _)
  | cons line lines ih =>
    simp only [List.forall_mem_cons] at hlines
    obtain ⟨⟨hne, hline⟩, hrest⟩ := hlines
    have hnot : ¬ crlf ++ crlf <+: crlf ++ line ++ (following lines ++ (crlf ++ crlf)) := by
      obtain ⟨c, line, rfl⟩ := List.exists_cons_of_ne_nil hne
      rw [crlf_prefix_iff]
      intro hp
      have hc : 0x0D = c := (List.cons_prefix_cons.1 hp).1
      exact hline.1 (hc ▸ List.mem_cons_self)
    rw [following_cons, List.append_assoc, strstr_line_of_not_startsWith hline hnot, ih hrest,
      Option.map_some, @List.length_append _ (crlf ++ line), Nat.add_comm]

/-! ## Words and numbers -/

/-- `%<width>s` takes the next word, or as much of it as the width allows. -/
theorem scanWord_word (width : ℕ) (spaces : Bytes) {word : Bytes} {c : UInt8}
    (hwidth : 0 < width) (hspaces : ∀ d ∈ spaces, isSpace d) (hword : ∀ d ∈ word, ¬ isSpace d)
    (hne : word ≠ []) (hc : isSpace c) (rest : Bytes) :
    scanWord width (spaces ++ (word ++ c :: rest)) =
      some (word.take width, word.drop width ++ c :: rest) := by
  have hskip : (spaces ++ (word ++ c :: rest)).dropWhile isSpace = word ++ c :: rest := by
    obtain ⟨d, word, rfl⟩ := List.exists_cons_of_ne_nil hne
    rw [List.dropWhile_append_of_pos hspaces, List.cons_append,
      List.dropWhile_cons_of_neg (hword d List.mem_cons_self)]
  have htake : (word ++ c :: rest).takeWhile (!isSpace ·) = word := by
    rw [List.takeWhile_append_of_pos fun d hd => by simpa using hword d hd]
    simp [hc]
  have hsome : ¬ (word.take width).isEmpty := by
    rw [List.isEmpty_iff, List.take_eq_nil_iff]
    rintro (h | h)
    · exact hwidth.ne' h
    · exact hne h
  have hdrop : (word ++ c :: rest).drop (word.take width).length =
      word.drop width ++ c :: rest := by
    rw [List.length_take, List.drop_append_of_le_length (Nat.min_le_right ..)]
    by_cases hlen : width ≤ word.length
    · rw [Nat.min_eq_left hlen]
    · rw [Nat.min_eq_right (by omega), List.drop_length, List.drop_of_length_le (by omega)]
  simp only [scanWord, hskip, htake, if_neg hsome, hdrop]

/-- Digits behind white space, up to something that is not a digit, are read as the number they
denote. -/
theorem strtoul_decimal {spaces digits rest : Bytes} (hspaces : ∀ c ∈ spaces, isSpace c)
    (hdigits : ∀ c ∈ digits, isDigit c) (hne : digits ≠ [])
    (hrest : ∀ c ∈ rest.head?, ¬ isDigit c) (hlt : decimal digits < 2 ^ 32) :
    strtoul (spaces ++ digits ++ rest) = decimal digits := by
  obtain ⟨d, digits, rfl⟩ := List.exists_cons_of_ne_nil hne
  have hd : isDigit d := hdigits d List.mem_cons_self
  have hd' : 0x30 ≤ d.toNat ∧ d.toNat ≤ 0x39 := by
    simpa [isDigit, UInt8.le_iff_toNat_le] using hd
  have hdspace : ¬ isSpace d := by
    simp only [isSpace, Bool.or_eq_true, decide_eq_true_eq, Bool.and_eq_true, UInt8.le_iff_toNat_le,
      ← UInt8.toNat_inj]
    simp
    omega
  have hskip : (spaces ++ (d :: digits) ++ rest).dropWhile isSpace = d :: (digits ++ rest) := by
    rw [List.append_assoc, List.dropWhile_append_of_pos hspaces, List.cons_append,
      List.dropWhile_cons_of_neg hdspace]
  have hsign : d ≠ 0x2D ∧ d ≠ 0x2B := by
    constructor <;> rintro rfl <;> simp at hd'
  have htake : (d :: (digits ++ rest)).takeWhile isDigit = d :: digits := by
    rw [← List.cons_append, List.takeWhile_append_of_pos hdigits]
    cases rest with
    | nil => simp
    | cons c rest => simp [hrest c rfl]
  simp only [strtoul, hskip, List.head?_cons, Option.some.injEq, hsign.1, hsign.2, or_self,
    if_false, htake, if_neg (Nat.not_le.2 hlt)]

/-- The digits of a number as characters and as bytes denote the same. -/
theorem decimal_digitChars (digits : List Char) (hdigits : ∀ c ∈ digits, c.isDigit) :
    ∀ n, (digits.map fun c => UInt8.ofNat c.toNat).foldl
      (fun n c => n * 10 + (c.toNat - 0x30)) n = Nat.ofDigitChars 10 digits n := by
  induction digits with
  | nil => intro n; simp
  | cons c digits ih =>
    intro n
    simp only [List.forall_mem_cons] at hdigits
    have hc : c.toNat < 256 := by
      have := hdigits.1
      simp only [Char.isDigit, Bool.and_eq_true, decide_eq_true_eq, UInt32.le_iff_toNat_le] at this
      exact this.2.trans_lt (by decide)
    rw [List.map_cons, List.foldl_cons, ih hdigits.2, Nat.ofDigitChars_cons, Nat.mul_comm 10 n]
    congr 1
    simp [UInt8.toNat_ofNat', Nat.mod_eq_of_lt hc]

/-- A number is written in digits, and they denote it. -/
theorem decimalText_spec (n : ℕ) : decimalText n ≠ [] ∧ (∀ c ∈ decimalText n, isDigit c) ∧
    decimal (decimalText n) = n := by
  have htext : decimalText n = (Nat.toDigits 10 n).map fun c => UInt8.ofNat c.toNat := by
    simp [decimalText, ascii]
  have hdigits : ∀ c ∈ Nat.toDigits 10 n, c.isDigit := fun c hc =>
    Nat.isDigit_of_mem_toDigits (by decide) (by decide) hc
  rw [htext]
  refine ⟨by simp [Nat.toDigits_ne_nil], fun c hc => ?_, ?_⟩
  · obtain ⟨d, hd, rfl⟩ := List.mem_map.1 hc
    have := hdigits d hd
    simp only [Char.isDigit, Bool.and_eq_true, decide_eq_true_eq, UInt32.le_iff_toNat_le] at this
    simp only [isDigit, Bool.and_eq_true, decide_eq_true_eq, UInt8.le_iff_toNat_le,
      UInt8.toNat_ofNat']
    have hlt : d.toNat < 256 := this.2.trans_lt (by decide)
    rw [Nat.mod_eq_of_lt hlt]
    exact this
  · rw [decimal, decimal_digitChars _ hdigits, Nat.ofDigitChars_ten_toDigits]

theorem decimalText_eq (n : ℕ) :
    decimalText n = (Nat.toDigits 10 n).map fun c => UInt8.ofNat c.toNat := by
  simp [decimalText, ascii]

/-- How many digits a number below a power of ten has. -/
theorem length_decimalText_le {n k : ℕ} (hk : 0 < k) (h : n < 10 ^ k) :
    (decimalText n).length ≤ k := by
  rw [decimalText_eq, List.length_map]
  exact (Nat.length_toDigits_le_iff (by decide) hk).2 h

/-- A number has no leading zero, unless it is zero. -/
theorem decimalText_leading (n : ℕ) :
    (decimalText n).head? = some 0x30 → decimalText n = [0x30] := by
  induction n using Nat.strongRecOn with
  | ind n ih =>
    intro hhead
    by_cases hn : n < 10
    · have hsingle : Nat.toDigits 10 n = [n.digitChar] := Nat.toDigits_of_lt_base hn
      rw [decimalText_eq, hsingle] at hhead ⊢
      simpa using hhead
    · have hsplit : Nat.toDigits 10 n = Nat.toDigits 10 (n / 10) ++ [(n % 10).digitChar] :=
        Nat.toDigits_of_base_le (by decide) (by omega)
      have htext : decimalText n =
          decimalText (n / 10) ++ [UInt8.ofNat (n % 10).digitChar.toNat] := by
        rw [decimalText_eq, hsplit, List.map_append, ← decimalText_eq]
        rfl
      have hne := (decimalText_spec (n / 10)).1
      have hzero : decimalText (n / 10) = [0x30] := by
        apply ih (n / 10) (by omega)
        rwa [htext, List.head?_append_of_ne_nil _ hne] at hhead
      -- the other digits of a number from ten on are not those of zero
      have hvalue := (decimalText_spec (n / 10)).2.2
      rw [hzero] at hvalue
      exact absurd hvalue (by simp [decimal]; omega)

end CString
