import HealthCheck.Lib.CString

/-!
# Numbers that `sscanf` accepts

`%u` takes more than digits: white space before them, a sign, and no more characters than its
width allows. What it takes is a `Numeral`, and a text has at most one that it can take.

* `scanUnsigned_eq_some` — the conversion succeeds exactly on a text that begins with a numeral.
-/

namespace CString

/-- The characters `%u` takes. -/
structure Numeral where
  space : Bytes
  sign : Bytes
  digits : Bytes

def Numeral.text (n : Numeral) : Bytes := n.space ++ (n.sign ++ n.digits)

/-- `%<width>u` takes a numeral when this follows: all it can take, and no more than it may. -/
structure Numeral.Taken (n : Numeral) (width : ℕ) (rest : Bytes) : Prop where
  space : ∀ c ∈ n.space, isSpace c
  sign : n.sign = [] ∨ n.sign = [0x2B] ∨ n.sign = [0x2D]
  ne_nil : n.digits ≠ []
  digits : ∀ c ∈ n.digits, isDigit c
  width_le : n.sign.length + n.digits.length ≤ width
  maximal : n.sign.length + n.digits.length = width ∨ ∀ c, rest.head? = some c → isDigit c = false

/-- Digits are neither white space nor signs. -/
theorem not_isSpace_of_isDigit {c : UInt8} (h : isDigit c) : isSpace c = false := by
  simp only [isDigit, Bool.and_eq_true, decide_eq_true_eq, UInt8.le_iff_toNat_le] at h
  simp only [isSpace, Bool.or_eq_false_iff, decide_eq_false_iff_not, Bool.and_eq_false_iff,
    UInt8.le_iff_toNat_le]
  have h30 : (0x30 : UInt8).toNat = 48 := by decide
  have hD : (0x0D : UInt8).toNat = 13 := by decide
  refine ⟨?_, .inr (by omega)⟩
  rintro rfl
  exact absurd h.1 (by decide)

theorem isDigit_ne {c d : UInt8} (h : isDigit c) (hd : isDigit d = false) : c ≠ d := by
  rintro rfl
  rw [h] at hd
  exact Bool.noConfusion hd

theorem takeWhile_append {p : UInt8 → Bool} {run rest : Bytes} (hrun : ∀ c ∈ run, p c)
    (hrest : ∀ c, rest.head? = some c → p c = false) : (run ++ rest).takeWhile p = run := by
  rw [List.takeWhile_append_of_pos hrun]
  cases rest with
  | nil => simp
  | cons c rest => rw [List.takeWhile_cons_of_neg (by simp [hrest c rfl]), List.append_nil]

theorem dropWhile_append {p : UInt8 → Bool} {run rest : Bytes} (hrun : ∀ c ∈ run, p c)
    (hrest : ∀ c, rest.head? = some c → p c = false) : (run ++ rest).dropWhile p = rest := by
  rw [List.dropWhile_append_of_pos hrun]
  cases rest with
  | nil => rfl
  | cons c rest => rw [List.dropWhile_cons_of_neg (by simp [hrest c rfl])]

/-- What `%u` takes first is no white space. -/
theorem Numeral.Taken.head_sign {n : Numeral} {width : ℕ} {rest : Bytes} (h : n.Taken width rest)
    (more : Bytes) : ∀ c, (n.sign ++ (n.digits ++ more)).head? = some c → isSpace c = false := by
  intro c hc
  rcases h.sign with hs | hs | hs
  · obtain ⟨d, digits, hd⟩ := List.exists_cons_of_ne_nil h.ne_nil
    rw [hs, List.nil_append, hd, List.cons_append, List.head?_cons, Option.some.injEq] at hc
    exact not_isSpace_of_isDigit (h.digits c (by rw [hd, hc]; exact List.mem_cons_self))
  · rw [hs, List.cons_append, List.head?_cons, Option.some.injEq] at hc
    rw [← hc]
    decide
  · rw [hs, List.cons_append, List.head?_cons, Option.some.injEq] at hc
    rw [← hc]
    decide

/-- A numeral that can be taken is taken. -/
theorem scanUnsigned_of_taken {n : Numeral} {width : ℕ} {rest : Bytes} (h : n.Taken width rest) :
    scanUnsigned width (n.text ++ rest) = some (strtoul (n.sign ++ n.digits), rest) := by
  have hdrop : (n.text ++ rest).dropWhile isSpace = n.sign ++ (n.digits ++ rest) := by
    rw [Numeral.text, List.append_assoc, List.append_assoc]
    exact dropWhile_append h.space (h.head_sign rest)
  have hlength : (n.sign ++ n.digits).length ≤ width := by
    rw [List.length_append]
    exact h.width_le
  have hfield : (n.sign ++ (n.digits ++ rest)).take width =
      n.sign ++ (n.digits ++ rest.take (width - (n.sign ++ n.digits).length)) := by
    rw [← List.append_assoc, List.take_append, List.take_of_length_le hlength, List.append_assoc]
  have hmore : ∀ c, (rest.take (width - (n.sign ++ n.digits).length)).head? = some c →
      isDigit c = false := by
    intro c hc
    rcases h.maximal with hfull | hnext
    · rw [List.length_append, hfull, Nat.sub_self, List.take_zero] at hc
      exact absurd hc (by simp)
    · rw [List.head?_take] at hc
      split at hc
      · exact absurd hc (by simp)
      · exact hnext c hc
  obtain ⟨d, digits, hd⟩ := List.exists_cons_of_ne_nil h.ne_nil
  have hdigit : isDigit d := h.digits d (by rw [hd]; exact List.mem_cons_self)
  have hsign : (if (n.sign ++ (n.digits ++ rest.take (width - (n.sign ++ n.digits).length))).head? =
      some 0x2D ∨ (n.sign ++ (n.digits ++ rest.take (width - (n.sign ++ n.digits).length))).head? =
      some 0x2B then 1 else 0) = n.sign.length := by
    rcases h.sign with hs | hs | hs
    · rw [hs, List.nil_append, hd, List.cons_append, List.head?_cons, if_neg]
      · rfl
      · rw [Option.some.injEq, Option.some.injEq]
        exact not_or.2 ⟨isDigit_ne hdigit (by decide), isDigit_ne hdigit (by decide)⟩
    · rw [hs]
      rfl
    · rw [hs]
      rfl
  have hdigits : ((n.sign ++ (n.digits ++ rest.take (width - (n.sign ++ n.digits).length))).drop
      n.sign.length).takeWhile isDigit = n.digits := by
    rw [List.drop_left]
    exact takeWhile_append h.digits hmore
  unfold scanUnsigned
  simp only [hdrop, hfield, hsign, hdigits, List.isEmpty_iff, if_neg h.ne_nil]
  rw [← List.append_assoc, ← List.append_assoc, ← List.length_append, List.take_left,
    List.drop_left]

/-- The sign of a field is one character or none. -/
theorem take_sign (field : Bytes) :
    field.take (if field.head? = some 0x2D ∨ field.head? = some 0x2B then 1 else 0) = [] ∨
      field.take (if field.head? = some 0x2D ∨ field.head? = some 0x2B then 1 else 0) = [0x2B] ∨
      field.take (if field.head? = some 0x2D ∨ field.head? = some 0x2B then 1 else 0) = [0x2D] := by
  split
  · rename_i h
    cases field with
    | nil => simp at h
    | cons c field =>
      simp only [List.head?_cons, Option.some.injEq] at h
      rcases h with rfl | rfl
      · exact .inr (.inr rfl)
      · exact .inr (.inl rfl)
  · exact .inl rfl

/-- **What `%u` takes**: a numeral at the beginning of the text. -/
theorem scanUnsigned_eq_some {width : ℕ} {text rest : Bytes} {value : ℕ} :
    scanUnsigned width text = some (value, rest) ↔ ∃ n : Numeral, text = n.text ++ rest ∧
      n.Taken width rest ∧ value = strtoul (n.sign ++ n.digits) := by
  constructor
  · intro h
    unfold scanUnsigned at h
    dsimp only at h
    generalize hfrom : text.dropWhile isSpace = body at h
    generalize hfield : body.take width = field at h
    have hsign := take_sign field
    generalize hk : (if field.head? = some 0x2D ∨ field.head? = some 0x2B then 1 else 0) = k
      at h hsign
    generalize hrun : (field.drop k).takeWhile isDigit = digits at h
    split at h
    · cases h
    · rename_i hne
      simp only [Option.some.injEq, Prod.mk.injEq] at h
      obtain ⟨rfl, rfl⟩ := h
      have hklength : (field.take k).length = k := by
        rw [List.length_take, Nat.min_eq_left]
        rw [← hk]
        split
        · rename_i hhead
          cases field with
          | nil => simp at hhead
          | cons c field => exact Nat.succ_le_succ (Nat.zero_le _)
        · exact Nat.zero_le _
      obtain ⟨tail, htail⟩ : digits <+: field.drop k := hrun ▸ List.takeWhile_prefix _
      have hall : ∀ c ∈ digits, isDigit c := fun c hc => List.mem_takeWhile_imp (hrun ▸ hc)
      have hparts : field = field.take k ++ (digits ++ tail) := by
        rw [htail, List.take_append_drop]
      have hbody : body = (field.take k ++ digits) ++ (tail ++ body.drop width) := by
        rw [← List.append_assoc, List.append_assoc _ digits, ← hparts, ← hfield,
          List.take_append_drop]
      have hlength : (field.take k ++ digits).length = k + digits.length := by
        rw [List.length_append, hklength]
      have hrest : body.drop (k + digits.length) = tail ++ body.drop width := by
        conv_lhs => rw [hbody, ← hlength, List.drop_left]
      have htext : field.take (k + digits.length) = field.take k ++ digits := by
        conv_lhs => rw [hparts, ← List.append_assoc, ← hlength, List.take_left]
      refine ⟨⟨text.takeWhile isSpace, field.take k, digits⟩, ?_, ⟨fun c hc =>
        List.mem_takeWhile_imp hc, hsign, fun hnil => hne (List.isEmpty_iff.2 hnil), hall, ?_, ?_⟩,
        ?_⟩
      · show text = (text.takeWhile isSpace ++ (field.take k ++ digits)) ++ _
        rw [hrest, List.append_assoc, ← hbody, ← hfrom, List.takeWhile_append_dropWhile]
      · show (field.take k).length + digits.length ≤ width
        rw [← List.length_append, ← htext, ← hfield, List.take_take]
        exact (List.length_take_le _ _).trans (Nat.min_le_right _ _)
      · show (field.take k).length + digits.length = width ∨ _
        rw [hklength, hrest]
        cases tail with
        | nil =>
          have hfull : field.length = k + digits.length := by
            rw [← hlength, ← List.append_nil digits, ← hparts]
          rcases Nat.lt_or_ge body.length width with hshort | hlong
          · right
            rw [List.drop_of_length_le hshort.le]
            exact fun c hc => absurd hc (by simp)
          · left
            rw [← hfull, ← hfield, List.length_take, Nat.min_eq_left hlong]
        | cons c tail =>
          right
          intro d hd
          rw [List.cons_append, List.head?_cons, Option.some.injEq] at hd
          rw [← hd]
          by_contra hdigit
          rw [← htail, List.takeWhile_append_of_pos hall,
            List.takeWhile_cons_of_pos (Bool.not_eq_false _ ▸ hdigit)] at hrun
          exact absurd (List.append_right_eq_self.1 hrun) (List.cons_ne_nil _ _)
      · show strtoul (field.take (k + digits.length)) = _
        rw [htext]
  · intro h
    obtain ⟨n, rfl, htaken, rfl⟩ := h
    exact scanUnsigned_of_taken htaken

/-! ## Values -/

/-- A digit is a number below ten. -/
theorem digit_lt {c : UInt8} (h : isDigit c) : c.toNat - 0x30 < 10 := by
  simp only [isDigit, Bool.and_eq_true, decide_eq_true_eq, UInt8.le_iff_toNat_le] at h
  have h39 : (0x39 : UInt8).toNat = 57 := by decide
  omega

/-- Three digits are a number below a thousand. -/
theorem decimal_lt {digits : Bytes} (hdigits : ∀ c ∈ digits, isDigit c) :
    decimal digits < 10 ^ digits.length := by
  induction digits using List.reverseRecOn with
  | nil => decide
  | append_singleton digits c ih =>
    have hc := digit_lt (hdigits c (List.mem_append_right _ List.mem_cons_self))
    have hbefore := ih fun d hd => hdigits d (List.mem_append_left _ hd)
    rw [decimal, List.foldl_append, List.length_append, List.length_singleton, Nat.pow_succ]
    show decimal digits * 10 + _ < _
    omega

/-- The value of a numeral: a minus sign takes it modulo `2 ^ 32`. -/
theorem Numeral.Taken.strtoul_eq {n : Numeral} {width : ℕ} {rest : Bytes} (h : n.Taken width rest)
    (hlt : decimal n.digits < 2 ^ 32) : strtoul (n.sign ++ n.digits) =
      if n.sign = [0x2D] then (2 ^ 32 - decimal n.digits) % 2 ^ 32 else decimal n.digits := by
  have hspace : (n.sign ++ n.digits).dropWhile isSpace = n.sign ++ n.digits := by
    have hdrop : ([] ++ (n.sign ++ (n.digits ++ []))).dropWhile isSpace = _ :=
      dropWhile_append (fun c hc => absurd hc List.not_mem_nil) (h.head_sign [])
    rwa [List.append_nil, List.nil_append] at hdrop
  have hrun : n.digits.takeWhile isDigit = n.digits := List.takeWhile_eq_self_iff.2 h.digits
  obtain ⟨d, digits, hd⟩ := List.exists_cons_of_ne_nil h.ne_nil
  have hdigit : isDigit d := h.digits d (by rw [hd]; exact List.mem_cons_self)
  have hminus : (n.digits.head? = some 0x2D) = False := by
    rw [hd, List.head?_cons, Option.some.injEq]
    exact eq_false (isDigit_ne hdigit (by decide))
  have hplus : (n.digits.head? = some 0x2B) = False := by
    rw [hd, List.head?_cons, Option.some.injEq]
    exact eq_false (isDigit_ne hdigit (by decide))
  unfold strtoul
  simp only [hspace]
  rcases h.sign with hs | hs | hs
  · simp only [hs, List.nil_append, hminus, hplus, or_self, if_false, hrun,
      if_neg (Nat.not_le.2 hlt)]
    rfl
  · simp only [hs, List.cons_append, List.nil_append, List.head?_cons, List.tail_cons, or_true,
      if_true, hrun, if_neg (Nat.not_le.2 hlt)]
    rfl
  · simp only [hs, List.cons_append, List.nil_append, List.head?_cons, List.tail_cons, true_or,
      if_true, hrun, if_neg (Nat.not_le.2 hlt)]

end CString
