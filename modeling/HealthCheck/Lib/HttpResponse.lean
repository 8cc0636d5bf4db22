import HealthCheck.Lib.HttpMessage

/-!
# Reading an HTTP response

A strict reader of HTTP/1.1 responses, for a connection that is closed behind the body: a status
line of a version, three digits and a reason, header fields up to an empty line, and a body of
exactly the announced length. The response to a HEAD announces a length and has no body.

* `Reply.read`, `Reply.text` — the reader and the writer.
* `Reply.read_text` — a well-formed response is read back.
* `Reply.read_append`, `Reply.read_prefix` — nothing may follow a response, and nothing can be cut
  off unnoticed.
* `Reply.read_skipped` — and nothing can be left out of its header.
-/

namespace Http

open CString

/-- A response as its reader understands it. -/
structure Reply where
  status : Bytes
  reason : Bytes
  fields : List Field
  body : Bytes
deriving DecidableEq

namespace Reply

/-- The values of the fields of a name. -/
def valuesOf (r : Reply) (name : Bytes) : List Bytes :=
  (r.fields.filter (·.1 = name)).map (·.2)

/-- The body is as long as the one `Content-Length` says; behind a HEAD there is none. -/
def framed (head : Bool) (r : Reply) : Bool :=
  match r.valuesOf (ascii "Content-Length") with
  | [value] => value ≠ [] && value.all isDigit &&
    if head then r.body = [] else decimal value = r.body.length
  | _ => false

/-- A reader of responses. `head` says that the request was a HEAD. -/
def read (head : Bool) (text : Bytes) : Option Reply := do
  let (first, rest) ← line text
  let (version, words) ← cut 0x20 first
  let (status, reason) ← cut 0x20 words
  let (fields, body) ← Http.fields text.length rest
  let r : Reply := ⟨status, reason, fields, body⟩
  if version = ascii "HTTP/1.1" ∧ status.length = 3 ∧ status.all isDigit ∧ r.framed head
  then some r else none

/-- What is sent. -/
def text (r : Reply) : Bytes :=
  ascii "HTTP/1.1" ++ 0x20 :: (r.status ++ 0x20 :: r.reason) ++ crlf ++
    (r.fields.flatMap fun f => Request.fieldText f ++ crlf) ++ crlf ++ r.body

/-- A response that can be sent. -/
structure WellFormed (head : Bool) (r : Reply) : Prop where
  status : r.status.length = 3 ∧ ∀ c ∈ r.status, isDigit c
  reason : IsLine r.reason
  names : ∀ f ∈ r.fields, IsLine f.1 ∧ 0x3A ∉ f.1
  values : ∀ f ∈ r.fields, IsLine f.2 ∧ f.2.head? ≠ some 0x20
  framed : r.framed head

/-! ## Reading back -/

/-- **A response is read back** as it was sent. -/
theorem read_text {head : Bool} {r : Reply} (h : r.WellFormed head) :
    read head r.text = some r := by
  have hstatus : IsLine r.status ∧ 0x20 ∉ r.status :=
    Visible.isLine fun c hc => visible_of_isDigit (h.status.2 c hc)
  have hfirst : IsLine (ascii "HTTP/1.1" ++ 0x20 :: (r.status ++ 0x20 :: r.reason)) := by
    simp only [IsLine, List.mem_append, List.mem_cons, not_or]
    exact ⟨⟨by decide, by decide, hstatus.1.1, by decide, h.reason.1⟩,
      by decide, by decide, hstatus.1.2, by decide, h.reason.2⟩
  have htext : r.text = (ascii "HTTP/1.1" ++ 0x20 :: (r.status ++ 0x20 :: r.reason)) ++
      (crlf ++ ((r.fields.flatMap fun f => Request.fieldText f ++ crlf) ++ (crlf ++ r.body))) := by
    simp only [text, List.append_assoc]
  have hlength : r.fields.length ≤
      (r.fields.flatMap fun f => Request.fieldText f ++ crlf).length := by
    induction r.fields with
    | nil => simp
    | cons f fs ih =>
      rw [List.flatMap_cons, List.length_append, List.length_cons, List.length_append]
      have : crlf.length = 2 := rfl
      omega
  have hfields := fields_append h.names h.values r.body (n := r.text.length) (by
    rw [htext]
    simp only [List.length_append]
    have : crlf.length = 2 := rfl
    omega)
  have hline : line r.text = some (ascii "HTTP/1.1" ++ 0x20 :: (r.status ++ 0x20 :: r.reason),
      (r.fields.flatMap fun f => Request.fieldText f ++ crlf) ++ (crlf ++ r.body)) := by
    rw [htext]
    exact line_append hfirst _
  have hversion : (0x20 : UInt8) ∉ ascii "HTTP/1.1" := by decide
  simp only [read, hline, Option.bind_eq_bind, Option.bind_some, cut_append hversion,
    cut_append hstatus.2, hfields]
  exact if_pos ⟨trivial, h.status.1, List.all_eq_true.2 h.status.2, h.framed⟩

/-! ## Nothing is cut off unnoticed -/

end Reply

/-- A line stays where it is when more comes in. -/
theorem line_mono {text l rest : Bytes} (h : line text = some (l, rest)) (more : Bytes) :
    line (text ++ more) = some (l, rest ++ more) := by
  induction text generalizing l with
  | nil => cases h
  | cons c text ih =>
    rw [line] at h
    rw [List.cons_append, line]
    split at h
    · rename_i hcrlf
      cases h
      have hgrown : crlf <+: c :: (text ++ more) := hcrlf.trans ⟨more, rfl⟩
      have htwo : 2 ≤ (c :: text).length := hcrlf.length_le
      rw [if_pos hgrown, ← List.cons_append, List.drop_append_of_le_length htwo]
    · rename_i hcrlf
      obtain ⟨⟨l', rest'⟩, hline, hcons⟩ := Option.map_eq_some_iff.1 h
      cases hcons
      have hgrown : ¬ crlf <+: c :: (text ++ more) := by
        cases text with
        | nil => cases hline
        | cons d text =>
          intro hstarts
          refine hcrlf ?_
          obtain ⟨hc, hrest⟩ := List.cons_prefix_cons.1 hstarts
          obtain ⟨hd, -⟩ := List.cons_prefix_cons.1 hrest
          exact List.cons_prefix_cons.2 ⟨hc, List.cons_prefix_cons.2 ⟨hd, List.nil_prefix⟩⟩
      rw [if_neg hgrown, ih hline]
      rfl

/-- So do the header fields. -/
theorem fields_mono {n m : ℕ} {text body : Bytes} {fs : List Field}
    (h : fields n text = some (fs, body)) (hm : n ≤ m) (more : Bytes) :
    fields m (text ++ more) = some (fs, body ++ more) := by
  induction n generalizing m text fs with
  | zero => cases h
  | succ n ih =>
    obtain ⟨m, rfl⟩ : ∃ k, m = k + 1 := ⟨m - 1, by omega⟩
    rw [fields] at h ⊢
    obtain ⟨⟨l, rest⟩, hline, h⟩ := Option.bind_eq_some_iff.1 h
    rw [line_mono hline, Option.bind_some]
    dsimp only at h ⊢
    split at h
    · rename_i hempty
      cases h
      rw [if_pos hempty]
    · rename_i hempty
      obtain ⟨f, hf, h⟩ := Option.bind_eq_some_iff.1 h
      obtain ⟨⟨fs', body'⟩, hrest, h⟩ := Option.map_eq_some_iff.1 h
      cases h
      rw [if_neg hempty, hf, Option.bind_some, ih hrest (Nat.le_of_succ_le_succ hm)]
      rfl

namespace Reply

/-- A framed response is not framed with a longer body. -/
theorem not_framed_append {head : Bool} {status reason body more : Bytes} {fs : List Field}
    (h : framed head ⟨status, reason, fs, body⟩ = true) (hmore : more ≠ []) :
    ¬ framed head ⟨status, reason, fs, body ++ more⟩ = true := by
  unfold framed valuesOf at h ⊢
  split at h
  · rename_i value hvalue
    rw [hvalue]
    simp only [Bool.and_eq_true] at h ⊢
    rintro ⟨-, hgrown⟩
    cases head with
    | true => exact absurd hgrown (by simp [hmore])
    | false =>
      have hbefore : decimal value = body.length := of_decide_eq_true h.2
      have hafter : decimal value = (body ++ more).length := of_decide_eq_true hgrown
      have hpos := List.length_pos_iff.2 hmore
      rw [List.length_append] at hafter
      omega
  · cases h

/-- **Nothing may follow a response.** -/
theorem read_append {head : Bool} {text more : Bytes} {r : Reply} (h : read head text = some r)
    (hmore : more ≠ []) : read head (text ++ more) = none := by
  simp only [read, Option.bind_eq_bind, Option.bind_eq_some_iff, Prod.exists] at h
  obtain ⟨first, rest, hline, version, words, hversion, status, reason, hstatus, fs, body,
    hfields, h⟩ := h
  rw [Option.ite_none_right_eq_some] at h
  have hgrown := fields_mono hfields (by simp : text.length ≤ (text ++ more).length) more
  simp only [read, line_mono hline, Option.bind_eq_bind, Option.bind_some, hversion, hstatus,
    hgrown]
  exact if_neg fun hall => not_framed_append h.1.2.2.2 hmore hall.2.2.2

/-- **No beginning of a response is a response.** -/
theorem read_prefix {head : Bool} {text start : Bytes} {r : Reply} (h : read head text = some r)
    (hstart : start <+: text) (hcut : start ≠ text) : read head start = none := by
  obtain ⟨more, rfl⟩ := hstart
  refine Option.eq_none_iff_forall_ne_some.2 fun r' hr' => ?_
  have hmore : more ≠ [] := by
    rintro rfl
    exact hcut (List.append_nil start).symm
  rw [read_append hr' hmore] at h
  cases h

end Reply

/-! ## Nothing is left out unnoticed -/

theorem line_eq_none {text : Bytes} (h : 0x0A ∉ text) : line text = none := by
  induction text with
  | nil => rfl
  | cons c text ih =>
    have hcrlf : ¬ crlf <+: c :: text := fun hstarts =>
      h (hstarts.subset (by decide : (0x0A : UInt8) ∈ crlf))
    rw [line, if_neg hcrlf, ih (List.not_mem_of_not_mem_cons h)]
    rfl

/-- A line that is found in front of a text without line ends was found without it. -/
theorem line_local {text l rest more : Bytes} (h : line (text ++ more) = some (l, rest))
    (hmore : 0x0A ∉ more) : ∃ rest', rest = rest' ++ more ∧ line text = some (l, rest') := by
  induction text generalizing l with
  | nil =>
    rw [List.nil_append, line_eq_none hmore] at h
    cases h
  | cons c text ih =>
    rw [List.cons_append, line] at h
    rw [line]
    split at h
    · rename_i hcrlf
      cases h
      cases text with
      | nil =>
        obtain ⟨tail, htail⟩ := hcrlf
        have hsecond : 0x0A :: tail = more := (List.cons.inj htail).2
        exact absurd (hsecond ▸ List.mem_cons_self) hmore
      | cons d text =>
        have hshort : crlf <+: c :: d :: text := by
          obtain ⟨hc, hrest⟩ := List.cons_prefix_cons.1 hcrlf
          obtain ⟨hd, -⟩ := List.cons_prefix_cons.1 hrest
          exact List.cons_prefix_cons.2 ⟨hc, List.cons_prefix_cons.2 ⟨hd, List.nil_prefix⟩⟩
        rw [if_pos hshort]
        exact ⟨text, rfl, rfl⟩
    · rename_i hcrlf
      obtain ⟨⟨l', rest'⟩, hline, hcons⟩ := Option.map_eq_some_iff.1 h
      cases hcons
      have hshort : ¬ crlf <+: c :: text := fun hstarts =>
        hcrlf (hstarts.trans ⟨more, rfl⟩)
      obtain ⟨rest'', hrest, hfound⟩ := ih hline
      rw [if_neg hshort, hfound]
      exact ⟨rest'', hrest, rfl⟩

/-- So were the header fields. -/
theorem fields_local {n : ℕ} {text more body : Bytes} {fs : List Field}
    (h : fields n (text ++ more) = some (fs, body)) (hmore : 0x0A ∉ more) :
    ∃ body', body = body' ++ more ∧ fields n text = some (fs, body') := by
  induction n generalizing text fs with
  | zero => cases h
  | succ n ih =>
    rw [fields] at h
    obtain ⟨⟨l, rest⟩, hline, h⟩ := Option.bind_eq_some_iff.1 h
    obtain ⟨rest', rfl, hfound⟩ := line_local hline hmore
    rw [fields, hfound, Option.bind_some]
    dsimp only at h ⊢
    split at h
    · rename_i hempty
      cases h
      rw [if_pos hempty]
      exact ⟨rest', rfl, rfl⟩
    · rename_i hempty
      obtain ⟨f, hf, h⟩ := Option.bind_eq_some_iff.1 h
      obtain ⟨⟨fs', body'⟩, hrest, h⟩ := Option.map_eq_some_iff.1 h
      cases h
      obtain ⟨body'', hbody, hfields⟩ := ih hrest
      rw [if_neg hempty, hf, Option.bind_some, hfields]
      exact ⟨body'', hbody, rfl⟩

namespace Reply

theorem body_of_framed {r : Reply} (h : r.framed true = true) : r.body = [] := by
  unfold framed at h
  split at h
  · simp only [Bool.and_eq_true, if_true, decide_eq_true_eq] at h
    exact h.2
  · cases h

/-- **A header that is cut short is no header**, whatever follows it on its last line. -/
theorem read_skipped {head : Bool} {text start more : Bytes} {r : Reply}
    (h : read true text = some r) (hstart : start <+: text) (hcut : start ≠ text)
    (hmore : 0x0A ∉ more) : read head (start ++ more) = none := by
  obtain ⟨skipped, rfl⟩ := hstart
  refine Option.eq_none_iff_forall_ne_some.2 fun r' hr' => ?_
  simp only [read, Option.bind_eq_bind, Option.bind_eq_some_iff, Prod.exists] at h hr'
  obtain ⟨first, rest, hline, _, _, -, _, _, -, fs, body, hfields, h⟩ := h
  obtain ⟨first', rest', hline', -, -, -, -, -, -, fs', body', hfields', -⟩ := hr'
  rw [Option.ite_none_right_eq_some] at h
  have hempty : body = [] := body_of_framed h.1.2.2.2
  obtain ⟨short, rfl, hshort⟩ := line_local hline' hmore
  obtain ⟨kept, rfl, hkept⟩ := fields_local hfields' hmore
  rw [line_mono hshort skipped, Option.some.injEq, Prod.mk.injEq] at hline
  obtain ⟨rfl, rfl⟩ := hline
  let n := max (start ++ more).length (start ++ skipped).length
  have hlong : Http.fields n (short ++ skipped) = some (fs', kept ++ skipped) :=
    fields_mono hkept (Nat.le_max_left ..) skipped
  have hwhole : Http.fields n (short ++ skipped ++ []) = some (fs, body ++ []) :=
    fields_mono hfields (Nat.le_max_right ..) []
  rw [List.append_nil, hlong, Option.some.injEq, Prod.mk.injEq, hempty] at hwhole
  obtain ⟨-, hskipped⟩ := List.append_eq_nil_iff.1 hwhole.2
  rw [hskipped, List.append_nil] at hcut
  exact hcut rfl

end Reply

end Http
