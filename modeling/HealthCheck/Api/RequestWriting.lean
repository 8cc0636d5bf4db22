import HealthCheck.Api.RequestProof
import HealthCheck.Lib.Lines

/-!
# Reading back a request that was written

A client writes a request line, header fields and a body. `apiService_ReadRequest` undoes this,
however the bytes are cut into reads: the header end is found at the first empty line, the
fields at the lines that start with their names, and the loop leaves with exactly the bytes of
the message.

* `Message`, `Message.text` — what the client means and what it sends.
* `Message.Written` — the messages that come back.
* `readRequest_written` — they do.
-/

namespace HealthCheck.ApiService

open CString

/-! ## Messages -/

/-- What a client sends: the two words of the request line that the server reads, the rest of
that line, the header lines and the body. -/
structure Message where
  method : Bytes
  target : Bytes
  version : Bytes
  lines : List Bytes
  body : Bytes

namespace Message

/-- The request line. -/
def firstLine (m : Message) : Bytes := m.method ++ 0x20 :: (m.target ++ 0x20 :: m.version)

/-- Everything before the empty line. -/
def header (m : Message) : Bytes := m.firstLine ++ following m.lines

/-- The bytes on the wire. -/
def text (m : Message) : Bytes := m.header ++ (crlf ++ crlf) ++ m.body

end Message

/-- A word of the request line: not empty, and without white space or NUL. -/
def IsWord (text : Bytes) : Prop := text ≠ [] ∧ ∀ c ∈ text, ¬ isSpace c ∧ c ≠ 0

instance (text : Bytes) : Decidable (IsWord text) :=
  decidable_of_iff (text ≠ [] ∧ text.all fun c => !isSpace c && c != 0) (by simp [IsWord])

/-- A text that fits on a line of the header. -/
def IsHeaderLine (text : Bytes) : Prop := IsLine text ∧ 0 ∉ text

instance (text : Bytes) : Decidable (IsHeaderLine text) :=
  inferInstanceAs (Decidable ((0x0D ∉ text ∧ 0x0A ∉ text) ∧ 0 ∉ text))

/-- The lines that start with a name. -/
def fields (name : Bytes) (lines : List Bytes) : List Bytes := lines.filter name.isPrefixOf

/-- The two spellings of the length field. -/
def lengthNames : List Bytes := [ascii "Content-Length:", ascii "content-length:"]

/-- The two spellings of the bearer field, in the order in which they are looked for. -/
def bearerNames : Bytes × Bytes := (ascii "Authorization: Bearer ", ascii "authorization: Bearer ")

/-- `value` is the number `n` in decimal, with blanks around it. -/
def IsDecimal (value : Bytes) (n : ℕ) : Prop :=
  ∃ before digits after, value = before ++ digits ++ after ∧
    (∀ c ∈ before ++ after, c = 0x20 ∨ c = 0x09) ∧ digits ≠ [] ∧ (∀ c ∈ digits, isDigit c) ∧
    decimal digits = n

/-- At most one line declares a length, and what is declared is `n`: nothing for `0`. -/
inductive Declares (lines : List Bytes) (n : ℕ) : Prop
  | absent (none : ∀ name ∈ lengthNames, fields name lines = []) (zero : n = 0)
  | given {name value : Bytes} (mem : name ∈ lengthNames)
    (one : fields name lines = [name ++ value])
    (other : ∀ name' ∈ lengthNames, name' ≠ name → fields name' lines = [])
    (value : IsDecimal value n)

/-- At most one line carries a bearer token, and it is `token`: the empty one when there is no
such line. A line in the second spelling counts when there is none in the first. -/
inductive Bears (lines : List Bytes) (token : Bytes) : Prop
  | upper (one : fields bearerNames.1 lines = [bearerNames.1 ++ token])
  | lower (none : fields bearerNames.1 lines = [])
    (one : fields bearerNames.2 lines = [bearerNames.2 ++ token])
  | absent (none : fields bearerNames.1 lines = []) (none' : fields bearerNames.2 lines = [])
    (empty : token = [])

/-- The messages a client may write, with the bearer token they carry. -/
structure Message.Written (m : Message) (token : Bytes) : Prop where
  method : IsWord m.method ∧ m.method.length ≤ 7
  target : IsWord m.target ∧ m.target.length ≤ 79
  version : IsHeaderLine m.version
  lines : ∀ line ∈ m.lines, line ≠ [] ∧ IsHeaderLine line
  length : Declares m.lines m.body.length
  bearer : Bears m.lines token
  token : token.length ≤ 64
  body : m.body.length ≤ 2048
  fits : m.text.length ≤ 2559

/-- The same with a target of any length. -/
structure Message.Sent (m : Message) (token : Bytes) : Prop where
  method : IsWord m.method ∧ m.method.length ≤ 7
  target : IsWord m.target
  version : IsHeaderLine m.version
  lines : ∀ line ∈ m.lines, line ≠ [] ∧ IsHeaderLine line
  length : Declares m.lines m.body.length
  bearer : Bears m.lines token
  token : token.length ≤ 64
  body : m.body.length ≤ 2048
  fits : m.text.length ≤ 2559

theorem Message.Written.sent {m : Message} {token : Bytes} (h : m.Written token) : m.Sent token :=
  { h with target := h.target.1 }

/-- The bytes behind the `body` pointer that belong to the body. -/
def ReadOutcome.bodyBytes (o : ReadOutcome) : Bytes :=
  (List.range o.request.bodyLength).map fun i => o.memory (o.request.body + i)

/-! ## Fields -/

/-- The patterns of the source are a CRLF with a name behind it. -/
theorem crlf_lengthNames : ascii "\r\nContent-Length:" = crlf ++ ascii "Content-Length:" ∧
    ascii "\r\ncontent-length:" = crlf ++ ascii "content-length:" := by decide

theorem lengthNames_spec {name : Bytes} (h : name ∈ lengthNames) :
    0x0D ∉ name ∧ (crlf ++ name).length = 17 := by
  rcases List.mem_pair.1 h with rfl | rfl <;> decide

theorem crlf_bearerNames : ascii "\r\nAuthorization: Bearer " = crlf ++ bearerNames.1 ∧
    ascii "\r\nauthorization: Bearer " = crlf ++ bearerNames.2 := by decide

theorem mem_fields {name line : Bytes} {lines : List Bytes} :
    line ∈ fields name lines ↔ line ∈ lines ∧ name <+: line := by
  simp [fields]

theorem strstr_of_no_fields {name first : Bytes} {lines : List Bytes} (hname : 0x0D ∉ name)
    (hfirst : 0x0D ∉ first) (hlines : ∀ line ∈ lines, IsLine line) (h : fields name lines = []) :
    strstr (crlf ++ name) (first ++ following lines) = none := by
  refine strstr_no_field hname hfirst hlines fun line hmem hp => ?_
  have hline : line ∈ fields name lines := mem_fields.2 ⟨hmem, hp⟩
  rw [h] at hline
  exact absurd hline List.not_mem_nil

/-- The only line with a name is found, and what follows the name is its value, up to the end
of the line. -/
theorem strstr_of_one_field {name first value : Bytes} {lines : List Bytes}
    (hname : 0x0D ∉ name) (hfirst : 0x0D ∉ first) (hlines : ∀ line ∈ lines, IsLine line)
    (h : fields name lines = [name ++ value]) :
    ∃ i after, strstr (crlf ++ name) (first ++ following lines) = some i ∧
      (first ++ following lines).drop (i + (crlf ++ name).length) = value ++ following after := by
  obtain ⟨before, after, rfl, hbefore, hline, -⟩ := List.filter_eq_cons_iff.1 h
  have hfound : strstr (crlf ++ name) (first ++ following (before ++ (name ++ value) :: after)) =
      some (first.length + (following before).length) := by
    refine strstr_field hname hfirst (fun l hl => ?_) (fun l hl hp => ?_) (List.prefix_append ..)
    · exact hlines l (List.mem_append_left _ hl)
    · exact hbefore l hl (List.isPrefixOf_iff_prefix.2 hp)
  refine ⟨_, after, hfound, ?_⟩
  rw [following_append, following_cons]
  have hsplit : first ++ (following before ++ (crlf ++ (name ++ value) ++ following after)) =
      (first ++ following before ++ (crlf ++ name)) ++ (value ++ following after) := by
    simp only [List.append_assoc]
  rw [hsplit, ← List.length_append, ← List.length_append, List.drop_left]

/-- A declared length is read back, whatever lines follow. -/
theorem strtoul_of_isDecimal {value : Bytes} {n : ℕ} (h : IsDecimal value n) (hn : n < 2 ^ 32)
    (after : List Bytes) : strtoul (value ++ following after) = n := by
  obtain ⟨before, digits, behind, rfl, hblank, hne, hdigits, rfl⟩ := h
  rw [List.append_assoc (before ++ digits)]
  refine strtoul_decimal (fun c hc => ?_) hdigits hne (fun c hc => ?_) hn
  · rcases hblank c (List.mem_append_left _ hc) with rfl | rfl <;> decide
  · cases behind with
    | nil =>
      rcases following_head after with hnil | ⟨t, ht⟩
      · simp [hnil] at hc
      · rw [List.nil_append, ht, List.head?_cons, Option.mem_some_iff] at hc
        subst hc
        decide
    | cons d behind =>
      rw [List.cons_append, List.head?_cons, Option.mem_some_iff] at hc
      subst hc
      rcases hblank d (List.mem_append_right _ List.mem_cons_self) with rfl | rfl <;> decide

/-! ## The header of a message -/

theorem IsWord.notMem {text : Bytes} (h : IsWord text) : 0x0D ∉ text := fun hc =>
  (h.2 _ hc).1 (by decide)

theorem IsWord.zero_notMem {text : Bytes} (h : IsWord text) : 0 ∉ text := fun hc =>
  (h.2 _ hc).2 rfl

namespace Message.Sent

variable {m : Message} {token : Bytes} (hm : m.Sent token)

include hm

theorem cr_notMem_firstLine : 0x0D ∉ m.firstLine := by
  have hmethod := hm.method.1.notMem
  have htarget := hm.target.notMem
  have hversion := hm.version.1.1
  have hblank : (0x0D : UInt8) ≠ 0x20 := by decide
  simp [Message.firstLine, hmethod, htarget, hversion, hblank]

theorem zero_notMem_header : 0 ∉ m.header := by
  have hmethod := hm.method.1.zero_notMem
  have htarget := hm.target.zero_notMem
  have hversion := hm.version.2
  have hlines : 0 ∉ following m.lines := by
    intro h0
    obtain ⟨line, hline, h0⟩ := List.mem_flatMap.1 h0
    rcases List.mem_append.1 h0 with h0 | h0
    · exact absurd h0 (by decide)
    · exact (hm.lines line hline).2.2 h0
  have hblank : (0 : UInt8) ≠ 0x20 := by decide
  simp [Message.header, Message.firstLine, hmethod, htarget, hversion, hlines, hblank]

theorem isLine : ∀ line ∈ m.lines, IsLine line := fun line hline =>
  (hm.lines line hline).2.1

/-- The first empty line of the message ends its header. -/
theorem findHeaderEnd_text : findHeaderEnd m.text = some m.header.length := by
  have hpre : m.header ++ (crlf ++ crlf) <+: m.text := List.prefix_append ..
  refine findHeaderEnd_of_isPrefix ?_ hpre
  have hzero : (0 : UInt8) ∉ m.header ++ (crlf ++ crlf) := by
    have hcrlf : (0 : UInt8) ∉ crlf ++ crlf := by decide
    rw [List.mem_append, not_or]
    exact ⟨hm.zero_notMem_header, hcrlf⟩
  rw [findHeaderEnd, cstr_of_notMem hzero]
  exact strstr_blank hm.cr_notMem_firstLine fun line hline =>
    ⟨(hm.lines line hline).1, hm.isLine line hline⟩

omit hm in
theorem take_header (m : Message) : m.text.take m.header.length = m.header := by
  rw [Message.text, List.append_assoc, List.take_left]

/-- `sscanf` splits the request line. It cuts the target. -/
theorem requestLine_header : requestLine m.header = some (m.method, m.target.take 79) := by
  have hsplit : m.header =
      [] ++ (m.method ++ 0x20 :: (m.target ++ 0x20 :: (m.version ++ following m.lines))) := by
    simp [Message.header, Message.firstLine]
  have hmethod := scanWord_word 7 [] (by decide) (List.forall_mem_nil _)
    (fun c hc => (hm.method.1.2 c hc).1) hm.method.1.1 (by decide : isSpace 0x20)
    (m.target ++ 0x20 :: (m.version ++ following m.lines))
  have htarget := scanWord_word 79 [0x20] (by decide) (List.forall_mem_singleton.2 rfl)
    (fun c hc => (hm.target.2 c hc).1) hm.target.1 (by decide : isSpace 0x20)
    (m.version ++ following m.lines)
  rw [List.take_of_length_le hm.method.2, List.drop_of_length_le hm.method.2] at hmethod
  simp only [List.nil_append, List.singleton_append] at hmethod htarget
  simp [requestLine, hsplit, hmethod, htarget]

/-- The declared length is the length of the body. -/
theorem contentLength_header : contentLength m.header = m.body.length := by
  have hnone : ∀ name ∈ lengthNames, fields name m.lines = [] →
      strstr (crlf ++ name) m.header = none := fun name hname h =>
    strstr_of_no_fields (lengthNames_spec hname).1 hm.cr_notMem_firstLine hm.isLine h
  have hsome : ∀ name ∈ lengthNames, ∀ value, fields name m.lines = [name ++ value] →
      IsDecimal value m.body.length → ∃ i, strstr (crlf ++ name) m.header = some i ∧
        strtoul (m.header.drop (i + 17)) = m.body.length := by
    intro name hname value hone hvalue
    obtain ⟨hcr, hlen⟩ := lengthNames_spec hname
    obtain ⟨i, after, hfound, hdrop⟩ :=
      strstr_of_one_field hcr hm.cr_notMem_firstLine hm.isLine hone
    refine ⟨i, hfound, ?_⟩
    rw [hlen] at hdrop
    rw [Message.header, hdrop]
    exact strtoul_of_isDecimal hvalue (hm.body.trans_lt (by decide)) after
  cases hm.length with
  | absent hno hzero =>
    have hupper := hnone _ (List.mem_pair.2 (.inl rfl)) (hno _ (by decide))
    have hlower := hnone _ (List.mem_pair.2 (.inr rfl)) (hno _ (by decide))
    simp only [contentLength, crlf_lengthNames.1, crlf_lengthNames.2, hupper, hlower, hzero]
  | @given name value hname hone hother hvalue =>
    obtain ⟨i, hfound, hlen⟩ := hsome name hname value hone hvalue
    rcases List.mem_pair.1 hname with rfl | rfl
    · simp only [contentLength, crlf_lengthNames.1, hfound, hlen]
    · have hupper := hnone _ (List.mem_pair.2 (.inl rfl))
        (hother _ (by decide) (by decide))
      simp only [contentLength, crlf_lengthNames.1, crlf_lengthNames.2, hupper, hfound, hlen]

/-- The bearer token is the one the message carries. -/
theorem authorizationText_header : authorizationText m.header = token := by
  have hname : (0x0D : UInt8) ∉ bearerNames.1 ∧ (0x0D : UInt8) ∉ bearerNames.2 := by decide
  have hlen : (crlf ++ bearerNames.1).length = 24 ∧ (crlf ++ bearerNames.2).length = 24 := by
    decide
  have hcut : ∀ i after, token ++ following after = m.header.drop (i + 24) → 0x0D ∉ token →
      (strstr (ascii "\r\n") (m.header.drop (i + 24))).elim (m.header.drop (i + 24))
        (m.header.drop (i + 24)).take = token := by
    intro i after hdrop htoken
    have hcrlf : ascii "\r\n" = crlf ++ [] := by decide
    rw [← hdrop, hcrlf, strstr_crlf_append htoken]
    cases after with
    | nil => simp [crlf, strstr]
    | cons line after =>
      have hpre : crlf ++ [] <+: following (line :: after) :=
        ⟨line ++ following after, by simp [following_cons]⟩
      rw [strstr_of_startsWith hpre, Option.map_some, Nat.zero_add]
      exact List.take_left
  have hvalue : ∀ name, fields name m.lines = [name ++ token] → 0x0D ∉ token := by
    intro name hone hcr
    have hline : name ++ token ∈ fields name m.lines := hone ▸ List.mem_singleton.2 rfl
    exact (hm.isLine _ (mem_fields.1 hline).1).1 (List.mem_append_right _ hcr)
  cases hm.bearer with
  | upper hone =>
    obtain ⟨i, after, hfound, hdrop⟩ :=
      strstr_of_one_field hname.1 hm.cr_notMem_firstLine hm.isLine hone
    rw [hlen.1] at hdrop
    have htoken := hcut i after hdrop.symm (hvalue _ hone)
    simp only [authorizationText, bearerToken, crlf_bearerNames.1, Message.header, hfound,
      Option.map_some, Option.getD_some]
    refine Eq.trans ?_ htoken
    rw [Message.header]
    cases strstr (ascii "\r\n") ((m.firstLine ++ following m.lines).drop (i + 24)) <;> rfl
  | lower hno hone =>
    have hupper := strstr_of_no_fields hname.1 hm.cr_notMem_firstLine hm.isLine hno
    obtain ⟨i, after, hfound, hdrop⟩ :=
      strstr_of_one_field hname.2 hm.cr_notMem_firstLine hm.isLine hone
    rw [hlen.2] at hdrop
    have htoken := hcut i after hdrop.symm (hvalue _ hone)
    simp only [authorizationText, bearerToken, crlf_bearerNames.1, crlf_bearerNames.2,
      Message.header, hupper, hfound, Option.map_some, Option.getD_some]
    refine Eq.trans ?_ htoken
    rw [Message.header]
    cases strstr (ascii "\r\n") ((m.firstLine ++ following m.lines).drop (i + 24)) <;> rfl
  | absent hno hno' hempty =>
    have hupper := strstr_of_no_fields hname.1 hm.cr_notMem_firstLine hm.isLine hno
    have hlower := strstr_of_no_fields hname.2 hm.cr_notMem_firstLine hm.isLine hno'
    simp [authorizationText, bearerToken, crlf_bearerNames.1, crlf_bearerNames.2,
      Message.header, hupper, hlower, hempty]

theorem parses_header : Parses m.header := by
  refine ⟨by rw [hm.requestLine_header]; rfl, ?_⟩
  rw [hm.authorizationText_header]
  exact Nat.lt_succ_of_le hm.token

/-- The message is complete with its last byte, and not before. -/
theorem length_text : m.header.length + 4 + contentLength m.header = m.text.length := by
  have hblank : (crlf ++ crlf).length = 4 := rfl
  rw [hm.contentLength_header, Message.text, List.length_append, List.length_append, hblank]

theorem not_refused : ¬ Refused m.text := by
  rintro ⟨h, hh, hbig⟩
  cases hm.findHeaderEnd_text.symm.trans hh
  rw [take_header, hm.contentLength_header] at hbig
  exact absurd hm.body (Nat.not_le.2 hbig)

/-- What is complete and begins the message is all of it. -/
theorem eq_of_complete {received : Bytes} (hpre : received <+: m.text)
    (hc : Complete received) : received = m.text := by
  obtain ⟨h, hh, hc⟩ := hc
  have hend := findHeaderEnd_of_isPrefix hh hpre
  cases hm.findHeaderEnd_text.symm.trans hend
  rw [← take_header_of_isPrefix hh hpre, take_header, hm.length_text] at hc
  rcases hc with hbig | hle
  · rw [hm.contentLength_header] at hbig
    exact absurd hm.body (Nat.not_le.2 hbig)
  · exact hpre.eq_of_length_le hle

theorem complete_text : Complete m.text :=
  ⟨_, hm.findHeaderEnd_text, .inr (by rw [take_header, hm.length_text])⟩

end Message.Sent

/-- The body lies behind the header and the empty line, and the NUL behind the body. -/
theorem map_buffered_text {m : Message} (stack : ℕ → UInt8) :
    (List.range m.body.length).map (fun i => Function.update (buffered stack m.text)
      (m.header.length + 4 + m.body.length) 0 (m.header.length + 4 + i)) = m.body := by
  refine List.ext_getElem (by simp) fun i hi hi' => ?_
  have hlen : (m.header ++ (crlf ++ crlf)).length = m.header.length + 4 := List.length_append
  have hin : m.header.length + 4 + i < m.text.length := by
    rw [Message.text, List.length_append, hlen]
    omega
  rw [List.getElem_map, List.getElem_range, Function.update_of_ne (by omega), buffered,
    dif_pos hin]
  simp only [Message.text]
  rw [List.getElem_append_right (by omega)]
  simp only [hlen, Nat.add_sub_cancel_left]

/-! ## Reading -/

/-- What was sent is read, with the beginning of its target. -/
theorem readRequest_sent {m : Message} {token : Bytes} (hm : m.Sent token)
    {chunks : List (UInt8 × Bytes)} (hcut : arrived (dataReads chunks) = m.text)
    (stack : ℕ → UInt8) (stale : Request) :
    readRequest requestSize stack stale (dataReads chunks) =
      ⟨0, ⟨m.method, m.target.take 79, token, m.header.length + 4, m.body.length⟩, m.text,
        Function.update (buffered stack m.text) (m.header.length + 4 + m.body.length) 0⟩ := by
  have htake : ([] ++ arrived (dataReads chunks)).take (requestSize - 1) = m.text := by
    rw [List.nil_append, hcut]
    exact List.take_of_length_le hm.fits
  have hnil : ¬ Complete [] := by
    rintro ⟨h, hh, -⟩
    exact absurd hh (by simp [findHeaderEnd, strstr, ascii])
  rcases readLoop_of_complete _ waiting_start hnil (htake ▸ hm.complete_text) (by simp) with
    ⟨hrefused, -⟩ | ⟨r, hr, hw, hsome, hc, hpre⟩
  · exact absurd (htake ▸ hrefused) hm.not_refused
  · have hreceived : r.received = m.text := hm.eq_of_complete (htake ▸ hpre) hc
    have hend : r.headerEnd = some m.header.length := by
      rw [hw.headerEnd, hreceived, hm.findHeaderEnd_text]
    rcases readRequest_of_header stack stale hr hw hend with
      ⟨-, method, path, hline, heq⟩ | ⟨hnot, -⟩
    · rw [hreceived, Message.Sent.take_header] at heq hline
      cases hm.requestLine_header.symm.trans hline
      rw [heq, hm.authorizationText_header, hm.contentLength_header]
    · rw [hreceived, Message.Sent.take_header] at hnot
      exact absurd hm.parses_header hnot

/-- **What was written is read back**, however the message is cut into reads, on any stack and
whatever the request structure held before. -/
theorem readRequest_written {m : Message} {token : Bytes} (hm : m.Written token)
    {chunks : List (UInt8 × Bytes)} (hcut : arrived (dataReads chunks) = m.text)
    (stack : ℕ → UInt8) (stale : Request) :
    (readRequest requestSize stack stale (dataReads chunks)).result = 0 ∧
    (readRequest requestSize stack stale (dataReads chunks)).request.method = m.method ∧
    (readRequest requestSize stack stale (dataReads chunks)).request.path = m.target ∧
    (readRequest requestSize stack stale (dataReads chunks)).request.authorization = token ∧
    (readRequest requestSize stack stale (dataReads chunks)).bodyBytes = m.body ∧
    (readRequest requestSize stack stale (dataReads chunks)).request.bodyLength =
      m.body.length := by
  rw [readRequest_sent hm.sent hcut stack stale, List.take_of_length_le hm.target.2]
  exact ⟨rfl, rfl, rfl, rfl, map_buffered_text stack, rfl⟩

/-- An upload with a token whose body has a NUL and a CRLF in it. -/
def upload : Message :=
  ⟨ascii "PUT", ascii "/api/v1/tls", ascii "HTTP/1.1",
    [ascii "content-length: 4", ascii "Authorization: Bearer 4f1c"], [0x00, 0x0D, 0x0A, 0x31]⟩

theorem upload_written : upload.Written (ascii "4f1c") where
  method := by decide
  target := by decide
  version := by decide
  lines := by
    simp only [upload, List.forall_mem_cons]
    exact ⟨by decide, by decide, List.forall_mem_nil _⟩
  length := by
    refine @Declares.given _ _ (ascii "content-length:") _ (List.mem_pair.2 (.inr rfl)) rfl ?_
      ⟨ascii " ", ascii "4", [], rfl, ?_, by decide, ?_, rfl⟩
    · intro name hname hne
      rcases List.mem_pair.1 hname with rfl | rfl
      · rfl
      · exact absurd rfl hne
    · exact List.forall_mem_singleton.2 (.inl rfl)
    · exact List.forall_mem_singleton.2 rfl
  bearer := .upper (by decide)
  token := by decide
  body := by decide
  fits := by decide

/-- It arrives in two reads, the first of which ends inside the CRLF of its body. -/
theorem readRequest_written_upload :
    (readRequest requestSize (fun _ => 0) blankRequest
      (dataReads [(0x50, upload.text.tail.take 76), (0x0A, [0x31])])).bodyBytes =
        [0x00, 0x0D, 0x0A, 0x31] :=
  (readRequest_written upload_written (by decide) _ _).2.2.2.2.1

end HealthCheck.ApiService
