import HealthCheck.Api.Request

/-!
# When a request that is dispatched was really received

`readRequest` returns `0` both when it has filled the request structure and when a read
returned `0`; and its loop also ends when the buffer is full, whether or not the declared body
has arrived. Everything here is about telling these exits apart by the reads alone.

* `Complete` — the bytes on which the loop leaves on purpose.
* `readLoop_of_complete`, `readLoop_of_not_complete` — the two ways the loop can end.
* `Interrupted`, `Overlong` — the streams on which `0` is returned for the wrong reason.

The loop invariant is `Waiting`: the local variables say about the bytes received so far what
`findHeaderEnd` and `contentLength` say about them. It survives because neither answer changes
when more bytes arrive.
-/

namespace HealthCheck.ApiService

open CString

/-! ## The stream behind the reads -/

/-- The bytes delivered before the first read that delivers none. -/
def arrived : List SslRead → Bytes
  | .data first rest :: reads => first :: rest ++ arrived reads
  | _ => []

/-- What `mbedtls_ssl_read` returns once those bytes are consumed. -/
def endCode : List SslRead → Int
  | .data _ _ :: reads => endCode reads
  | .closed :: _ => 0
  | .failed code :: _ => Int.negSucc code
  | [] => errSslTimeout

/-- The loop leaves on these bytes: the header is terminated and either the declared length is
refused or all of the declared body is there. -/
def Complete (received : Bytes) : Prop :=
  ∃ h, findHeaderEnd received = some h ∧
    (bodySize < contentLength (received.take h) ∨
      h + 4 + contentLength (received.take h) ≤ received.length)

/-- The loop returns an error on these bytes: the declared length is more than a body may have. -/
def Refused (received : Bytes) : Prop :=
  ∃ h, findHeaderEnd received = some h ∧ bodySize < contentLength (received.take h)

/-- The request line of a header, as `sscanf` splits it. -/
def requestLine (header : Bytes) : Option (Bytes × Bytes) :=
  (scanWord 7 header).bind fun m => (scanWord 79 m.2).map fun p => (m.1, p.1)

/-- The authorization text of a header, empty when there is no bearer field. -/
def authorizationText (header : Bytes) : Bytes := (bearerToken header).getD []

/-- The header survives the checks made after the loop. -/
def Parses (header : Bytes) : Prop :=
  (requestLine header).isSome ∧ (authorizationText header).length < AuthService.tokenTextSize

/-- The call assigned every field of the request structure: the header terminator is among the
bytes received, and each field is what those bytes say. -/
def Assigned (o : ReadOutcome) : Prop :=
  ∃ h, findHeaderEnd o.received = some h ∧
    requestLine (o.received.take h) = some (o.request.method, o.request.path) ∧
    o.request.authorization = authorizationText (o.received.take h) ∧
    o.request.body = h + 4 ∧
    o.request.bodyLength = contentLength (o.received.take h)

/-- Every field is assigned, and the bytes of the body behind the pointer have been received
too, with room for the NUL stored behind them. -/
def Filled (capacity : ℕ) (o : ReadOutcome) : Prop :=
  Assigned o ∧ o.request.body + o.request.bodyLength ≤ o.received.length ∧
    o.request.body + o.request.bodyLength < capacity

/-- The peer closes the transport before the loop has what it waits for. -/
def Interrupted (capacity : ℕ) (reads : List SslRead) : Prop :=
  endCode reads = 0 ∧ (arrived reads).length < capacity - 1 ∧ ¬ Complete (arrived reads)

/-- The buffer fills up behind a header that is accepted, before the declared body has arrived:
header, terminator and body do not fit. -/
def Overlong (capacity : ℕ) (reads : List SslRead) : Prop :=
  capacity - 1 ≤ (arrived reads).length ∧
    ∃ h, findHeaderEnd ((arrived reads).take (capacity - 1)) = some h ∧
      contentLength ((arrived reads).take h) ≤ bodySize ∧
      capacity ≤ h + 4 + contentLength ((arrived reads).take h) ∧
      Parses ((arrived reads).take h)

/-! ## Growth -/

theorem findHeaderEnd_of_isPrefix {a b : Bytes} {h : ℕ} (ha : findHeaderEnd a = some h)
    (hab : a <+: b) : findHeaderEnd b = some h :=
  strstr_of_isPrefix ha (cstr_mono hab)

theorem findHeaderEnd_le {a : Bytes} {h : ℕ} (ha : findHeaderEnd a = some h) :
    h + 4 ≤ a.length :=
  (strstr_add_length_le ha).trans (cstr_isPrefix a).length_le

/-- The header text is settled once its end is known. -/
theorem take_header_of_isPrefix {a b : Bytes} {h : ℕ} (ha : findHeaderEnd a = some h)
    (hab : a <+: b) : b.take h = a.take h := by
  obtain ⟨t, rfl⟩ := hab
  exact List.take_append_of_le_length (by have := findHeaderEnd_le ha; omega)

theorem Complete.of_isPrefix {a b : Bytes} (ha : Complete a) (hab : a <+: b) : Complete b := by
  obtain ⟨h, hh, hc⟩ := ha
  refine ⟨h, findHeaderEnd_of_isPrefix hh hab, ?_⟩
  rw [take_header_of_isPrefix hh hab]
  exact hc.imp_right fun hle => hle.trans hab.length_le

theorem Refused.complete {a : Bytes} : Refused a → Complete a := fun ⟨h, hh, hbig⟩ =>
  ⟨h, hh, .inl hbig⟩

theorem Refused.of_isPrefix {a b : Bytes} (ha : Refused a) (hab : a <+: b) : Refused b := by
  obtain ⟨h, hh, hbig⟩ := ha
  refine ⟨h, findHeaderEnd_of_isPrefix hh hab, ?_⟩
  rwa [take_header_of_isPrefix hh hab]

/-! ## The loop -/

/-- The local variables agree with the bytes received so far. -/
structure Waiting (r : Reader) : Prop where
  headerEnd : r.headerEnd = findHeaderEnd r.received
  expected : ∀ h, r.headerEnd = some h → r.expected = contentLength (r.received.take h)
  accepted : ∀ h, r.headerEnd = some h → r.expected ≤ bodySize

theorem waiting_start : Waiting ⟨[], none, 0⟩ :=
  ⟨by decide, by simp, by simp⟩

/-- What the loop body makes of the bytes it now holds. -/
theorem afterRead_spec {r : Reader} (hw : Waiting r) {received : Bytes}
    (hpre : r.received <+: received) :
    (Refused received ∧ afterRead { r with received := received } = .error errSslBadInputData) ∨
    (Complete received ∧ ∃ r', afterRead { r with received := received } = .ok (r', true) ∧
      r'.received = received ∧ Waiting r' ∧ r'.headerEnd.isSome) ∨
    (¬ Complete received ∧ ∃ r', afterRead { r with received := received } = .ok (r', false) ∧
      r'.received = received ∧ Waiting r') := by
  cases hr : r.headerEnd with
  | some h =>
    have hh : findHeaderEnd r.received = some h := hw.headerEnd.symm.trans hr
    have hh' := findHeaderEnd_of_isPrefix hh hpre
    have hexp : r.expected = contentLength (received.take h) := by
      rw [take_header_of_isPrefix hh hpre, hw.expected h hr]
    have hacc := hw.accepted h hr
    have hw' : Waiting { r with received := received } :=
      ⟨hr.trans hh'.symm, fun k hk => by cases hr.symm.trans hk; exact hexp,
        fun k hk => hw.accepted k hk⟩
    by_cases hle : h + 4 + r.expected ≤ received.length
    · exact .inr (.inl ⟨⟨h, hh', .inr (hexp ▸ hle)⟩, _, by simp [afterRead, hr, hle], rfl, hw',
        by simp [hr]⟩)
    · refine .inr (.inr ⟨?_, _, by simp [afterRead, hr, hle], rfl, hw'⟩)
      rintro ⟨k, hk, hc⟩
      cases hh'.symm.trans hk
      omega
  | none =>
    cases hf : findHeaderEnd received with
    | none =>
      refine .inr (.inr ⟨?_, _, by simp [afterRead, hf]; rfl, rfl, ?_⟩)
      · rintro ⟨k, hk, -⟩
        exact absurd (hf.symm.trans hk) (by simp)
      · exact ⟨by simp [hf], by simp, by simp⟩
    | some h =>
      by_cases hbig : bodySize < contentLength (received.take h)
      · exact .inl ⟨⟨h, hf, hbig⟩, by simp [afterRead, hf, hbig]⟩
      · have hw' : Waiting ⟨received, some h, contentLength (received.take h)⟩ :=
          ⟨hf.symm, fun k hk => by cases hk; rfl, fun k hk => by simpa using hbig⟩
        by_cases hle : h + 4 + contentLength (received.take h) ≤ received.length
        · exact .inr (.inl ⟨⟨h, hf, .inr hle⟩, _, by simp [afterRead, hf, hbig, hle],
            rfl, hw', rfl⟩)
        · refine .inr (.inr ⟨?_, _, by simp [afterRead, hf, hbig, hle], rfl, hw'⟩)
          rintro ⟨k, hk, hc⟩
          cases hf.symm.trans hk
          omega

/-- One read moves bytes of the stream into the buffer, up to its capacity. -/
theorem take_next {capacity : ℕ} {received next : Bytes} {first : UInt8} {rest : Bytes}
    (reads : List SslRead) (hroom : received.length < capacity - 1)
    (hnext : received ++ (first :: rest).take (capacity - received.length - 1) = next) :
    (received ++ arrived (.data first rest :: reads)).take (capacity - 1) =
      (next ++ arrived reads).take (capacity - 1) := by
  have hsub : capacity - received.length - 1 = capacity - 1 - received.length := by omega
  rw [← hnext, hsub, arrived]
  by_cases hshort : (first :: rest).length ≤ capacity - 1 - received.length
  · rw [List.take_of_length_le hshort, List.append_assoc]
  · have hlen : (received ++ (first :: rest).take (capacity - 1 - received.length)).length =
        capacity - 1 := by
      rw [List.length_append, List.length_take]
      omega
    rw [List.take_left' hlen, List.take_append, List.take_of_length_le hroom.le,
      List.take_append_of_le_length (by omega)]

theorem readLoop_data {capacity : ℕ} {r : Reader} {next : Bytes} {first : UInt8} {rest : Bytes}
    {reads : List SslRead} (hroom : r.received.length < capacity - 1)
    (hnext : r.received ++ (first :: rest).take (capacity - r.received.length - 1) = next) :
    readLoop capacity (.data first rest :: reads) r =
      match afterRead { r with received := next } with
      | .error code => (some code, { r with received := next })
      | .ok (r, true) => (none, r)
      | .ok (r, false) => readLoop capacity reads r := by
  subst hnext
  exact if_pos hroom

/-- The bytes in the buffer after a read are the next bytes of the stream. -/
theorem isPrefix_take_next {capacity : ℕ} {next : Bytes} (hlen : next.length ≤ capacity - 1)
    (rest : Bytes) : next <+: (next ++ rest).take (capacity - 1) := by
  rw [List.take_append, List.take_of_length_le hlen]
  exact List.prefix_append ..

/-- The loop on a stream that becomes complete within the buffer: it leaves there, unless the
declared length is refused. -/
theorem readLoop_of_complete {capacity : ℕ} :
    ∀ (reads : List SslRead) {r : Reader}, Waiting r → ¬ Complete r.received →
      Complete ((r.received ++ arrived reads).take (capacity - 1)) →
      r.received.length ≤ capacity - 1 →
      (Refused ((r.received ++ arrived reads).take (capacity - 1)) ∧
        ∃ r', readLoop capacity reads r = (some errSslBadInputData, r')) ∨
      ∃ r', readLoop capacity reads r = (none, r') ∧ Waiting r' ∧ r'.headerEnd.isSome ∧
        Complete r'.received ∧
        r'.received <+: (r.received ++ arrived reads).take (capacity - 1) := by
  intro reads
  induction reads with
  | nil =>
    intro r _ hnot hc hlen
    simp only [arrived, List.append_nil, List.take_of_length_le hlen] at hc
    exact absurd hc hnot
  | cons read reads ih =>
    intro r hw hnot hc hlen
    cases read with
    | closed =>
      simp only [arrived, List.append_nil, List.take_of_length_le hlen] at hc
      exact absurd hc hnot
    | failed code =>
      simp only [arrived, List.append_nil, List.take_of_length_le hlen] at hc
      exact absurd hc hnot
    | data first rest =>
      by_cases hroom : r.received.length < capacity - 1
      · generalize hnext :
          r.received ++ (first :: rest).take (capacity - r.received.length - 1) = next
        have hpre : r.received <+: next := ⟨_, hnext⟩
        have hnextlen : next.length ≤ capacity - 1 := by
          rw [← hnext, List.length_append, List.length_take]
          omega
        have hcut := isPrefix_take_next hnextlen (arrived reads)
        rw [readLoop_data hroom hnext]
        rw [take_next reads hroom hnext] at hc ⊢
        rcases afterRead_spec hw hpre with
          ⟨hrefused, h⟩ | ⟨hcn, r', h, hr', hw', hs⟩ | ⟨hcn, r', h, hr', hw'⟩
        · exact .inl ⟨hrefused.of_isPrefix hcut, _, by rw [h]⟩
        · exact .inr ⟨r', by rw [h], hw', hs, hr' ▸ hcn, hr' ▸ hcut⟩
        · rw [h]
          have := ih hw' (hr' ▸ hcn) (by rwa [hr']) (hr' ▸ hnextlen)
          rwa [hr'] at this
      · have hfull : r.received.length = capacity - 1 := by omega
        rw [List.take_left' hfull] at hc
        exact absurd hc hnot

/-- The loop on a stream that never becomes complete within the buffer: it fills the buffer, or
returns what the stream ends with. -/
theorem readLoop_of_not_complete {capacity : ℕ} :
    ∀ (reads : List SslRead) {r : Reader}, Waiting r →
      ¬ Complete ((r.received ++ arrived reads).take (capacity - 1)) →
      r.received.length ≤ capacity - 1 →
      if capacity - 1 ≤ (r.received ++ arrived reads).length then
        ∃ r', readLoop capacity reads r = (none, r') ∧ Waiting r' ∧
          r'.received = (r.received ++ arrived reads).take (capacity - 1)
      else
        ∃ r', readLoop capacity reads r = (some (endCode reads), r') := by
  intro reads
  induction reads with
  | nil =>
    intro r hw _ hlen
    simp only [arrived, List.append_nil, endCode]
    split_ifs with hfull
    · exact ⟨r, by rw [readLoop, if_neg (by omega)], hw, (List.take_of_length_le hlen).symm⟩
    · exact ⟨r, by rw [readLoop, if_pos (by omega)]⟩
  | cons read reads ih =>
    intro r hw hnot hlen
    by_cases hroom : r.received.length < capacity - 1
    · cases read with
      | closed =>
        rw [if_neg (by simp only [arrived, List.append_nil]; omega)]
        exact ⟨r, by rw [readLoop, if_pos hroom]; rfl⟩
      | failed code =>
        rw [if_neg (by simp only [arrived, List.append_nil]; omega)]
        exact ⟨r, by rw [readLoop, if_pos hroom]; rfl⟩
      | data first rest =>
        generalize hnext :
          r.received ++ (first :: rest).take (capacity - r.received.length - 1) = next
        have hpre : r.received <+: next := ⟨_, hnext⟩
        have hnextlen : next.length ≤ capacity - 1 := by
          rw [← hnext, List.length_append, List.length_take]
          omega
        have htake := take_next reads hroom hnext
        have hcut := isPrefix_take_next hnextlen (arrived reads)
        have hmin := congrArg List.length htake
        simp only [List.length_take] at hmin
        rw [readLoop_data hroom hnext]
        rw [htake] at hnot ⊢
        rcases afterRead_spec hw hpre with
          ⟨hcn, -⟩ | ⟨hcn, -⟩ | ⟨-, r', h, hr', hw'⟩
        · exact absurd (hcn.complete.of_isPrefix hcut) hnot
        · exact absurd (hcn.of_isPrefix hcut) hnot
        · rw [h]
          have := ih hw' (by rwa [hr']) (by rwa [hr'])
          rw [hr'] at this
          split_ifs at this ⊢ with h1 h2 h2
          · exact this
          · omega
          · omega
          · exact this
    · have hfull : r.received.length = capacity - 1 := by omega
      rw [if_pos (by rw [List.length_append]; omega), List.take_left' hfull]
      exact ⟨r, by cases read <;> rw [readLoop, if_neg hroom], hw, rfl⟩

/-! ## After the loop -/

theorem parseHeader_of_parses {header : Bytes} (hp : Parses header) (request : Request) :
    ∃ method path, requestLine header = some (method, path) ∧
      parseHeader header request = (none, { request with
        method := method, path := path, authorization := authorizationText header }) := by
  obtain ⟨hline, hauth⟩ := hp
  cases hm : scanWord 7 header with
  | none => simp [requestLine, hm] at hline
  | some m =>
    cases hq : scanWord 79 m.2 with
    | none => simp [requestLine, hm, hq] at hline
    | some q =>
      refine ⟨m.1, q.1, by simp [requestLine, hm, hq], ?_⟩
      cases ht : bearerToken header with
      | none => simp [parseHeader, hm, hq, ht, authorizationText]
      | some token =>
        have : ¬ AuthService.tokenTextSize ≤ token.length := by simpa [authorizationText, ht] using hauth
        simp [parseHeader, hm, hq, ht, authorizationText, this]

theorem parseHeader_of_not_parses {header : Bytes} (hp : ¬ Parses header) (request : Request) :
    ∃ request', parseHeader header request = (some errSslBadInputData, request') := by
  cases hm : scanWord 7 header with
  | none => exact ⟨_, by simp only [parseHeader, hm]; rfl⟩
  | some m =>
    cases hq : scanWord 79 m.2 with
    | none => exact ⟨_, by simp only [parseHeader, hm, hq]; rfl⟩
    | some q =>
      have hline : (requestLine header).isSome := by simp [requestLine, hm, hq]
      cases ht : bearerToken header with
      | none =>
        exact absurd ⟨hline, by simp [authorizationText, ht, AuthService.tokenTextSize]⟩ hp
      | some token =>
        have : AuthService.tokenTextSize ≤ token.length := by
          by_contra hlt
          exact hp ⟨hline, by simpa [authorizationText, ht] using hlt⟩
        exact ⟨_, by simp only [parseHeader, hm, hq, ht, ge_iff_le, this, if_true]; rfl⟩

/-- A word `sscanf` converts is not empty, so a filled request has a method. -/
theorem requestLine_ne_nil {header : Bytes} {method path : Bytes}
    (h : requestLine header = some (method, path)) : method ≠ [] := by
  simp only [requestLine, Option.bind_eq_some_iff, Option.map_eq_some_iff, Prod.mk.injEq] at h
  obtain ⟨m, hm, -, -, rfl, -⟩ := h
  simp only [scanWord] at hm
  split_ifs at hm with he
  rw [← Option.some.inj hm]
  simpa using he

/-- The call once its loop has ended with the header found. -/
theorem readRequest_of_header {capacity : ℕ} (stack : ℕ → UInt8) (request : Request)
    {reads : List SslRead} {r : Reader} {h : ℕ}
    (hloop : readLoop capacity reads ⟨[], none, 0⟩ = (none, r)) (hw : Waiting r)
    (hr : r.headerEnd = some h) :
    (Parses (r.received.take h) ∧ ∃ method path,
      requestLine (r.received.take h) = some (method, path) ∧
      readRequest capacity stack request reads =
        ⟨0, ⟨method, path, authorizationText (r.received.take h), h + 4,
            contentLength (r.received.take h)⟩, r.received,
          Function.update (buffered stack r.received)
            (h + 4 + contentLength (r.received.take h)) 0⟩) ∨
    (¬ Parses (r.received.take h) ∧
      (readRequest capacity stack request reads).result = errSslBadInputData) := by
  have hexp := hw.expected h hr
  obtain ⟨received, headerEnd, expected⟩ := r
  simp only at hr hexp ⊢
  subst hr hexp
  by_cases hp : Parses (received.take h)
  · obtain ⟨method, path, hline, hparse⟩ := parseHeader_of_parses hp request
    exact .inl ⟨hp, method, path, hline, by simp only [readRequest, hloop, hparse]⟩
  · obtain ⟨request', hparse⟩ := parseHeader_of_not_parses hp request
    exact .inr ⟨hp, by simp only [readRequest, hloop, hparse]⟩

theorem dispatched_eq_some {stack : ℕ → UInt8} {stale request : Request}
    {reads : List SslRead} : dispatched stack stale reads = some request ↔
      (readRequest requestSize stack stale reads).result = 0 ∧
      (readRequest requestSize stack stale reads).request = request := by
  simp [dispatched]

/-- The reads decide which way the call goes: the connection was interrupted, the request did
not fit, or everything that is returned with `0` was filled. -/
theorem readRequest_cases {capacity : ℕ} (hcap : 0 < capacity) (stack : ℕ → UInt8)
    (stale : Request) (reads : List SslRead) :
    (Interrupted capacity reads ∧ (readRequest capacity stack stale reads).result = 0 ∧
      (readRequest capacity stack stale reads).request = stale) ∨
    (Overlong capacity reads ∧ (readRequest capacity stack stale reads).result = 0 ∧
      Assigned (readRequest capacity stack stale reads) ∧
      (readRequest capacity stack stale reads).received.length <
        (readRequest capacity stack stale reads).request.body +
          (readRequest capacity stack stale reads).request.bodyLength) ∨
    (¬ Interrupted capacity reads ∧ ¬ Overlong capacity reads ∧
      ((readRequest capacity stack stale reads).result = 0 →
        Filled capacity (readRequest capacity stack stale reads))) := by
  have hbad : errSslBadInputData ≠ 0 := by decide
  have hnil : ¬ Complete [] := by
    rintro ⟨h, hh, -⟩
    exact absurd hh (by simp [findHeaderEnd, strstr, ascii])
  have hpre : (arrived reads).take (capacity - 1) <+: arrived reads := List.take_prefix ..
  by_cases hc : Complete ((arrived reads).take (capacity - 1))
  · -- The stream becomes complete within the buffer.
    have hint : ¬ Interrupted capacity reads := fun h => h.2.2 (hc.of_isPrefix hpre)
    have hover : ¬ Overlong capacity reads := by
      rintro ⟨-, h, hh, hacc, hlong, -⟩
      obtain ⟨k, hk, hk'⟩ := hc
      cases hh.symm.trans hk
      rw [← take_header_of_isPrefix hh hpre, List.length_take] at hk'
      omega
    refine .inr (.inr ⟨hint, hover, ?_⟩)
    rcases readLoop_of_complete reads waiting_start hnil (by simpa using hc) (by simp) with
      ⟨-, r, hr⟩ | ⟨r, hr, hw, hs, hcr, hcut⟩
    · intro h0
      simp only [readRequest, hr] at h0
      exact absurd h0 hbad
    · obtain ⟨h, hh⟩ := Option.isSome_iff_exists.1 hs
      have hf := hw.headerEnd.symm.trans hh
      rcases readRequest_of_header stack stale hr hw hh with
        ⟨-, method, path, hline, heq⟩ | ⟨-, heq⟩
      · intro _
        obtain ⟨k, hk, hk'⟩ := hcr
        cases hf.symm.trans hk
        have hacc := hw.accepted h hh
        have hlen := hcut.length_le.trans (List.length_take_le ..)
        rw [hw.expected h hh] at hacc
        rw [heq]
        refine ⟨⟨h, hf, hline, rfl, rfl, rfl⟩, ?_, ?_⟩ <;> simp only <;> omega
      · intro h0
        exact absurd (heq.symm.trans h0) hbad
  · have hloop := readLoop_of_not_complete reads waiting_start (by simpa using hc) (by simp)
    simp only [List.nil_append] at hloop
    split_ifs at hloop with hfull
    · -- The buffer fills up.
      obtain ⟨r, hr, hw, hrec⟩ := hloop
      have hlen : r.received.length = capacity - 1 := by rw [hrec, List.length_take]; omega
      have hint : ¬ Interrupted capacity reads := fun h => absurd h.2.1 (by omega)
      cases hh : r.headerEnd with
      | none =>
        have hf := hw.headerEnd.symm.trans hh
        refine .inr (.inr ⟨hint, ?_, ?_⟩)
        · rintro ⟨-, h, hk, -⟩
          rw [← hrec] at hk
          exact absurd (hf.symm.trans hk) (by simp)
        · intro h0
          obtain ⟨received, headerEnd, expected⟩ := r
          cases hh
          simp only [readRequest, hr] at h0
          exact absurd h0 hbad
      | some h =>
        have hf := hw.headerEnd.symm.trans hh
        have hacc := hw.accepted h hh
        have htake : (arrived reads).take h = r.received.take h :=
          take_header_of_isPrefix hf (hrec ▸ hpre)
        have hlong : r.received.length < h + 4 + contentLength (r.received.take h) := by
          by_contra hle
          exact hc (hrec ▸ ⟨h, hf, .inr (by omega)⟩)
        rw [hw.expected h hh] at hacc
        rcases readRequest_of_header stack stale hr hw hh with
          ⟨hp, method, path, hline, heq⟩ | ⟨hp, heq⟩
        · have hover : Overlong capacity reads := by
            refine ⟨hfull, h, hrec ▸ hf, ?_⟩
            rw [htake]
            exact ⟨hacc, by omega, hp⟩
          rw [heq]
          exact .inr (.inl ⟨hover, rfl, ⟨h, hf, hline, rfl, rfl, rfl⟩, hlong⟩)
        · refine .inr (.inr ⟨hint, ?_, fun h0 => absurd (heq.symm.trans h0) hbad⟩)
          rintro ⟨-, k, hk, -, -, hpk⟩
          rw [← hrec] at hk
          cases hf.symm.trans hk
          exact hp (htake ▸ hpk)
    · -- The stream ends first.
      obtain ⟨r, hr⟩ := hloop
      have hover : ¬ Overlong capacity reads := fun h => hfull h.1
      by_cases hend : endCode reads = 0
      · refine .inl ⟨⟨hend, by omega, ?_⟩, by simp [readRequest, hr, hend],
          by simp [readRequest, hr]⟩
        rwa [List.take_of_length_le (by omega)] at hc
      · refine .inr (.inr ⟨fun h => hend h.1, hover, fun h0 => absurd ?_ hend⟩)
        simpa [readRequest, hr] using h0

theorem not_interrupted_of_overlong {capacity : ℕ} {reads : List SslRead}
    (hover : Overlong capacity reads) : ¬ Interrupted capacity reads := fun h =>
  absurd (hover.1.trans_lt h.2.1) (lt_irrefl _)

/-! ## Dispatching only what was received -/

/-- What a dispatched request shows of the call it comes from, on any stack and whatever the
request structure held before. -/
def Dispatches (reads : List SslRead) (P : ReadOutcome → Prop) : Prop :=
  ∀ stack stale request, dispatched stack stale reads = some request →
    (readRequest requestSize stack stale reads).request = request ∧
      P (readRequest requestSize stack stale reads)

theorem dispatches_iff {reads : List SslRead} {P : ReadOutcome → Prop} :
    Dispatches reads P ↔ ∀ stack stale,
      (readRequest requestSize stack stale reads).result = 0 →
        P (readRequest requestSize stack stale reads) := by
  refine ⟨fun h stack stale h0 => (h stack stale _ (dispatched_eq_some.2 ⟨h0, rfl⟩)).2, ?_⟩
  intro h stack stale request hd
  obtain ⟨h0, hreq⟩ := dispatched_eq_some.1 hd
  exact ⟨hreq, h stack stale h0⟩

/-- A structure that never had a method: what an interrupted call leaves of it is recognised. -/
def blankRequest : Request := ⟨[], [], [], 0, 0⟩

theorem not_assigned_of_interrupted (stack : ℕ → UInt8) {reads : List SslRead}
    (hint : Interrupted requestSize reads) :
    (readRequest requestSize stack blankRequest reads).result = 0 ∧
      ¬ Assigned (readRequest requestSize stack blankRequest reads) := by
  rcases readRequest_cases (by decide : 0 < requestSize) stack blankRequest reads with
    ⟨-, h0, hreq⟩ | ⟨hover, -⟩ | ⟨h, -⟩
  · refine ⟨h0, ?_⟩
    rintro ⟨k, -, hline, -⟩
    rw [hreq] at hline
    exact absurd rfl (requestLine_ne_nil hline)
  · exact absurd hint (not_interrupted_of_overlong hover)
  · exact absurd hint h

/-- **A dispatched request was filled by this call, except when the peer closes early.** The
fields are assigned from this connection's bytes exactly when the peer does not close the
transport while the loop still waits; the bytes of the body are among them exactly when, in
addition, the accepted request fits the buffer. -/
theorem dispatched_filled_iff (reads : List SslRead) :
    (Dispatches reads Assigned ↔ ¬ Interrupted requestSize reads) ∧
    (Dispatches reads (Filled requestSize) ↔
      ¬ Interrupted requestSize reads ∧ ¬ Overlong requestSize reads) := by
  simp only [dispatches_iff]
  have hcases := fun stack stale =>
    readRequest_cases (by decide : 0 < requestSize) stack stale reads
  refine ⟨⟨fun hfill hint => ?_, fun hint stack stale h0 => ?_⟩,
    ⟨fun hfill => ⟨fun hint => ?_, fun hover => ?_⟩, fun ⟨hint, hover⟩ stack stale h0 => ?_⟩⟩
  · obtain ⟨h0, hnot⟩ := not_assigned_of_interrupted (fun _ => 0) hint
    exact hnot (hfill _ _ h0)
  · rcases hcases stack stale with ⟨h, -⟩ | ⟨-, -, hassigned, -⟩ | ⟨-, -, hfilled⟩
    · exact absurd h hint
    · exact hassigned
    · exact (hfilled h0).1
  · obtain ⟨h0, hnot⟩ := not_assigned_of_interrupted (fun _ => 0) hint
    exact hnot (hfill _ _ h0).1
  · rcases hcases (fun _ => 0) blankRequest with ⟨h, -⟩ | ⟨-, h0, -, hlong⟩ | ⟨-, h, -⟩
    · exact not_interrupted_of_overlong hover h
    · exact absurd (hfill _ _ h0).2.1 (by omega)
    · exact h hover
  · rcases hcases stack stale with ⟨h, -⟩ | ⟨h, -⟩ | ⟨-, -, hfilled⟩
    · exact absurd h hint
    · exact absurd h hover
    · exact hfilled h0

/-- A peer that closes the transport before sending anything has the request structure of an
earlier connection dispatched, bearer token included. -/
theorem dispatched_stale :
    ¬ ∀ reads stack stale request, dispatched stack stale reads = some request →
      Assigned (readRequest requestSize stack stale reads) := by
  intro h
  obtain ⟨k, hk, -⟩ := h [.closed] (fun _ => 0)
    ⟨ascii "DELETE", ascii "/api/v1/trust-anchors", ascii "4f1c", 0, 0⟩ _ rfl
  have hnone : findHeaderEnd [] = none := by decide
  exact absurd (hnone.symm.trans hk) (by simp)

/-! ## Bodies stay inside the buffer -/

/-- Reads that each deliver at least one byte. -/
def dataReads (chunks : List (UInt8 × Bytes)) : List SslRead :=
  chunks.map fun chunk => .data chunk.1 chunk.2

/-- What the call returns with `0` has its body, and the NUL stored behind it, in the buffer
and among the bytes received. -/
def BodyInside (capacity : ℕ) (o : ReadOutcome) : Prop :=
  ∃ h, findHeaderEnd o.received = some h ∧ o.request.body = h + 4 ∧
    o.request.bodyLength = contentLength (o.received.take h) ∧
    h + 4 + o.request.bodyLength ≤ o.received.length ∧
    h + 4 + o.request.bodyLength < capacity

theorem not_interrupted_dataReads (capacity : ℕ) (chunks : List (UInt8 × Bytes)) :
    ¬ Interrupted capacity (dataReads chunks) := by
  have hend : endCode (dataReads chunks) = errSslTimeout := by
    induction chunks with
    | nil => rfl
    | cons chunk chunks ih => exact ih
  exact fun h => absurd (hend.symm.trans h.1) (by decide)

theorem not_bodyInside_of_overlong (stack : ℕ → UInt8) (stale : Request)
    {chunks : List (UInt8 × Bytes)} (hover : Overlong requestSize (dataReads chunks)) :
    (readRequest requestSize stack stale (dataReads chunks)).result = 0 ∧
      ¬ BodyInside requestSize (readRequest requestSize stack stale (dataReads chunks)) := by
  rcases readRequest_cases (by decide : 0 < requestSize) stack stale (dataReads chunks) with
    ⟨h, -⟩ | ⟨-, h0, ⟨h, hh, -, -, hbody, -⟩, hlong⟩ | ⟨-, h, -⟩
  · exact absurd h (not_interrupted_dataReads _ _)
  · refine ⟨h0, ?_⟩
    rintro ⟨k, hk, -, -, hle, -⟩
    cases hh.symm.trans hk
    omega
  · exact absurd hover h

/-- **The body of a request returned with `0` is complete and inside the buffer, except when
header, terminator and declared body do not fit it**, however the stream is cut into reads. -/
theorem bodyInside_iff (chunks : List (UInt8 × Bytes)) :
    (∀ stack stale, (readRequest requestSize stack stale (dataReads chunks)).result = 0 →
      BodyInside requestSize (readRequest requestSize stack stale (dataReads chunks))) ↔
      ¬ Overlong requestSize (dataReads chunks) := by
  constructor
  · intro hin hover
    obtain ⟨h0, hnot⟩ :=
      not_bodyInside_of_overlong (fun _ => 0) blankRequest hover
    exact hnot (hin _ _ h0)
  · intro hover stack stale h0
    rcases readRequest_cases (by decide : 0 < requestSize) stack stale (dataReads chunks) with
      ⟨h, -⟩ | ⟨h, -⟩ | ⟨-, -, hfilled⟩
    · exact absurd h (not_interrupted_dataReads _ _)
    · exact absurd h hover
    · obtain ⟨⟨h, hh, -, -, hbody, hlen⟩, hle, hlt⟩ := hfilled h0
      rw [hbody] at hle hlt
      exact ⟨h, hh, hbody, hlen, hle, hlt⟩

/-- A certificate upload of the maximal size behind a header of 523 bytes: the buffer is full 16
bytes before the end of the body. -/
def overlongUpload : UInt8 × Bytes :=
  (0x50, ascii "UT /api/v1/tls/certificate HTTP/1.1\r\nContent-Length: 2048\r\nX: " ++
    List.replicate 460 0x61 ++ ascii "\r\n\r\n" ++ List.replicate 2048 0x62)

/-- On that upload the call returns `0` and stores the NUL behind the body outside the buffer. -/
theorem body_outside :
    ¬ ∀ chunks stack stale,
      (readRequest requestSize stack stale (dataReads chunks)).result = 0 →
      BodyInside requestSize (readRequest requestSize stack stale (dataReads chunks)) := by
  have hover : Overlong requestSize (dataReads [overlongUpload]) := by
    refine ⟨by decide +kernel, 523, by decide +kernel, by decide +kernel, by decide +kernel,
      by decide +kernel, by decide +kernel⟩
  intro hin
  obtain ⟨h0, hnot⟩ :=
    not_bodyInside_of_overlong (fun _ => 0) blankRequest hover
  exact hnot (hin _ _ _ h0)

end HealthCheck.ApiService
