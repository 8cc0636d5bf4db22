import HealthCheck.Lib.Scan
import HealthCheck.TlsTransportProof

/-!
# The status line of a reply

`tlsTransport_ReadStatus` reads a line and leaves its meaning to `sscanf`, whose `%u` skips white
space, accepts a sign and stops after its width. A health check takes the number it gets for the
status code of the server.

* `statusLine_iff` — a status is what the server says exactly when the line is none that the
  format reads more freely than HTTP.
* `longCode_healthy` — a server whose code is no code at all passes for healthy.
-/

namespace HealthCheck.TlsTransport

open CString

/-! ## What the server says -/

/-- The bytes that arrive before a call fails. -/
def arrived (reads : List (SslCall × UInt8)) : Bytes :=
  bytesRead (reads.takeWhile fun read => 0 < read.1.result)

/-- Three digits that end at a space or with the line. -/
def Ended (text : Bytes) (code : ℕ) : Prop :=
  ∃ digits rest, text = digits ++ rest ∧ digits.length = 3 ∧ (∀ c ∈ digits, isDigit c) ∧
    decimal digits = code ∧ (rest.head? = some 0x20 ∨ ascii "\r\n" <+: rest)

/-- The reply begins with a status line for this code. -/
def Says (reply : Bytes) (code : ℕ) : Prop :=
  ∃ version text, version ≠ [] ∧ (∀ c ∈ version, isDigit c) ∧
    reply = ascii "HTTP/1." ++ (version ++ 0x20 :: text) ∧ Ended text code

/-! ## What the format reads -/

/-- How `"HTTP/1.%*u %3u"` divides a text. -/
structure Reading (text : Bytes) (version code : Numeral) (rest : Bytes) : Prop where
  text_eq : text = ascii "HTTP/1." ++ (version.text ++ (code.text ++ rest))
  version : version.Taken text.length (code.text ++ rest)
  code : code.Taken 3 rest

/-- **The freedom of the format**: a number is read although white space or a sign stands in front
of the version, something other than one space between the two numbers, a sign in front of the
second, or although that is not the three digits of a code. -/
def Free (reply line : Bytes) : Prop :=
  12 ≤ line.length ∧ ∃ version code rest, Reading (cstr line) version code rest ∧
    (code.sign = [0x2D] → decimal code.digits = 0) ∧
    (version.space ≠ [] ∨ version.sign ≠ [] ∨ code.space ≠ [0x20] ∨ code.sign ≠ [] ∨
      ¬Ended (reply.drop (8 + version.digits.length)) (decimal code.digits))

theorem scanStatus_eq_some {line : Bytes} {status : ℕ} : scanStatus line = some status ↔
    ∃ version code rest, Reading line version code rest ∧
      status = strtoul (code.sign ++ code.digits) := by
  have hlength : (ascii "HTTP/1.").length = 7 := rfl
  constructor
  · intro h
    unfold scanStatus at h
    split at h
    · rename_i hstarts
      obtain ⟨behind, rfl⟩ := List.isPrefixOf_iff_prefix.1 hstarts
      simp only [Option.bind_eq_bind, Option.pure_def, Option.bind_eq_some_iff, Prod.exists,
        Option.some.injEq] at h
      obtain ⟨_, rest, hversion, _, rest', hcode, rfl⟩ := h
      obtain ⟨version, htext, htaken, -⟩ := scanUnsigned_eq_some.1 hversion
      obtain ⟨code, rfl, htaken', rfl⟩ := scanUnsigned_eq_some.1 hcode
      rw [← hlength, List.drop_left] at htext
      exact ⟨version, code, rest', ⟨by rw [htext], htaken, htaken'⟩, rfl⟩
    · cases h
  · intro h
    obtain ⟨version, code, rest, hreading, rfl⟩ := h
    have hstarts : (ascii "HTTP/1.").isPrefixOf line :=
      List.isPrefixOf_iff_prefix.2 (hreading.text_eq ▸ List.prefix_append _ _)
    have hdrop : line.drop 7 = version.text ++ (code.text ++ rest) := by
      rw [hreading.text_eq, ← hlength, List.drop_left]
    rw [scanStatus, if_pos hstarts, hdrop]
    simp only [Option.bind_eq_bind, Option.pure_def, scanUnsigned_of_taken hreading.version,
      Option.bind_some, scanUnsigned_of_taken hreading.code]

theorem Reading.value_lt {text rest : Bytes} {version code : Numeral}
    (h : Reading text version code rest) : decimal code.digits < 1000 := by
  have hwidth := h.code.width_le
  exact (decimal_lt h.code.digits).trans_le
    (Nat.pow_le_pow_right (by decide) (show code.digits.length ≤ 3 by omega))

/-- **What `tlsTransport_ReadStatus` accepts**, and the number it stores. -/
theorem parseStatus_eq_some {line : Bytes} {status : UInt16} : parseStatus line = some status ↔
    12 ≤ line.length ∧ ∃ version code rest, Reading (cstr line) version code rest ∧
      (code.sign = [0x2D] → decimal code.digits = 0) ∧
      status = UInt16.ofNat (decimal code.digits) := by
  have hvalue {text version rest} {code : Numeral} (h : Reading text version code rest) :
      decimal code.digits < 1000 ∧ strtoul (code.sign ++ code.digits) =
        if code.sign = [0x2D] then (2 ^ 32 - decimal code.digits) % 2 ^ 32
        else decimal code.digits :=
    ⟨h.value_lt, h.code.strtoul_eq (h.value_lt.trans (by decide))⟩
  unfold parseStatus
  by_cases hshort : line.length < 12
  · rw [if_pos hshort]
    exact iff_of_false nofun fun h => absurd h.1 (Nat.not_le.2 hshort)
  · rw [if_neg hshort, Option.bind_eq_some_iff]
    constructor
    · intro h
      obtain ⟨number, hnumber, hstatus⟩ := h
      obtain ⟨version, code, rest, hreading, rfl⟩ := scanStatus_eq_some.1 hnumber
      obtain ⟨hlt, heq⟩ := hvalue hreading
      rw [heq] at hstatus
      by_cases hminus : code.sign = [0x2D]
      · rw [if_pos hminus] at hstatus
        split at hstatus
        · cases hstatus
        · have hzero : decimal code.digits = 0 := by omega
          rw [hzero] at hstatus
          refine ⟨Nat.le_of_not_lt hshort, version, code, rest, hreading, fun _ => hzero, ?_⟩
          rw [hzero]
          exact (Option.some.inj hstatus).symm
      · rw [if_neg hminus, if_neg (by omega)] at hstatus
        exact ⟨Nat.le_of_not_lt hshort, version, code, rest, hreading, fun h => absurd h hminus,
          (Option.some.inj hstatus).symm⟩
    · intro h
      obtain ⟨-, version, code, rest, hreading, hminus, rfl⟩ := h
      obtain ⟨hlt, heq⟩ := hvalue hreading
      refine ⟨_, scanStatus_eq_some.2 ⟨version, code, rest, hreading, rfl⟩, ?_⟩
      rw [heq]
      by_cases hsign : code.sign = [0x2D]
      · rw [if_pos hsign, hminus hsign]
        rfl
      · rw [if_neg hsign, if_neg (by omega)]

/-! ## Strict and free readings -/

/-- What is taken from a text that begins with a digit begins with it. -/
theorem plain_of_prefix {n : Numeral} {width : ℕ} {rest more : Bytes} {d : UInt8}
    (h : n.Taken width rest) (hd : isDigit d) (hstarts : n.text ++ rest <+: d :: more) :
    n.space = [] ∧ n.sign = [] := by
  have hspace : n.space = [] := by
    cases hs : n.space with
    | nil => rfl
    | cons c space =>
      rw [Numeral.text, hs, List.cons_append, List.cons_append, List.cons_prefix_cons] at hstarts
      have hc := h.space c (by rw [hs]; exact List.mem_cons_self)
      rw [hstarts.1, not_isSpace_of_isDigit hd] at hc
      exact Bool.noConfusion hc
  refine ⟨hspace, ?_⟩
  rw [Numeral.text, hspace, List.nil_append, List.append_assoc] at hstarts
  rcases h.sign with hs | hs | hs
  · exact hs
  · rw [hs, List.cons_append, List.cons_prefix_cons] at hstarts
    exact absurd hstarts.1.symm (isDigit_ne hd (by decide))
  · rw [hs, List.cons_append, List.cons_prefix_cons] at hstarts
    exact absurd hstarts.1.symm (isDigit_ne hd (by decide))

/-- Digits that are followed by something else are taken together. -/
theorem digits_of_prefix {digits run rest more : Bytes} {c : UInt8}
    (hdigits : ∀ d ∈ digits, isDigit d) (hrun : ∀ d ∈ run, isDigit d)
    (hrest : ∀ d, rest.head? = some d → isDigit d = false) (hne : rest ≠ [])
    (hc : isDigit c = false) (h : digits ++ rest <+: run ++ c :: more) :
    digits = run ∧ rest <+: c :: more := by
  obtain ⟨tail, htail⟩ := h
  have hleft : (digits ++ (rest ++ tail)).takeWhile isDigit = digits :=
    takeWhile_append hdigits fun d hd => hrest d (by
      obtain ⟨e, rest, rfl⟩ := List.exists_cons_of_ne_nil hne
      exact hd)
  have hright : (run ++ c :: more).takeWhile isDigit = run :=
    takeWhile_append hrun fun d hd => by
      rw [List.head?_cons, Option.some.injEq] at hd
      rw [← hd, hc]
  rw [List.append_assoc] at htail
  have heq : digits = run := by rw [← hleft, htail, hright]
  subst heq
  exact ⟨rfl, tail, List.append_cancel_left htail⟩

/-- A line that says a code is read strictly. -/
theorem Reading.strict {text reply digits more rest : Bytes} {version code : Numeral} {run : Bytes}
    (h : Reading text version code rest) (htext : text <+: reply) (hne : run ≠ [])
    (hrun : ∀ c ∈ run, isDigit c)
    (hreply : reply = ascii "HTTP/1." ++ (run ++ 0x20 :: (digits ++ more)))
    (hlength : digits.length = 3) (hdigits : ∀ c ∈ digits, isDigit c) :
    version.space = [] ∧ version.sign = [] ∧ version.digits = run ∧ code.space = [0x20] ∧
      code.sign = [] := by
  have hpre : version.text ++ (code.text ++ rest) <+: run ++ 0x20 :: (digits ++ more) := by
    rw [h.text_eq, hreply] at htext
    exact (List.prefix_append_right_inj _).1 htext
  obtain ⟨v, run, rfl⟩ := List.exists_cons_of_ne_nil hne
  obtain ⟨hspace, hsign⟩ :=
    plain_of_prefix h.version (hrun v List.mem_cons_self) hpre
  have hnext : ∀ c, (code.text ++ rest).head? = some c → isDigit c = false := by
    rcases h.version.maximal with hall | hnext
    · have hlong := congrArg List.length h.text_eq
      simp only [List.length_append, Numeral.text] at hlong
      have hseven : (ascii "HTTP/1.").length = 7 := rfl
      omega
    · exact hnext
  have hcode : code.text ++ rest ≠ [] := by
    simp [Numeral.text, h.code.ne_nil]
  rw [Numeral.text, hspace, hsign, List.nil_append, List.nil_append] at hpre
  obtain ⟨hversion, hpre⟩ :=
    digits_of_prefix h.version.digits hrun hnext hcode (by decide) hpre
  refine ⟨hspace, hsign, hversion, ?_⟩
  obtain ⟨d, digits, rfl⟩ := List.exists_cons_of_length_eq_add_one hlength
  have hd := hdigits d List.mem_cons_self
  cases hs : code.space with
  | nil =>
    -- Neither a sign nor a digit is a space.
    rw [Numeral.text, hs, List.nil_append, List.append_assoc] at hpre
    have hhead := h.code.head_sign rest
    cases hbody : code.sign ++ (code.digits ++ rest) with
    | nil => simp [h.code.ne_nil] at hbody
    | cons c body =>
      rw [hbody] at hpre hhead
      have hc := hhead c rfl
      rw [(List.cons_prefix_cons.1 hpre).1] at hc
      exact absurd hc (by decide)
  | cons c space =>
    rw [Numeral.text, hs, List.cons_append, List.cons_append, List.cons_prefix_cons] at hpre
    obtain ⟨rfl, hpre⟩ := hpre
    have htaken : Numeral.Taken ⟨space, code.sign, code.digits⟩ 3 rest :=
      { h.code with
        space := fun c hc => h.code.space c (hs ▸ List.mem_cons_of_mem _ hc) }
    obtain ⟨hnil, hsign⟩ := plain_of_prefix htaken hd hpre
    dsimp only at hnil
    exact ⟨by rw [hnil], hsign⟩

theorem isPrefix_arrived {reads : List (SslCall × UInt8)} {line : Bytes}
    (h : LineReceived reads line) : line <+: arrived reads := by
  obtain ⟨done, last, rest, rfl, hdone, hlast, -, rfl, -⟩ := h
  have htake : (done ++ last :: rest).takeWhile (fun read => 0 < read.1.result) =
      done ++ last :: rest.takeWhile fun read => 0 < read.1.result := by
    rw [List.takeWhile_append_of_pos (fun read hread => by simpa using hdone read hread),
      List.takeWhile_cons_of_pos (by simpa using hlast)]
  rw [arrived, htake, bytesRead, bytesRead, List.map_append, List.map_cons, List.nil_append]
  exact ⟨_, by rw [List.append_assoc]; rfl⟩

theorem drop_version (run text : Bytes) :
    (ascii "HTTP/1." ++ (run ++ 0x20 :: text)).drop (8 + run.length) = text := by
  have hlength : (ascii "HTTP/1." ++ (run ++ [0x20])).length = 8 + run.length := by
    have hseven : (ascii "HTTP/1.").length = 7 := rfl
    rw [List.length_append, List.length_append, hseven, List.length_singleton]
    omega
  have hsplit : ascii "HTTP/1." ++ (run ++ 0x20 :: text) =
      (ascii "HTTP/1." ++ (run ++ [0x20])) ++ text := by
    simp only [List.append_assoc, List.singleton_append]
  rw [hsplit, ← hlength, List.drop_left]

/-- A line is accepted for what the server says, unless the format reads it freely. -/
theorem says_iff_not_free {reads : List (SslCall × UInt8)} {line : Bytes}
    (h : LineReceived reads line) :
    (∀ status, parseStatus line = some status → Says (arrived reads) status.toNat) ↔
      ¬Free (arrived reads) line := by
  have hstarts : cstr line <+: arrived reads := (cstr_isPrefix line).trans (isPrefix_arrived h)
  have hlt {text version rest} {code : Numeral} (h : Reading text version code rest) :
      decimal code.digits < 2 ^ 16 := h.value_lt.trans (by decide)
  constructor
  · intro hsays hfree
    obtain ⟨hlong, version, code, rest, hreading, hminus, hkind⟩ := hfree
    have hnumber := hsays _
      (parseStatus_eq_some.2 ⟨hlong, version, code, rest, hreading, hminus, rfl⟩)
    rw [UInt16.toNat_ofNat_of_lt' (hlt hreading)] at hnumber
    obtain ⟨run, text, hne, hrun, hreply, hended⟩ := hnumber
    have hended' := hended
    obtain ⟨digits, more, rfl, hlength, hdigits, -⟩ := hended'
    obtain ⟨hspace, hsign, hversion, hspace', hsign'⟩ :=
      hreading.strict hstarts hne hrun hreply hlength hdigits
    have hdrop : (arrived reads).drop (8 + version.digits.length) = digits ++ more := by
      rw [hreply, hversion, drop_version]
    rw [hdrop] at hkind
    rcases hkind with hk | hk | hk | hk | hk
    · exact hk hspace
    · exact hk hsign
    · exact hk hspace'
    · exact hk hsign'
    · exact hk hended
  · intro hfree status hstatus
    obtain ⟨hlong, version, code, rest, hreading, hminus, rfl⟩ := parseStatus_eq_some.1 hstatus
    have hkind := mt (fun hk => (⟨hlong, version, code, rest, hreading, hminus, hk⟩ :
      Free (arrived reads) line)) hfree
    simp only [not_or, not_not, ne_eq] at hkind
    obtain ⟨hspace, hsign, hspace', hsign', hended⟩ := hkind
    obtain ⟨tail, htail⟩ := hstarts
    have hreply : arrived reads =
        ascii "HTTP/1." ++ (version.digits ++ 0x20 :: (code.digits ++ rest ++ tail)) := by
      rw [← htail, hreading.text_eq, Numeral.text, Numeral.text, hspace, hsign, hspace', hsign']
      simp only [List.nil_append, List.append_assoc, List.cons_append]
    rw [UInt16.toNat_ofNat_of_lt' (hlt hreading)]
    refine ⟨version.digits, _, hreading.version.ne_nil, hreading.version.digits, hreply, ?_⟩
    rwa [hreply, drop_version] at hended

/-! ## The verdict -/

/-- `TlsTransport_Head`. -/
def head (host : Bytes) (port : UInt16) (resource : Bytes) (lower : Lower) (before : Result) :
    Status × Result :=
  request ⟨ascii "HEAD", host, port, resource, [], none⟩ lower before

/-- `HEALTH_CHECK_OK_STATUS`. -/
def okStatus : UInt16 := 200

/-- `resourceHealthy` of `healthCheckService_CheckResource`. -/
def resourceHealthy (result : Result) : Bool :=
  result.status = .ok && result.httpStatus = okStatus

/-- A status is stored exactly if a line with it arrived. -/
theorem stored_iff_answered {reads : List (SslCall × UInt8)} {lastError : Int} {status : UInt16} :
    (readStatus reads lastError).2.1 = some status ↔ Answered reads status := by
  have hcases := readLine_cases open_nil reads lastError
  unfold readStatus
  rcases hread : readLine [] reads lastError with ⟨r, line, e⟩
  rw [hread] at hcases
  obtain ⟨line', hline, hr, hline', -, hunique⟩ | ⟨-, hr, hnone⟩ | ⟨code, -, hr, -, hnone⟩ := hcases
  · cases hr
    cases hline'
    dsimp only
    have hanswered : Answered reads status ↔ parseStatus line = some status := by
      constructor
      · intro h
        obtain ⟨other, hother, hstatus⟩ := h
        rwa [hunique other hother] at hstatus
      · exact fun h => ⟨line, hline, h⟩
    rw [hanswered]
    cases hparse : parseStatus line with
    | none => simp
    | some other => simp
  · cases hr
    exact iff_of_false nofun fun h => hnone _ h.choose_spec.1
  · cases hr
    exact iff_of_false nofun fun h => hnone _ h.choose_spec.1

theorem prepare_httpStatus {args : Args} {lower : Lower} {text : Bytes} {p : Progress}
    (h : prepare args lower = .ok (text, p)) : p.result.httpStatus = 0 := by
  unfold prepare at h
  split at h
  · cases h
  split at h
  · cases h
  split at h
  · cases h
  split at h
  · cases h
  split at h
  · cases h
  dsimp only at h
  split at h
  · cases h
  unfold secure at h
  dsimp only at h
  split at h
  · cases h
  split at h
  · cases h
  unfold buildRequest at h
  dsimp only at h
  split at h
  · cases h
  · simp only [Except.ok.injEq, Prod.mk.injEq] at h
    rw [← h.2]
    rfl

/-- A code that is not stored stays what it was. -/
theorem exchange_unstored {text : Bytes} {lower : Lower} {p : Progress}
    (hwrite : (writeAll text.length 0 lower.writes p.lastError).1 = 0)
    (hread : (readStatus lower.reads
      (writeAll text.length 0 lower.writes p.lastError).2).2.1 = none) :
    (exchange text lower p).result.httpStatus = p.result.httpStatus := by
  unfold exchange
  rcases hw : writeAll text.length 0 lower.writes p.lastError with ⟨detail, lastError⟩
  rw [hw] at hwrite hread
  simp only at hwrite hread
  simp only [hwrite, ne_eq, not_true_eq_false, if_false]
  rcases hr : readStatus lower.reads lastError with ⟨detail', status', lastError'⟩
  rw [hr] at hread
  simp only at hread
  simp only [hread, Option.getD_none]
  split <;> rfl

/-- A resource is found healthy only if a line that says 200 is accepted. -/
theorem answered_of_healthy {host resource : Bytes} {port : UInt16} {lower : Lower}
    {before : Result} (h : resourceHealthy (head host port resource lower before).2) :
    Answered lower.reads okStatus := by
  have hknown : ¬(ascii "HEAD" ≠ ascii "HEAD" ∧ ascii "HEAD" ≠ ascii "GET" ∧
      ascii "HEAD" ≠ ascii "POST") := fun hne => hne.1 rfl
  have hreturned : (head host port resource lower before).1 =
      (head host port resource lower before).2.status := by
    rw [head, request, if_neg hknown]
  simp only [resourceHealthy, Bool.and_eq_true, decide_eq_true_eq, ← hreturned] at h
  obtain ⟨hok, hhttp⟩ := h
  by_cases hsent : ∃ text p, Sent ⟨ascii "HEAD", host, port, resource, [], none⟩ lower text p
  · obtain ⟨text, p, hsent⟩ := hsent
    rw [head, request_of_sent hsent] at hok hhttp
    change (exchange text lower p).result.httpStatus = okStatus at hhttp
    rw [exchange_status] at hok
    split at hok
    · cases hok
    rename_i hwrite
    rw [not_not] at hwrite
    split at hok
    · cases hok
    rename_i hread
    cases hstored : (readStatus lower.reads
        (writeAll text.length 0 lower.writes p.lastError).2).2.1 with
    | some status =>
      rw [exchange_httpStatus hwrite hstored] at hhttp
      exact hhttp ▸ stored_iff_answered.1 hstored
    | none =>
      rw [exchange_unstored hwrite hstored, prepare_httpStatus hsent.2.2] at hhttp
      exact absurd hhttp (by decide)
  · exact absurd hok (request_of_not_sent (fun text p hs => hsent ⟨text, p, hs⟩) before)

/-! ## Which replies are judged by what they say -/

/-- Every success of `tlsTransport_ReadStatus`, and every health verdict, is what the server
says. `*httpStatus` is 0 before. -/
structure Judged (reads : List (SslCall × UInt8)) : Prop where
  status : ∀ lastError, (readStatus reads lastError).1 = 0 →
    Says (arrived reads) ((readStatus reads lastError).2.1.getD 0).toNat
  healthy : ∀ host port resource lower before, lower.reads = reads →
    resourceHealthy (head host port resource lower before).2 → Says (arrived reads) 200

/-- **A reply is judged by what it says** exactly when its line is none that the format reads
freely, and the peer does not close the transport before the line is complete, which is taken for
the code 0. -/
theorem statusLine_iff (reads : List (SslCall × UInt8)) : Judged reads ↔
    (ReadClosed reads → Says (arrived reads) 0) ∧
      ∀ line, LineReceived reads line → ¬Free (arrived reads) line := by
  constructor
  · intro h
    refine ⟨fun hclosed => ?_, fun line hline => ?_⟩
    · rcases readStatus_cases reads 0 with ⟨status, -, hopen, -⟩ | ⟨-, hok, hnone⟩ | ⟨hopen, -⟩
      · exact absurd hclosed hopen
      · have hstored : (readStatus reads 0).2.1 = none := by
          rw [Option.eq_none_iff_forall_ne_some]
          exact fun status hs => hnone status (stored_iff_answered.1 hs)
        have hsays := h.status 0 hok
        rwa [hstored] at hsays
      · exact absurd hclosed hopen
    · rw [← says_iff_not_free hline]
      intro status hstatus
      have hanswered : Answered reads status := ⟨line, hline, hstatus⟩
      have hstored : (readStatus reads 0).2.1 = some status := stored_iff_answered.2 hanswered
      have hok : (readStatus reads 0).1 = 0 := by
        rcases readStatus_cases reads 0 with ⟨-, -, -, hok, -⟩ | ⟨-, -, hnone⟩ | ⟨-, -, hnone⟩
        · exact hok
        · exact absurd hanswered (hnone status)
        · exact absurd hanswered (hnone status)
      have hsays := h.status 0 hok
      rwa [hstored] at hsays
  · intro h
    obtain ⟨hclosed, hfree⟩ := h
    have hsays : ∀ status, Answered reads status → Says (arrived reads) status.toNat := by
      intro status hanswered
      obtain ⟨line, hline, hstatus⟩ := hanswered
      exact (says_iff_not_free hline).2 (hfree line hline) status hstatus
    refine ⟨fun lastError hok => ?_, fun host port resource lower before hreads hhealthy => ?_⟩
    · cases hstored : (readStatus reads lastError).2.1 with
      | some status => exact hsays status (stored_iff_answered.1 hstored)
      | none =>
        rcases readStatus_cases reads lastError with ⟨_, -, -, -, hsome⟩ | ⟨hread, -⟩ | ⟨-, hno, -⟩
        · rw [hstored] at hsome
          cases hsome
        · exact hclosed hread
        · exact absurd hok hno
    · exact hsays okStatus (hreads ▸ answered_of_healthy hhealthy)

/-- The whole line of a reply, byte by byte. -/
def bytewise (reply : Bytes) : List (SslCall × UInt8) := reply.map fun c => ({ result := 1 }, c)

/-- `HTTP/1.1 2000` is no status line, and the resource is healthy. -/
theorem longCode_healthy :
    resourceHealthy (head (ascii "example.org") 443 (ascii "/")
      { closedLower with reads := bytewise (ascii "HTTP/1.1 2000 OK\r\n") } cleared).2 ∧
    ¬Says (arrived (bytewise (ascii "HTTP/1.1 2000 OK\r\n"))) 200 ∧
    ¬Judged (bytewise (ascii "HTTP/1.1 2000 OK\r\n")) := by
  have hhealthy : resourceHealthy (head (ascii "example.org") 443 (ascii "/")
      { closedLower with reads := bytewise (ascii "HTTP/1.1 2000 OK\r\n") } cleared).2 := by
    decide +kernel
  have hsays : ¬Says (arrived (bytewise (ascii "HTTP/1.1 2000 OK\r\n"))) 200 := by
    intro h
    obtain ⟨version, text, hne, hversion, hreply, digits, rest, rfl, hlength, -, -, hend⟩ := h
    have harrived : arrived (bytewise (ascii "HTTP/1.1 2000 OK\r\n")) =
        ascii "HTTP/1." ++ ([0x31] ++ 0x20 :: ascii "2000 OK\r\n") := by decide +kernel
    rw [harrived] at hreply
    have heq := List.append_cancel_left hreply
    have hone : ∀ c ∈ [(0x31 : UInt8)], isDigit c := List.forall_mem_singleton.2 (by decide)
    have hspace : ∀ c, (0x20 :: (digits ++ rest)).head? = some c → isDigit c = false := by
      intro c hc
      rw [List.head?_cons, Option.some.injEq] at hc
      rw [← hc]
      decide
    have hpre : version ++ 0x20 :: (digits ++ rest) <+: [0x31] ++ 0x20 :: ascii "2000 OK\r\n" := by
      rw [heq]
    obtain ⟨rfl, -⟩ :=
      digits_of_prefix hversion hone hspace (List.cons_ne_nil _ _) (by decide) hpre
    have hrest : rest = (ascii "2000 OK\r\n").drop 3 := by
      rw [(List.cons.inj (List.append_cancel_left heq)).2, ← hlength, List.drop_left]
    rw [hrest] at hend
    exact absurd hend (by decide +kernel)
  exact ⟨hhealthy, hsays, fun h => hsays (h.healthy _ _ _ _ _ rfl hhealthy)⟩

end HealthCheck.TlsTransport
