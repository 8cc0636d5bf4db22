import HealthCheck.TlsTransport

/-!
# When a request is reported as successful

`TLS_TRANSPORT_OK` should mean that the whole request was written and that a status line came
back. The two loops below it share one integer with their failures: `0` is success, and `0` is
also what Mbed TLS returns when the peer closes the transport without a close_notify.

* `writeAll_eq_zero_iff`, `readStatus_eq_zero_iff` — what the two loops take for success;
* `truthful_iff` — a request is reported truthfully exactly when neither loop meets that `0`, or
  the other one fails;
* `closed_reported_ok` — a peer that closes at once is reported as `TLS_TRANSPORT_OK`.
-/

namespace HealthCheck.TlsTransport

open CString

/-! ## Writing -/

/-- How many bytes some calls of `mbedtls_ssl_write` took. -/
def bytesOf (calls : List SslCall) : ℕ := (calls.map fun call => call.result.toNat).sum

/-- `length` bytes were written before any call failed. -/
def Written (length : ℕ) (writes : List SslCall) : Prop :=
  ∃ done rest, writes = done ++ rest ∧ (∀ call ∈ done, 0 < call.result) ∧ length ≤ bytesOf done

/-- A call returned 0 before `length` bytes were written. -/
def WriteClosed (length : ℕ) (writes : List SslCall) : Prop :=
  ∃ done call rest, writes = done ++ call :: rest ∧ (∀ call ∈ done, 0 < call.result) ∧
    bytesOf done < length ∧ call.result = 0

theorem bytesOf_cons (call : SslCall) (calls : List SslCall) :
    bytesOf (call :: calls) = call.result.toNat + bytesOf calls := rfl

theorem written_zero (writes : List SslCall) : Written 0 writes :=
  ⟨[], writes, rfl, fun _ h => (List.not_mem_nil h).elim, Nat.zero_le _⟩

theorem not_writeClosed_zero (writes : List SslCall) : ¬ WriteClosed 0 writes := by
  intro h
  obtain ⟨done, call, rest, -, -, hlt, -⟩ := h
  exact Nat.not_lt_zero _ hlt

theorem written_cons {length : ℕ} (h : 0 < length) (call : SslCall) (writes : List SslCall) :
    Written length (call :: writes) ↔
      0 < call.result ∧ Written (length - call.result.toNat) writes := by
  constructor
  · intro hwritten
    obtain ⟨done, rest, heq, hpos, hlen⟩ := hwritten
    cases done with
    | nil => exact absurd hlen (Nat.not_le_of_lt h)
    | cons first done =>
      obtain ⟨rfl, rfl⟩ := List.cons.inj heq
      refine ⟨hpos _ List.mem_cons_self, done, rest, rfl,
        fun c hc => hpos c (List.mem_cons_of_mem _ hc), ?_⟩
      rw [bytesOf_cons] at hlen
      omega
  · intro hwritten
    obtain ⟨hcall, done, rest, rfl, hpos, hlen⟩ := hwritten
    refine ⟨call :: done, rest, rfl, fun c hc => ?_, ?_⟩
    · rcases List.mem_cons.1 hc with rfl | hc
      · exact hcall
      · exact hpos c hc
    · rw [bytesOf_cons]
      omega

theorem writeClosed_cons {length : ℕ} (h : 0 < length) (call : SslCall) (writes : List SslCall) :
    WriteClosed length (call :: writes) ↔ call.result = 0 ∨
      0 < call.result ∧ WriteClosed (length - call.result.toNat) writes := by
  constructor
  · intro hclosed
    obtain ⟨done, zero, rest, heq, hpos, hlen, hzero⟩ := hclosed
    cases done with
    | nil =>
      obtain ⟨rfl, rfl⟩ := List.cons.inj heq
      exact .inl hzero
    | cons first done =>
      obtain ⟨rfl, rfl⟩ := List.cons.inj heq
      refine .inr ⟨hpos _ List.mem_cons_self, done, zero, rest, rfl,
        fun c hc => hpos c (List.mem_cons_of_mem _ hc), ?_, hzero⟩
      rw [bytesOf_cons] at hlen
      omega
  · intro hclosed
    rcases hclosed with hzero | ⟨hcall, done, zero, rest, rfl, hpos, hlen, hzero⟩
    · exact ⟨[], call, writes, rfl, fun _ h => (List.not_mem_nil h).elim, h, hzero⟩
    · refine ⟨call :: done, zero, rest, rfl, fun c hc => ?_, ?_, hzero⟩
      · rcases List.mem_cons.1 hc with rfl | hc
        · exact hcall
        · exact hpos c hc
      · rw [bytesOf_cons]
        omega

/-- **`tlsTransport_WriteAll` succeeds** when everything was written, and when a call returned 0
before that. -/
theorem writeAll_eq_zero_iff (length offset : ℕ) (writes : List SslCall) (lastError : Int) :
    (writeAll length offset writes lastError).1 = 0 ↔
      Written (length - offset) writes ∨ WriteClosed (length - offset) writes := by
  induction writes generalizing offset lastError with
  | nil =>
    rw [writeAll]
    by_cases h : offset < length
    · rw [if_pos h]
      refine ⟨fun hzero => absurd (show errSslTimeout = 0 from hzero) (by decide), fun hor => ?_⟩
      rcases hor with ⟨done, rest, heq, -, hlen⟩ | ⟨done, call, rest, heq, -⟩
      · obtain ⟨rfl, rfl⟩ := List.append_eq_nil_iff.1 heq.symm
        exact absurd hlen (by simp [bytesOf]; omega)
      · simp at heq
    · rw [if_neg h, Nat.sub_eq_zero_of_le (Nat.le_of_not_lt h)]
      exact iff_of_true rfl (.inl (written_zero _))
  | cons call writes ih =>
    rw [writeAll]
    by_cases h : offset < length
    · have hpos : 0 < length - offset := Nat.sub_pos_of_lt h
      rw [if_pos h, written_cons hpos, writeClosed_cons hpos]
      by_cases hcall : call.result ≤ 0
      · rw [if_pos hcall]
        constructor
        · exact fun hzero => .inr (.inl hzero)
        · intro hor
          rcases hor with ⟨hlt, -⟩ | hzero | ⟨hlt, -⟩
          · exact absurd hlt (by omega)
          · exact hzero
          · exact absurd hlt (by omega)
      · rw [if_neg hcall, ih, ← Nat.sub_sub]
        constructor
        · intro hor
          rcases hor with hwritten | hclosed
          · exact .inl ⟨by omega, hwritten⟩
          · exact .inr (.inr ⟨by omega, hclosed⟩)
        · intro hor
          rcases hor with ⟨-, hwritten⟩ | hzero | ⟨-, hclosed⟩
          · exact .inl hwritten
          · exact absurd hzero (by omega)
          · exact .inr hclosed
    · rw [if_neg h, Nat.sub_eq_zero_of_le (Nat.le_of_not_lt h)]
      exact iff_of_true rfl (.inl (written_zero _))

/-- Everything was written, or a call returned 0 before that; never both. -/
theorem Written.not_closed {length : ℕ} {writes : List SslCall} (h : Written length writes) :
    ¬ WriteClosed length writes := by
  induction writes generalizing length with
  | nil =>
    intro hclosed
    obtain ⟨done, call, rest, heq, -⟩ := hclosed
    simp at heq
  | cons call writes ih =>
    rcases Nat.eq_zero_or_pos length with rfl | hpos
    · exact not_writeClosed_zero _
    · rw [written_cons hpos] at h
      rw [writeClosed_cons hpos]
      intro hclosed
      rcases hclosed with hzero | ⟨-, hclosed⟩
      · exact absurd h.1 (by omega)
      · exact ih h.2 hclosed

/-! ## Reading the status line -/

/-- A line that is not complete yet. -/
def Open (line : Bytes) : Prop :=
  line.length < statusLineSize - 1 ∧ ∀ first, first <+: line → endsLine first = false

/-- The bytes some calls of `mbedtls_ssl_read` stored. -/
def bytesRead (reads : List (SslCall × UInt8)) : Bytes := reads.map Prod.snd

/-- A complete line arrived behind `first` before any call failed. -/
def LineFrom (first : Bytes) (reads : List (SslCall × UInt8)) (line : Bytes) : Prop :=
  ∃ done last rest, reads = done ++ last :: rest ∧ (∀ read ∈ done, 0 < read.1.result) ∧
    0 < last.1.result ∧ Open (first ++ bytesRead done) ∧
    line = first ++ bytesRead done ++ [last.2] ∧ ¬ Open line

/-- A call returned 0 before a complete line arrived behind `first`. -/
def ReadClosedFrom (first : Bytes) (reads : List (SslCall × UInt8)) : Prop :=
  ∃ done zero rest, reads = done ++ zero :: rest ∧ (∀ read ∈ done, 0 < read.1.result) ∧
    Open (first ++ bytesRead done) ∧ zero.1.result = 0

/-- `line` is the first line that arrives. -/
def LineReceived (reads : List (SslCall × UInt8)) (line : Bytes) : Prop := LineFrom [] reads line

/-- The peer closed the transport without a close_notify before a line arrived. -/
def ReadClosed (reads : List (SslCall × UInt8)) : Prop := ReadClosedFrom [] reads

theorem open_nil : Open [] := by
  refine ⟨by decide, fun first h => ?_⟩
  rw [List.prefix_nil.1 h]
  rfl

theorem open_of_append {line more : Bytes} (h : Open (line ++ more)) : Open line := by
  refine ⟨lt_of_le_of_lt ?_ h.1, fun first hfirst => h.2 first (hfirst.trans ⟨more, rfl⟩)⟩
  rw [List.length_append]
  exact Nat.le_add_right ..

theorem open_append_iff {line : Bytes} (h : Open line) (byte : UInt8) : Open (line ++ [byte]) ↔
    (line ++ [byte]).length < statusLineSize - 1 ∧ endsLine (line ++ [byte]) = false := by
  refine ⟨fun hopen => ⟨hopen.1, hopen.2 _ List.prefix_rfl⟩, fun hopen => ⟨hopen.1, ?_⟩⟩
  intro first hfirst
  rcases List.prefix_concat_iff.1 hfirst with rfl | hfirst
  · exact hopen.2
  · exact h.2 first hfirst

theorem lineFrom_cons {first line : Bytes} (h : Open first) (read : SslCall × UInt8)
    (reads : List (SslCall × UInt8)) : LineFrom first (read :: reads) line ↔ 0 < read.1.result ∧
      (¬ Open (first ++ [read.2]) ∧ line = first ++ [read.2] ∨
        LineFrom (first ++ [read.2]) reads line) := by
  constructor
  · intro hline
    obtain ⟨done, last, rest, heq, hpos, hlast, hopen, rfl, hclosed⟩ := hline
    cases done with
    | nil =>
      obtain ⟨rfl, rfl⟩ := List.cons.inj heq
      rw [bytesRead, List.map_nil, List.append_nil] at hclosed
      refine ⟨hlast, .inl ⟨hclosed, ?_⟩⟩
      rw [bytesRead, List.map_nil, List.append_nil]
    | cons next done =>
      obtain ⟨rfl, rfl⟩ := List.cons.inj heq
      refine ⟨hpos _ List.mem_cons_self, .inr ⟨done, last, rest, rfl,
        fun r hr => hpos r (List.mem_cons_of_mem _ hr), hlast, ?_, ?_, hclosed⟩⟩
      · simpa [bytesRead] using hopen
      · simp [bytesRead]
  · intro hline
    obtain ⟨hread, ⟨hclosed, rfl⟩ | ⟨done, last, rest, rfl, hpos, hlast, hopen, rfl, hclosed⟩⟩ :=
      hline
    · refine ⟨[], read, reads, rfl, fun _ hr => (List.not_mem_nil hr).elim, hread, ?_, ?_, hclosed⟩
      · simpa [bytesRead] using h
      · simp [bytesRead]
    · refine ⟨read :: done, last, rest, rfl, fun r hr => ?_, hlast, ?_, ?_, hclosed⟩
      · rcases List.mem_cons.1 hr with rfl | hr
        · exact hread
        · exact hpos r hr
      · simpa [bytesRead] using hopen
      · simp [bytesRead]

theorem readClosedFrom_cons {first : Bytes} (h : Open first) (read : SslCall × UInt8)
    (reads : List (SslCall × UInt8)) : ReadClosedFrom first (read :: reads) ↔
      read.1.result = 0 ∨ 0 < read.1.result ∧ ReadClosedFrom (first ++ [read.2]) reads := by
  constructor
  · intro hread
    obtain ⟨done, zero, rest, heq, hpos, hopen, hzero⟩ := hread
    cases done with
    | nil =>
      obtain ⟨rfl, rfl⟩ := List.cons.inj heq
      exact .inl hzero
    | cons next done =>
      obtain ⟨rfl, rfl⟩ := List.cons.inj heq
      refine .inr ⟨hpos _ List.mem_cons_self, done, zero, rest, rfl,
        fun r hr => hpos r (List.mem_cons_of_mem _ hr), ?_, hzero⟩
      simpa [bytesRead] using hopen
  · intro hread
    rcases hread with hzero | ⟨hpositive, done, zero, rest, rfl, hpos, hopen, hzero⟩
    · refine ⟨[], read, reads, rfl, fun _ hr => (List.not_mem_nil hr).elim, ?_, hzero⟩
      simpa [bytesRead] using h
    · refine ⟨read :: done, zero, rest, rfl, fun r hr => ?_, ?_, hzero⟩
      · rcases List.mem_cons.1 hr with rfl | hr
        · exact hpositive
        · exact hpos r hr
      · simpa [bytesRead] using hopen

theorem not_readClosedFrom {first : Bytes} (h : ¬ Open first) (reads : List (SslCall × UInt8)) :
    ¬ ReadClosedFrom first reads := by
  intro hread
  obtain ⟨done, zero, rest, -, -, hopen, -⟩ := hread
  exact h (open_of_append hopen)

theorem not_lineFrom {first line : Bytes} (h : ¬ Open first) (reads : List (SslCall × UInt8)) :
    ¬ LineFrom first reads line := by
  intro hline
  obtain ⟨done, last, rest, -, -, -, hopen, -⟩ := hline
  exact h (open_of_append hopen)

/-- **The loop of `tlsTransport_ReadStatus`** leaves with a line, with the 0 of a closed
transport, or with a failure. -/
theorem readLine_cases {first : Bytes} (h : Open first) (reads : List (SslCall × UInt8))
    (lastError : Int) :
    (∃ line, LineFrom first reads line ∧ (readLine first reads lastError).1 = none ∧
      (readLine first reads lastError).2.1 = line ∧ ¬ ReadClosedFrom first reads ∧
      ∀ line', LineFrom first reads line' → line' = line) ∨
    (ReadClosedFrom first reads ∧ (readLine first reads lastError).1 = some 0 ∧
      ∀ line, ¬ LineFrom first reads line) ∨
    (∃ code, code ≠ 0 ∧ (readLine first reads lastError).1 = some code ∧
      ¬ ReadClosedFrom first reads ∧ ∀ line, ¬ LineFrom first reads line) := by
  induction reads generalizing first lastError with
  | nil =>
    refine .inr (.inr ⟨errSslTimeout, by decide, if_pos h.1, fun hread => ?_, fun line hline => ?_⟩)
    · obtain ⟨done, zero, rest, heq, -⟩ := hread
      simp at heq
    · obtain ⟨done, last, rest, heq, -⟩ := hline
      simp at heq
  | cons read reads ih =>
    obtain ⟨call, byte⟩ := read
    simp only [readLine, if_pos h.1, lineFrom_cons h, readClosedFrom_cons h]
    by_cases hcall : call.result ≤ 0
    · have hnot : ¬ 0 < call.result := by omega
      rw [if_pos hcall]
      by_cases hzero : call.result = 0
      · exact .inr (.inl ⟨.inl hzero, congrArg some hzero, fun _ hline => hnot hline.1⟩)
      · exact .inr (.inr ⟨call.result, hzero, rfl,
          fun hread => hread.elim hzero fun hr => hnot hr.1, fun _ hline => hnot hline.1⟩)
    · have hpos : 0 < call.result := by omega
      have hnonzero : ¬ call.result = 0 := by omega
      rw [if_neg hcall]
      simp only [hpos, hnonzero, true_and, false_or]
      by_cases hopen : Open (first ++ [byte])
      · have hends := ((open_append_iff h byte).1 hopen).2
        rw [if_neg (by rw [hends]; decide)]
        simp only [hopen, not_true_eq_false, false_and, false_or]
        exact ih hopen (call.lastError lastError)
      · have hline : ∀ line, ¬ LineFrom (first ++ [byte]) reads line := fun line =>
          not_lineFrom hopen reads
        have hread := not_readClosedFrom hopen reads
        simp only [hopen, not_false_eq_true, true_and, hline, or_false, hread]
        refine .inl ⟨first ++ [byte], rfl, ?_⟩
        by_cases hends : endsLine (first ++ [byte]) = true
        · rw [if_pos hends]
          exact ⟨rfl, rfl, fun _ => id⟩
        · rw [if_neg hends]
          have hfull : ¬ (first ++ [byte]).length < statusLineSize - 1 := fun hlt =>
            hopen ((open_append_iff h byte).2 ⟨hlt, Bool.eq_false_iff.2 hends⟩)
          cases reads with
          | nil =>
            simp only [readLine, if_neg hfull]
            exact ⟨trivial, trivial, fun _ => id⟩
          | cons next reads =>
            simp only [readLine, if_neg hfull]
            exact ⟨trivial, trivial, fun _ => id⟩

/-- A status line arrives that says `status`. -/
def Answered (reads : List (SslCall × UInt8)) (status : UInt16) : Prop :=
  ∃ line, LineReceived reads line ∧ parseStatus line = some status

/-- **What `tlsTransport_ReadStatus` returns.** -/
theorem readStatus_cases (reads : List (SslCall × UInt8)) (lastError : Int) :
    (∃ status, Answered reads status ∧ ¬ ReadClosed reads ∧ (readStatus reads lastError).1 = 0 ∧
      (readStatus reads lastError).2.1 = some status) ∨
    (ReadClosed reads ∧ (readStatus reads lastError).1 = 0 ∧ ∀ status, ¬ Answered reads status) ∨
    (¬ ReadClosed reads ∧ (readStatus reads lastError).1 ≠ 0 ∧
      ∀ status, ¬ Answered reads status) := by
  unfold readStatus Answered LineReceived ReadClosed
  have hcases := readLine_cases open_nil reads lastError
  rcases hread : readLine [] reads lastError with ⟨r, line, e⟩
  rw [hread] at hcases
  obtain ⟨line', hline, hr, hline', hclosed, hunique⟩ | ⟨hclosed, hr, hnone⟩ |
    ⟨code, hcode, hr, hclosed, hnone⟩ := hcases
  · cases hr
    cases hline'
    simp only
    cases hparse : parseStatus line with
    | none =>
      have hbad : errSslBadInputData ≠ 0 := by decide
      refine .inr (.inr ⟨hclosed, hbad, fun status hanswered => ?_⟩)
      obtain ⟨other, hother, hstatus⟩ := hanswered
      rw [hunique other hother, hparse] at hstatus
      cases hstatus
    | some status => exact .inl ⟨status, ⟨line, hline, hparse⟩, hclosed, rfl, rfl⟩
  · cases hr
    exact .inr (.inl ⟨hclosed, rfl, fun status hanswered => hnone _ hanswered.choose_spec.1⟩)
  · cases hr
    exact .inr (.inr ⟨hclosed, hcode, fun status hanswered => hnone _ hanswered.choose_spec.1⟩)

/-! ## The whole request -/

/-- The connection is set up and `text` is the request to be written. -/
def Sent (args : Args) (lower : Lower) (text : Bytes) (p : Progress) : Prop :=
  (args.method = ascii "HEAD" ∨ args.method = ascii "GET" ∨ args.method = ascii "POST") ∧
    lower.locked = true ∧ prepare args lower = .ok (text, p)

theorem buildRequest_error {args : Args} {lower : Lower} {p p' : Progress}
    (h : buildRequest args lower p = .error p') (hp : p.result.status ≠ .ok) :
    p'.result.status ≠ .ok := by
  unfold buildRequest at h
  dsimp only at h
  split at h
  · cases h
    exact hp
  · cases h

theorem secure_error {args : Args} {lower : Lower} {p p' : Progress}
    (h : secure args lower p = .error p') (hp : p.result.status ≠ .ok) :
    p'.result.status ≠ .ok := by
  unfold secure at h
  dsimp only at h
  split at h
  · cases h
    dsimp only
    split <;> decide
  · split at h
    · cases h
      exact fun hok => nomatch hok
    · exact buildRequest_error h hp

/-- A request that is given up before it is written does not report success. -/
theorem prepare_error {args : Args} {lower : Lower} {p : Progress}
    (h : prepare args lower = .error p) : p.result.status ≠ .ok := by
  have hcleared : cleared.status ≠ .ok := by decide
  unfold prepare at h
  split at h
  · cases h
    exact hcleared
  split at h
  · cases h
    exact fun hok => nomatch hok
  split at h
  · cases h
    exact hcleared
  split at h
  · cases h
    exact hcleared
  split at h
  · cases h
    exact hcleared
  have hconnect : (connect lower).2.1 ≠ .ok := by
    unfold connect
    split <;> exact fun hok => nomatch hok
  dsimp only at h
  split at h
  · cases h
    exact hconnect
  · exact secure_error h hconnect

/-- What the exchange of request and reply reports. -/
theorem exchange_status (text : Bytes) (lower : Lower) (p : Progress) :
    (exchange text lower p).result.status =
      if (writeAll text.length 0 lower.writes p.lastError).1 ≠ 0 then .ioError
      else if (readStatus lower.reads
        (writeAll text.length 0 lower.writes p.lastError).2).1 ≠ 0 then .protocolError
      else .ok := by
  unfold exchange
  rcases writeAll text.length 0 lower.writes p.lastError with ⟨detail, lastError⟩
  by_cases hdetail : detail = 0
  · simp only [hdetail, ne_eq, not_true_eq_false, if_false]
    rcases readStatus lower.reads lastError with ⟨detail', status, lastError'⟩
    by_cases hdetail' : detail' = 0
    · simp only [hdetail', not_true_eq_false, if_false]
    · simp only [hdetail', not_false_eq_true, if_true]
  · simp only [hdetail, ne_eq, not_false_eq_true, if_true]

/-- The status code that is reported when no call fails. -/
theorem exchange_httpStatus {text : Bytes} {lower : Lower} {p : Progress} {status : UInt16}
    (hwrite : (writeAll text.length 0 lower.writes p.lastError).1 = 0)
    (hread : (readStatus lower.reads
      (writeAll text.length 0 lower.writes p.lastError).2).2.1 = some status) :
    (exchange text lower p).result.httpStatus = status := by
  unfold exchange
  rcases hw : writeAll text.length 0 lower.writes p.lastError with ⟨detail, lastError⟩
  rw [hw] at hwrite hread
  simp only at hwrite hread
  simp only [hwrite, ne_eq, not_true_eq_false, if_false]
  rcases hr : readStatus lower.reads lastError with ⟨detail', status', lastError'⟩
  rw [hr] at hread
  simp only at hread
  simp only [hread, Option.getD_some]
  split <;> rfl

theorem request_of_sent {args : Args} {lower : Lower} {text : Bytes} {p : Progress}
    (h : Sent args lower text p) (before : Result) : request args lower before =
      ((exchange text lower p).result.status, finish lower (exchange text lower p)) := by
  obtain ⟨hmethod, hlocked, hprepare⟩ := h
  have hknown : ¬ (args.method ≠ ascii "HEAD" ∧ args.method ≠ ascii "GET" ∧
      args.method ≠ ascii "POST") := by
    intro hunknown
    rcases hmethod with hm | hm | hm
    · exact hunknown.1 hm
    · exact hunknown.2.1 hm
    · exact hunknown.2.2 hm
  rw [request, if_neg hknown]
  simp only [hlocked, hprepare, Bool.true_eq_false, if_false]
  rfl

theorem request_of_not_sent {args : Args} {lower : Lower}
    (h : ∀ text p, ¬ Sent args lower text p) (before : Result) :
    (request args lower before).1 ≠ .ok := by
  rw [request]
  split
  · exact fun hok => nomatch hok
  · rename_i hknown
    dsimp only
    split
    · decide
    · rename_i hlocked
      cases hprepare : prepare args lower with
      | error p => exact prepare_error hprepare
      | ok sent =>
        refine absurd ⟨?_, Bool.not_eq_false _ ▸ hlocked, hprepare⟩ (h sent.1 sent.2)
        by_contra hunknown
        simp only [not_or] at hunknown
        exact hknown hunknown

/-- What the status of a request should mean: success, that the request was written and answered
by a status line; and a request that was written and not answered is a protocol error. -/
def Truthful (args : Args) (lower : Lower) (out : Status × Result) : Prop :=
  (out.1 = .ok → ∃ text p, Sent args lower text p ∧ Written text.length lower.writes ∧
    Answered lower.reads out.2.httpStatus) ∧
  ∀ text p, Sent args lower text p → Written text.length lower.writes →
    (∀ status, ¬ Answered lower.reads status) → out.1 = .protocolError

theorem Sent.unique {args : Args} {lower : Lower} {text text' : Bytes} {p p' : Progress}
    (h : Sent args lower text p) (h' : Sent args lower text' p') : text' = text ∧ p' = p :=
  Prod.mk.inj (Except.ok.inj (h'.2.2.symm.trans h.2.2))

/-- The meaning of the status of a request that was sent. -/
theorem truthful_of_sent {args : Args} {lower : Lower} {text : Bytes} {p : Progress}
    (h : Sent args lower text p) (out : Status × Result) : Truthful args lower out ↔
      (out.1 = .ok → Written text.length lower.writes ∧ Answered lower.reads out.2.httpStatus) ∧
      (Written text.length lower.writes → (∀ status, ¬ Answered lower.reads status) →
        out.1 = .protocolError) := by
  constructor
  · intro htruthful
    refine ⟨fun hok => ?_, fun hwritten hnone => htruthful.2 text p h hwritten hnone⟩
    obtain ⟨text', p', h', hwritten, hanswered⟩ := htruthful.1 hok
    rw [(h.unique h').1] at hwritten
    exact ⟨hwritten, hanswered⟩
  · intro htruthful
    refine ⟨fun hok => ⟨text, p, h, htruthful.1 hok⟩, fun text' p' h' hwritten hnone => ?_⟩
    rw [(h.unique h').1] at hwritten
    exact htruthful.2 hwritten hnone

/-- **A request is reported truthfully** exactly when the peer does not close the transport while
its answer is awaited, and no write that returns 0 goes unnoticed because an answer arrives. -/
theorem truthful_iff (args : Args) (lower : Lower) (before : Result) :
    Truthful args lower (request args lower before) ↔
      ∀ text p, Sent args lower text p →
        (Written text.length lower.writes → ¬ ReadClosed lower.reads) ∧
        (WriteClosed text.length lower.writes →
          ¬ ReadClosed lower.reads ∧ ∀ status, ¬ Answered lower.reads status) := by
  by_cases hsent : ∃ text p, Sent args lower text p
  · obtain ⟨text, p, hsent⟩ := hsent
    have hall : (∀ text p, Sent args lower text p →
        (Written text.length lower.writes → ¬ ReadClosed lower.reads) ∧
        (WriteClosed text.length lower.writes →
          ¬ ReadClosed lower.reads ∧ ∀ status, ¬ Answered lower.reads status)) ↔
        (Written text.length lower.writes → ¬ ReadClosed lower.reads) ∧
        (WriteClosed text.length lower.writes →
          ¬ ReadClosed lower.reads ∧ ∀ status, ¬ Answered lower.reads status) :=
      ⟨fun h => h text p hsent, fun h text' p' h' => by rwa [(hsent.unique h').1]⟩
    have hstatus := exchange_status text lower p
    have hwrite := writeAll_eq_zero_iff text.length 0 lower.writes p.lastError
    rw [Nat.sub_zero] at hwrite
    have hanswer := readStatus_cases lower.reads
      (writeAll text.length 0 lower.writes p.lastError).2
    rw [hall, truthful_of_sent hsent, request_of_sent hsent before]
    show ((exchange text lower p).result.status = .ok → Written text.length lower.writes ∧
      Answered lower.reads (exchange text lower p).result.httpStatus) ∧ _ ↔ _
    by_cases hzero : (writeAll text.length 0 lower.writes p.lastError).1 = 0
    · rw [if_neg (not_not_intro hzero)] at hstatus
      have hclosed := (hwrite.1 hzero).resolve_left
      rcases hanswer with ⟨status, hanswered, hread, hok, hcode⟩ | ⟨hread, hok, hnone⟩ |
        ⟨hread, hfailed, hnone⟩
      · -- A status line arrived: the question is whether everything was written.
        rw [if_neg (not_not_intro hok)] at hstatus
        rw [hstatus, exchange_httpStatus hzero hcode]
        by_cases hwritten : Written text.length lower.writes
        · exact iff_of_true ⟨fun _ => ⟨hwritten, hanswered⟩, fun _ hno => absurd hanswered (hno _)⟩
            ⟨fun _ => hread, fun hc => absurd hc hwritten.not_closed⟩
        · exact iff_of_false (fun h => hwritten (h.1 rfl).1)
            fun h => (h.2 (hclosed hwritten)).2 status hanswered
      · -- The peer closed the transport: success is reported, whatever was written.
        rw [if_neg (not_not_intro hok)] at hstatus
        rw [hstatus]
        refine iff_of_false (fun h => hnone _ (h.1 rfl).2) fun h => ?_
        by_cases hwritten : Written text.length lower.writes
        · exact h.1 hwritten hread
        · exact (h.2 (hclosed hwritten)).1 hread
      · rw [if_pos hfailed] at hstatus
        rw [hstatus]
        exact iff_of_true ⟨nofun, fun _ _ => rfl⟩
          ⟨fun _ => hread, fun _ => ⟨hread, hnone⟩⟩
    · rw [if_pos hzero] at hstatus
      rw [hstatus]
      have hneither := not_or.1 fun h => hzero (hwrite.2 h)
      exact iff_of_true ⟨nofun, fun hwritten => absurd hwritten hneither.1⟩
        ⟨fun hwritten => absurd hwritten hneither.1, fun hclosed => absurd hclosed hneither.2⟩
  · have hnone : ∀ text p, ¬ Sent args lower text p := fun text p h => hsent ⟨text, p, h⟩
    exact iff_of_true ⟨fun hok => absurd hok (request_of_not_sent hnone before),
      fun text p h => absurd h (hnone text p)⟩ fun text p h => absurd h (hnone text p)

/-- A health check of a server that accepts the request. -/
def headArgs : Args := ⟨ascii "HEAD", ascii "example.org", 443, ascii "/", [], none⟩

/-- Everything goes well until the peer closes the transport without an answer. -/
def closedLower : Lower where
  locked := true
  seed := 0
  anchorParsed := true
  configDefaults := 0
  setup := 0
  setHostname := 0
  resolver := 0
  addresses := [⟨3, 0, 0, 0, 0, 0⟩]
  handshake := { result := 0 }
  verifyResult := 0
  tlsVersion := ascii "TLSv1.3"
  cipherSuite := ascii "TLS1-3-AES-256-GCM-SHA384"
  peerValidTo := none
  writes := [{ result := 91 }]
  reads := [({ result := 0 }, 0)]
  started := 0
  finished := 12

/-- `TLS_TRANSPORT_OK` and HTTP status 0, without a byte of an answer. -/
theorem closed_reported_ok :
    (request headArgs closedLower cleared).1 = .ok ∧
    (request headArgs closedLower cleared).2.httpStatus = 0 ∧
    ¬ Truthful headArgs closedLower (request headArgs closedLower cleared) := by
  have hok : (request headArgs closedLower cleared).1 = .ok := by decide
  refine ⟨hok, by decide, fun h => ?_⟩
  obtain ⟨text, p, -, -, line, ⟨done, last, rest, heq, -, hlast, -⟩, -⟩ := h.1 hok
  cases done with
  | nil =>
    obtain ⟨rfl, -⟩ := List.cons.inj heq
    exact absurd hlast (by decide)
  | cons first done => simp [closedLower] at heq

end HealthCheck.TlsTransport
