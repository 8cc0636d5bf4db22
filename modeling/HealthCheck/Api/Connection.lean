import HealthCheck.Api.Answers
import HealthCheck.Api.OptionalMembers

/-!
# One connection

Behind the handshake `apiService_Task` reads one request, dispatches it and closes the connection.
A response is written in a loop, because `mbedtls_ssl_write` may take less than it is given, and it
may fail at any byte. A response to a list of results is written in two parts.

* `writeAll`, `Response.write`, `serve` — the writing loop, a response, and a connection.
* `Response.Complete.read_write` — a client reads the response or nothing, wherever the writing stops.
* `serve_answers` — a connection sends one complete response, or a part that is not taken for one.
-/

namespace HealthCheck.ApiService

open Nor hiding read driven_read read_ok read_cases
open CString Run

/-! ## The code -/

/-- `MBEDTLS_ERR_SSL_BUFFER_TOO_SMALL`. -/
def errSslBufferTooSmall : Int := -0x6A00

/-- The result of one `mbedtls_ssl_write`. -/
inductive SslWrite where
  /-- A positive count: `more + 1`, or all it was given when that is less. -/
  | taken (more : ℕ)
  /-- `0`. -/
  | nothing
  /-- The negative error `-(code + 1)`. -/
  | failed (code : ℕ)
deriving DecidableEq, Repr

/-- What a function that writes returns, what the peer has been sent, and the results of the writes
that are still to come. -/
structure Written where
  result : Int
  sent : Bytes
  writes : List SslWrite

/-- `apiService_WriteAll`. A connection that takes nothing any more runs into the send timeout. -/
def writeAll : List SslWrite → Bytes → Written
  | writes, [] => ⟨0, [], writes⟩
  | [], _ :: _ => ⟨errSslTimeout, [], []⟩
  | .taken more :: writes, c :: data =>
    let next := writeAll writes (data.drop more)
    { next with sent := c :: data.take more ++ next.sent }
  | .nothing :: writes, _ :: _ => ⟨0, [], writes⟩
  | .failed code :: writes, _ :: _ => ⟨Int.negSucc code, [], writes⟩

namespace Response

/-- `apiService_RespondEx`. -/
def writeWhole (r : Response) (writes : List SslWrite) : Written :=
  let text := r.header ++ if r.headOnly then [] else r.json
  if text.length ≥ responseSize then ⟨errSslBufferTooSmall, [], writes⟩ else writeAll writes text

/-- `apiService_RespondBuffer`. -/
def writeParts (r : Response) (writes : List SslWrite) : Written :=
  if r.header.length ≥ 128 then ⟨errSslBufferTooSmall, [], writes⟩
  else
    let first := writeAll writes r.header
    if first.result ≠ 0 then first
    else
      let second := writeAll first.writes r.json
      { second with sent := first.sent ++ second.sent }

/-- What the response functions do with the connection. -/
def write (r : Response) (writes : List SslWrite) : Written :=
  if r.buffered then r.writeParts writes else r.writeWhole writes

end Response

/-- What `apiService_Task` does behind the handshake, up to `mbedtls_ssl_close_notify`. -/
def serve (env : Env) (stack : ℕ → UInt8) (stale : Request) (reads : List SslRead)
    (writes : List SslWrite) (ram : Ram) : FlashM (Written × Ram) :=
  let outcome := readRequest requestSize stack stale reads
  if outcome.result = 0 then do
    let (response, ram) ← dispatch env outcome.request outcome.bodyBytes ram
    pure (response.write writes, ram)
  else pure ((badRequest "invalid_request").write writes, ram)

/-! ## The writing loop -/

/-- What was written is a beginning. -/
theorem writeAll_begins (writes : List SslWrite) (data : Bytes) :
    (writeAll writes data).sent <+: data := by
  fun_induction writeAll writes data with
  | case1 => exact List.nil_prefix
  | case2 => exact List.nil_prefix
  | case3 more writes c data next ih =>
    have hsplit : c :: data = c :: data.take more ++ data.drop more := by
      rw [List.cons_append, List.take_append_drop]
    rw [hsplit]
    exact (List.prefix_append_right_inj _).2 ih
  | case4 => exact List.nil_prefix
  | case5 => exact List.nil_prefix

/-- An error leaves something unwritten. -/
theorem writeAll_incomplete {writes : List SslWrite} {data : Bytes}
    (h : (writeAll writes data).result ≠ 0) : (writeAll writes data).sent ≠ data := by
  fun_induction writeAll writes data with
  | case1 => exact absurd rfl h
  | case2 c data => exact (List.cons_ne_nil c data).symm
  | case3 more writes c data next ih =>
    intro hall
    refine ih h ?_
    have hsplit : c :: data = c :: data.take more ++ data.drop more := by
      rw [List.cons_append, List.take_append_drop]
    exact List.append_cancel_left (hall.trans hsplit)
  | case4 writes c data => exact (List.cons_ne_nil c data).symm
  | case5 code writes c data => exact (List.cons_ne_nil c data).symm

/-- Without a `0`, success means that everything was written. -/
theorem writeAll_complete {writes : List SslWrite} {data : Bytes}
    (h : (writeAll writes data).result = 0) (hpositive : SslWrite.nothing ∉ writes) :
    (writeAll writes data).sent = data ∧ SslWrite.nothing ∉ (writeAll writes data).writes := by
  fun_induction writeAll writes data with
  | case1 => exact ⟨rfl, hpositive⟩
  | case2 => exact absurd h (by decide)
  | case3 more writes c data next ih =>
    obtain ⟨hsent, hrest⟩ := ih h (List.not_mem_of_not_mem_cons hpositive)
    refine ⟨?_, hrest⟩
    show c :: data.take more ++ next.sent = c :: data
    rw [hsent, List.cons_append, List.take_append_drop]
  | case4 => exact absurd List.mem_cons_self hpositive
  | case5 => exact absurd h (by simp)

/-- Every write takes something. -/
def Taking (writes : List SslWrite) : Prop := ∀ x ∈ writes, ∃ more, x = .taken more

/-- A connection that takes something often enough takes everything, in at most as many writes as
there are bytes. -/
theorem writeAll_ok {writes : List SslWrite} {data : Bytes} (htaking : Taking writes)
    (henough : data.length ≤ writes.length) : (writeAll writes data).result = 0 ∧
      Taking (writeAll writes data).writes ∧
      writes.length ≤ (writeAll writes data).writes.length + data.length := by
  fun_induction writeAll writes data with
  | case1 => exact ⟨rfl, htaking, Nat.le_refl _⟩
  | case2 => exact absurd henough (by simp)
  | case3 more writes c data next ih =>
    obtain ⟨-, hrest⟩ := List.forall_mem_cons.1 htaking
    have hdrop : (data.drop more).length ≤ data.length := (List.drop_suffix _ _).length_le
    rw [List.length_cons, List.length_cons] at henough
    obtain ⟨hresult, hlater, hcount⟩ := ih hrest (by omega)
    change writes.length ≤ next.writes.length + (data.drop more).length at hcount
    refine ⟨hresult, hlater, ?_⟩
    show writes.length + 1 ≤ next.writes.length + (data.length + 1)
    omega
  | case4 =>
    obtain ⟨more, hmore⟩ := htaking _ List.mem_cons_self
    cases hmore
  | case5 =>
    obtain ⟨more, hmore⟩ := htaking _ List.mem_cons_self
    cases hmore

/-! ## Responses -/

namespace Response

variable {r : Response} {head : Bool} {writes : List SslWrite}

/-- What a connection makes of a response: all of it, or what is not taken for a response. -/
structure Sent (head : Bool) (r : Response) (w : Written) : Prop where
  read : w.sent = r.full ∨ Http.Reply.read head w.sent = none
  failed : w.result ≠ 0 → w.sent ≠ r.full

/-- A beginning of a complete response. -/
theorem Complete.sent_of_begins (h : r.Complete head) {w : Written} (hstarts : w.sent <+: r.full)
    (hfailed : w.result ≠ 0 → w.sent ≠ r.full) : Sent head r w := by
  refine ⟨?_, hfailed⟩
  by_cases hall : w.sent = r.full
  · exact .inl hall
  · exact .inr (Http.Reply.read_prefix h.read_full hstarts hall)

/-- The header alone answers a HEAD. -/
theorem Complete.read_header (h : r.Complete head) :
    Http.Reply.read true r.header = some { r with headOnly := true }.reply := by
  have hread := read_full_of_mem (r := { r with headOnly := true }) h.line
  have hfull : full { r with headOnly := true } = r.header := List.append_nil _
  rwa [hfull] at hread

/-- A response that is sent in one part fits the array it is printed into. -/
theorem Complete.length_lt (h : r.Complete head) (hbuffered : r.buffered = false) :
    ¬r.full.length ≥ responseSize := by
  have hwhole := h.whole
  rw [sent, hbuffered, if_neg Bool.false_ne_true] at hwhole
  exact (Option.ite_none_left_eq_some.1 hwhole).1

theorem Complete.write_whole (h : r.Complete head) (hbuffered : r.buffered = false) :
    r.write writes = writeAll writes r.full := by
  have hfits := h.length_lt hbuffered
  rw [full] at hfits
  rw [write, hbuffered, if_neg Bool.false_ne_true, writeWhole,
    if_neg hfits, full]

/-- A response that is sent in two. -/
theorem Complete.write_parts (h : r.Complete head) (writes : List SslWrite)
    (hbuffered : r.buffered = true) :
    r.write writes = r.writeParts writes ∧ ¬r.header.length ≥ 128 ∧
      r.full = r.header ++ r.json := by
  have hwhole := h.whole
  rw [sent, if_pos hbuffered] at hwhole
  rw [write, if_pos hbuffered]
  obtain ⟨hfits, hfull⟩ := Option.ite_none_left_eq_some.1 hwhole
  exact ⟨rfl, hfits, (Option.some.inj hfull).symm⟩

/-- The parts of a response, wherever the writing stops. -/
theorem Complete.sent_writeParts (h : r.Complete head) (hbuffered : r.buffered = true)
    (hfits : ¬r.header.length ≥ 128) (hfull : r.full = r.header ++ r.json) :
    Sent head r (r.writeParts writes) := by
  rw [writeParts, if_neg hfits]
  dsimp only
  split
  · rename_i hfailed
    have hshort : (writeAll writes r.header).sent.length < r.header.length := by
      have hstarts := writeAll_begins writes r.header
      refine lt_of_le_of_ne hstarts.length_le fun hlength => ?_
      exact writeAll_incomplete hfailed (hstarts.eq_of_length hlength)
    refine h.sent_of_begins ?_ fun _ hall => ?_
    · rw [hfull]
      exact (writeAll_begins writes r.header).trans ⟨r.json, rfl⟩
    · rw [hall, hfull, List.length_append] at hshort
      omega
  · have hstarts := writeAll_begins writes r.header
    have hsecond := writeAll_begins (writeAll writes r.header).writes r.json
    by_cases hheader : (writeAll writes r.header).sent = r.header
    · refine h.sent_of_begins ?_ fun hfailed hall => ?_
      · rw [hfull, hheader]
        exact (List.prefix_append_right_inj _).2 hsecond
      · rw [hfull, hheader] at hall
        exact writeAll_incomplete hfailed (List.append_cancel_left hall)
    · -- The first part was cut short by a `0`, which is taken for success.
      have hline : 0x0A ∉ (writeAll (writeAll writes r.header).writes r.json).sent := fun hc =>
        h.unbroken hbuffered (hsecond.subset hc)
      have hnone : Http.Reply.read head ((writeAll writes r.header).sent ++
          (writeAll (writeAll writes r.header).writes r.json).sent) = none :=
        Http.Reply.read_skipped h.read_header hstarts hheader hline
      refine ⟨.inr hnone, fun _ hall => ?_⟩
      dsimp only at hall
      rw [hall, h.read_full] at hnone
      cases hnone

/-- **A client reads the response or nothing**, wherever the writing stops. -/
theorem Complete.sent_write (h : r.Complete head) : Sent head r (r.write writes) := by
  by_cases hbuffered : r.buffered = true
  · obtain ⟨hwrite, hfits, hfull⟩ := h.write_parts writes hbuffered
    rw [hwrite]
    exact h.sent_writeParts hbuffered hfits hfull
  · rw [h.write_whole (Bool.not_eq_true _ ▸ hbuffered)]
    exact h.sent_of_begins (writeAll_begins ..) writeAll_incomplete

/-- Success means that all of it was sent, when `mbedtls_ssl_write` takes something each time. -/
theorem Complete.full_of_write (h : r.Complete head) (hpositive : SslWrite.nothing ∉ writes)
    (hok : (r.write writes).result = 0) : (r.write writes).sent = r.full := by
  by_cases hbuffered : r.buffered = true
  · obtain ⟨hwrite, hfits, hfull⟩ := h.write_parts writes hbuffered
    rw [hwrite, writeParts, if_neg hfits] at hok ⊢
    dsimp only at hok ⊢
    split at hok
    · rename_i hfailed
      exact absurd hok hfailed
    · rename_i hfirst
      obtain ⟨hheader, hrest⟩ := writeAll_complete (not_not.1 hfirst) hpositive
      rw [if_neg hfirst]
      dsimp only
      rw [hheader, (writeAll_complete hok hrest).1, hfull]
  · rw [h.write_whole (Bool.not_eq_true _ ▸ hbuffered)] at hok ⊢
    exact (writeAll_complete hok hpositive).1

/-- A client that goes on reading gets the response. -/
theorem Complete.write_ok (h : r.Complete head) (htaking : Taking writes)
    (henough : r.full.length ≤ writes.length) : (r.write writes).result = 0 := by
  by_cases hbuffered : r.buffered = true
  · obtain ⟨hwrite, hfits, hfull⟩ := h.write_parts writes hbuffered
    rw [hfull, List.length_append] at henough
    have hheader : r.header.length ≤ writes.length := by omega
    obtain ⟨hfirst, hrest, hcount⟩ := writeAll_ok htaking hheader
    rw [hwrite, writeParts, if_neg hfits]
    dsimp only
    rw [if_neg (not_not_intro hfirst)]
    exact (writeAll_ok hrest (by omega)).1
  · rw [h.write_whole (Bool.not_eq_true _ ▸ hbuffered)]
    exact (writeAll_ok htaking henough).1

end Response

/-! ## Requests -/

theorem mem_of_scanWord {width : ℕ} {text word rest : Bytes}
    (h : scanWord width text = some (word, rest)) : word ⊆ text ∧ rest ⊆ text := by
  unfold scanWord at h
  dsimp only at h
  split at h
  · cases h
  · cases h
    have hskip : text.dropWhile isSpace ⊆ text := (List.dropWhile_suffix _).subset
    exact ⟨fun c hc => hskip ((List.takeWhile_prefix _).subset (List.mem_of_mem_take hc)),
      fun c hc => hskip (List.mem_of_mem_drop hc)⟩

/-- A header that is found has no NUL. -/
theorem zero_notMem_take {received : Bytes} {h : ℕ} (hend : findHeaderEnd received = some h) :
    0 ∉ received.take h := by
  have hlength : h ≤ (cstr received).length :=
    (Nat.le_add_right h 4).trans (strstr_add_length_le hend)
  obtain ⟨rest, hrest⟩ := cstr_isPrefix received
  have htake : received.take h = (cstr received).take h := by
    conv_lhs => rw [← hrest]
    exact List.take_append_of_le_length hlength
  rw [htake]
  exact fun hzero => zero_notMem_cstr received (List.mem_of_mem_take hzero)

/-- The path of a request that is dispatched is a C string, if the one that was left in its place
is. -/
theorem zero_notMem_path {capacity : ℕ} (hcapacity : 0 < capacity) (stack : ℕ → UInt8)
    {stale : Request} (hstale : 0 ∉ stale.path) (reads : List SslRead)
    (hok : (readRequest capacity stack stale reads).result = 0) :
    0 ∉ (readRequest capacity stack stale reads).request.path := by
  have hassigned : Assigned (readRequest capacity stack stale reads) →
      0 ∉ (readRequest capacity stack stale reads).request.path := by
    rintro ⟨h, hend, hline, -⟩ hzero
    unfold requestLine at hline
    obtain ⟨⟨method, rest⟩, hmethod, hline⟩ := Option.bind_eq_some_iff.1 hline
    obtain ⟨⟨path, rest'⟩, hpath, hline⟩ := Option.map_eq_some_iff.1 hline
    obtain ⟨rfl, rfl⟩ := Prod.mk.inj hline
    exact zero_notMem_take hend ((mem_of_scanWord hmethod).2 ((mem_of_scanWord hpath).1 hzero))
  rcases readRequest_cases hcapacity stack stale reads with ⟨-, -, hsame⟩ | ⟨-, -, hfilled, -⟩ |
    ⟨-, -, hfilled⟩
  · rw [hsame]
    exact hstale
  · exact hassigned hfilled
  · exact hassigned (hfilled hok).1

/-! ## Connections -/

section Connections

variable {env : Env} {stack : ℕ → UInt8} {stale : Request} {reads : List SslRead}
  {writes : List SslWrite} {ram ram' : Ram} {c c' : Chip} {w : Written}

/-- The variables of a device that can be shown. -/
theorem shown_of_presentable {d : Device} (h : d.Presentable) (hram : d.ram = some ram) :
    ram.Shown :=
  ⟨h.accounts ram hram, h.configured.health ram hram, h.resources ram hram,
    h.configured.callback ram hram⟩

/-- The answer is to a HEAD: a client that asks for `HEAD /health` expects no body. A HEAD of another
path is refused like any other request, with a body. -/
def asksHead (stack : ℕ → UInt8) (stale : Request) (reads : List SslRead) : Bool :=
  let outcome := readRequest requestSize stack stale reads
  outcome.result = 0 && outcome.request.is "HEAD" "/health"

/-- The response of a connection: what the dispatcher makes of the request, or the refusal of one
that was not received. -/
def Responds (env : Env) (stack : ℕ → UInt8) (stale : Request) (reads : List SslRead) (ram : Ram)
    (c : Chip) (r : Response × Ram) : Prop :=
  let outcome := readRequest requestSize stack stale reads
  if outcome.result = 0 then
    ∃ c', dispatch env outcome.request outcome.bodyBytes ram c = (some r, c')
  else r = (badRequest "invalid_request", ram)

/-- A connection answers with one response. -/
theorem serve_response (henv : env.Shown) (hram : ram.Shown) (hstale : 0 ∉ stale.path)
    (h : serve env stack stale reads writes ram c = (some (w, ram'), c')) :
    ∃ response : Response, Responds env stack stale reads ram c (response, ram') ∧
      response.Complete (asksHead stack stale reads) ∧ w = response.write writes := by
  unfold serve at h
  unfold Responds asksHead
  dsimp only at h ⊢
  split at h
  · rename_i hok
    obtain ⟨⟨response, after⟩, c₁, hdispatch, hret⟩ := bind_eq_some.1 h
    simp only [pure_apply, Prod.mk.injEq, Option.some.injEq] at hret
    obtain ⟨⟨rfl, rfl⟩, rfl⟩ := hret
    have hpath := zero_notMem_path (by decide) stack hstale reads hok
    refine ⟨response, ?_, ?_, rfl⟩
    · rw [if_pos hok]
      exact ⟨c₁, hdispatch⟩
    · rw [decide_eq_true hok, Bool.true_and]
      exact answers_dispatch henv hram hpath c _ c₁ hdispatch
  · rename_i hfailed
    simp only [pure_apply, Prod.mk.injEq, Option.some.injEq] at h
    obtain ⟨⟨rfl, rfl⟩, -⟩ := h
    refine ⟨_, ?_, ?_, rfl⟩
    · rw [if_neg hfailed]
    · rw [decide_eq_false hfailed, Bool.false_and]
      exact badRequest_complete (by simp [errorCodes])

/-- **Every connection** to a device in a state it can reach ends with the one response to its
request, which a client can read, or with a part of it that is not taken for a response. -/
theorem serve_answers {events : List Device.Event}
    (hrun : Along Device.step Device.Whole Device.start events)
    (hram : (run Device.step Device.start events).ram = some ram) (henv : env.Shown)
    (hstale : 0 ∉ stale.path)
    (h : serve env stack stale reads writes ram c = (some (w, ram'), c')) :
    ∃ response : Response, Responds env stack stale reads ram c (response, ram') ∧
      Http.Reply.read (asksHead stack stale reads) response.full = some response.reply ∧
      (w.sent = response.full ∨ Http.Reply.read (asksHead stack stale reads) w.sent = none) ∧
      (w.result ≠ 0 → w.sent ≠ response.full) ∧
      (SslWrite.nothing ∉ writes → w.result = 0 → w.sent = response.full) ∧
      (Taking writes → response.full.length ≤ writes.length → w.result = 0) := by
  have hshown := shown_of_presentable (Device.presentable_run hrun) hram
  obtain ⟨response, hresponds, hcomplete, rfl⟩ := serve_response henv hshown hstale h
  have hsent : Response.Sent (asksHead stack stale reads) response (response.write writes) :=
    hcomplete.sent_write
  exact ⟨response, hresponds, hcomplete.read_full, hsent.read, hsent.failed,
    hcomplete.full_of_write, hcomplete.write_ok⟩

end Connections

theorem shown_masterEnv : masterEnv.Shown :=
  ⟨fun _ h => absurd h List.not_mem_nil, fun _ h => absurd h List.not_mem_nil, by decide,
    by decide⟩

/-- A client asks for `HEAD /health`. -/
def headReads : List SslRead :=
  dataReads [(0x48, ascii "EAD /health HTTP/1.1\r\nHost: device\r\n\r\n")]

/-- The client of a device that was just started takes two bytes of the answer. -/
theorem serve_answers_head : ∃ ram w c,
    (run Device.step Device.start [.boot {}]).ram = some ram ∧
      serve masterEnv (fun _ => 0) blankRequest headReads [.taken 1] ram c = (some (w, ram), c) ∧
      asksHead (fun _ => 0) blankRequest headReads = true ∧
      ∃ response : Response,
        Responds masterEnv (fun _ => 0) blankRequest headReads ram c (response, ram) ∧
        Http.Reply.read true response.full = some response.reply ∧
        (w.sent = response.full ∨ Http.Reply.read true w.sent = none) := by
  obtain ⟨ram, hram⟩ := Device.first_boot
  have hrun : Along Device.step Device.Whole Device.start [.boot {}] := ⟨.of_calm rfl, trivial⟩
  have hhead : asksHead (fun _ => 0) blankRequest headReads = true := by decide
  have hparts := hhead
  rw [asksHead, Bool.and_eq_true, decide_eq_true_eq] at hparts
  obtain ⟨hok, his⟩ := hparts
  have hserve : serve masterEnv (fun _ => 0) blankRequest headReads [.taken 1] ram
      ⟨fun _ => 0, {}, []⟩ =
      (some ((health masterEnv (readRequest requestSize (fun _ => 0) blankRequest
        headReads).request).write [.taken 1], ram), ⟨fun _ => 0, {}, []⟩) := by
    rw [serve]
    dsimp only
    rw [if_pos hok, dispatch, if_pos (.inr his)]
    rfl
  obtain ⟨response, hresponds, hread, hsent, -⟩ :=
    serve_answers hrun hram shown_masterEnv (by decide) hserve
  rw [hhead] at hread hsent
  exact ⟨ram, _, _, hram, hserve, hhead, response, hresponds, hread, hsent⟩

end HealthCheck.ApiService
