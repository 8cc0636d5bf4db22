import HealthCheck.TlsTransportProof

/-!
# The reported stage and detail

A failed check leaves a stage and a detail behind, which are logged and read from far away. The
table of the manual says what they mean; `cleanup` of `TlsTransport_Request` puts the last socket
error it remembers over the detail, whatever failed.

* `firstFailure`, `documented` — the first layer that fails, and what the table says of it.
* `diagnosis_iff` — the report follows the table exactly when the failure is `Kept`.
* `timeout_misreported` — a timeout of the socket is not reported as one.
-/

namespace HealthCheck.TlsTransport

open CString

/-! ## The table -/

/-- Where a request can fail. -/
inductive Layer where
  | lock
  | entropy
  | trustAnchor
  | configuration
  | resolver
  | connection
  | handshake
  | peer
  | construction
  | transmission
  | statusLine
deriving DecidableEq

/-- The stage of a failure. -/
def Layer.stage : Layer → Status
  | .lock | .entropy | .configuration | .construction => .configError
  | .trustAnchor | .peer => .certificateError
  | .resolver => .dnsError
  | .connection => .connectError
  | .handshake => .handshakeError
  | .transmission => .ioError
  | .statusLine => .protocolError

/-- The first failure of a request: the error of the failing call, `errno` if that was due to a
socket call, and all socket calls made so far. -/
structure Failure where
  layer : Layer
  error : Int
  socket : Option Int := none
  sockets : List SocketCall := []

/-- The detail of a failure. -/
def Failure.detail (f : Failure) : Int :=
  match f.socket with
  | none => f.error
  | some errno => if isTimeoutError errno then errSslTimeout else -errno

/-- What a socket call tells Mbed TLS. -/
def SocketCall.returned (s : SocketCall) : Int :=
  ((if s.receives then receive else send) s.value s.errno 0).1

/-- `errno` of the socket call that a call of Mbed TLS fails with: the last that failed and told it
just the error that it then returns. A socket that fails while an alert is sent is none. -/
def SslCall.socketError (call : SslCall) : Option Int :=
  (call.sockets.filter fun s => s.value < 0 ∧ s.returned = call.result).getLast?.map
    SocketCall.errno

/-- A call of Mbed TLS that fails after some socket calls. -/
def SslCall.failure (call : SslCall) (layer : Layer) (before : List SocketCall) : Failure where
  layer := layer
  error := call.result
  socket := call.socketError
  sockets := before ++ call.sockets

/-- The result of a list of calls that stops. -/
def stopped : SslCall := ⟨errSslTimeout, []⟩

/-- The first of some writes that does not write anything, before `length` bytes are written, and
the socket calls made before it. -/
def failedWrite (length : ℕ) : ℕ → List SslCall → List SocketCall →
    Option SslCall × List SocketCall
  | offset, [], sockets => (if offset < length then some stopped else none, sockets)
  | offset, call :: calls, sockets =>
    if offset < length then
      if call.result ≤ 0 then (some call, sockets)
      else failedWrite length (offset + call.result.toNat) calls (sockets ++ call.sockets)
    else (none, sockets)

/-- The first of some reads that does not read anything, before there is a line; the line, and the
socket calls made before it. -/
def failedRead : Bytes → List (SslCall × UInt8) → List SocketCall →
    Option SslCall × Bytes × List SocketCall
  | line, [], sockets =>
    (if line.length < statusLineSize - 1 then some stopped else none, line, sockets)
  | line, (call, byte) :: reads, sockets =>
    if line.length < statusLineSize - 1 then
      if call.result ≤ 0 then (some call, line, sockets)
      else if endsLine (line ++ [byte]) then (none, line ++ [byte], sockets ++ call.sockets)
      else failedRead (line ++ [byte]) reads (sockets ++ call.sockets)
    else (none, line, sockets)

/-- The socket error of an attempt to connect. -/
def Attempt.error (attempt : Attempt) : Int :=
  if attempt.socket < 0 then -attempt.socketErrno
  else if attempt.getsockopt = 0 ∧ attempt.socketError ≠ 0 then -attempt.socketError
  else -attempt.connectErrno

/-- An attempt that connects. -/
def Attempt.connects (attempt : Attempt) : Bool := 0 ≤ attempt.socket && attempt.connect = 0

/-- A failure of the exchange of a request and a status line. -/
def exchangeFailure (text : Bytes) (lower : Lower) : Option Failure :=
  match failedWrite text.length 0 lower.writes lower.handshake.sockets with
  | (some call, sockets) => some (call.failure .transmission sockets)
  | (none, sockets) =>
    match failedRead [] lower.reads sockets with
    | (some call, _, sockets) => some (call.failure .statusLine sockets)
    | (none, line, sockets) =>
      if parseStatus line = none then
        some { layer := .statusLine, error := errSslBadInputData, sockets }
      else none

/-- The first failure on a connection. -/
def connectedFailure (args : Args) (lower : Lower) : Option Failure :=
  if lower.handshake.result ≠ 0 then
    some (lower.handshake.failure (if lower.verifyResult ≠ 0 then .peer else .handshake) [])
  else if lower.verifyResult ≠ 0 then
    some { layer := .peer, error := errX509CertVerifyFailed, sockets := lower.handshake.sockets }
  else
    match (hostHeader args.host args.port).bind (requestText args) with
    | none =>
      some
        { layer := .construction, error := errSslBadInputData
          sockets := lower.handshake.sockets }
    | some text => exchangeFailure text lower

/-- The first failure of a request. An unusable trust anchor counts as one that verifies nothing,
and no address as a connection without an error. -/
def firstFailure (args : Args) (lower : Lower) : Option Failure :=
  if lower.locked = false then some { layer := .lock, error := 0 }
  else if lower.seed ≠ 0 then some { layer := .entropy, error := lower.seed }
  else if lower.anchorParsed = false then
    some { layer := .trustAnchor, error := errX509CertVerifyFailed }
  else if lower.configDefaults ≠ 0 then
    some { layer := .configuration, error := lower.configDefaults }
  else if lower.setup ≠ 0 then some { layer := .configuration, error := lower.setup }
  else if lower.setHostname ≠ 0 then some { layer := .configuration, error := lower.setHostname }
  else if lower.resolver ≠ 0 then some { layer := .resolver, error := lower.resolver }
  else if lower.addresses.all (!·.connects) then
    some { layer := .connection, error := (lower.addresses.getLast?.map Attempt.error).getD 0 }
  else connectedFailure args lower

/-- The stage and the detail that the table gives. -/
def documented (args : Args) (lower : Lower) : Status × Int :=
  match firstFailure args lower with
  | none => (.ok, 0)
  | some f => (f.layer.stage, f.detail)

/-! ## Remembered socket errors -/

/-- The last error of some socket calls, 0 without one. -/
def lastFailure (sockets : List SocketCall) : Int :=
  sockets.foldl (fun lastError s => if s.value < 0 then s.errno else lastError) 0

/-- **What `cleanup` keeps**: the failure is not one of construction and its error is not 0. An
error of Mbed TLS, and a timeout, is kept if no socket error is remembered (or the very number of
the error), another socket error if it is the one that is. -/
structure Failure.Kept (f : Failure) : Prop where
  construction : f.layer ≠ .construction
  error : f.layer = .transmission ∨ f.layer = .statusLine → f.error ≠ 0
  mbed : (∀ errno, f.socket = some errno → isTimeoutError errno = true) →
    lastFailure f.sockets = 0 ∨ -lastFailure f.sockets = f.error
  socket : ∀ errno, f.socket = some errno → isTimeoutError errno = false →
    errno ≠ 0 ∧ lastFailure f.sockets = errno ∨ lastFailure f.sockets = 0 ∧ f.error = -errno

theorem lastError_eq (call : SslCall) (sockets : List SocketCall) :
    call.lastError (lastFailure sockets) = lastFailure (sockets ++ call.sockets) := by
  have hone (s : SocketCall) (lastError : Int) :
      ((if s.receives then receive else send) s.value s.errno lastError).2 =
        if s.value < 0 then s.errno else lastError := by
    cases s.receives with
    | true =>
      simp only [if_true, receive]
      by_cases hneg : s.value < 0
      · rw [if_neg (by omega), if_neg (by omega), if_pos hneg]
      · rw [if_neg hneg]
        split
        · rfl
        · rw [if_pos (by omega)]
    | false =>
      simp only [Bool.false_eq_true, if_false, send]
      by_cases hneg : s.value < 0
      · rw [if_neg (by omega), if_pos hneg]
      · rw [if_pos (by omega), if_neg hneg]
  rw [SslCall.lastError, lastFailure, lastFailure, List.foldl_append]
  simp only [hone]

/-- A call that fails with a socket call returns what the callback makes of it. -/
theorem result_of_socketError {call : SslCall} {errno : Int} (h : call.socketError = some errno) :
    call.result ≠ 0 ∧ (isTimeoutError errno = true → call.result = errSslTimeout) := by
  obtain ⟨s, hs, rfl⟩ := Option.map_eq_some_iff.1 h
  obtain ⟨-, hs⟩ := List.mem_filter.1 (List.mem_of_getLast? hs)
  obtain ⟨hneg, hreturned⟩ := of_decide_eq_true hs
  have hsend : errNetSendFailed ≠ 0 := by decide
  have hreceive : errNetRecvFailed ≠ 0 := by decide
  have htimeout : errSslTimeout ≠ 0 := by decide
  rw [← hreturned, SocketCall.returned]
  cases s.receives with
  | true =>
    rw [if_pos rfl, receive, if_neg (by omega), if_neg (by omega)]
    cases isTimeoutError s.errno <;> simp [hreceive, htimeout]
  | false =>
    rw [if_neg (by decide), send, if_neg (by omega)]
    cases isTimeoutError s.errno <;> simp [hsend, htimeout]

theorem writeAll_eq (length offset : ℕ) (writes : List SslCall) (sockets : List SocketCall) :
    writeAll length offset writes (lastFailure sockets) =
      match failedWrite length offset writes sockets with
      | (some call, sockets) => (call.result, lastFailure (sockets ++ call.sockets))
      | (none, sockets) => (0, lastFailure sockets) := by
  induction writes generalizing offset sockets with
  | nil =>
    rw [writeAll, failedWrite]
    by_cases h : offset < length
    · rw [if_pos h, if_pos h]
      simp [stopped]
    · rw [if_neg h, if_neg h]
  | cons call writes ih =>
    rw [writeAll, failedWrite]
    by_cases h : offset < length
    · rw [if_pos h, if_pos h, lastError_eq]
      by_cases hcall : call.result ≤ 0
      · rw [if_pos hcall, if_pos hcall]
      · rw [if_neg hcall, if_neg hcall, ih]
    · rw [if_neg h, if_neg h]

theorem readLine_eq (line : Bytes) (reads : List (SslCall × UInt8)) (sockets : List SocketCall) :
    readLine line reads (lastFailure sockets) =
      match failedRead line reads sockets with
      | (some call, line, sockets) =>
        (some call.result, line, lastFailure (sockets ++ call.sockets))
      | (none, line, sockets) => (none, line, lastFailure sockets) := by
  induction reads generalizing line sockets with
  | nil =>
    rw [readLine, failedRead]
    by_cases h : line.length < statusLineSize - 1
    · rw [if_pos h, if_pos h]
      simp [stopped]
    · rw [if_neg h, if_neg h]
  | cons read reads ih =>
    obtain ⟨call, byte⟩ := read
    rw [readLine, failedRead]
    by_cases h : line.length < statusLineSize - 1
    · rw [if_pos h, if_pos h, lastError_eq]
      by_cases hcall : call.result ≤ 0
      · rw [if_pos hcall, if_pos hcall]
      · rw [if_neg hcall, if_neg hcall]
        by_cases hends : endsLine (line ++ [byte])
        · rw [if_pos hends, if_pos hends]
        · rw [if_neg hends, if_neg hends, ih]
    · rw [if_neg h, if_neg h]

/-! ## What `cleanup` reports -/

/-- The detail behind `cleanup`. -/
def Failure.reported (f : Failure) : Int :=
  if f.error ≠ 0 ∧ lastFailure f.sockets ≠ 0 then -lastFailure f.sockets else f.error

/-- What every failure is: its error is the callback's if a socket failed, and an error of 0 comes
without socket calls, except from a write or a read. -/
structure Failure.Sound (f : Failure) : Prop where
  socket : ∀ errno, f.socket = some errno →
    f.error ≠ 0 ∧ (isTimeoutError errno = true → f.error = errSslTimeout)
  error : f.layer ≠ .transmission → f.layer ≠ .statusLine → f.error = 0 →
    f.socket = none ∧ f.sockets = []

/-- The detail that is reported is the documented one exactly for the failures that are kept. -/
theorem reported_eq_iff {f : Failure} (hsound : f.Sound) (hconstruction : f.layer ≠ .construction)
    (herror : f.layer = .transmission ∨ f.layer = .statusLine → f.error ≠ 0) :
    f.reported = f.detail ↔ f.Kept := by
  have hkept : f.Kept ↔ ((∀ errno, f.socket = some errno → isTimeoutError errno = true) →
      lastFailure f.sockets = 0 ∨ -lastFailure f.sockets = f.error) ∧
      ∀ errno, f.socket = some errno → isTimeoutError errno = false →
        errno ≠ 0 ∧ lastFailure f.sockets = errno ∨
          lastFailure f.sockets = 0 ∧ f.error = -errno :=
    ⟨fun h => ⟨h.mbed, h.socket⟩, fun h => ⟨hconstruction, herror, h.1, h.2⟩⟩
  rw [hkept, Failure.reported, Failure.detail]
  cases hsocket : f.socket with
  | none =>
    by_cases hzero : f.error = 0
    · have hlayer := not_or.1 fun h => herror h hzero
      have hlast : lastFailure f.sockets = 0 := by
        rw [(hsound.error hlayer.1 hlayer.2 hzero).2]
        rfl
      simp [hlast]
    · by_cases hlast : lastFailure f.sockets = 0
      · simp [hlast]
      · simp [hzero, hlast]
  | some errno =>
    obtain ⟨hzero, htimeout⟩ := hsound.socket errno hsocket
    cases htime : isTimeoutError errno with
    | true =>
      rw [← htimeout htime]
      by_cases hlast : lastFailure f.sockets = 0
      · simp [hlast, htime]
      · simp [hzero, hlast, htime]
    | false =>
      by_cases hlast : lastFailure f.sockets = 0
      · have hnone : ¬(errno ≠ 0 ∧ 0 = errno) := fun h => h.1 h.2.symm
        simp [hlast, htime, hnone]
      · have hiff : -lastFailure f.sockets = -errno ↔
            errno ≠ 0 ∧ lastFailure f.sockets = errno :=
          ⟨fun h => by omega, fun h => by omega⟩
        simp [hzero, hlast, htime, hiff]

/-! ## Following the request -/

/-- A failure without socket calls. -/
theorem sound_local {layer : Layer} {error : Int} :
    Failure.Sound { layer, error } :=
  ⟨nofun, fun _ _ _ => ⟨rfl, rfl⟩⟩

/-- A failing call on the connection. -/
theorem sound_failure {call : SslCall} {layer : Layer} {before : List SocketCall}
    (h : call.result ≠ 0 ∨ layer = .transmission ∨ layer = .statusLine) :
    (call.failure layer before).Sound := by
  refine ⟨fun errno he => result_of_socketError he, fun hw hr hzero => ?_⟩
  rcases h with h | h | h
  · exact absurd hzero h
  · exact absurd h hw
  · exact absurd h hr

/-- The status that is set when a layer fails. After a connection it is not set again for the
construction of the request. -/
def Layer.set : Layer → Status
  | .construction => .connectError
  | layer => layer.stage

/-- What a failure leaves at `cleanup`. -/
structure Left (f : Failure) (p : Progress) : Prop where
  status : p.result.status = f.layer.set
  detail : p.detail = f.error
  lastError : p.lastError = lastFailure f.sockets
  sound : f.Sound

theorem connects_iff (attempt : Attempt) :
    attempt.connects = true ↔ 0 ≤ attempt.socket ∧ attempt.connect = 0 := by
  simp [Attempt.connects]

/-- The loop of `tlsTransport_Connect`. -/
theorem connectFirst_spec (addresses : List Attempt) (socketDescriptor detail : Int)
    (h : addresses = [] → socketDescriptor < 0) :
    if addresses.all (!·.connects) then
      (connectFirst addresses socketDescriptor detail).1 < 0 ∧
        (connectFirst addresses socketDescriptor detail).2 =
          (addresses.getLast?.map Attempt.error).getD detail
    else 0 ≤ (connectFirst addresses socketDescriptor detail).1 := by
  induction addresses generalizing socketDescriptor detail with
  | nil => exact ⟨h rfl, rfl⟩
  | cons attempt addresses ih =>
    have hlast : ((attempt :: addresses).getLast?.map Attempt.error).getD detail =
        (addresses.getLast?.map Attempt.error).getD attempt.error := by
      cases addresses with
      | nil => rfl
      | cons next addresses => rw [List.getLast?_cons_cons, List.getLast?_cons]; rfl
    rw [hlast, List.all_cons, connectFirst]
    by_cases hsocket : attempt.socket < 0
    · have hno : attempt.connects = false := by
        rw [Bool.eq_false_iff, ne_eq, connects_iff]
        omega
      have herror : attempt.error = -attempt.socketErrno := if_pos hsocket
      rw [if_pos hsocket, hno, herror]
      exact ih attempt.socket _ fun _ => hsocket
    · rw [if_neg hsocket]
      by_cases hconnect : attempt.connect = 0
      · have hyes : attempt.connects = true := (connects_iff attempt).2 ⟨by omega, hconnect⟩
        rw [if_pos hconnect, hyes]
        exact Int.not_lt.1 hsocket
      · have hno : attempt.connects = false := by
          rw [Bool.eq_false_iff, ne_eq, connects_iff]
          exact fun h => hconnect h.2
        rw [if_neg hconnect, hno]
        by_cases hoption : attempt.getsockopt = 0 ∧ attempt.socketError ≠ 0
        · have herror : attempt.error = -attempt.socketError := by
            rw [Attempt.error, if_neg hsocket, if_pos hoption]
          rw [if_pos hoption, herror]
          exact ih (-1) _ fun _ => by decide
        · have herror : attempt.error = -attempt.connectErrno := by
            rw [Attempt.error, if_neg hsocket, if_neg hoption]
          rw [if_neg hoption, herror]
          exact ih (-1) _ fun _ => by decide

theorem buildRequest_spec (args : Args) (lower : Lower) {p : Progress}
    (hstatus : p.result.status = .connectError)
    (hlast : p.lastError = lastFailure lower.handshake.sockets) :
    match (hostHeader args.host args.port).bind (requestText args) with
    | none => ∃ q, buildRequest args lower p = .error q ∧ Left
        { layer := .construction, error := errSslBadInputData
          sockets := lower.handshake.sockets } q
    | some text => ∃ q, buildRequest args lower p = .ok (text, q) ∧
        q.lastError = lastFailure lower.handshake.sockets := by
  unfold buildRequest
  dsimp only
  cases (hostHeader args.host args.port).bind (requestText args) with
  | none =>
    have hbad : errSslBadInputData ≠ 0 := by decide
    exact ⟨_, rfl, hstatus, rfl, hlast, nofun, fun _ _ h => absurd h hbad⟩
  | some text => exact ⟨_, rfl, hlast⟩

/-- The handshake and the construction of the request. -/
theorem secure_spec {args : Args} {lower : Lower} {p : Progress}
    (hstatus : p.result.status = .connectError) (hlast : p.lastError = 0) :
    (∃ q f, secure args lower p = .error q ∧ connectedFailure args lower = some f ∧ Left f q ∧
      f.layer ≠ .transmission ∧ f.layer ≠ .statusLine) ∨
    ∃ text q, secure args lower p = .ok (text, q) ∧
      connectedFailure args lower = exchangeFailure text lower ∧
      q.lastError = lastFailure lower.handshake.sockets := by
  have hremembered : lower.handshake.lastError p.lastError =
      lastFailure lower.handshake.sockets := by
    rw [hlast]
    exact lastError_eq lower.handshake []
  unfold secure connectedFailure
  by_cases hhandshake : lower.handshake.result ≠ 0
  · rw [if_pos hhandshake, if_pos hhandshake]
    refine .inl ⟨_, _, rfl, rfl, ⟨?_, rfl, hremembered, sound_failure (.inl hhandshake)⟩, ?_⟩
    · by_cases hverify : lower.verifyResult ≠ 0
      · simp only [if_pos hverify, SslCall.failure]
        rfl
      · simp only [if_neg hverify, SslCall.failure]
        rfl
    · by_cases hverify : lower.verifyResult ≠ 0
      · simp [if_pos hverify, SslCall.failure]
      · simp [if_neg hverify, SslCall.failure]
  · rw [if_neg hhandshake, if_neg hhandshake]
    by_cases hverify : lower.verifyResult ≠ 0
    · have hcode : errX509CertVerifyFailed ≠ 0 := by decide
      rw [if_pos hverify, if_pos hverify]
      exact .inl ⟨_, _, rfl, rfl, ⟨rfl, rfl, hremembered, nofun, fun _ _ h => absurd h hcode⟩,
        nofun, nofun⟩
    · rw [if_neg hverify, if_neg hverify]
      have hbuild := buildRequest_spec args lower
        (p := { p with lastError := lower.handshake.lastError p.lastError }) hstatus hremembered
      cases htext : (hostHeader args.host args.port).bind (requestText args) with
      | none =>
        rw [htext] at hbuild
        obtain ⟨q, hq, hleft⟩ := hbuild
        exact .inl ⟨q, _, hq, rfl, hleft, nofun, nofun⟩
      | some text =>
        rw [htext] at hbuild
        obtain ⟨q, hq, hqlast⟩ := hbuild
        exact .inr ⟨text, q, hq, rfl, hqlast⟩

/-- **Up to the first byte** of the request, the failure is the first one. -/
theorem prepare_spec (args : Args) {lower : Lower} (hlocked : lower.locked = true) :
    (∃ q f, prepare args lower = .error q ∧ firstFailure args lower = some f ∧ Left f q ∧
      f.layer ≠ .transmission ∧ f.layer ≠ .statusLine) ∨
    ∃ text q, prepare args lower = .ok (text, q) ∧
      firstFailure args lower = exchangeFailure text lower ∧
      q.lastError = lastFailure lower.handshake.sockets := by
  have hlocal {layer : Layer} {error : Int} {status : Status} (h : status = layer.set) :
      Left { layer, error } ⟨{ cleared with status := status }, error, 0⟩ :=
    ⟨h, rfl, rfl, sound_local⟩
  have hunlocked : ¬lower.locked = false := by
    rw [hlocked]
    decide
  unfold prepare firstFailure
  rw [if_neg hunlocked]
  by_cases hseed : lower.seed ≠ 0
  · rw [if_pos hseed, if_pos hseed]
    exact .inl ⟨_, _, rfl, rfl, hlocal rfl, nofun, nofun⟩
  rw [if_neg hseed, if_neg hseed]
  by_cases hanchor : lower.anchorParsed = false
  · rw [if_pos hanchor, if_pos hanchor]
    exact .inl ⟨_, _, rfl, rfl, hlocal rfl, nofun, nofun⟩
  rw [if_neg hanchor, if_neg hanchor]
  by_cases hconfig : lower.configDefaults ≠ 0
  · rw [if_pos hconfig, if_pos hconfig]
    exact .inl ⟨_, _, rfl, rfl, hlocal rfl, nofun, nofun⟩
  rw [if_neg hconfig, if_neg hconfig]
  by_cases hsetup : lower.setup ≠ 0
  · rw [if_pos hsetup, if_pos hsetup]
    exact .inl ⟨_, _, rfl, rfl, hlocal rfl, nofun, nofun⟩
  rw [if_neg hsetup, if_neg hsetup]
  by_cases hhostname : lower.setHostname ≠ 0
  · rw [if_pos hhostname, if_pos hhostname]
    exact .inl ⟨_, _, rfl, rfl, hlocal rfl, nofun, nofun⟩
  rw [if_neg hhostname, if_neg hhostname]
  by_cases hresolver : lower.resolver ≠ 0
  · simp only [connect, if_pos hresolver]
    rw [if_pos (by decide)]
    exact .inl ⟨_, _, rfl, rfl, hlocal rfl, nofun, nofun⟩
  have hconnect := connectFirst_spec lower.addresses (-1) 0 fun _ => by decide
  simp only [connect, if_neg hresolver]
  by_cases hall : lower.addresses.all (!·.connects)
  · rw [if_pos hall] at hconnect
    rw [if_pos hconnect.1, if_pos hall, hconnect.2]
    exact .inl ⟨_, _, rfl, rfl, hlocal rfl, nofun, nofun⟩
  · rw [if_neg hall] at hconnect
    rw [if_neg (Int.not_lt.2 hconnect), if_neg hall]
    exact secure_spec rfl rfl

/-- The status after a write that returns 0. -/
theorem exchange_ne_ioError {text : Bytes} {lower : Lower} {p : Progress}
    (h : (writeAll text.length 0 lower.writes p.lastError).1 = 0) :
    (exchange text lower p).result.status ≠ .ioError := by
  rw [exchange_status, if_neg (not_not_intro h)]
  split <;> exact fun hio => nomatch hio

theorem readStatus_eq (reads : List (SslCall × UInt8)) (sockets : List SocketCall) :
    readStatus reads (lastFailure sockets) =
      match failedRead [] reads sockets with
      | (some call, _, sockets) => (call.result, none, lastFailure (sockets ++ call.sockets))
      | (none, line, sockets) =>
        match parseStatus line with
        | none => (errSslBadInputData, none, lastFailure sockets)
        | some status => (0, some status, lastFailure sockets) := by
  rw [readStatus, readLine_eq]
  rcases failedRead [] reads sockets with ⟨_ | call, line, sockets'⟩
  · rfl
  · rfl

/-- **The exchange** of request and status line: its failure is the first one, except that an error
of 0 is taken for none. -/
theorem exchange_spec (text : Bytes) {lower : Lower} {p : Progress}
    (h : p.lastError = lastFailure lower.handshake.sockets) :
    match exchangeFailure text lower with
    | none => (exchange text lower p).result.status = .ok ∧ (exchange text lower p).detail = 0
    | some f => (f.layer = .transmission ∨ f.layer = .statusLine) ∧
      if f.error = 0 then (exchange text lower p).result.status ≠ f.layer.stage
      else Left f (exchange text lower p) := by
  have hwrite := writeAll_eq text.length 0 lower.writes lower.handshake.sockets
  rw [← h] at hwrite
  unfold exchangeFailure
  rcases hfirst : failedWrite text.length 0 lower.writes lower.handshake.sockets with
    ⟨_ | call, sockets⟩
  · -- Everything is written.
    rw [hfirst] at hwrite
    have hread := readStatus_eq lower.reads sockets
    dsimp only at hwrite ⊢
    rcases hsecond : failedRead [] lower.reads sockets with ⟨_ | call, line, sockets'⟩
    · rw [hsecond] at hread
      dsimp only at hread ⊢
      cases hparse : parseStatus line with
      | none =>
        have hbad : errSslBadInputData ≠ 0 := by decide
        rw [hparse] at hread
        simp only [exchange, hwrite, hread, ne_eq, not_true_eq_false, if_false, if_true, hbad,
          not_false_eq_true, or_true, true_and]
        exact ⟨rfl, rfl, rfl, nofun, fun _ hr => absurd rfl hr⟩
      | some status =>
        rw [hparse] at hread
        simp only [exchange, hwrite, hread, ne_eq, not_true_eq_false, if_false, reduceCtorEq,
          and_self]
    · rw [hsecond] at hread
      dsimp only at hread ⊢
      refine ⟨.inr rfl, ?_⟩
      have herror : (call.failure .statusLine sockets').error = call.result := rfl
      by_cases hcall : call.result = 0
      · rw [herror, if_pos hcall]
        simp only [exchange, hwrite, hread, hcall, ne_eq, not_true_eq_false, if_false]
        exact fun hok => nomatch hok
      · rw [herror, if_neg hcall]
        simp only [exchange, hwrite, hread, hcall, ne_eq, not_true_eq_false, if_false,
          not_false_eq_true, if_true]
        exact ⟨rfl, rfl, rfl, sound_failure (.inl hcall)⟩
  · rw [hfirst] at hwrite
    dsimp only at hwrite ⊢
    refine ⟨.inl rfl, ?_⟩
    have herror : (call.failure .transmission sockets).error = call.result := rfl
    by_cases hcall : call.result = 0
    · rw [herror, if_pos hcall]
      exact exchange_ne_ioError (by rw [hwrite]; exact hcall)
    · rw [herror, if_neg hcall]
      simp only [exchange, hwrite, hcall, ne_eq, not_false_eq_true, if_true]
      exact ⟨rfl, rfl, rfl, sound_failure (.inl hcall)⟩

/-! ## The report -/

/-- `TlsTransport_Request` takes no other methods. -/
def Known (method : Bytes) : Prop :=
  method = ascii "HEAD" ∨ method = ascii "GET" ∨ method = ascii "POST"

/-- **The report follows the table** exactly when the failure is kept. -/
theorem diagnosis_iff (args : Args) (lower : Lower) (before : Result) (hknown : Known args.method) :
    ((request args lower before).2.status, (request args lower before).2.detail) =
        documented args lower ↔
      ∀ f, firstFailure args lower = some f → f.Kept := by
  have hmethod : ¬(args.method ≠ ascii "HEAD" ∧ args.method ≠ ascii "GET" ∧
      args.method ≠ ascii "POST") := by
    rcases hknown with h | h | h <;> simp [h]
  have hleft {f : Failure} {p : Progress} (h : Left f p)
      (herror : f.layer = .transmission ∨ f.layer = .statusLine → f.error ≠ 0) :
      ((finish lower p).status, (finish lower p).detail) = (f.layer.stage, f.detail) ↔
        f.Kept := by
    have hdetail : (finish lower p).detail = f.reported := by
      rw [finish, Failure.reported, h.detail, h.lastError]
    have hstatus : (finish lower p).status = f.layer.set := h.status
    rw [hdetail, hstatus, Prod.mk.injEq]
    by_cases hlayer : f.layer = .construction
    · rw [hlayer]
      exact iff_of_false (fun hset => nomatch hset.1) fun hkept => hkept.construction hlayer
    · have hset : f.layer.set = f.layer.stage := by
        cases hl : f.layer with
        | construction => exact absurd hl hlayer
        | _ => rfl
      rw [hset, ← reported_eq_iff h.sound hlayer herror]
      exact and_iff_right rfl
  unfold request documented
  rw [if_neg hmethod]
  by_cases hlocked : lower.locked = false
  · have hfirst : firstFailure args lower = some { layer := .lock, error := 0 } := if_pos hlocked
    have hlast : lastFailure [] = 0 := rfl
    rw [if_pos hlocked, hfirst]
    refine iff_of_true rfl fun f hf => ?_
    rw [← Option.some.inj hf]
    exact ⟨nofun, nofun, fun _ => .inl hlast, nofun⟩
  · rw [if_neg hlocked]
    rcases prepare_spec args (Bool.not_eq_false _ ▸ hlocked) with
      ⟨p, f, hprepare, hfirst, hf, hwrite, hread⟩ | ⟨text, p, hprepare, hfirst, hlast⟩
    · rw [hprepare, hfirst]
      simp only [Option.some.injEq, forall_eq']
      exact hleft hf fun h => h.elim (absurd · hwrite) (absurd · hread)
    · have hexchange := exchange_spec text hlast
      rw [hprepare, hfirst]
      cases hfailure : exchangeFailure text lower with
      | none =>
        rw [hfailure] at hexchange
        obtain ⟨hstatus, hdetail⟩ := hexchange
        have hreport : (finish lower (exchange text lower p)).detail = 0 := by
          rw [finish, hdetail]
          rfl
        exact iff_of_true (Prod.ext hstatus hreport) nofun
      | some f =>
        rw [hfailure] at hexchange
        obtain ⟨hlayer, hexchange⟩ := hexchange
        simp only [Option.some.injEq, forall_eq']
        by_cases herror : f.error = 0
        · rw [if_pos herror] at hexchange
          exact iff_of_false (fun h => hexchange (Prod.mk.inj h).1)
            fun hkept => hkept.error hlayer herror
        · rw [if_neg herror] at hexchange
          exact hleft hexchange fun _ => herror

/-- The server does not answer the handshake in time. -/
def silentLower : Lower :=
  { closedLower with
    handshake := ⟨errSslTimeout, [⟨false, 250, 0⟩, ⟨true, -1, eAgain⟩]⟩ }

/-- A timeout of the socket is reported as `-EAGAIN`. -/
theorem timeout_misreported :
    ((request headArgs silentLower cleared).2.status,
      (request headArgs silentLower cleared).2.detail) = (.handshakeError, -11) ∧
    documented headArgs silentLower = (.handshakeError, errSslTimeout) ∧
    ((request headArgs silentLower cleared).2.status,
      (request headArgs silentLower cleared).2.detail) ≠ documented headArgs silentLower := by
  decide

/-- The peer's certificate fails validation, and the alert that says so cannot be sent. -/
def alertLower : Lower :=
  { closedLower with
    handshake := ⟨errX509CertVerifyFailed, [⟨true, 900, 0⟩, ⟨false, -1, 104⟩]⟩
    verifyResult := 8 }

/-- The alert is not what failed, but it is what is reported. -/
example : documented headArgs alertLower = (.certificateError, errX509CertVerifyFailed) ∧
    (request headArgs alertLower cleared).2.detail = -104 := by decide

/-- The server resets the connection during the handshake. -/
def resetLower : Lower :=
  { closedLower with
    handshake := ⟨errNetRecvFailed, [⟨false, 250, 0⟩, ⟨true, -1, 104⟩]⟩ }

/-- A reset is reported as the table says. -/
theorem reset_diagnosed :
    ((request headArgs resetLower cleared).2.status,
      (request headArgs resetLower cleared).2.detail) = documented headArgs resetLower := by
  have hfirst : firstFailure headArgs resetLower =
      some ⟨.handshake, errNetRecvFailed, some 104, [⟨false, 250, 0⟩, ⟨true, -1, 104⟩]⟩ := rfl
  refine (diagnosis_iff headArgs resetLower cleared (.inl rfl)).2 fun f hf => ?_
  rw [hfirst] at hf
  rw [← Option.some.inj hf]
  refine ⟨nofun, nofun, fun hall => absurd (hall 104 rfl) (by decide), fun errno herrno _ => ?_⟩
  rw [← Option.some.inj herrno]
  exact .inl (by decide)

end HealthCheck.TlsTransport
