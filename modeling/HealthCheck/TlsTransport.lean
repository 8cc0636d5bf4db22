import HealthCheck.Lib.Lines

/-!
# One HTTPS request

`TlsTransport_Request` connects, does the TLS handshake, writes a request and reads the status
line of the reply. Everything below it is a list of results: of the resolver, of each socket
call, of each Mbed TLS call together with the socket calls made during it. What the function
returns and leaves in `*result` is computed from these.
-/

namespace HealthCheck.TlsTransport

open CString

/-! ## Constants -/

/-- `TLS_TRANSPORT_STATUS_LINE_SIZE`. -/
def statusLineSize : ℕ := 128

/-- `TLS_TRANSPORT_REQUEST_SIZE`. -/
def requestSize : ℕ := 768

/-- `TLS_TRANSPORT_HOST_HEADER_SIZE`. -/
def hostHeaderSize : ℕ := 70

/-- `MBEDTLS_ERR_SSL_TIMEOUT`. -/
def errSslTimeout : Int := -0x6800

/-- `MBEDTLS_ERR_SSL_CONN_EOF`. -/
def errSslConnEof : Int := -0x7280

/-- `MBEDTLS_ERR_NET_SEND_FAILED`. -/
def errNetSendFailed : Int := -0x004E

/-- `MBEDTLS_ERR_NET_RECV_FAILED`. -/
def errNetRecvFailed : Int := -0x004C

/-- `MBEDTLS_ERR_SSL_BAD_INPUT_DATA`. -/
def errSslBadInputData : Int := -0x7100

/-- `MBEDTLS_ERR_X509_CERT_VERIFY_FAILED`. -/
def errX509CertVerifyFailed : Int := -0x2700

/-- `EAGAIN`, which is `EWOULDBLOCK`. -/
def eAgain : Int := 11

/-- `ETIMEDOUT`. -/
def eTimedOut : Int := 116

/-! ## Inputs and outputs -/

/-- `TlsTransport_StatusTypeDef`. -/
inductive Status where
  | ok
  | dnsError
  | connectError
  | configError
  | certificateError
  | handshakeError
  | ioError
  | protocolError
deriving DecidableEq, Repr

/-- `mbedtls_x509_time`. -/
structure X509Time where
  year : Int
  mon : Int
  day : Int
  hour : Int
  min : Int
  sec : Int
deriving DecidableEq, Repr

/-- `TlsTransport_ResultTypeDef`. -/
structure Result where
  status : Status
  detail : Int
  httpStatus : UInt16
  elapsedMs : UInt32
  certificateNotAfterUnix : UInt32
  tlsVersion : Option Bytes
  cipherSuite : Option Bytes
deriving DecidableEq, Repr

/-- The arguments of `TlsTransport_Request`. The texts are C strings, without their NUL. -/
structure Args where
  method : Bytes
  host : Bytes
  port : UInt16
  resource : Bytes
  body : Bytes
  contentType : Option Bytes

/-- A call of `lwip_send` or `lwip_recv`, and `errno` behind it. -/
structure SocketCall where
  receives : Bool
  value : Int
  errno : Int

/-- The result of an Mbed TLS call, and the socket calls it made. -/
structure SslCall where
  result : Int
  sockets : List SocketCall := []

/-- What `tlsTransport_Connect` sees of one address. -/
structure Attempt where
  socket : Int
  socketErrno : Int
  connect : Int
  connectErrno : Int
  getsockopt : Int
  socketError : Int

/-- The results of the lower layers. -/
structure Lower where
  locked : Bool
  seed : Int
  /-- `TlsTrustStore_Parse` finds and parses the trust anchor. -/
  anchorParsed : Bool
  configDefaults : Int
  setup : Int
  setHostname : Int
  resolver : Int
  addresses : List Attempt
  handshake : SslCall
  verifyResult : UInt32
  tlsVersion : Bytes
  cipherSuite : Bytes
  peerValidTo : Option X509Time
  /-- The calls of `mbedtls_ssl_write`, one after the other. -/
  writes : List SslCall
  /-- The calls of `mbedtls_ssl_read`, with the byte each stores if its result is positive. -/
  reads : List (SslCall × UInt8)
  started : UInt32
  finished : UInt32

/-! ## Certificate times -/

/-- `tlsTransport_IsLeapYear`. -/
def isLeapYear (year : ℕ) : Bool := year % 4 = 0 && (year % 100 ≠ 0 || year % 400 = 0)

/-- `daysBeforeMonth`. -/
def daysBeforeMonth : List ℕ := [0, 31, 59, 90, 120, 151, 181, 212, 243, 273, 304, 334]

/-- `tlsTransport_X509TimeToUnix`. -/
def x509TimeToUnix (time : X509Time) : Option UInt32 :=
  if time.year < 1970 ∨ time.mon < 1 ∨ time.mon > 12 ∨ time.day < 1 ∨ time.day > 31 ∨
      time.hour < 0 ∨ time.hour > 23 ∨ time.min < 0 ∨ time.min > 59 ∨ time.sec < 0 ∨
      time.sec > 59 then none
  else
    let year := time.year.toNat
    let previousYear := year - 1
    let days := (year - 1970) * 365 + previousYear / 4 - 1969 / 4
      - (previousYear / 100 - 1969 / 100) + (previousYear / 400 - 1969 / 400)
    let days := days + daysBeforeMonth.getD (time.mon.toNat - 1) 0
    let days := if time.mon > 2 ∧ isLeapYear year then days + 1 else days
    let days := days + (time.day.toNat - 1)
    let seconds := ((days * 24 + time.hour.toNat) * 60 + time.min.toNat) * 60 + time.sec.toNat
    if seconds ≥ 2 ^ 32 then none else some (UInt32.ofNat seconds)

/-! ## Socket callbacks -/

/-- `tlsTransport_IsTimeoutError`. -/
def isTimeoutError (socketError : Int) : Bool := socketError = eAgain || socketError = eTimedOut

/-- `tlsTransport_Send`: its value and `lastError` behind it. -/
def send (sent errno lastError : Int) : Int × Int :=
  if sent ≥ 0 then (sent, lastError)
  else (if isTimeoutError errno then errSslTimeout else errNetSendFailed, errno)

/-- `tlsTransport_Receive`. -/
def receive (received errno lastError : Int) : Int × Int :=
  if received > 0 then (received, lastError)
  else if received = 0 then (errSslConnEof, lastError)
  else (if isTimeoutError errno then errSslTimeout else errNetRecvFailed, errno)

/-- `lastError` after an Mbed TLS call. -/
def SslCall.lastError (call : SslCall) (lastError : Int) : Int :=
  call.sockets.foldl (fun lastError s =>
    ((if s.receives then receive else send) s.value s.errno lastError).2) lastError

/-! ## Connecting -/

/-- The loop of `tlsTransport_Connect`: the socket and `*detail`. -/
def connectFirst : List Attempt → Int → Int → Int × Int
  | [], socketDescriptor, detail => (socketDescriptor, detail)
  | attempt :: addresses, _, detail =>
    if attempt.socket < 0 then connectFirst addresses attempt.socket (-attempt.socketErrno)
    else if attempt.connect = 0 then (attempt.socket, detail)
    else if attempt.getsockopt = 0 ∧ attempt.socketError ≠ 0 then
      connectFirst addresses (-1) (-attempt.socketError)
    else connectFirst addresses (-1) (-attempt.connectErrno)

/-- `tlsTransport_Connect`: the socket, `*status` and `*detail`. -/
def connect (lower : Lower) : Int × Status × Int :=
  if lower.resolver ≠ 0 then (-1, .dnsError, lower.resolver)
  else
    let (socketDescriptor, detail) := connectFirst lower.addresses (-1) 0
    (socketDescriptor, .connectError, detail)

/-! ## The request text -/

/-- The value of the `Host` header, if it fits. -/
def hostHeader (host : Bytes) (port : UInt16) : Option Bytes :=
  let text := if port = 443 then host else host ++ ascii ":" ++ decimalText port.toNat
  if text.length = 0 ∨ text.length ≥ hostHeaderSize then none else some text

/-- Hosts of up to 63 characters fit with any port. -/
theorem hostHeader_eq_some {host : Bytes} (hne : host ≠ []) (hlength : host.length < 64)
    (port : UInt16) : hostHeader host port =
      some (host ++ if port = 443 then [] else ascii ":" ++ decimalText port.toNat) := by
  have hpos := List.length_pos_iff.2 hne
  have hport : (decimalText port.toNat).length ≤ 5 :=
    length_decimalText_le (by decide) (port.toNat_lt.trans (by decide))
  have hcolon : (ascii ":").length = 1 := rfl
  by_cases hdefault : port = 443
  · simp only [hostHeader, if_pos hdefault, List.append_nil]
    rw [if_neg]
    rw [hostHeaderSize]
    omega
  · simp only [hostHeader, if_neg hdefault, ← List.append_assoc]
    rw [if_neg]
    rw [hostHeaderSize]
    simp only [List.length_append]
    omega

/-- The text of a request, if it fits its buffer and a body has a type. -/
def requestText (args : Args) (host : Bytes) : Option Bytes :=
  let head := args.method ++ ascii " " ++ args.resource ++ ascii " HTTP/1.1\r\nHost: " ++ host ++
    ascii "\r\nConnection: close\r\nUser-Agent: stm32-health-check/1\r\n"
  let text :=
    if args.body.length ≠ 0 then
      args.contentType.map fun contentType =>
        head ++ ascii "Content-Type: " ++ contentType ++ ascii "\r\nContent-Length: " ++
          decimalText args.body.length ++ ascii "\r\n\r\n" ++ args.body
    else some (head ++ ascii "\r\n")
  text.filter fun text => text.length < requestSize

/-! ## Writing and reading -/

/-- `tlsTransport_WriteAll`: its value and `lastError`. A list of results that stops ends in a
timeout. -/
def writeAll (length : ℕ) : ℕ → List SslCall → Int → Int × Int
  | offset, [], lastError => (if offset < length then errSslTimeout else 0, lastError)
  | offset, call :: calls, lastError =>
    if offset < length then
      if call.result ≤ 0 then (call.result, call.lastError lastError)
      else writeAll length (offset + call.result.toNat) calls (call.lastError lastError)
    else (0, lastError)

/-- A line ends with CR LF. -/
def endsLine (line : Bytes) : Bool := line.drop (line.length - 2) = ascii "\r\n"

/-- The loop of `tlsTransport_ReadStatus`: the value of a `return` inside it, the line and
`lastError`. -/
def readLine : Bytes → List (SslCall × UInt8) → Int → Option Int × Bytes × Int
  | line, [], lastError =>
    (if line.length < statusLineSize - 1 then some errSslTimeout else none, line, lastError)
  | line, (call, byte) :: reads, lastError =>
    if line.length < statusLineSize - 1 then
      if call.result ≤ 0 then (some call.result, line, call.lastError lastError)
      else if endsLine (line ++ [byte]) then (none, line ++ [byte], call.lastError lastError)
      else readLine (line ++ [byte]) reads (call.lastError lastError)
    else (none, line, lastError)

/-- `sscanf(line, "HTTP/1.%*u %3u", &status)`. -/
def scanStatus (line : Bytes) : Option ℕ :=
  if (ascii "HTTP/1.").isPrefixOf line then do
    let (_, rest) ← scanUnsigned line.length (line.drop 7)
    let (status, _) ← scanUnsigned 3 rest
    pure status
  else none

/-- The status code of a status line. -/
def parseStatus (line : Bytes) : Option UInt16 :=
  if line.length < 12 then none
  else (scanStatus (cstr line)).bind fun status =>
    if status > 999 then none else some (UInt16.ofNat status)

/-- `tlsTransport_ReadStatus`: its value, `*httpStatus` if it is written, and `lastError`. -/
def readStatus (reads : List (SslCall × UInt8)) (lastError : Int) : Int × Option UInt16 × Int :=
  match readLine [] reads lastError with
  | (some code, _, lastError) => (code, none, lastError)
  | (none, line, lastError) =>
    match parseStatus line with
    | none => (errSslBadInputData, none, lastError)
    | some status => (0, some status, lastError)

/-! ## The whole request -/

/-- The variables of `TlsTransport_Request` at `cleanup`. -/
structure Progress where
  result : Result
  detail : Int
  lastError : Int

/-- `*result` after `memset` and the first assignment. -/
def cleared : Result := ⟨.configError, 0, 0, 0, 0, none, none⟩

/-- `TlsTransport_Request` after the handshake, up to the first byte of the request. -/
def buildRequest (args : Args) (lower : Lower) (p : Progress) : Except Progress (Bytes × Progress) :=
  let result :=
    { p.result with
      tlsVersion := some lower.tlsVersion
      cipherSuite := some lower.cipherSuite
      certificateNotAfterUnix := (lower.peerValidTo.bind x509TimeToUnix).getD 0 }
  match (hostHeader args.host args.port).bind (requestText args) with
  | none => .error ⟨result, errSslBadInputData, p.lastError⟩
  | some text => .ok (text, ⟨result, 0, p.lastError⟩)

/-- The handshake. -/
def secure (args : Args) (lower : Lower) (p : Progress) : Except Progress (Bytes × Progress) :=
  let lastError := lower.handshake.lastError p.lastError
  if lower.handshake.result ≠ 0 then
    let status := if lower.verifyResult ≠ 0 then .certificateError else .handshakeError
    .error ⟨{ p.result with status := status }, lower.handshake.result, lastError⟩
  else if lower.verifyResult ≠ 0 then
    .error ⟨{ p.result with status := .certificateError }, errX509CertVerifyFailed, lastError⟩
  else buildRequest args lower { p with lastError := lastError }

/-- `TlsTransport_Request` up to the first byte of the request: the request, or what it leaves
at `cleanup`. -/
def prepare (args : Args) (lower : Lower) : Except Progress (Bytes × Progress) :=
  if lower.seed ≠ 0 then .error ⟨cleared, lower.seed, 0⟩
  else if lower.anchorParsed = false then
    .error ⟨{ cleared with status := .certificateError }, errX509CertVerifyFailed, 0⟩
  else if lower.configDefaults ≠ 0 then .error ⟨cleared, lower.configDefaults, 0⟩
  else if lower.setup ≠ 0 then .error ⟨cleared, lower.setup, 0⟩
  else if lower.setHostname ≠ 0 then .error ⟨cleared, lower.setHostname, 0⟩
  else
    let (socketDescriptor, status, detail) := connect lower
    let result := { cleared with status := status }
    if socketDescriptor < 0 then .error ⟨result, detail, 0⟩
    else secure args lower ⟨result, detail, 0⟩

/-- Writing the request and reading the status line. -/
def exchange (text : Bytes) (lower : Lower) (p : Progress) : Progress :=
  match writeAll text.length 0 lower.writes p.lastError with
  | (detail, lastError) =>
    if detail ≠ 0 then ⟨{ p.result with status := .ioError }, detail, lastError⟩
    else
      match readStatus lower.reads lastError with
      | (detail, status, lastError) =>
        let result := { p.result with httpStatus := status.getD p.result.httpStatus }
        if detail ≠ 0 then ⟨{ result with status := .protocolError }, detail, lastError⟩
        else ⟨{ result with status := .ok }, 0, lastError⟩

/-- The label `cleanup`. -/
def finish (lower : Lower) (p : Progress) : Result :=
  { p.result with
    detail := if p.detail ≠ 0 ∧ p.lastError ≠ 0 then -p.lastError else p.detail
    elapsedMs := lower.finished - lower.started }

/-- `TlsTransport_Request`: `*result`, which it returns the status of unless the method is none of
the three it knows. -/
def request (args : Args) (lower : Lower) (before : Result) : Status × Result :=
  if args.method ≠ ascii "HEAD" ∧ args.method ≠ ascii "GET" ∧ args.method ≠ ascii "POST" then
    (.configError, before)
  else
    let result :=
      if lower.locked = false then cleared
      else match prepare args lower with
        | .error p => finish lower p
        | .ok (text, p) => finish lower (exchange text lower p)
    (result.status, result)

end HealthCheck.TlsTransport
