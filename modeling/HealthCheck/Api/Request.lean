import HealthCheck.AuthService
import HealthCheck.Lib.CString

/-!
# Reading one management request

`apiService_ReadRequest` collects the decrypted bytes of a connection in a stack buffer until
the header terminator and the declared body have arrived, then fills an
`ApiService_RequestTypeDef` with pointers and texts cut out of that buffer.

The model keeps what the C code can get wrong. The buffer is a window on the stack: positions
at and past `capacity` exist and belong to something else. The request structure comes in with
whatever the stack held before, and a field that is not written keeps that content. A read
returns a positive count with its bytes, `0`, or a negative error.
-/

namespace HealthCheck.ApiService

open CString

/-! ## Constants -/

/-- `API_SERVICE_REQUEST_SIZE`, the size of `requestBuffer`. -/
def requestSize : ℕ := 2560

/-- `API_SERVICE_BODY_SIZE`, which is `TLS_TRUST_STORE_MAX_DER_SIZE`. -/
def bodySize : ℕ := 2048

/-- `MBEDTLS_ERR_SSL_BAD_INPUT_DATA`. -/
def errSslBadInputData : Int := -0x7100

/-- `MBEDTLS_ERR_SSL_TIMEOUT`, which `apiService_Receive` reports when nothing arrives. -/
def errSslTimeout : Int := -0x6800

/-! ## Inputs and outputs -/

/-- The result of one `mbedtls_ssl_read`. -/
inductive SslRead where
  /-- A positive count, with the bytes delivered. -/
  | data (first : UInt8) (rest : Bytes)
  /-- `0`: the peer closed the transport without a close_notify. -/
  | closed
  /-- The negative error `-(code + 1)`. -/
  | failed (code : ℕ)
deriving DecidableEq, Repr

/-- `ApiService_RequestTypeDef`. The character arrays are kept as the texts they hold and
`body`, a pointer into the request buffer, as its offset there. -/
structure Request where
  method : Bytes
  path : Bytes
  authorization : Bytes
  body : ℕ
  bodyLength : ℕ
deriving DecidableEq, Repr

/-- The local variables of `apiService_ReadRequest`: `buffer[0 .. used)`, `headerEnd` as an
offset, and `expected`. -/
structure Reader where
  received : Bytes
  headerEnd : Option ℕ
  expected : ℕ
deriving DecidableEq, Repr

/-- What a call leaves behind: its result, the request structure, the bytes it received and
the stack from the start of the buffer on. -/
structure ReadOutcome where
  result : Int
  request : Request
  received : Bytes
  memory : ℕ → UInt8

/-! ## The code -/

/-- `apiService_FindHeaderEnd`, on a buffer that holds `received` and a NUL behind it. -/
def findHeaderEnd (received : Bytes) : Option ℕ := strstr (ascii "\r\n\r\n") (cstr received)

/-- `expected` as it is computed from the header fields, the terminator being cut off. -/
def contentLength (header : Bytes) : ℕ :=
  match strstr (ascii "\r\nContent-Length:") header with
  | some i => strtoul (header.drop (i + 17))
  | none =>
    match strstr (ascii "\r\ncontent-length:") header with
    | some i => strtoul (header.drop (i + 17))
    | none => 0

/-- What the loop body does once the bytes of a read are in the buffer: look for the header
terminator unless it is known, check the declared length, and decide whether to leave. -/
def afterRead (r : Reader) : Except Int (Reader × Bool) :=
  match r.headerEnd with
  | none =>
    match findHeaderEnd r.received with
    | none => .ok (r, false)
    | some h =>
      let expected := contentLength (r.received.take h)
      if expected > bodySize then .error errSslBadInputData
      else .ok ({ r with headerEnd := some h, expected := expected },
        h + 4 + expected ≤ r.received.length)
  | some h => .ok (r, h + 4 + r.expected ≤ r.received.length)

/-- The loop of `apiService_ReadRequest`. The first component is the value of a `return` inside
the loop. A stream that stops without an end runs into the receive timeout. -/
def readLoop (capacity : ℕ) : List SslRead → Reader → Option Int × Reader
  | [], r => if r.received.length < capacity - 1 then (some errSslTimeout, r) else (none, r)
  | read :: reads, r =>
    if r.received.length < capacity - 1 then
      match read with
      | .failed code => (some (Int.negSucc code), r)
      | .closed => (some 0, r)
      | .data first rest =>
        -- `mbedtls_ssl_read` delivers at most the `capacity - used - 1` bytes it is asked for.
        let bytes := (first :: rest).take (capacity - r.received.length - 1)
        let r := { r with received := r.received ++ bytes }
        match afterRead r with
        | .error code => (some code, r)
        | .ok (r, true) => (none, r)
        | .ok (r, false) => readLoop capacity reads r
    else (none, r)

/-- The text of the bearer token: from behind the field name to the end of its line, which is
the end of the header when `Authorization` is the last field. -/
def bearerToken (header : Bytes) : Option Bytes :=
  let field := match strstr (ascii "\r\nAuthorization: Bearer ") header with
    | some i => some i
    | none => strstr (ascii "\r\nauthorization: Bearer ") header
  field.map fun i =>
    let bearer := header.drop (i + 24)
    match strstr (ascii "\r\n") bearer with
    | some e => bearer.take e
    | none => bearer

/-- `sscanf(buffer, "%7s %79s", request->method, request->path) != 2` and the copy of the
bearer token: the value of a `return` in between, and the fields written so far. -/
def parseHeader (header : Bytes) (request : Request) : Option Int × Request :=
  match scanWord 7 header with
  | none => (some errSslBadInputData, request)
  | some (method, rest) =>
    let request := { request with method := method }
    match scanWord 79 rest with
    | none => (some errSslBadInputData, request)
    | some (path, _) =>
      let request := { request with path := path, authorization := [] }
      match bearerToken header with
      | none => (none, request)
      | some token =>
        if token.length ≥ AuthService.tokenTextSize then (some errSslBadInputData, request)
        else (none, { request with authorization := token })

/-- The stack from the start of the buffer on, after the bytes of the reads and the NUL behind
them have been stored. -/
def buffered (stack : ℕ → UInt8) (received : Bytes) (i : ℕ) : UInt8 :=
  if h : i < received.length then received[i] else if i = received.length then 0 else stack i

/-- `apiService_ReadRequest`. -/
def readRequest (capacity : ℕ) (stack : ℕ → UInt8) (request : Request) (reads : List SslRead) :
    ReadOutcome :=
  match readLoop capacity reads ⟨[], none, 0⟩ with
  | (some code, r) => ⟨code, request, r.received, buffered stack r.received⟩
  | (none, ⟨received, none, _⟩) =>
    ⟨errSslBadInputData, request, received, buffered stack received⟩
  | (none, ⟨received, some h, expected⟩) =>
    match parseHeader (received.take h) request with
    | (some code, request) => ⟨code, request, received, buffered stack received⟩
    | (none, request) =>
      let body := h + 4
      ⟨0, { request with body := body, bodyLength := expected }, received,
        Function.update (buffered stack received) (body + expected) 0⟩

/-- What `apiService_Task` does with a connection after the handshake: the request it hands to
`apiService_Dispatch`, or nothing when it answers `invalid_request` itself. -/
def dispatched (stack : ℕ → UInt8) (request : Request) (reads : List SslRead) :
    Option Request :=
  let outcome := readRequest requestSize stack request reads
  if outcome.result = 0 then some outcome.request else none

end HealthCheck.ApiService
