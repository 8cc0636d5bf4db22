import HealthCheck.AuthService
import HealthCheck.TlsServerCredentials
import HealthCheck.TlsTrustStore

/-!
# Responses of the management API

`apiService_Respond`, `apiService_RespondEx`, `apiService_RespondBuffer`, `apiService_Error` and
the functions that translate a status of one component into a response. A response is what these
functions are called with; `Response.sent` is what they write to the connection.
-/

namespace HealthCheck.ApiService

open CString

/-! ## Texts -/

/-- `API_SERVICE_RESPONSE_SIZE`. -/
def responseSize : ℕ := 2048

/-- `snprintf` into an array of `n` characters: what the array denotes afterwards. -/
def formatted (n : ℕ) (text : Bytes) : Bytes := text.take (n - 1)

def quoted (text : Bytes) : Bytes := 0x22 :: (text ++ [0x22])

def braces (text : Bytes) : Bytes := 0x7B :: (text ++ [0x7D])

/-- The members of an object as the format strings spell them. -/
def members (fields : List (String × Bytes)) : Bytes :=
  [0x2C].intercalate (fields.map fun (name, value) => quoted (ascii name) ++ 0x3A :: value)

def object (fields : List (String × Bytes)) : Bytes := braces (members fields)

/-- `b != 0U ? "true" : "false"`. -/
def boolText (b : Bool) : Bytes := if b then ascii "true" else ascii "false"

/-- `%ld` and `%d`. -/
def signedText (n : ℤ) : Bytes := ascii (toString n)

/-! ## Responses -/

/-- What a response function is called with. `buffered` is `apiService_RespondBuffer`. -/
structure Response where
  status : ℕ
  reason : Bytes
  json : Bytes
  headOnly : Bool
  buffered : Bool
deriving DecidableEq

namespace Response

/-- The header fields, up to the empty line. -/
def header (r : Response) : Bytes :=
  ascii "HTTP/1.1 " ++ decimalText r.status ++ ascii " " ++ r.reason ++
    ascii "\r\nContent-Type: application/json\r\nContent-Length: " ++
    decimalText r.json.length ++
    ascii "\r\nConnection: close\r\nCache-Control: no-store\r\n\r\n"

/-- What is written to the connection: nothing when the text does not fit its array
(`MBEDTLS_ERR_SSL_BUFFER_TOO_SMALL`). -/
def sent (r : Response) : Option Bytes :=
  if r.buffered then
    if r.header.length ≥ 128 then none else some (r.header ++ r.json)
  else
    let text := r.header ++ if r.headOnly then [] else r.json
    if text.length ≥ responseSize then none else some text

end Response

/-- `apiService_Respond`. -/
def respond (status : ℕ) (reason : String) (json : Bytes) : Response :=
  ⟨status, ascii reason, json, false, false⟩

/-- `apiService_Error`. -/
def error (status : ℕ) (reason code : String) : Response :=
  respond status reason (formatted 96 (object [("error", quoted (ascii code))]))

def badRequest (code : String) : Response := error 400 "Bad Request" code

def notFound (code : String) : Response := error 404 "Not Found" code

def forbidden : Response := error 403 "Forbidden" "forbidden"

def storageError : Response := error 500 "Internal Server Error" "storage_error"

def responseTooLarge : Response := error 500 "Internal Server Error" "response_too_large"

/-! ## Statuses of the components -/

/-- `apiService_TlsCredentialsRespond`. -/
def tlsCredentialsRespond (status : TlsServerCredentials.CredentialsStatus)
    (awaiting invalidError : String) : Response :=
  match status with
  | .activated => respond 200 "OK" (object [("status", quoted (ascii "activated"))])
  | .pending => respond 202 "Accepted" (formatted 64
      (object [("status", quoted (ascii "pending")), ("awaiting", quoted (ascii awaiting))]))
  | .mismatch => error 409 "Conflict" "key_mismatch"
  | .invalidData => badRequest invalidError
  | _ => storageError

/-- `apiService_TrustStoreError`. -/
def trustStoreError : TlsTrustStore.TrustStatus → Response
  | .invalidArgument => badRequest "invalid_certificate_body"
  | .invalidCertificate => badRequest "invalid_certificate"
  | .noMemory => error 503 "Service Unavailable" "tls_memory_exhausted"
  | .notCa => badRequest "certificate_not_ca"
  | .notFound => notFound "trust_anchor_not_found"
  | .full => error 409 "Conflict" "trust_anchor_limit_reached"
  | _ => storageError

/-- `apiService_Tokens`. -/
def tokens (pair : AuthService.TokenPair) : Response :=
  respond 200 "OK" (formatted 384 (object [
    ("token_type", quoted (ascii "Bearer")),
    ("access_token", quoted pair.accessToken),
    ("expires_in", decimalText pair.accessExpiresIn.toNat),
    ("refresh_token", quoted pair.refreshToken),
    ("refresh_expires_in", decimalText pair.refreshExpiresIn.toNat)]))

/-- `apiService_TransportStatusText`. -/
def transportStatusText (status : UInt8) : Bytes :=
  match status.toNat with
  | 0 => ascii "ok"
  | 1 => ascii "dns_error"
  | 2 => ascii "connect_error"
  | 3 => ascii "config_error"
  | 4 => ascii "certificate_error"
  | 5 => ascii "handshake_error"
  | 6 => ascii "io_error"
  | 7 => ascii "protocol_error"
  | _ => ascii "unknown"

/-! ## Long texts -/

/-- One `snprintf` at the end of a text in an array of `capacity` characters, followed by the
check that it fitted. -/
def append (capacity : ℕ) (piece : Bytes) (used : Bytes) : Option Bytes :=
  if piece.length ≥ capacity - used.length then none else some (used ++ piece)

/-- The loop of `apiService_AppendJsonString`. -/
def appendCharacters (capacity : ℕ) : Bytes → Bytes → Option Bytes
  | [], used => some used
  | c :: value, used =>
    if c < 0x20 then none
    else if c = 0x22 ∨ c = 0x5C then
      if capacity - used.length ≤ 2 then none
      else appendCharacters capacity value (used ++ [0x5C, c])
    else if capacity - used.length ≤ 1 then none
    else appendCharacters capacity value (used ++ [c])

/-- `apiService_AppendJsonString`. -/
def appendJsonString (capacity : ℕ) (value used : Bytes) : Option Bytes :=
  if used.length ≥ capacity then none else appendCharacters capacity value used

/-- A loop that appends one piece for each element. -/
def appendAll {α : Type} (f : ℕ → α → Bytes → Option Bytes) (items : List α) (used : Bytes) :
    Option Bytes :=
  items.zipIdx.foldlM (fun used (item, index) => f index item used) used

/-- The unchecked `snprintf` behind such a loop, and the response. -/
def respondList (capacity : ℕ) (closing : String) : Option Bytes → Response
  | none => responseTooLarge
  | some used =>
    respond 200 "OK" (used ++ formatted (capacity - used.length) (ascii closing))

end HealthCheck.ApiService
