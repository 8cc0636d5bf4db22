import HealthCheck.Api.Json
import HealthCheck.Api.Request
import HealthCheck.Api.Response
import HealthCheck.BuzzerService
import HealthCheck.CallbackConfig
import HealthCheck.Ds18b20
import HealthCheck.HealthCheckConfig
import HealthCheck.HealthCheckLog
import HealthCheck.Rtc

/-!
# Dispatching a request

`apiService_Dispatch` compares method and path with one route after the other. Two routes issue
tokens and one reports the health of the device; every other route is behind the check of the
bearer token, and every route that changes something is behind a check of the role as well.

`Ram` holds the variables of the components the routes reach, `Env` what they are told by the
rest of the system: ticks, random numbers, the results of Mbed TLS, the sensors and the clock.
The body of a request is the bytes behind its pointer; as a text it ends at the first NUL.
-/

namespace HealthCheck.ApiService

open Nor hiding read driven_read read_ok read_cases
open CString

/-! ## The system around a request -/

/-- What the routes are told. `authorizedAt`, `now` and `issuedAt` are the ticks read by
`AuthService_Authorize`, by the function a route calls, and once more when a pair is issued. -/
structure Env where
  version : Bytes
  buildDate : Bytes
  networkReady : Bool
  flashAvailable : Bool
  measurements : List Ds18b20.Measurement
  rtcSynchronized : Bool
  unixTime : UInt32
  dateTime : Rtc.DateTime
  sha256 : AuthService.Sha256
  derive : AuthService.Derive
  draws : AuthService.Draws
  salt : Option (Vector UInt8 16)
  authorizedAt : UInt32
  now : UInt32
  issuedAt : UInt32
  anchor : TlsTrustStore.MbedResults
  credentials : TlsServerCredentials.MbedResults

/-- The variables of the components. -/
structure Ram where
  auth : AuthService.Ram
  trust : TlsTrustStore.Ram
  health : HealthCheckConfig.Ram
  callback : CallbackConfig.Ram
  credentials : TlsServerCredentials.Ram
  buzzer : BuzzerService.Ram
  log : HealthCheckLog.Ram

/-- What a route does: a response, and the variables it leaves. -/
abbrev Route := FlashM (Response × Ram)

/-- `strcmp(request->method, method) == 0 && strcmp(request->path, path) == 0`. -/
def Request.is (request : Request) (method path : String) : Bool :=
  request.method = ascii method && request.path = ascii path

/-- `strcmp(request->method, method) == 0 && strncmp(request->path, path, strlen(path)) == 0`. -/
def Request.under (request : Request) (method path : String) : Bool :=
  request.method = ascii method && (ascii path).isPrefixOf request.path

/-- `request->path + strlen(path)`. -/
def Request.behind (request : Request) (path : String) : Bytes :=
  request.path.drop (ascii path).length

/-- `if (principal.role != USER_ROLE_ADMINISTRATOR) return apiService_Error(…)`. -/
def administrator (principal : AuthService.Principal) (ram : Ram) (route : Route) : Route :=
  if principal.role ≠ UserStore.roleAdministrator then pure (forbidden, ram) else route

/-- A member that may be missing: `apiService_JsonHasKey` without its extractor is an error. -/
def member {α : Type} (json key : Bytes) (old : α) (extracted : Option α) : Option α :=
  if jsonHasKey json key then extracted else some old

/-- `trustAnchor > TLS_TRUST_STORE_MAX_PERSISTED || TlsTrustStore_Exists(trustAnchor) == 0U`. -/
def unknownAnchor (id : ℕ) (ram : Ram) : Bool :=
  id > TlsTrustStore.maxPersisted || !TlsTrustStore.anchorExists id ram.trust

/-! ## Health and tokens -/

/-- `GET` and `HEAD /health`. -/
def health (env : Env) (request : Request) : Response :=
  let temperatureHealthy := env.measurements ≠ [] ∧ ∀ m ∈ env.measurements, m.status = .ok
  let healthy := env.networkReady && env.rtcSynchronized && env.flashAvailable
  let json := object [
    ("status", quoted (if healthy then ascii "ok" else ascii "failed")),
    ("version", quoted env.version),
    ("build_date", quoted env.buildDate),
    ("systems", object [
      ("api", boolText true),
      ("network", boolText env.networkReady),
      ("rtc", boolText env.rtcSynchronized),
      ("flash", boolText env.flashAvailable),
      ("temperature", boolText temperatureHealthy)])]
  { respond (if healthy then 200 else 503) (if healthy then "OK" else "Service Unavailable")
      (formatted 256 json) with
    headOnly := request.method = ascii "HEAD" }

/-- A pair that was issued, or the refusal. -/
def issued (code : String) : AuthService.AuthStatus × Option AuthService.TokenPair → Response
  | (.ok, some pair) => tokens pair
  | _ => error 401 "Unauthorized" code

/-- `POST /api/v1/auth/token`. -/
def postToken (env : Env) (json : Bytes) (ram : Ram) : Response × Ram :=
  match jsonString json (ascii "username") UserStore.usernameSize,
    jsonString json (ascii "password") 129 with
  | some username, some password =>
    let (status, pair, auth) :=
      AuthService.login env.sha256 env.derive username password env.draws env.now ram.auth
    (issued "invalid_credentials" (status, pair), { ram with auth := auth })
  | _, _ => (badRequest "invalid_request", ram)

/-- `POST /api/v1/auth/refresh`. -/
def postRefresh (env : Env) (json : Bytes) (ram : Ram) : Response × Ram :=
  match jsonString json (ascii "refresh_token") AuthService.tokenTextSize with
  | none => (badRequest "invalid_request", ram)
  | some refreshToken =>
    let (status, pair, auth) :=
      AuthService.refresh env.sha256 refreshToken env.draws env.now env.issuedAt ram.auth
    (issued "invalid_refresh_token" (status, pair), { ram with auth := auth })

/-- `POST /api/v1/auth/revoke`. -/
def postRevoke (env : Env) (request : Request) (ram : Ram) : Response × Ram :=
  let (status, auth) := AuthService.revoke env.sha256 request.authorization env.now ram.auth
  (if status ≠ .ok then error 401 "Unauthorized" "invalid_access_token"
    else respond 200 "OK" (object [("revoked", boolText true)]), { ram with auth := auth })

/-! ## The buzzer -/

def buzzerUnavailable : Response := error 503 "Service Unavailable" "buzzer_unavailable"

/-- `POST /api/v1/buzzer/test`. -/
def postBuzzerTest (json : Bytes) (ram : Ram) : Response × Ram :=
  match jsonString json (ascii "pattern") 24 with
  | none => (badRequest "invalid_pattern", ram)
  | some pattern =>
    if pattern = ascii "alert" then
      let (done, buzzer) := BuzzerService.alert ram.buzzer
      (if !done then buzzerUnavailable
        else respond 202 "Accepted" (object [
          ("scheduled", boolText true), ("pattern", quoted (ascii "alert"))]),
        { ram with buzzer := buzzer })
    else if pattern = ascii "certificate_expiry" then
      match jsonNumber json (ascii "resource_index") with
      | none => (badRequest "invalid_resource_index", ram)
      | some index =>
        if index ≥ HealthCheckConfig.maxResources then (badRequest "invalid_resource_index", ram)
        else
          let (done, buzzer) := BuzzerService.certificateExpiryWarning index ram.buzzer
          (if !done then buzzerUnavailable
            else respond 202 "Accepted" (formatted 96 (object [
              ("scheduled", boolText true), ("pattern", quoted (ascii "certificate_expiry")),
              ("resource_index", decimalText index)])),
            { ram with buzzer := buzzer })
    else (badRequest "invalid_pattern", ram)

/-! ## Users -/

/-- `record.role == USER_ROLE_ADMINISTRATOR ? "administrator" : "user"`. -/
def roleText (role : UInt8) : Bytes :=
  if role = UserStore.roleAdministrator then ascii "administrator" else ascii "user"

/-- One record of the list of users. -/
def userJson (username role : Bytes) (enabled : Bool) : Bytes :=
  object [("username", quoted username), ("role", quoted role), ("enabled", boolText enabled)]

/-- `GET /api/v1/users`. -/
def getUsers (principal : AuthService.Principal) (ram : Ram) : Response :=
  let capacity := responseSize - 192
  let opening := ascii "\x7b\"users\":[" ++
    userJson (ascii "master") (ascii "administrator") true
  respondList capacity "]\x7d" (appendAll (fun _ (r : UserStore.Record) =>
    append capacity (ascii "," ++ userJson r.name (roleText r.role) (r.enabled ≠ 0)))
    (AuthService.listUsers principal UserStore.maxUsers ram.auth) opening)

/-- What `POST` and `PUT` do once the account, its role and its state are known. -/
def saveUser (env : Env) (json : Bytes) (principal : AuthService.Principal)
    (username role : Bytes) (enabled : UInt8) (updating : Bool) (ram : Ram) : Route :=
  match jsonString json (ascii "password") 129 with
  | none => pure (badRequest "password_required", ram)
  | some password => do
    let role := (jsonString json (ascii "role") 20).getD role
    let enabled := match jsonBoolean json (ascii "enabled") with
      | some enabled => if enabled then 1 else 0
      | none => enabled
    let (status, auth) ← AuthService.putUser env.derive principal username password
      (if role = ascii "administrator" then UserStore.roleAdministrator else UserStore.roleUser)
      enabled (if updating then 1 else 0) env.salt ram.auth
    let response :=
      if status = .notFound then notFound "user_not_found"
      else if status ≠ .ok then badRequest "user_not_saved"
      else respond (if updating then 200 else 201) (if updating then "OK" else "Created")
        (formatted 96 (object [("username", quoted username)]))
    pure (response, { ram with auth := auth })

/-- `POST /api/v1/users`. -/
def postUser (env : Env) (json : Bytes) (principal : AuthService.Principal) (ram : Ram) : Route :=
  match jsonString json (ascii "username") UserStore.usernameSize with
  | none => pure (badRequest "invalid_request", ram)
  | some username => saveUser env json principal username (ascii "user") 1 false ram

/-- The username a path names: `strncpy` into an array of `USER_STORE_USERNAME_SIZE`. -/
def pathUsername (text : Bytes) : Bytes := text.take (UserStore.usernameSize - 1)

/-- `PUT /api/v1/users/…`. -/
def putUser (env : Env) (json name : Bytes) (principal : AuthService.Principal) (ram : Ram) :
    Route :=
  let username := pathUsername name
  match UserStore.find username ram.auth.users with
  | none => pure (notFound "user_not_found", ram)
  | some (existing, _) =>
    saveUser env json principal username (roleText existing.role) existing.enabled true ram

/-- `DELETE /api/v1/users/…`. -/
def deleteUser (name : Bytes) (principal : AuthService.Principal) (ram : Ram) : Route := do
  let username := pathUsername name
  let (status, auth) ← AuthService.deleteUser principal username ram.auth
  let response :=
    if status = .notFound then notFound "user_not_found"
    else if status = .forbidden then forbidden
    else if status ≠ .ok then storageError
    else respond 200 "OK" (formatted 64 (object [
      ("username", quoted username), ("deleted", boolText true)]))
  pure (response, { ram with auth := auth })

/-! ## Server credentials -/

/-- `PUT /api/v1/tls/certificate`. -/
def putCertificate (env : Env) (body : Bytes) (ram : Ram) : Route :=
  if body.length = 0 then pure (badRequest "invalid_certificate_body", ram)
  else do
    let (status, credentials) ←
      TlsServerCredentials.stageCertificate body env.credentials ram.credentials
    pure (tlsCredentialsRespond status "private_key" "invalid_certificate",
      { ram with credentials := credentials })

/-- `PUT /api/v1/tls/private-key`. -/
def putPrivateKey (env : Env) (body : Bytes) (ram : Ram) : Route :=
  if body.length = 0 then pure (badRequest "invalid_private_key_body", ram)
  else do
    let (status, credentials) ←
      TlsServerCredentials.stagePrivateKey body env.credentials ram.credentials
    pure (tlsCredentialsRespond status "certificate" "invalid_private_key",
      { ram with credentials := credentials })

/-! ## Trust anchors -/

/-- `GET /api/v1/trust-anchors`. -/
def getTrustAnchors (ram : Ram) : Response :=
  let capacity := responseSize - 192
  respondList capacity "]\x7d" (appendAll (fun index (anchor : TlsTrustStore.Info) used => do
    let used ← append capacity ((if index = 0 then [] else ascii ",") ++ ascii "\x7b" ++
      members [("id", decimalText anchor.id), ("factory", boolText false),
        ("der_length", decimalText anchor.derLength.toNat)] ++ ascii ",\"subject\":\"") used
    let used ← appendJsonString capacity anchor.subject used
    append capacity (ascii "\"\x7d") used)
    (TlsTrustStore.list TlsTrustStore.maxAnchors ram.trust) (ascii "\x7b\"trust_anchors\":["))

/-- `POST /api/v1/trust-anchors`. -/
def postTrustAnchor (env : Env) (body : Bytes) (ram : Ram) : Route := do
  let ((status, assignedId), trust) ← TlsTrustStore.add body env.anchor ram.trust
  pure (if status ≠ .ok then trustStoreError status
    else respond 201 "Created" (formatted 48 (object [
      ("id", decimalText (assignedId.getD 0))])), { ram with trust := trust })

def trustAnchorInUse : Response := error 409 "Conflict" "trust_anchor_in_use"

/-- `HealthCheckConfig_IsTrustAnchorInUse(id) || CallbackConfig_IsTrustAnchorInUse(id)`. -/
def isTrustAnchorInUse (id : ℕ) (ram : Ram) : Bool :=
  HealthCheckConfig.isTrustAnchorInUse (UInt8.ofNat id) ram.health ||
    CallbackConfig.isTrustAnchorInUse (UInt8.ofNat id) ram.callback

/-- `DELETE /api/v1/trust-anchors`. -/
def deleteTrustAnchors (ram : Ram) : Route :=
  if (List.range (TlsTrustStore.maxPersisted + 1)).any (isTrustAnchorInUse · ram) then
    pure (trustAnchorInUse, ram)
  else do
    let (status, trust) ← TlsTrustStore.reset ram.trust
    pure (if status ≠ .ok then trustStoreError status
      else respond 200 "OK" (object [("trust_anchors_cleared", boolText true)]),
      { ram with trust := trust })

/-- `DELETE /api/v1/trust-anchors/…` for the number in the path. -/
def deleteTrustAnchor (id : ℕ) (ram : Ram) : Route :=
  if isTrustAnchorInUse id ram then pure (trustAnchorInUse, ram)
  else do
    let (status, trust) ← TlsTrustStore.delete id ram.trust
    pure (if status ≠ .ok then trustStoreError status
      else respond 200 "OK" (formatted 48 (object [
        ("id", decimalText id), ("deleted", boolText true)])), { ram with trust := trust })

/-- `PUT /api/v1/trust-anchors/…` for the number in the path. -/
def putTrustAnchor (env : Env) (body : Bytes) (id : ℕ) (ram : Ram) : Route := do
  let (status, trust) ← TlsTrustStore.replace id body env.anchor ram.trust
  pure (if status ≠ .ok then trustStoreError status
    else respond 200 "OK" (formatted 48 (object [
      ("id", decimalText id), ("replaced", boolText true)])), { ram with trust := trust })

/-- The number a path ends in: `strtol` has to take all of it, and the result has to be at
most `maximum`. -/
def pathNumber (maximum : ℕ) (text : Bytes) : Option ℕ :=
  match strtol text with
  | none => none
  | some (value, rest) =>
    if rest ≠ [] ∨ value < 0 ∨ value > maximum then none else some value.toNat

/-! ## The callback configuration -/

/-- `config.method == CALLBACK_METHOD_POST ? "POST" : "GET"`. -/
def methodText (method : UInt8) : Bytes :=
  if method = CallbackConfig.methodPost then ascii "POST" else ascii "GET"

/-- `GET /api/v1/callback/config`. -/
def getCallbackConfig (ram : Ram) : Response :=
  let config := CallbackConfig.get ram.callback
  respond 200 "OK" (formatted 320 (object [
    ("enabled", boolText (config.enabled ≠ 0)),
    ("method", quoted (methodText config.method)),
    ("host", quoted (cstr config.host.toList)),
    ("port", decimalText config.port.toNat),
    ("path", quoted (cstr config.path.toList)),
    ("trust_anchor_id", decimalText config.trustAnchorId.toNat)]))

/-- A text that an extractor has stored in an array: its NUL comes with it, and what lies behind
stays. -/
def overwritten {n : ℕ} (array : Vector UInt8 n) (text : Bytes) : Vector UInt8 n :=
  .ofFn fun i => (text ++ [0]).getD i (array.get i)

/-- An array member that may be missing. -/
def arrayMember {n : ℕ} (json key : Bytes) (array : Vector UInt8 n) : Option (Vector UInt8 n) :=
  member json key array ((jsonString json key n).map (overwritten array))

/-- The members `PUT /api/v1/callback/config` reads, each kept when it is missing: `enabled`,
`method`, `host`, `path`, `port` and `trust_anchor_id`. -/
def callbackMembers (json : Bytes) (config : CallbackConfig.Config) :
    Option (UInt8 × Bytes × Vector UInt8 CallbackConfig.hostSize ×
      Vector UInt8 CallbackConfig.pathSize × ℕ × ℕ) := do
  let enabled ← member json (ascii "enabled") config.enabled
    ((jsonBoolean json (ascii "enabled")).map fun enabled => if enabled then 1 else 0)
  let method ← member json (ascii "method") (methodText config.method)
    (jsonString json (ascii "method") 8)
  let host ← arrayMember json (ascii "host") config.host
  let path ← arrayMember json (ascii "path") config.path
  let port ← member json (ascii "port") config.port.toNat (jsonNumber json (ascii "port"))
  let trustAnchor ← member json (ascii "trust_anchor_id") config.trustAnchorId.toNat
    (jsonNumber json (ascii "trust_anchor_id"))
  pure (enabled, method, host, path, port, trustAnchor)

/-- `PUT /api/v1/callback/config`. -/
def putCallbackConfig (json : Bytes) (ram : Ram) : Route :=
  let config := CallbackConfig.get ram.callback
  match callbackMembers json config with
  | none => pure (badRequest "invalid_request", ram)
  | some (enabled, method, host, path, port, trustAnchor) =>
    if method ≠ ascii "GET" ∧ method ≠ ascii "POST" then
      pure (badRequest "invalid_method", ram)
    else if port = 0 ∨ port > 65535 then pure (badRequest "invalid_port", ram)
    else if unknownAnchor trustAnchor ram then pure (badRequest "invalid_trust_anchor", ram)
    else do
      let (status, callback) ← CallbackConfig.set { config with
        enabled := enabled
        method := if method = ascii "POST" then CallbackConfig.methodPost
          else CallbackConfig.methodGet
        port := UInt16.ofNat port
        trustAnchorId := UInt8.ofNat trustAnchor
        host := host
        path := path } ram.callback
      pure (if status ≠ .ok then badRequest "invalid_request"
        else respond 200 "OK" (object [("updated", boolText true)]),
        { ram with callback := callback })

/-! ## The health-check configuration -/

/-- One resource of a response. -/
def resourceJson (index : ℕ) (host : Bytes) (port : ℕ) (path : Bytes) (enabled : Bool)
    (trustAnchor : ℕ) : Bytes :=
  object [("index", decimalText index), ("host", quoted host), ("port", decimalText port),
    ("path", quoted path), ("enabled", boolText enabled),
    ("trust_anchor_id", decimalText trustAnchor)]

/-- `GET /api/v1/health-check/config`. -/
def getHealthCheckConfig (ram : Ram) : Response :=
  let capacity := responseSize - 192
  let resources := (HealthCheckConfig.getResources ram.health).toList.zipIdx.filter
    fun (r, _) => r.occupied ≠ 0
  let opening := ascii "\x7b\"period_seconds\":" ++
    decimalText (HealthCheckConfig.getPeriodSeconds ram.health).toNat ++ ascii ",\"resources\":["
  respondList capacity "]\x7d" (appendAll (fun position (r, index) =>
    append capacity ((if position = 0 then [] else ascii ",") ++ resourceJson index
      (cstr r.host.toList) r.port.toNat (cstr r.path.toList) (r.enabled ≠ 0)
      r.trustAnchorId.toNat)) resources opening)

/-- `PUT /api/v1/health-check/config`. -/
def putHealthCheckConfig (json : Bytes) (ram : Ram) : Route :=
  match jsonNumber json (ascii "period_seconds") with
  | none => pure (badRequest "invalid_request", ram)
  | some period => do
    let (status, health) ←
      HealthCheckConfig.setPeriodSeconds (UInt32.ofNat period) ram.health
    pure (if status = .invalidArgument then badRequest "invalid_period"
      else if status ≠ .ok then storageError
      else respond 200 "OK" (formatted 48 (object [("period_seconds", decimalText period)])),
      { ram with health := health })

/-- `POST /api/v1/health-check/resources`. -/
def postResource (json : Bytes) (ram : Ram) : Route :=
  match jsonString json (ascii "host") HealthCheckConfig.hostSize,
    jsonString json (ascii "path") HealthCheckConfig.pathSize,
    jsonNumber json (ascii "port") with
  | some host, some path, some port =>
    let enabled := (jsonBoolean json (ascii "enabled")).getD true
    let trustAnchor := (jsonNumber json (ascii "trust_anchor_id")).getD 0
    if port = 0 ∨ port > 65535 then pure (badRequest "invalid_port", ram)
    else if unknownAnchor trustAnchor ram then pure (badRequest "invalid_trust_anchor", ram)
    else do
      let ((status, assignedIndex), health) ← HealthCheckConfig.addResource host
        (UInt16.ofNat port) path enabled (UInt8.ofNat trustAnchor) ram.health
      pure (if status = .full then error 409 "Conflict" "resource_limit_reached"
        else if status ≠ .ok then badRequest "invalid_request"
        else respond 201 "Created" (formatted 256
          (resourceJson (assignedIndex.getD 0) host port path enabled trustAnchor)),
        { ram with health := health })
  | _, _, _ => pure (badRequest "invalid_request", ram)

/-- `DELETE /api/v1/health-check/resources/…` for the number in the path. -/
def deleteResource (index : ℕ) (ram : Ram) : Route := do
  let (status, health) ← HealthCheckConfig.deleteResource index ram.health
  pure (if status = .notFound then notFound "resource_not_found"
    else if status ≠ .ok then storageError
    else respond 200 "OK" (formatted 48 (object [
      ("index", decimalText index), ("deleted", boolText true)])),
    { ram with health := health })

/-- The members `PUT /api/v1/health-check/resources/…` reads, each kept when it is missing:
`host`, `path`, `port`, `enabled` and `trust_anchor_id`. -/
def resourceMembers (json : Bytes) (resource : HealthCheckConfig.Resource) :
    Option (Bytes × Bytes × ℕ × Bool × ℕ) := do
  let host ← member json (ascii "host")
    ((cstr resource.host.toList).take (HealthCheckConfig.hostSize - 1))
    (jsonString json (ascii "host") HealthCheckConfig.hostSize)
  let path ← member json (ascii "path")
    ((cstr resource.path.toList).take (HealthCheckConfig.pathSize - 1))
    (jsonString json (ascii "path") HealthCheckConfig.pathSize)
  let port ← member json (ascii "port") resource.port.toNat (jsonNumber json (ascii "port"))
  let enabled ← member json (ascii "enabled") (decide (resource.enabled ≠ 0))
    (jsonBoolean json (ascii "enabled"))
  let trustAnchor ← member json (ascii "trust_anchor_id") resource.trustAnchorId.toNat
    (jsonNumber json (ascii "trust_anchor_id"))
  pure (host, path, port, enabled, trustAnchor)

/-- `PUT /api/v1/health-check/resources/…` for the number in the path. -/
def putResource (json : Bytes) (index : ℕ) (ram : Ram) : Route :=
  let resource := (HealthCheckConfig.getResources ram.health).getD index
    HealthCheckConfig.zeroResource
  if resource.occupied = 0 then pure (notFound "resource_not_found", ram)
  else
    match resourceMembers json resource with
    | none => pure (badRequest "invalid_request", ram)
    | some (host, path, port, enabled, trustAnchor) =>
      if port = 0 ∨ port > 65535 then pure (badRequest "invalid_port", ram)
      else if unknownAnchor trustAnchor ram then pure (badRequest "invalid_trust_anchor", ram)
      else do
        let (status, health) ← HealthCheckConfig.updateResource index host (UInt16.ofNat port)
          path enabled (UInt8.ofNat trustAnchor) ram.health
        pure (if status = .notFound then notFound "resource_not_found"
          else if status ≠ .ok then badRequest "invalid_request"
          else respond 200 "OK" (formatted 256
            (resourceJson index host port path enabled trustAnchor)),
          { ram with health := health })

/-! ## Logs, temperature and clock -/

/-- One entry of the list of logs. -/
def entryJson (entry : HealthCheckLog.Entry) : Bytes :=
  object [("sequence", decimalText entry.sequence.toNat),
    ("timestamp", decimalText entry.timestampUnix.toNat),
    ("resource_index", decimalText entry.resourceIndex.toNat),
    ("status", quoted (transportStatusText entry.status)),
    ("http_status", decimalText entry.httpStatus.toNat),
    ("elapsed_ms", decimalText entry.elapsedMs.toNat),
    ("detail", signedText entry.detail.toBitVec.toInt)]

/-- `HEALTH_CHECK_LOG_MAX_RESULTS`. -/
def maxLogResults : ℕ := 50

/-- `API_SERVICE_LOGS_JSON_SIZE`. -/
def logsJsonSize : ℕ := maxLogResults * 164 + 16

/-- `GET /api/v1/health-check/logs`. -/
def getLogs (ram : Ram) : Route := do
  let entries ← HealthCheckLog.getRecent maxLogResults ram.log
  let list := appendAll (fun index entry => append logsJsonSize
    ((if index = 0 then [] else ascii ",") ++ entryJson entry)) entries (ascii "\x7b\"logs\":[")
  pure ({ respondList logsJsonSize "]\x7d" list with buffered := list.isSome }, ram)

/-- `apiService_Ds18b20StatusText`. -/
def ds18b20StatusText : Ds18b20.Ds18b20Status → Bytes
  | .ok => ascii "ok"
  | .bus => ascii "bus_error"
  | .timeout => ascii "timeout"
  | .crc => ascii "crc_error"

/-- One sensor of the list of temperatures. -/
def sensorJson (m : Ds18b20.Measurement) : Bytes :=
  let rom := ("rom", quoted (AuthService.hex m.rom.toList))
  let status := ("status", quoted (ds18b20StatusText m.status))
  if m.status = .ok then
    object [rom, ("temperature_centi_degrees", signedText m.temperatureCentiDegrees.toInt), status]
  else object [rom, status]

/-- `GET /api/v1/temperature`. -/
def getTemperature (env : Env) : Response :=
  let capacity := responseSize - 192
  respondList capacity "]\x7d" (appendAll (fun index m => append capacity
    ((if index = 0 then [] else ascii ",") ++ sensorJson m)) env.measurements
    (ascii "\x7b\"sensors\":["))

/-- `GET /api/v1/rtc`. -/
def getRtc (env : Env) : Response :=
  let unixTime := if env.rtcSynchronized then env.unixTime else 0
  let t : Rtc.DateTime := if env.rtcSynchronized then env.dateTime else ⟨0, 0, 0, 0, 0, 0⟩
  respond 200 "OK" (formatted 196 (object [
    ("unix_time", decimalText unixTime.toNat),
    ("synchronized", boolText env.rtcSynchronized),
    ("date_time", object [("year", decimalText t.year.toNat),
      ("month", decimalText t.month.toNat), ("day", decimalText t.day.toNat),
      ("hour", decimalText t.hour.toNat), ("minute", decimalText t.minute.toNat),
      ("second", decimalText t.second.toNat)])]))

/-! ## The routes -/

/-- `apiService_Authorize`. -/
def authorize (env : Env) (request : Request) (ram : Ram) : Option AuthService.Principal :=
  match AuthService.authorize env.sha256 request.authorization env.authorizedAt
      ram.auth.sessions with
  | (.ok, principal) => principal
  | _ => none

/-- `apiService_Dispatch` behind the check of the bearer token. -/
def authorized (env : Env) (request : Request) (body : Bytes)
    (principal : AuthService.Principal) (ram : Ram) : Route :=
  let json := cstr body
  let admin := administrator principal ram
  if request.is "POST" "/api/v1/auth/revoke" then pure (postRevoke env request ram)
  else if request.is "POST" "/api/v1/buzzer/test" then admin (pure (postBuzzerTest json ram))
  else if request.is "GET" "/api/v1/users" then admin (pure (getUsers principal ram, ram))
  else if request.is "POST" "/api/v1/users" then admin (postUser env json principal ram)
  else if request.under "PUT" "/api/v1/users/" then
    admin (putUser env json (request.behind "/api/v1/users/") principal ram)
  else if request.under "DELETE" "/api/v1/users/" then
    admin (deleteUser (request.behind "/api/v1/users/") principal ram)
  else if request.is "PUT" "/api/v1/tls/certificate" then admin (putCertificate env body ram)
  else if request.is "PUT" "/api/v1/tls/private-key" then admin (putPrivateKey env body ram)
  else if request.is "GET" "/api/v1/trust-anchors" then pure (getTrustAnchors ram, ram)
  else if request.is "POST" "/api/v1/trust-anchors" then admin (postTrustAnchor env body ram)
  else if request.is "DELETE" "/api/v1/trust-anchors" then admin (deleteTrustAnchors ram)
  else if request.under "PUT" "/api/v1/trust-anchors/" ∨
      request.under "DELETE" "/api/v1/trust-anchors/" then
    admin (match pathNumber TlsTrustStore.maxPersisted
        (request.behind "/api/v1/trust-anchors/") with
      | none => pure (notFound "trust_anchor_not_found", ram)
      | some id =>
        if request.method = ascii "DELETE" then deleteTrustAnchor id ram
        else putTrustAnchor env body id ram)
  else if request.is "GET" "/api/v1/callback/config" then pure (getCallbackConfig ram, ram)
  else if request.is "PUT" "/api/v1/callback/config" then admin (putCallbackConfig json ram)
  else if request.is "GET" "/api/v1/health-check/config" then
    pure (getHealthCheckConfig ram, ram)
  else if request.is "PUT" "/api/v1/health-check/config" then
    admin (putHealthCheckConfig json ram)
  else if request.is "POST" "/api/v1/health-check/resources" then admin (postResource json ram)
  else if request.under "PUT" "/api/v1/health-check/resources/" ∨
      request.under "DELETE" "/api/v1/health-check/resources/" then
    admin (match pathNumber (HealthCheckConfig.maxResources - 1)
        (request.behind "/api/v1/health-check/resources/") with
      | none => pure (notFound "resource_not_found", ram)
      | some index =>
        if request.method = ascii "DELETE" then deleteResource index ram
        else putResource json index ram)
  else if request.is "GET" "/api/v1/health-check/logs" then getLogs ram
  else if request.is "GET" "/api/v1/temperature" then pure (getTemperature env, ram)
  else if request.is "GET" "/api/v1/rtc" then pure (getRtc env, ram)
  else pure (notFound "not_found", ram)

def invalidAccessToken : Response := error 401 "Unauthorized" "invalid_access_token"

/-- `apiService_Dispatch`, on the request and the bytes of its body. -/
def dispatch (env : Env) (request : Request) (body : Bytes) (ram : Ram) : Route :=
  if request.is "GET" "/health" ∨ request.is "HEAD" "/health" then
    pure (health env request, ram)
  else if request.is "POST" "/api/v1/auth/token" then pure (postToken env (cstr body) ram)
  else if request.is "POST" "/api/v1/auth/refresh" then pure (postRefresh env (cstr body) ram)
  else
    match authorize env request ram with
    | none => pure (invalidAccessToken, ram)
    | some principal => authorized env request body principal ram

end HealthCheck.ApiService
