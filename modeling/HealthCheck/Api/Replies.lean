import HealthCheck.Api.StateReports
import HealthCheck.Lib.HttpResponse

/-!
# Responses with one object

Errors, tokens, the health and the clock are printed into arrays of their own, and what `snprintf`
returns is never looked at. The arrays are large enough. A response with a whole object behind a
known status line is taken apart again by a reader of HTTP.

* `formatted_complete` — an object that fits its array is a body.
* `error_complete`, `health_complete`, `getRtc_complete`, `tokens_complete` — the bodies.
* `Response.Complete.read_full` — a complete response is read back.
-/

namespace HealthCheck.ApiService

open Nor hiding read driven_read read_ok read_cases
open CString
open JsonText (Json Spells spells_number spells_integer integerText)

/-! ## Objects of fixed members -/

/-- Members that an object can be spelled from. -/
def Spelled (fields : List (String × Bytes × Json)) : Prop :=
  ∀ f ∈ fields, f.1 ∈ memberNames ∧ Spells f.2.1 f.2.2

theorem Spelled.nil : Spelled [] := fun _ hf => absurd hf List.not_mem_nil

theorem Spelled.cons {name : String} {text : Bytes} {value : Json}
    {fields : List (String × Bytes × Json)} (hname : name ∈ memberNames)
    (htext : Spells text value) (h : Spelled fields) : Spelled ((name, text, value) :: fields) :=
  List.forall_mem_cons.2 ⟨⟨hname, htext⟩, h⟩

/-- How long their object is. -/
def spelledLength (fields : List (String × Bytes × Json)) : ℕ :=
  objectLength (fields.map fun f => ((ascii f.1).length, f.2.1.length))

section Objects

variable {status n : ℕ} {reason : String} (fields : List (String × Bytes × Json))

theorem length_spelled (hne : fields ≠ []) :
    (object (fields.map fun f => (f.1, f.2.1))).length = spelledLength fields := by
  rw [length_object (by simpa using hne), List.map_map]
  rfl

theorem object_complete (hline : (status, ascii reason) ∈ statusLines) (hne : fields ≠ [])
    (hfields : Spelled fields) (hshort : spelledLength fields < responseSize - 192) :
    (respond status reason (object (fields.map fun f => (f.1, f.2.1)))).Complete false :=
  respond_complete hline (spells_object fields hfields) (by rwa [length_spelled fields hne])

/-- **An object that fits its array** is a body. -/
theorem formatted_complete (hline : (status, ascii reason) ∈ statusLines) (hne : fields ≠ [])
    (hfields : Spelled fields) (hshort : spelledLength fields < n) (hn : n ≤ responseSize - 192) :
    (respond status reason (formatted n (object (fields.map fun f => (f.1, f.2.1))))).Complete false := by
  rw [formatted_eq (by rwa [length_spelled fields hne])]
  exact object_complete fields hline hne hfields (by omega)

end Objects

/-! ## Errors -/

/-- Every code of an error. -/
def errorCodes : List String :=
  ["invalid_credentials", "invalid_refresh_token", "invalid_access_token", "invalid_request",
    "invalid_pattern", "invalid_resource_index", "buzzer_unavailable", "password_required",
    "user_not_found", "user_not_saved", "storage_error", "forbidden", "invalid_certificate_body",
    "invalid_private_key_body", "key_mismatch", "invalid_certificate", "invalid_private_key",
    "tls_memory_exhausted", "certificate_not_ca", "trust_anchor_not_found",
    "trust_anchor_limit_reached", "trust_anchor_in_use", "invalid_method", "invalid_port",
    "invalid_trust_anchor", "invalid_period", "resource_limit_reached", "resource_not_found",
    "response_too_large", "not_found"]

theorem errorCodes_spec : ∀ code ∈ errorCodes, JsonText.Plain (ascii code) ∧
    (ascii code).length ≤ 26 := by
  decide

theorem error_complete {status : ℕ} {reason code : String}
    (hline : (status, ascii reason) ∈ statusLines) (hcode : code ∈ errorCodes) :
    (error status reason code).Complete false := by
  obtain ⟨hplain, hlength⟩ := errorCodes_spec code hcode
  have hname : (ascii "error").length = 5 := rfl
  refine formatted_complete [("error", quoted (ascii code), .string (ascii code))]
    hline (by simp) (.cons (by simp [memberNames]) (spells_quoted hplain) .nil) ?_ (by decide)
  simp only [spelledLength, objectLength, List.map_cons, List.map_nil, List.sum_cons,
    List.sum_nil, hname, length_quoted]
  omega

theorem badRequest_complete {code : String} (h : code ∈ errorCodes) : (badRequest code).Complete false :=
  error_complete (by decide) h

theorem notFound_complete {code : String} (h : code ∈ errorCodes) : (notFound code).Complete false :=
  error_complete (by decide) h

theorem unauthorized_complete {code : String} (h : code ∈ errorCodes) :
    (error 401 "Unauthorized" code).Complete false := error_complete (by decide) h

theorem conflict_complete {code : String} (h : code ∈ errorCodes) :
    (error 409 "Conflict" code).Complete false := error_complete (by decide) h

theorem unavailable_complete {code : String} (h : code ∈ errorCodes) :
    (error 503 "Service Unavailable" code).Complete false := error_complete (by decide) h

theorem forbidden_complete : forbidden.Complete false :=
  error_complete (by decide) (by simp [errorCodes])

theorem storageError_complete : storageError.Complete false :=
  error_complete (by decide) (by simp [errorCodes])

theorem responseTooLarge_complete : responseTooLarge.Complete false :=
  error_complete (by decide) (by simp [errorCodes])

theorem trustStoreError_complete (status : TlsTrustStore.TrustStatus) :
    (trustStoreError status).Complete false := by
  unfold trustStoreError
  split
  · exact badRequest_complete (by simp [errorCodes])
  · exact badRequest_complete (by simp [errorCodes])
  · exact unavailable_complete (by simp [errorCodes])
  · exact badRequest_complete (by simp [errorCodes])
  · exact notFound_complete (by simp [errorCodes])
  · exact conflict_complete (by simp [errorCodes])
  · exact storageError_complete

theorem created_mem : (201, ascii "Created") ∈ statusLines := by decide

theorem accepted_mem : (202, ascii "Accepted") ∈ statusLines := by decide

theorem plain_words : ∀ word ∈ ["ok", "failed", "activated", "pending", "private_key",
    "certificate", "Bearer", "alert", "certificate_expiry", "bus_error", "timeout", "crc_error"],
    JsonText.Plain (ascii word) ∧ (ascii word).length ≤ 18 := by
  decide

theorem tlsCredentialsRespond_complete (status : TlsServerCredentials.CredentialsStatus)
    {awaiting invalidError : String} (hawaiting : awaiting = "private_key" ∨ awaiting = "certificate")
    (hinvalid : invalidError ∈ errorCodes) :
    (tlsCredentialsRespond status awaiting invalidError).Complete false := by
  have hstatus : (ascii "status").length = 6 := rfl
  have hname : (ascii "awaiting").length = 8 := rfl
  obtain ⟨hplain, hlength⟩ := plain_words awaiting (by rcases hawaiting with rfl | rfl <;> simp)
  obtain ⟨hactivated, -⟩ := plain_words "activated" (by simp)
  obtain ⟨hpending, -⟩ := plain_words "pending" (by simp)
  have hactivatedLength : (ascii "activated").length = 9 := rfl
  have hpendingLength : (ascii "pending").length = 7 := rfl
  unfold tlsCredentialsRespond
  split
  · refine object_complete [("status", quoted (ascii "activated"), .string _)] ok_mem
      (by simp) (.cons (by simp [memberNames]) (spells_quoted hactivated) .nil) ?_
    simp only [spelledLength, objectLength, List.map_cons, List.map_nil, List.sum_cons,
      List.sum_nil, hstatus, length_quoted, hactivatedLength]
    decide
  · have hawaitingLength : (ascii awaiting).length ≤ 11 := by
      rcases hawaiting with rfl | rfl <;> decide
    refine formatted_complete [("status", quoted (ascii "pending"), .string _),
      ("awaiting", quoted (ascii awaiting), .string _)] accepted_mem (by simp)
      (.cons (by simp [memberNames]) (spells_quoted hpending)
        (.cons (by simp [memberNames]) (spells_quoted hplain) .nil)) ?_ (by decide)
    simp only [spelledLength, objectLength, List.map_cons, List.map_nil, List.sum_cons,
      List.sum_nil, hstatus, hname, length_quoted, hpendingLength]
    omega
  · exact conflict_complete (by simp [errorCodes])
  · exact badRequest_complete hinvalid
  · exact storageError_complete

/-! ## Bodies of one object -/

/-- What the rest of the system tells can be shown: the version and the date of the build leave
room for the members of the body, and the sensors are those of one bus. -/
structure Env.Shown (env : Env) : Prop where
  version : JsonText.Plain env.version
  buildDate : JsonText.Plain env.buildDate
  short : env.version.length + env.buildDate.length ≤ 120
  sensors : env.measurements.length ≤ 6

/-- The members of `systems` in the report of the health. -/
def systemsFields (env : Env) : List (String × Bytes × Json) :=
  let temperature := decide (env.measurements ≠ [] ∧ ∀ m ∈ env.measurements, m.status = .ok)
  [("api", boolText true, .boolean true),
    ("network", boolText env.networkReady, .boolean env.networkReady),
    ("rtc", boolText env.rtcSynchronized, .boolean env.rtcSynchronized),
    ("flash", boolText env.flashAvailable, .boolean env.flashAvailable),
    ("temperature", boolText temperature, .boolean temperature)]

/-- The network, the clock and the flash. -/
def Env.healthy (env : Env) : Bool :=
  env.networkReady && env.rtcSynchronized && env.flashAvailable

def healthFields (env : Env) : List (String × Bytes × Json) :=
  let status := if env.healthy then ascii "ok" else ascii "failed"
  [("status", quoted status, .string status),
    ("version", quoted env.version, .string env.version),
    ("build_date", quoted env.buildDate, .string env.buildDate),
    ("systems", object ((systemsFields env).map fun f => (f.1, f.2.1)),
      .object ((systemsFields env).map fun f => (ascii f.1, f.2.2)))]

theorem spelled_systemsFields (env : Env) : Spelled (systemsFields env) :=
  .cons (by simp [memberNames]) (spells_boolText _) <|
    .cons (by simp [memberNames]) (spells_boolText _) <|
    .cons (by simp [memberNames]) (spells_boolText _) <|
    .cons (by simp [memberNames]) (spells_boolText _) <|
    .cons (by simp [memberNames]) (spells_boolText _) .nil

theorem length_systems_le (env : Env) :
    (object ((systemsFields env).map fun f => (f.1, f.2.1))).length ≤ 75 := by
  have hnames : [(ascii "api").length, (ascii "network").length, (ascii "rtc").length,
      (ascii "flash").length, (ascii "temperature").length] = [3, 7, 3, 5, 11] := rfl
  simp only [List.cons.injEq, and_true] at hnames
  have htrue := length_boolText_le true
  have hnetwork := length_boolText_le env.networkReady
  have hrtc := length_boolText_le env.rtcSynchronized
  have hflash := length_boolText_le env.flashAvailable
  have htemperature := length_boolText_le
    (decide (env.measurements ≠ [] ∧ ∀ m ∈ env.measurements, m.status = .ok))
  rw [length_spelled (systemsFields env) (List.cons_ne_nil _ _)]
  simp only [systemsFields, spelledLength, objectLength, List.map_cons, List.map_nil,
    List.sum_cons, List.sum_nil, hnames]
  omega

/-- The response around a body of `/health`. -/
def healthResponse (env : Env) (request : Request) (json : Bytes) : Response where
  status := if env.healthy then 200 else 503
  reason := ascii (if env.healthy then "OK" else "Service Unavailable")
  json := json
  headOnly := request.method = ascii "HEAD"
  buffered := false

theorem health_eq (env : Env) (request : Request) : health env request =
    healthResponse env request
      (formatted 256 (object ((healthFields env).map fun f => (f.1, f.2.1)))) := by
  rw [health, healthResponse]
  rfl

theorem health_complete {env : Env} (h : env.Shown) (request : Request) :
    (health env request).Complete (decide (request.method = ascii "HEAD")) := by
  have hnames : [(ascii "status").length, (ascii "version").length, (ascii "build_date").length,
      (ascii "systems").length] = [6, 7, 10, 7] := rfl
  simp only [List.cons.injEq, and_true] at hnames
  have hwords : ∀ healthy : Bool, JsonText.Plain (if healthy then ascii "ok" else ascii "failed") ∧
      (if healthy then ascii "ok" else ascii "failed").length ≤ 6 := by
    decide
  have hlines : ∀ healthy : Bool, (if healthy then 200 else 503,
      ascii (if healthy then "OK" else "Service Unavailable")) ∈ statusLines := by
    decide
  obtain ⟨hplain, hword⟩ := hwords env.healthy
  have hfields : Spelled (healthFields env) :=
    .cons (by simp [memberNames]) (spells_quoted hplain) <|
      .cons (by simp [memberNames]) (spells_quoted h.version) <|
      .cons (by simp [memberNames]) (spells_quoted h.buildDate) <|
      .cons (by simp [memberNames]) (spells_object _ (spelled_systemsFields env)) .nil
  have hlength : (object ((healthFields env).map fun f => (f.1, f.2.1))).length < 256 := by
    have hshort := h.short
    have hsystems := length_systems_le env
    rw [length_spelled (healthFields env) (List.cons_ne_nil _ _)]
    simp only [healthFields, spelledLength, objectLength, List.map_cons, List.map_nil,
      List.sum_cons, List.sum_nil, hnames, length_quoted]
    omega
  rw [health_eq, formatted_eq hlength]
  exact Response.complete_of_short (r := healthResponse env request _) (hlines env.healthy)
    (spells_object _ hfields) (hlength.trans (by decide)) rfl

/-- The members of `date_time`. -/
def dateFields (t : Rtc.DateTime) : List (String × Bytes × Json) :=
  [("year", decimalText t.year.toNat, .number t.year.toNat),
    ("month", decimalText t.month.toNat, .number t.month.toNat),
    ("day", decimalText t.day.toNat, .number t.day.toNat),
    ("hour", decimalText t.hour.toNat, .number t.hour.toNat),
    ("minute", decimalText t.minute.toNat, .number t.minute.toNat),
    ("second", decimalText t.second.toNat, .number t.second.toNat)]

theorem spelled_dateFields (t : Rtc.DateTime) : Spelled (dateFields t) :=
  .cons (by simp [memberNames]) (spells_number _) <|
    .cons (by simp [memberNames]) (spells_number _) <|
    .cons (by simp [memberNames]) (spells_number _) <|
    .cons (by simp [memberNames]) (spells_number _) <|
    .cons (by simp [memberNames]) (spells_number _) <|
    .cons (by simp [memberNames]) (spells_number _) .nil

theorem length_date_le (t : Rtc.DateTime) :
    (object ((dateFields t).map fun f => (f.1, f.2.1))).length ≤ 73 := by
  have hnames : [(ascii "year").length, (ascii "month").length, (ascii "day").length,
      (ascii "hour").length, (ascii "minute").length, (ascii "second").length] =
      [4, 5, 3, 4, 6, 6] := rfl
  simp only [List.cons.injEq, and_true] at hnames
  have hbyte (n : UInt8) : (decimalText n.toNat).length ≤ 3 :=
    length_decimalText_le (by decide) (n.toNat_lt.trans (by decide))
  have hyear : (decimalText t.year.toNat).length ≤ 5 :=
    length_decimalText_le (by decide) (t.year.toNat_lt.trans (by decide))
  have hmonth := hbyte t.month
  have hday := hbyte t.day
  have hhour := hbyte t.hour
  have hminute := hbyte t.minute
  have hsecond := hbyte t.second
  rw [length_spelled (dateFields t) (List.cons_ne_nil _ _)]
  simp only [dateFields, spelledLength, objectLength, List.map_cons, List.map_nil, List.sum_cons,
    List.sum_nil, hnames]
  omega

/-- The time that is shown while the clock is synchronized, and zeros before. -/
def Env.shownTime (env : Env) : UInt32 × Rtc.DateTime :=
  (if env.rtcSynchronized then env.unixTime else 0,
    if env.rtcSynchronized then env.dateTime else ⟨0, 0, 0, 0, 0, 0⟩)

def rtcFields (env : Env) : List (String × Bytes × Json) :=
  [("unix_time", decimalText env.shownTime.1.toNat, .number env.shownTime.1.toNat),
    ("synchronized", boolText env.rtcSynchronized, .boolean env.rtcSynchronized),
    ("date_time", object ((dateFields env.shownTime.2).map fun f => (f.1, f.2.1)),
      .object ((dateFields env.shownTime.2).map fun f => (ascii f.1, f.2.2)))]

theorem getRtc_eq (env : Env) : getRtc env =
    respond 200 "OK" (formatted 196 (object ((rtcFields env).map fun f => (f.1, f.2.1)))) := rfl

theorem getRtc_complete (env : Env) : (getRtc env).Complete false := by
  have hnames : [(ascii "unix_time").length, (ascii "synchronized").length,
      (ascii "date_time").length] = [9, 12, 9] := rfl
  simp only [List.cons.injEq, and_true] at hnames
  have hunix : (decimalText env.shownTime.1.toNat).length ≤ 10 :=
    length_decimalText_le (by decide) (env.shownTime.1.toNat_lt.trans (by decide))
  have hbool := length_boolText_le env.rtcSynchronized
  have hdate := length_date_le env.shownTime.2
  have hspelled : Spelled (rtcFields env) :=
    .cons (by simp [memberNames]) (spells_number _) <|
      .cons (by simp [memberNames]) (spells_boolText _) <|
      .cons (by simp [memberNames]) (spells_object _ (spelled_dateFields _)) .nil
  rw [getRtc_eq]
  refine formatted_complete (rtcFields env) ok_mem (List.cons_ne_nil _ _) hspelled ?_ (by decide)
  simp only [rtcFields, spelledLength, objectLength, List.map_cons, List.map_nil, List.sum_cons,
    List.sum_nil, hnames]
  omega

/-- A pair that is handed out is two texts of 64 hexadecimal digits. -/
structure Readable (pair : AuthService.TokenPair) : Prop where
  access : JsonText.Plain pair.accessToken ∧ pair.accessToken.length = 64
  refresh : JsonText.Plain pair.refreshToken ∧ pair.refreshToken.length = 64

theorem tokens_complete {pair : AuthService.TokenPair} (h : Readable pair) :
    (tokens pair).Complete false := by
  have hnames : [(ascii "token_type").length, (ascii "access_token").length,
      (ascii "expires_in").length, (ascii "refresh_token").length,
      (ascii "refresh_expires_in").length] = [10, 12, 10, 13, 18] := rfl
  simp only [List.cons.injEq, and_true] at hnames
  have hword (n : UInt32) : (decimalText n.toNat).length ≤ 10 :=
    length_decimalText_le (by decide) (n.toNat_lt.trans (by decide))
  have h₁ := hword pair.accessExpiresIn
  have h₂ := hword pair.refreshExpiresIn
  have haccess := h.access.2
  have hrefresh := h.refresh.2
  have hbearer : (ascii "Bearer").length = 6 := rfl
  refine formatted_complete [("token_type", quoted (ascii "Bearer"), .string _),
      ("access_token", quoted pair.accessToken, .string _),
      ("expires_in", decimalText pair.accessExpiresIn.toNat, .number _),
      ("refresh_token", quoted pair.refreshToken, .string _),
      ("refresh_expires_in", decimalText pair.refreshExpiresIn.toNat, .number _)] ok_mem
    (List.cons_ne_nil _ _)
    (.cons (by simp [memberNames]) (spells_quoted (plain_words "Bearer" (by simp)).1) <|
      .cons (by simp [memberNames]) (spells_quoted h.access.1) <|
      .cons (by simp [memberNames]) (spells_number _) <|
      .cons (by simp [memberNames]) (spells_quoted h.refresh.1) <|
      .cons (by simp [memberNames]) (spells_number _) .nil) ?_ (by decide)
  simp only [spelledLength, objectLength, List.map_cons, List.map_nil, List.sum_cons,
    List.sum_nil, hnames, length_quoted, hbearer]
  omega

theorem readable_issue {sha256 : AuthService.Sha256} {username : Bytes} {role : UInt8}
    {draws : AuthService.Draws} {now : UInt32} {sessions : AuthService.Sessions}
    {pair : AuthService.TokenPair}
    (h : (AuthService.issue sha256 username role draws now sessions).2.1 = some pair) :
    Readable pair := by
  have htoken (draw : Vector UInt8 32) : JsonText.Plain (AuthService.hex draw.toList) ∧
      (AuthService.hex draw.toList).length = 64 :=
    ⟨plain_hex _, AuthService.length_hex_token draw⟩
  unfold AuthService.issue at h
  split at h
  · dsimp only at h
    split at h
    · split at h
      · cases h
      · cases h
        exact ⟨htoken _, htoken _⟩
    · cases h
  · cases h

theorem issued_complete {code : String} (hcode : code ∈ errorCodes)
    {result : AuthService.AuthStatus × Option AuthService.TokenPair}
    (h : ∀ pair, result.2 = some pair → Readable pair) : (issued code result).Complete false := by
  unfold issued
  split
  · exact tokens_complete (h _ rfl)
  · exact unauthorized_complete hcode

/-! ## Reading a response -/

namespace Response

/-- A response as a client understands it. -/
def reply (r : Response) : Http.Reply where
  status := decimalText r.status
  reason := r.reason
  fields := [(ascii "Content-Type", ascii "application/json"),
    (ascii "Content-Length", decimalText r.json.length), (ascii "Connection", ascii "close"),
    (ascii "Cache-Control", ascii "no-store")]
  body := if r.headOnly then [] else r.json

theorem text_reply (r : Response) : r.reply.text = r.full := by
  have htexts : ascii "HTTP/1.1 " = ascii "HTTP/1.1" ++ [0x20] ∧ ascii " " = [0x20] ∧
      ascii "\r\nContent-Type: application/json\r\nContent-Length: " =
        crlf ++ (ascii "Content-Type" ++ ascii ": " ++ ascii "application/json") ++ crlf ++
          (ascii "Content-Length" ++ ascii ": ") ∧
      ascii "\r\nConnection: close\r\nCache-Control: no-store\r\n\r\n" =
        crlf ++ (ascii "Connection" ++ ascii ": " ++ ascii "close") ++ crlf ++
          (ascii "Cache-Control" ++ ascii ": " ++ ascii "no-store") ++ crlf ++ crlf := by
    decide
  obtain ⟨hversion, hblank, hmiddle, hend⟩ := htexts
  rw [full, header, hversion, hblank, hmiddle, hend]
  simp [Http.Reply.text, reply, Http.Request.fieldText]

/-- A response with a known status line is read back. -/
theorem read_full_of_mem {r : Response} (h : (r.status, r.reason) ∈ statusLines) :
    Http.Reply.read r.headOnly r.full = some r.reply := by
  have hnames : ∀ f ∈ r.reply.fields, IsLine f.1 ∧ 0x3A ∉ f.1 := by
    simp only [reply, List.forall_mem_cons, List.not_mem_nil, false_implies, implies_true,
      and_true]
    decide
  obtain ⟨hne, hdigits, hvalue⟩ := decimalText_spec r.json.length
  have hlength : IsLine (decimalText r.json.length) := (Http.visible_decimalText _).isLine.1
  have hhead : (decimalText r.json.length).head? ≠ some 0x20 := by
    intro hblank
    exact absurd (hdigits _ (List.mem_of_head? hblank)) (by decide)
  have hvalues : ∀ f ∈ r.reply.fields, IsLine f.2 ∧ f.2.head? ≠ some 0x20 := by
    have hfixed : ∀ text ∈ [ascii "application/json", ascii "close", ascii "no-store"],
        IsLine text ∧ text.head? ≠ some 0x20 := by decide
    simp only [List.forall_mem_cons, List.not_mem_nil, false_implies, implies_true,
      and_true] at hfixed
    simp only [reply, List.forall_mem_cons, List.not_mem_nil, false_implies, implies_true,
      and_true]
    exact ⟨hfixed.1, ⟨hlength, hhead⟩, hfixed.2.1, hfixed.2.2⟩
  have hframed : r.reply.framed r.headOnly = true := by
    have hfound : r.reply.valuesOf (ascii "Content-Length") = [decimalText r.json.length] := by
      have hother : ascii "Content-Type" ≠ ascii "Content-Length" ∧
          ascii "Connection" ≠ ascii "Content-Length" ∧
          ascii "Cache-Control" ≠ ascii "Content-Length" := by decide
      simp only [Http.Reply.valuesOf, reply, List.filter_cons, hother.1, hother.2.1, hother.2.2,
        decide_false, decide_true, List.filter_nil, if_true, Bool.false_eq_true, if_false,
        List.map_cons, List.map_nil]
    rw [Http.Reply.framed, hfound]
    simp only [Bool.and_eq_true, decide_eq_true_eq]
    refine ⟨⟨hne, List.all_eq_true.2 hdigits⟩, ?_⟩
    rw [reply]
    cases r.headOnly with
    | true => rfl
    | false => exact decide_eq_true hvalue
  have hreasons : ∀ l ∈ statusLines, (decimalText l.1).length = 3 ∧ IsLine l.2 := by decide
  obtain ⟨hstatus, hreason⟩ := hreasons (r.status, r.reason) h
  rw [← text_reply]
  exact Http.Reply.read_text ⟨⟨hstatus, (decimalText_spec r.status).2.1⟩, hreason, hnames,
    hvalues, hframed⟩

/-- **A complete response is read back**: its status line, its header fields and its body. -/
theorem Complete.read_full {r : Response} {head : Bool} (h : r.Complete head) :
    Http.Reply.read head r.full = some r.reply := by
  rw [← h.shown]
  exact read_full_of_mem h.line

end Response

end HealthCheck.ApiService
