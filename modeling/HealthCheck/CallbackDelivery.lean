import HealthCheck.Api.Response
import HealthCheck.CallbackConfig
import HealthCheck.CallbackQueue
import HealthCheck.Lib.HttpMessage
import HealthCheck.Lib.JsonText
import HealthCheck.TlsTransport

/-!
# What the callback task sends

`callbackService_Task` writes an event into the body of a POST or behind the path of a GET, and
`TlsTransport_Request` writes the message around it. Each text goes through a buffer of fixed
size, and one that does not fit is not sent.

* `deliver` — one round of the task, up to the call of `TlsTransport_Request`.
* `Report`, `received` — what a receiver reads in a message, by general readers of HTTP and JSON.
* `delivery_lossless` — for every configuration the store accepts and every event, nothing is
  dropped for its size, and the receiver reads exactly the event.
-/

namespace HealthCheck.CallbackService

open CString CallbackConfig JsonText
open ApiService (object)
open Http (Visible visible_decimalText visible_of_isDigit)

/-! ## The encoders -/

/-- `CALLBACK_BODY_SIZE`. -/
def bodySize : ℕ := 192

/-- `CALLBACK_RESOURCE_SIZE`. -/
def resourceSize : ℕ := 256

/-- `callbackService_TransportStatusText`, the switch of `apiService_TransportStatusText`. -/
def transportStatusText (status : UInt8) : Bytes := ApiService.transportStatusText status

/-- `snprintf` into an array of `n` characters, and the check of its result. -/
def printed (n : ℕ) (text : Bytes) : Option Bytes :=
  if text.length = 0 ∨ text.length ≥ n then none else some text

/-- The body of a POST. -/
def postBody (event : Event) : Bytes :=
  object [("sequence", decimalText event.sequence.toNat),
    ("timestamp", decimalText event.timestampUnix.toNat),
    ("resource_index", decimalText event.resourceIndex.toNat),
    ("status", quoted (ascii "fail")),
    ("stage", quoted (transportStatusText event.status)),
    ("http_status", decimalText event.httpStatus.toNat),
    ("elapsed_ms", decimalText event.elapsedMs.toNat),
    ("detail", integerText event.detail.toBitVec.toInt)]

/-- The resource of a GET. -/
def getResource (path : Bytes) (event : Event) : Bytes :=
  let separator : UInt8 := if 0x3F ∈ path then 0x26 else 0x3F
  path ++ separator :: (ascii "sequence=" ++ decimalText event.sequence.toNat ++
    ascii "&timestamp=" ++ decimalText event.timestampUnix.toNat ++
    ascii "&resource_index=" ++ decimalText event.resourceIndex.toNat ++
    ascii "&status=fail&stage=" ++ transportStatusText event.status ++
    ascii "&http_status=" ++ decimalText event.httpStatus.toNat ++
    ascii "&elapsed_ms=" ++ decimalText event.elapsedMs.toNat ++
    ascii "&detail=" ++ integerText event.detail.toBitVec.toInt)

/-- What `callbackService_Task` hands to `TlsTransport_Request`. -/
structure Delivery where
  args : TlsTransport.Args
  trustAnchorId : UInt8

/-- One round of `callbackService_Task`: nothing when it skips the event. -/
def deliver (config : Config) (event : Event) : Option Delivery :=
  let host := cstr config.host.toList
  let path := cstr config.path.toList
  if config.enabled = 0 then none
  else if config.method = methodPost then
    (printed bodySize (postBody event)).map fun body =>
      { args :=
          { method := ascii "POST", host, port := config.port
            resource := path.take (resourceSize - 1), body
            contentType := some (ascii "application/json") }
        trustAnchorId := config.trustAnchorId }
  else
    (printed resourceSize (getResource path event)).map fun resource =>
      { args :=
          { method := ascii "GET", host, port := config.port, resource, body := []
            contentType := none }
        trustAnchorId := config.trustAnchorId }

/-! ## The receiver -/

/-- What a receiver learns of an event. -/
structure Report where
  sequence : ℤ
  timestamp : ℤ
  resourceIndex : ℤ
  status : Bytes
  stage : Bytes
  httpStatus : ℤ
  elapsedMs : ℤ
  detail : ℤ
deriving DecidableEq

/-- What it should learn of an event. -/
def report (event : Event) : Report where
  sequence := event.sequence.toNat
  timestamp := event.timestampUnix.toNat
  resourceIndex := event.resourceIndex.toNat
  status := ascii "fail"
  stage := transportStatusText event.status
  httpStatus := event.httpStatus.toNat
  elapsedMs := event.elapsedMs.toNat
  detail := event.detail.toBitVec.toInt

/-- The names of the parameters, in their order. -/
def names : List Bytes :=
  [ascii "sequence", ascii "timestamp", ascii "resource_index", ascii "status", ascii "stage",
    ascii "http_status", ascii "elapsed_ms", ascii "detail"]

namespace Report

/-- The report that a JSON object with these members, and no others, makes. -/
def ofJson : Json → Option Report
  | .object [(n₁, .number sequence), (n₂, .number timestamp), (n₃, .number resourceIndex),
      (n₄, .string status), (n₅, .string stage), (n₆, .number httpStatus),
      (n₇, .number elapsedMs), (n₈, .number detail)] =>
    if [n₁, n₂, n₃, n₄, n₅, n₆, n₇, n₈] = names then
      some { sequence, timestamp, resourceIndex, status, stage, httpStatus, elapsedMs, detail }
    else none
  | _ => none

/-- A text that is a number. -/
def integer (text : Bytes) : Option ℤ :=
  (number text).bind fun (i, rest) => if rest = [] then some i else none

/-- The report that these parameters, and no others, make. -/
def ofParameters (parameters : List Bytes) : Option Report := do
  let pairs ← parameters.mapM (Http.cut 0x3D)
  match pairs with
  | [(n₁, sequence), (n₂, timestamp), (n₃, resourceIndex), (n₄, status), (n₅, stage),
      (n₆, httpStatus), (n₇, elapsedMs), (n₈, detail)] =>
    if [n₁, n₂, n₃, n₄, n₅, n₆, n₇, n₈] = names then
      some ⟨← integer sequence, ← integer timestamp, ← integer resourceIndex, status, stage,
        ← integer httpStatus, ← integer elapsedMs, ← integer detail⟩
    else none
  | _ => none

end Report

/-- The report in a message: the body of a POST, and the last eight parameters of a GET. -/
def received (message : Http.Request) : Option Report :=
  if message.method = ascii "POST" then (parse message.body).bind Report.ofJson
  else
    let parameters := Http.parameters message.target
    Report.ofParameters (parameters.drop (parameters.length - names.length))

/-! ## Sizes -/

theorem stage_characters (status : UInt8) :
    (∀ c ∈ transportStatusText status, 0x5F ≤ c ∧ c ≤ 0x7A) ∧
      (transportStatusText status).length ≤ 17 := by
  unfold transportStatusText ApiService.transportStatusText
  split <;> decide +kernel

theorem length_event (event : Event) :
    (decimalText event.sequence.toNat).length ≤ 10 ∧
    (decimalText event.timestampUnix.toNat).length ≤ 10 ∧
    (decimalText event.resourceIndex.toNat).length ≤ 3 ∧
    (decimalText event.httpStatus.toNat).length ≤ 5 ∧
    (decimalText event.elapsedMs.toNat).length ≤ 10 ∧
    (integerText event.detail.toBitVec.toInt).length ≤ 11 := by
  have hword : ∀ n : UInt32, n.toNat < 10 ^ 10 := fun n => n.toNat_lt.trans (by decide)
  refine ⟨length_decimalText_le (by decide) (hword _), length_decimalText_le (by decide) (hword _),
    length_decimalText_le (by decide) (event.resourceIndex.toNat_lt.trans (by decide)),
    length_decimalText_le (by decide) (event.httpStatus.toNat_lt.trans (by decide)),
    length_decimalText_le (by decide) (hword _), length_integerText_le (by decide) ?_⟩
  have hlow := BitVec.le_toInt event.detail.toBitVec
  have hhigh := BitVec.toInt_lt (x := event.detail.toBitVec)
  omega

theorem length_postBody (event : Event) : 0 < (postBody event).length ∧
    (postBody event).length < bodySize := by
  obtain ⟨h₁, h₂, h₃, h₄, h₅, h₆⟩ := length_event event
  have h₇ := (stage_characters event.status).2
  have htext : (postBody event).length = 110 + (decimalText event.sequence.toNat).length +
      (decimalText event.timestampUnix.toNat).length +
      (decimalText event.resourceIndex.toNat).length +
      (transportStatusText event.status).length +
      (decimalText event.httpStatus.toNat).length + (decimalText event.elapsedMs.toNat).length +
      (integerText event.detail.toBitVec.toInt).length := by
    have hnames : names.map List.length = [8, 9, 14, 6, 5, 11, 10, 6] := rfl
    have hfail : (ascii "fail").length = 4 := rfl
    simp only [names, List.map_cons, List.map_nil, List.cons.injEq, and_true] at hnames
    simp [postBody, object, ApiService.members, ApiService.braces, quoted, ApiService.quoted,
      List.intercalate_cons_cons, hnames, hfail]
    omega
  rw [bodySize]
  omega


/-- The names and values that both encoders write. -/
def pairs (event : Event) : List (Bytes × Bytes) :=
  [(ascii "sequence", decimalText event.sequence.toNat),
    (ascii "timestamp", decimalText event.timestampUnix.toNat),
    (ascii "resource_index", decimalText event.resourceIndex.toNat),
    (ascii "status", ascii "fail"), (ascii "stage", transportStatusText event.status),
    (ascii "http_status", decimalText event.httpStatus.toNat),
    (ascii "elapsed_ms", decimalText event.elapsedMs.toNat),
    (ascii "detail", integerText event.detail.toBitVec.toInt)]

/-- A parameter of a query. -/
def parameter (pair : Bytes × Bytes) : Bytes := pair.1 ++ 0x3D :: pair.2

/-- The parameters of the event, behind those of the path. -/
def eventParameters (event : Event) : List Bytes := (pairs event).map parameter

theorem getResource_eq (path : Bytes) (event : Event) : getResource path event =
    path ++ (if 0x3F ∈ path then 0x26 else 0x3F) :: [0x26].intercalate (eventParameters event) := by
  simp only [getResource, eventParameters, pairs, List.map_cons, List.map_nil,
    List.intercalate_cons_cons, List.intercalate_singleton, parameter, List.append_assoc]
  rfl

theorem length_getResource {path : Bytes} (hpath : path.length < pathSize) (event : Event) :
    0 < (getResource path event).length ∧ (getResource path event).length < resourceSize := by
  obtain ⟨h₁, h₂, h₃, h₄, h₅, h₆⟩ := length_event event
  have h₇ := (stage_characters event.status).2
  have htexts : [ascii "sequence=", ascii "&timestamp=", ascii "&resource_index=",
      ascii "&status=fail&stage=", ascii "&http_status=", ascii "&elapsed_ms=",
      ascii "&detail="].map List.length = [9, 11, 16, 19, 13, 12, 8] := rfl
  simp only [List.map_cons, List.map_nil, List.cons.injEq, and_true] at htexts
  simp only [getResource, List.length_append, List.length_cons, htexts, resourceSize]
  rw [pathSize] at hpath
  omega

/-! ## The receiver reads the event -/

theorem plain_of_letters {text : Bytes} (h : ∀ c ∈ text, 0x5F ≤ c ∧ c ≤ 0x7A) : Plain text := by
  intro c hc
  obtain ⟨hlow, -⟩ := h c hc
  rw [UInt8.le_iff_toNat_le] at hlow
  refine ⟨?_, ?_, UInt8.le_iff_toNat_le.2 ((by decide : (0x20 : UInt8).toNat ≤ 0x5F).trans hlow)⟩
  · rintro rfl
    exact absurd hlow (by decide)
  · rintro rfl
    exact absurd hlow (by decide)

/-- The members of the body: names, texts and values. -/
def postMembers (event : Event) : List (Bytes × Bytes × Json) :=
  [(ascii "sequence", decimalText event.sequence.toNat, .number event.sequence.toNat),
    (ascii "timestamp", decimalText event.timestampUnix.toNat, .number event.timestampUnix.toNat),
    (ascii "resource_index", decimalText event.resourceIndex.toNat,
      .number event.resourceIndex.toNat),
    (ascii "status", quoted (ascii "fail"), .string (ascii "fail")),
    (ascii "stage", quoted (transportStatusText event.status),
      .string (transportStatusText event.status)),
    (ascii "http_status", decimalText event.httpStatus.toNat, .number event.httpStatus.toNat),
    (ascii "elapsed_ms", decimalText event.elapsedMs.toNat, .number event.elapsedMs.toNat),
    (ascii "detail", integerText event.detail.toBitVec.toInt,
      .number event.detail.toBitVec.toInt)]

theorem spells_postMembers (event : Event) :
    ∀ m ∈ postMembers event, Plain m.1 ∧ Spells m.2.1 m.2.2 := by
  have hnames : ∀ name ∈ names, Plain name := by
    unfold Plain
    decide +kernel
  have hfail : Plain (ascii "fail") := by
    unfold Plain
    decide +kernel
  have hstage := plain_of_letters (stage_characters event.status).1
  simp only [names, List.forall_mem_cons] at hnames
  obtain ⟨h₁, h₂, h₃, h₄, h₅, h₆, h₇, h₈, -⟩ := hnames
  simp only [postMembers, List.forall_mem_cons, List.not_mem_nil, false_implies, implies_true,
    and_true]
  exact ⟨⟨h₁, spells_number _⟩, ⟨h₂, spells_number _⟩, ⟨h₃, spells_number _⟩,
    ⟨h₄, spells_string hfail⟩, ⟨h₅, spells_string hstage⟩, ⟨h₆, spells_number _⟩,
    ⟨h₇, spells_number _⟩, ⟨h₈, spells_integer _⟩⟩

theorem parse_postBody (event : Event) :
    ∃ members, parse (postBody event) = some (.object members) ∧
      Report.ofJson (.object members) = some (report event) := by
  have hspells : Spells (postBody event)
      (.object ((postMembers event).map fun m => (m.1, m.2.2))) :=
    spells_object _ _ _ (spells_postMembers event)
  exact ⟨_, hspells.parse, rfl⟩

theorem integer_integerText (i : ℤ) : Report.integer (integerText i) = some i := by
  cases i with
  | ofNat n =>
    have hread : number (decimalText n ++ []) = some ((n : ℤ), []) :=
      number_decimalText n (by simp)
    rw [List.append_nil] at hread
    show Report.integer (decimalText n) = _
    rw [Report.integer, hread]
    rfl
  | negSucc n =>
    have hread : number (0x2D :: (decimalText (n + 1) ++ [])) = some (-((n + 1 : ℕ) : ℤ), []) :=
      number_negative (n + 1) (by simp)
    rw [List.append_nil] at hread
    rw [integerText_negSucc, Report.integer, hread]
    rfl

theorem integer_decimalText (n : ℕ) : Report.integer (decimalText n) = some (n : ℤ) :=
  integer_integerText n

/-- Parameters are cut where they were put together. -/
theorem mapM_cut_parameter {ps : List (Bytes × Bytes)} (h : ∀ p ∈ ps, 0x3D ∉ p.1) :
    (ps.map parameter).mapM (Http.cut 0x3D) = some ps := by
  induction ps with
  | nil => rfl
  | cons p ps ih =>
    obtain ⟨hp, hps⟩ := List.forall_mem_cons.1 h
    have hcut : Http.cut 0x3D (parameter p) = some p := Http.cut_append hp p.2
    rw [List.map_cons, List.mapM_cons, hcut, ih hps]
    rfl

theorem ofParameters_eventParameters (event : Event) :
    Report.ofParameters (eventParameters event) = some (report event) := by
  have hpairs : (eventParameters event).mapM (Http.cut 0x3D) = some (pairs event) :=
    mapM_cut_parameter (by simp only [pairs, List.forall_mem_cons]; decide)
  rw [Report.ofParameters, hpairs]
  simp only [pairs, Option.bind_eq_bind, Option.bind_some, integer_decimalText,
    integer_integerText]
  rfl

/-- Digits, the minus sign, letters and underscores. -/
def isParameterCharacter (c : UInt8) : Bool :=
  isDigit c || c = 0x2D || (0x5F ≤ c && c ≤ 0x7A)

theorem isParameterCharacter_decimalText (n : ℕ) :
    ∀ c ∈ decimalText n, isParameterCharacter c := by
  intro c hc
  simp [isParameterCharacter, (decimalText_spec n).2.1 c hc]

theorem isParameterCharacter_integerText (i : ℤ) :
    ∀ c ∈ integerText i, isParameterCharacter c := by
  cases i with
  | ofNat n => exact isParameterCharacter_decimalText n
  | negSucc n =>
    rw [integerText_negSucc, List.forall_mem_cons]
    exact ⟨by decide, isParameterCharacter_decimalText _⟩

theorem isParameterCharacter_pairs (event : Event) :
    ∀ p ∈ pairs event, (∀ c ∈ p.1, isParameterCharacter c) ∧ ∀ c ∈ p.2, isParameterCharacter c := by
  have hnames : ∀ name ∈ names, ∀ c ∈ name, isParameterCharacter c := by decide +kernel
  simp only [names, List.forall_mem_cons] at hnames
  obtain ⟨h₁, h₂, h₃, h₄, h₅, h₆, h₇, h₈, -⟩ := hnames
  simp only [pairs, List.forall_mem_cons, List.not_mem_nil, false_implies, implies_true, and_true]
  exact ⟨⟨h₁, isParameterCharacter_decimalText _⟩, ⟨h₂, isParameterCharacter_decimalText _⟩,
    ⟨h₃, isParameterCharacter_decimalText _⟩, ⟨h₄, by decide +kernel⟩,
    ⟨h₅, fun c hc => by simp [isParameterCharacter, (stage_characters event.status).1 c hc]⟩,
    ⟨h₆, isParameterCharacter_decimalText _⟩, ⟨h₇, isParameterCharacter_decimalText _⟩,
    ⟨h₈, isParameterCharacter_integerText _⟩⟩

/-- No parameter has an ampersand or anything that ends a word or a line of a message. -/
theorem parameter_characters {event : Event} {p : Bytes} (hp : p ∈ eventParameters event) :
    0x26 ∉ p ∧ Visible p := by
  obtain ⟨pair, hpair, rfl⟩ := List.mem_map.1 hp
  have hall : ∀ c ∈ parameter pair, c = 0x3D ∨ isParameterCharacter c := by
    intro c hc
    rw [parameter, List.mem_append, List.mem_cons] at hc
    obtain ⟨hname, hvalue⟩ := isParameterCharacter_pairs event pair hpair
    rcases hc with hc | rfl | hc
    · exact .inr (hname c hc)
    · exact .inl rfl
    · exact .inr (hvalue c hc)
  refine ⟨fun hamp => ?_, fun c hc => ?_⟩
  · rcases hall _ hamp with h | h <;> exact absurd h (by decide)
  · rcases hall c hc with rfl | h
    · decide
    · simp only [isParameterCharacter, Bool.or_eq_true, Bool.and_eq_true,
        decide_eq_true_eq, UInt8.le_iff_toNat_le] at h ⊢
      rcases h with (h | rfl) | h
      · simpa only [UInt8.le_iff_toNat_le] using visible_of_isDigit h
      · decide
      · exact ⟨(by decide : (0x21 : UInt8).toNat ≤ 0x5F).trans h.1,
          h.2.trans (by decide : (0x7A : UInt8).toNat ≤ 0x7E)⟩

/-- The query of the path stays, and the parameters of the event follow it. -/
theorem parameters_getResource (path : Bytes) (event : Event) :
    Http.parameters (getResource path event) = Http.parameters path ++ eventParameters event := by
  have hps : ∀ p ∈ eventParameters event, 0x26 ∉ p := fun p hp => (parameter_characters hp).1
  have hne : eventParameters event ≠ [] := List.cons_ne_nil _ _
  rw [getResource_eq]
  by_cases hquery : 0x3F ∈ path
  · rw [if_pos hquery]
    exact Http.parameters_append_next hquery hps hne
  · rw [if_neg hquery]
    exact Http.parameters_append_first hquery hps hne

theorem path_getResource (path : Bytes) (event : Event) :
    Http.path (getResource path event) = Http.path path := by
  rw [getResource_eq]
  by_cases hquery : 0x3F ∈ path
  · exact Http.path_append hquery _
  · rw [if_neg hquery]
    exact Http.path_append_first hquery _

theorem getResource_characters {path : Bytes} (hpath : Visible path) (event : Event) :
    Visible (getResource path event) := by
  have hjoined : ∀ {ps : List Bytes}, (∀ p ∈ ps, Visible p) → Visible ([0x26].intercalate ps) := by
    intro ps hps
    induction ps with
    | nil => exact fun c hc => absurd hc List.not_mem_nil
    | cons p ps ih =>
      obtain ⟨hp, hps⟩ := List.forall_mem_cons.1 hps
      cases ps with
      | nil =>
        rw [List.intercalate_singleton]
        exact hp
      | cons q qs =>
        rw [List.intercalate_cons_cons]
        exact (hp.append (by decide +kernel)).append (ih hps)
  rw [getResource_eq]
  intro c hc
  rcases List.mem_append.1 hc with hc | hc
  · exact hpath c hc
  · rcases List.mem_cons.1 hc with rfl | hc
    · split <;> decide
    · exact hjoined (fun p hp => (parameter_characters hp).2) c hc

/-! ## The message around it -/

/-- The message of a request, as its reader should understand it. -/
def message (args : TlsTransport.Args) (host contentType : Bytes) : Http.Request where
  method := args.method
  target := args.resource
  version := ascii "HTTP/1.1"
  fields := [(ascii "Host", host), (ascii "Connection", ascii "close"),
    (ascii "User-Agent", ascii "stm32-health-check/1")] ++
      if args.body = [] then []
      else [(ascii "Content-Type", contentType),
        (ascii "Content-Length", decimalText args.body.length)]
  body := args.body

/-- `TlsTransport_Request` writes this message, if it fits. -/
theorem requestText_eq {args : TlsTransport.Args} {host contentType : Bytes}
    (htype : args.body ≠ [] → args.contentType = some contentType)
    (hlength : (message args host contentType).text.length < TlsTransport.requestSize) :
    TlsTransport.requestText args host = some (message args host contentType).text := by
  by_cases hbody : args.body = []
  · have htext : args.method ++ ascii " " ++ args.resource ++ ascii " HTTP/1.1\r\nHost: " ++ host ++
        ascii "\r\nConnection: close\r\nUser-Agent: stm32-health-check/1\r\n" ++ ascii "\r\n" =
          (message args host contentType).text := by
      simp only [message, Http.Request.text, hbody, if_true, List.append_nil, List.flatMap_cons,
        List.flatMap_nil, Http.Request.fieldText, List.append_assoc, List.cons_append]
      rfl
    simp only [TlsTransport.requestText, hbody, List.length_nil, ne_eq, not_true_eq_false,
      if_false, htext]
    rw [Option.filter_some, if_pos (by simpa using hlength)]
  · have hne : args.body.length ≠ 0 := fun h => hbody (List.length_eq_zero_iff.1 h)
    have htext : args.method ++ ascii " " ++ args.resource ++ ascii " HTTP/1.1\r\nHost: " ++ host ++
        ascii "\r\nConnection: close\r\nUser-Agent: stm32-health-check/1\r\n" ++
        ascii "Content-Type: " ++ contentType ++ ascii "\r\nContent-Length: " ++
        decimalText args.body.length ++ ascii "\r\n\r\n" ++ args.body =
          (message args host contentType).text := by
      simp only [message, Http.Request.text, if_neg hbody, List.flatMap_cons, List.cons_append,
        List.flatMap_nil, Http.Request.fieldText, List.append_assoc, List.nil_append]
      rfl
    simp only [TlsTransport.requestText, if_pos hne, htype hbody, Option.map_some, htext]
    rw [Option.filter_some, if_pos (by simpa using hlength)]

theorem length_message (args : TlsTransport.Args) (host contentType : Bytes) :
    (message args host contentType).text.length ≤ args.method.length + args.resource.length +
      host.length + contentType.length + (decimalText args.body.length).length +
      args.body.length + 110 := by
  have hlengths : [ascii "Host", ascii "Connection", ascii "close", ascii "User-Agent",
      ascii "stm32-health-check/1", ascii "Content-Type", ascii "Content-Length", ascii ": ",
      ascii "HTTP/1.1", crlf].map List.length = [4, 10, 5, 10, 20, 12, 14, 2, 8, 2] := rfl
  simp only [List.map_cons, List.map_nil, List.cons.injEq, and_true] at hlengths
  by_cases hbody : args.body = []
  · simp only [message, Http.Request.text, hbody, if_true, List.append_nil, List.flatMap_cons,
      List.flatMap_nil, Http.Request.fieldText, List.length_append, List.length_cons, hlengths,
      List.length_nil]
    omega
  · simp only [message, Http.Request.text, if_neg hbody, List.flatMap_cons, List.cons_append,
      List.flatMap_nil, Http.Request.fieldText, List.length_append, List.length_cons, hlengths,
      List.length_nil, List.nil_append]
    omega

/-! ## Accepted configurations -/

theorem visible_of_isPathCharacter {c : UInt8} (h : isPathCharacter c) : 0x21 ≤ c ∧ c ≤ 0x7E := by
  simp only [isPathCharacter, Bool.and_eq_true, decide_eq_true_eq] at h
  exact ⟨h.1.1.1.1, h.1.1.1.2⟩

theorem visible_of_isHostCharacter {c : UInt8} (h : isHostCharacter c) : 0x21 ≤ c ∧ c ≤ 0x7E := by
  simp only [isHostCharacter, Bool.or_eq_true, Bool.and_eq_true, decide_eq_true_eq,
    UInt8.le_iff_toNat_le] at h ⊢
  rcases h with (((h | h) | h) | rfl) | rfl
  · exact ⟨(by decide : (0x21 : UInt8).toNat ≤ 0x61).trans h.1,
      h.2.trans (by decide : (0x7A : UInt8).toNat ≤ 0x7E)⟩
  · exact ⟨(by decide : (0x21 : UInt8).toNat ≤ 0x41).trans h.1,
      h.2.trans (by decide : (0x5A : UInt8).toNat ≤ 0x7E)⟩
  · exact ⟨(by decide : (0x21 : UInt8).toNat ≤ 0x30).trans h.1,
      h.2.trans (by decide : (0x39 : UInt8).toNat ≤ 0x7E)⟩
  · decide
  · decide

/-- The host and the path of an accepted configuration. -/
structure Accepted (host path : Bytes) : Prop where
  host : host ≠ [] ∧ host.length < hostSize ∧ Visible host
  path : path.length < pathSize ∧ Visible path

theorem accepted {config : Config} (h : fieldsValid config) :
    Accepted (cstr config.host.toList) (cstr config.path.toList) := by
  simp only [fieldsValid, hostValid, pathValid, Bool.and_eq_true, terminated_iff,
    decide_eq_true_eq] at h
  obtain ⟨⟨-, hfirst, hhost, hhosts⟩, -, hpath, hpaths⟩ := h
  refine ⟨⟨fun hnil => ?_, length_cstr_lt hhost,
      fun c hc => visible_of_isHostCharacter (hhosts c hc)⟩,
    length_cstr_lt hpath, fun c hc => visible_of_isPathCharacter (hpaths c hc)⟩
  have hlength : 0 < config.host.toList.length := by
    rw [Vector.length_toList]
    decide
  rw [cstr, List.takeWhile_eq_nil_iff] at hnil
  exact absurd hfirst (by simpa using hnil hlength)

/-- The value of the `Host` field. -/
def hostValue (config : Config) : Bytes :=
  cstr config.host.toList ++
    if config.port = 443 then [] else ascii ":" ++ decimalText config.port.toNat

theorem hostHeader_eq {config : Config} (h : fieldsValid config) :
    TlsTransport.hostHeader (cstr config.host.toList) config.port = some (hostValue config) := by
  obtain ⟨hne, hlength, -⟩ := (accepted h).host
  exact TlsTransport.hostHeader_eq_some hne hlength config.port

theorem hostValue_characters {config : Config} (h : fieldsValid config) :
    Visible (hostValue config) ∧ (hostValue config).length < 70 := by
  obtain ⟨-, hlength, hhost⟩ := (accepted h).host
  have hport : (decimalText config.port.toNat).length ≤ 5 :=
    length_decimalText_le (by decide) (config.port.toNat_lt.trans (by decide))
  have hcolon : (ascii ":").length = 1 := rfl
  change (cstr config.host.toList).length < 64 at hlength
  by_cases hdefault : config.port = 443
  · rw [hostValue, if_pos hdefault, List.append_nil]
    exact ⟨hhost, by omega⟩
  · rw [hostValue, if_neg hdefault]
    have hsuffix : Visible (ascii ":" ++ decimalText config.port.toNat) :=
      Visible.append (by decide +kernel) (visible_decimalText _)
    exact ⟨hhost.append hsuffix, by simp only [List.length_append]; omega⟩

theorem value_of_visible {text : Bytes} (h : Visible text) :
    IsLine text ∧ text.head? ≠ some 0x20 :=
  ⟨h.isLine.1, fun hhead => h.isLine.2 (List.mem_of_head? hhead)⟩

/-- A message with one word for its target, whose host is the value of a field and whose body has
a type, is well-formed. -/
theorem wellFormed_message {args : TlsTransport.Args} {host contentType : Bytes}
    (hmethod : Visible args.method) (hresource : IsLine args.resource ∧ 0x20 ∉ args.resource)
    (hhost : IsLine host ∧ host.head? ≠ some 0x20) (htype : Visible contentType) :
    (message args host contentType).WellFormed := by
  have hdigits := visible_decimalText args.body.length
  have hnames : ∀ name ∈ [ascii "Host", ascii "Connection", ascii "User-Agent",
      ascii "Content-Type", ascii "Content-Length"], IsLine name ∧ 0x3A ∉ name := by decide
  have hvalues : ∀ value ∈ [ascii "close", ascii "stm32-health-check/1"],
      IsLine value ∧ value.head? ≠ some 0x20 := by decide
  simp only [List.forall_mem_cons, List.not_mem_nil, false_implies, implies_true,
    and_true] at hnames hvalues
  obtain ⟨h₁, h₂, h₃, h₄, h₅⟩ := hnames
  by_cases hbody : args.body = []
  · refine ⟨hmethod.isLine, hresource, rfl, ?_, ?_, ?_, ?_⟩
    · simp only [message, if_pos hbody, List.append_nil, List.forall_mem_cons]
      exact ⟨h₁, h₂, h₃, by simp⟩
    · simp only [message, if_pos hbody, List.append_nil, List.forall_mem_cons]
      exact ⟨hhost, hvalues.1, hvalues.2, by simp⟩
    · simp only [message, if_pos hbody, List.append_nil, Http.Request.valuesOf]
      rfl
    · have hnone : (message args host contentType).valuesOf (ascii "Content-Length") = [] := by
        simp only [message, if_pos hbody, List.append_nil, Http.Request.valuesOf]
        rfl
      rw [Http.Request.framed, hnone]
      exact decide_eq_true hbody
  · refine ⟨hmethod.isLine, hresource, rfl, ?_, ?_, ?_, ?_⟩
    · simp only [message, if_neg hbody, List.cons_append, List.nil_append, List.forall_mem_cons]
      exact ⟨h₁, h₂, h₃, h₄, h₅, by simp⟩
    · simp only [message, if_neg hbody, List.cons_append, List.nil_append, List.forall_mem_cons]
      exact ⟨hhost, hvalues.1, hvalues.2, value_of_visible htype, value_of_visible hdigits,
        by simp⟩
    · simp only [message, if_neg hbody, List.cons_append, List.nil_append, Http.Request.valuesOf]
      rfl
    · have hone : (message args host contentType).valuesOf (ascii "Content-Length") =
          [decimalText args.body.length] := by
        simp only [message, if_neg hbody, List.cons_append, List.nil_append,
          Http.Request.valuesOf]
        rfl
      obtain ⟨hne, hall, hvalue⟩ := decimalText_spec args.body.length
      rw [Http.Request.framed, hone]
      simp only [Bool.and_eq_true, List.all_eq_true, decide_eq_true_eq]
      exact ⟨⟨hne, hall⟩, hvalue⟩

/-! ## Lossless delivery -/

/-- What the message of an event says to its receiver. -/
structure Conveys (config : Config) (event : Event) (message : Http.Request) : Prop where
  /-- The port is part of the host if and only if it is not the default one. -/
  host : message.valuesOf (ascii "Host") = [hostValue config]
  /-- The configured path, and a JSON object. -/
  post : config.method = methodPost → message.method = ascii "POST" ∧
    message.target = cstr config.path.toList ∧
    message.valuesOf (ascii "Content-Type") = [ascii "application/json"] ∧
    ∃ members, parse message.body = some (.object members)
  /-- The configured path with its query, and the eight parameters behind it. -/
  get : config.method = methodGet → message.method = ascii "GET" ∧
    cstr config.path.toList <+: message.target ∧
    Http.path message.target = Http.path (cstr config.path.toList) ∧
    Http.parameters message.target =
      Http.parameters (cstr config.path.toList) ++ eventParameters event ∧
    message.body = []
  /-- In both cases the receiver reads the event. -/
  report : received message = some (report event)

/-- A request with a host and a message that fits is written. -/
theorem buildRequest_eq {args : TlsTransport.Args} {host contentType : Bytes}
    (hhost : TlsTransport.hostHeader args.host args.port = some host)
    (htype : args.body ≠ [] → args.contentType = some contentType)
    (hlength : (message args host contentType).text.length < TlsTransport.requestSize)
    (lower : TlsTransport.Lower) (p : TlsTransport.Progress) :
    ∃ p', TlsTransport.buildRequest args lower p =
      .ok ((message args host contentType).text, p') := by
  rw [TlsTransport.buildRequest, hhost, Option.bind_some, requestText_eq htype hlength]
  exact ⟨_, rfl⟩

/-- The arguments for a POST. -/
def postArgs (config : Config) (event : Event) : TlsTransport.Args where
  method := ascii "POST"
  host := cstr config.host.toList
  port := config.port
  resource := cstr config.path.toList
  body := postBody event
  contentType := some (ascii "application/json")

/-- The arguments for a GET. -/
def getArgs (config : Config) (event : Event) : TlsTransport.Args where
  method := ascii "GET"
  host := cstr config.host.toList
  port := config.port
  resource := getResource (cstr config.path.toList) event
  body := []
  contentType := none

/-- The message of a call with the given arguments. -/
def sentMessage (config : Config) (args : TlsTransport.Args) : Http.Request :=
  message args (hostValue config) (ascii "application/json")

theorem deliver_post {config : Config} (hvalid : fieldsValid config) (henabled : config.enabled ≠ 0)
    (hpost : config.method = methodPost) (event : Event) :
    deliver config event = some ⟨postArgs config event, config.trustAnchorId⟩ := by
  obtain ⟨hpos, hlength⟩ := length_postBody event
  have hpath : (cstr config.path.toList).length < 80 := (accepted hvalid).path.1
  have htake : (cstr config.path.toList).take (resourceSize - 1) = cstr config.path.toList :=
    List.take_of_length_le (by rw [resourceSize]; omega)
  have hprinted : printed bodySize (postBody event) = some (postBody event) :=
    if_neg (by omega)
  simp only [deliver, if_neg henabled, if_pos hpost, hprinted, Option.map_some, htake, postArgs]

theorem deliver_get {config : Config} (hvalid : fieldsValid config) (henabled : config.enabled ≠ 0)
    (hget : config.method ≠ methodPost) (event : Event) :
    deliver config event = some ⟨getArgs config event, config.trustAnchorId⟩ := by
  obtain ⟨hpos, hlength⟩ := length_getResource (accepted hvalid).path.1 event
  have hprinted : printed resourceSize (getResource (cstr config.path.toList) event) =
      some (getResource (cstr config.path.toList) event) := if_neg (by omega)
  simp only [deliver, if_neg henabled, if_neg hget, hprinted, Option.map_some, getArgs]

theorem length_sent_post {config : Config} (hvalid : fieldsValid config) (event : Event) :
    (sentMessage config (postArgs config event)).text.length < TlsTransport.requestSize := by
  refine (length_message _ _ _).trans_lt ?_
  have hhost := (hostValue_characters hvalid).2
  have hpath : (cstr config.path.toList).length < 80 := (accepted hvalid).path.1
  have hbody : (postBody event).length < 192 := (length_postBody event).2
  have hdigits : (decimalText (postBody event).length).length ≤ 3 :=
    length_decimalText_le (by decide) (hbody.trans (by decide))
  have hfixed : (ascii "POST").length = 4 ∧ (ascii "application/json").length = 16 := ⟨rfl, rfl⟩
  simp only [postArgs, TlsTransport.requestSize, hfixed]
  omega

theorem length_sent_get {config : Config} (hvalid : fieldsValid config) (event : Event) :
    (sentMessage config (getArgs config event)).text.length < TlsTransport.requestSize := by
  refine (length_message _ _ _).trans_lt ?_
  have hhost := (hostValue_characters hvalid).2
  have hresource : (getResource (cstr config.path.toList) event).length < 256 :=
    (length_getResource (accepted hvalid).path.1 event).2
  have hfixed : (ascii "GET").length = 3 ∧ (ascii "application/json").length = 16 ∧
      (decimalText 0).length = 1 := ⟨rfl, rfl, rfl⟩
  simp only [getArgs, TlsTransport.requestSize, hfixed, List.length_nil]
  omega

theorem conveys_post {config : Config} (hpost : config.method = methodPost) (event : Event) :
    Conveys config event (sentMessage config (postArgs config event)) := by
  have hne : ¬ (postArgs config event).body = [] := List.length_pos_iff.1 (length_postBody event).1
  obtain ⟨members, hparse, hreport⟩ := parse_postBody event
  refine ⟨?_, fun _ => ⟨rfl, rfl, ?_, members, hparse⟩, fun hget => ?_, ?_⟩
  · simp only [sentMessage, message, if_neg hne, List.cons_append, List.nil_append,
      Http.Request.valuesOf]
    rfl
  · simp only [sentMessage, message, if_neg hne, List.cons_append, List.nil_append,
      Http.Request.valuesOf]
    rfl
  · exact absurd (hpost.symm.trans hget) (by decide)
  · show (parse (postBody event)).bind Report.ofJson = some (report event)
    rw [hparse, Option.bind_some, hreport]

theorem conveys_get {config : Config} (hget : config.method ≠ methodPost) (event : Event) :
    Conveys config event (sentMessage config (getArgs config event)) := by
  have hparameters := parameters_getResource (cstr config.path.toList) event
  refine ⟨rfl, fun hpost => absurd hpost hget, fun _ => ⟨rfl, ?_, path_getResource _ event,
    hparameters, rfl⟩, ?_⟩
  · show cstr config.path.toList <+: getResource (cstr config.path.toList) event
    rw [getResource_eq]
    exact List.prefix_append ..
  · -- the eight parameters are the last ones
    have hdrop : (Http.parameters (cstr config.path.toList) ++ eventParameters event).drop
        ((Http.parameters (cstr config.path.toList) ++ eventParameters event).length -
          names.length) = eventParameters event := by
      refine List.drop_left' ?_
      rw [List.length_append]
      exact (Nat.add_sub_cancel _ 8).symm
    show Report.ofParameters ((Http.parameters (getResource (cstr config.path.toList) event)).drop
      ((Http.parameters (getResource (cstr config.path.toList) event)).length - names.length)) = _
    rw [hparameters, hdrop, ofParameters_eventParameters]

/-- What the task hands over is written, and its reader finds the message that was meant. -/
theorem sent_read {config : Config} (hvalid : fieldsValid config) (henabled : config.enabled ≠ 0)
    (event : Event) :
    ∃ args, deliver config event = some ⟨args, config.trustAnchorId⟩ ∧
      (∀ lower p, ∃ p', TlsTransport.buildRequest args lower p =
        .ok ((sentMessage config args).text, p')) ∧
      Http.Request.read (sentMessage config args).text = some (sentMessage config args) ∧
      Conveys config event (sentMessage config args) := by
  have hhost := hostHeader_eq hvalid
  have hhosts := (hostValue_characters hvalid).1
  have hpaths := (accepted hvalid).path.2
  have hjson : Visible (ascii "application/json") := by decide +kernel
  by_cases hmethod : config.method = methodPost
  · have hpost : Visible (ascii "POST") := by decide +kernel
    have hwell : (sentMessage config (postArgs config event)).WellFormed :=
      wellFormed_message hpost hpaths.isLine (value_of_visible hhosts) hjson
    exact ⟨_, deliver_post hvalid henabled hmethod event,
      buildRequest_eq hhost (fun _ => rfl) (length_sent_post hvalid event),
      Http.Request.read_text hwell, conveys_post hmethod event⟩
  · have hget : Visible (ascii "GET") := by decide +kernel
    have hwell : (sentMessage config (getArgs config event)).WellFormed :=
      wellFormed_message hget (getResource_characters hpaths event).isLine
        (value_of_visible hhosts) hjson
    exact ⟨_, deliver_get hvalid henabled hmethod event,
      buildRequest_eq hhost (fun hne => absurd rfl hne) (length_sent_get hvalid event),
      Http.Request.read_text hwell, conveys_get hmethod event⟩

/-- **Lossless delivery.** For every accepted configuration with delivery enabled and every event,
the task does not drop the event, the request is written in whatever state the connection is, and
its reader finds in it the method, the target and the body that were handed over, the host, and
exactly the event. -/
theorem delivery_lossless {config : Config} (hvalid : fieldsValid config)
    (henabled : config.enabled ≠ 0) (event : Event) :
    ∃ delivery text message, deliver config event = some delivery ∧
      (∀ lower p, ∃ p', TlsTransport.buildRequest delivery.args lower p = .ok (text, p')) ∧
      Http.Request.read text = some message ∧ message.method = delivery.args.method ∧
      message.target = delivery.args.resource ∧ message.body = delivery.args.body ∧
      Conveys config event message := by
  obtain ⟨args, hdeliver, hbuild, hread, hconveys⟩ := sent_read hvalid henabled event
  exact ⟨_, _, _, hdeliver, hbuild, hread, rfl, rfl, rfl, hconveys⟩

/-- A path with a query, on a port of its own. -/
def queryConfig : Config where
  enabled := 1
  method := methodGet
  trustAnchorId := 1
  reserved := 0
  port := 8443
  host := charArray hostSize (ascii "example.com")
  path := charArray pathSize (ascii "/hook?device=7")

/-- An event with the largest fields. -/
theorem delivery_lossless_query :
    fieldsValid queryConfig ∧ queryConfig.enabled ≠ 0 ∧
    ∃ delivery text message,
      deliver queryConfig ⟨0xFFFFFFFF, 0xFFFFFFFF, 0xFFFFFFFF, 0x80000000, 65535, 255, 4⟩ =
        some delivery ∧
      (∀ lower p, ∃ p', TlsTransport.buildRequest delivery.args lower p = .ok (text, p')) ∧
      Http.Request.read text = some message ∧ message.method = delivery.args.method ∧
      message.target = delivery.args.resource ∧ message.body = delivery.args.body ∧
      Conveys queryConfig ⟨0xFFFFFFFF, 0xFFFFFFFF, 0xFFFFFFFF, 0x80000000, 65535, 255, 4⟩
        message := by
  have hvalid : fieldsValid queryConfig := by decide +kernel
  have henabled : queryConfig.enabled ≠ 0 := by decide
  exact ⟨hvalid, henabled, delivery_lossless hvalid henabled _⟩

end HealthCheck.CallbackService
