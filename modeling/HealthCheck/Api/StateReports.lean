import HealthCheck.Api.Reports

/-!
# What the configurations and the results report

The callback configuration, the health-check configuration with its resources and the recent
results are read back from their JSON texts as they are stored, and so are the sensors.

* `getCallbackConfig_reports`, `getHealthCheckConfig_reports` — the two configurations.
* `getLogs_reports` — the results, whatever is in the flash.
* `getTemperature_reports` — the sensors of one bus.
-/

namespace HealthCheck.ApiService

open Nor hiding read driven_read read_ok read_cases
open CString
open JsonText (Json Spells spells_number spells_integer integerText)

/-! ## The callback configuration -/

/-- The callback configuration as a client reads it. -/
structure Callback where
  enabled : UInt8
  method : UInt8
  host : Bytes
  port : ℕ
  path : Bytes
  trustAnchorId : ℕ
deriving DecidableEq

def Callback.of (config : CallbackConfig.Config) : Callback where
  enabled := config.enabled
  method := config.method
  host := cstr config.host.toList
  port := config.port.toNat
  path := cstr config.path.toList
  trustAnchorId := config.trustAnchorId.toNat

/-- `methodText`, read back. -/
def methodOf (text : Bytes) : Option UInt8 :=
  if text = ascii "POST" then some CallbackConfig.methodPost
  else if text = ascii "GET" then some CallbackConfig.methodGet
  else none

def Callback.ofJson : Json → Option Callback
  | .object [(n₁, .boolean enabled), (n₂, .string method), (n₃, .string host), (n₄, port),
      (n₅, .string path), (n₆, trustAnchorId)] =>
    if [n₁, n₂, n₃, n₄, n₅, n₆] = [ascii "enabled", ascii "method", ascii "host", ascii "port",
        ascii "path", ascii "trust_anchor_id"] then
      do some ⟨flagOf enabled, ← methodOf method, host, ← natural port, path,
        ← natural trustAnchorId⟩
    else none
  | _ => none

def callbackFields (config : CallbackConfig.Config) : List (String × Bytes × Json) :=
  [("enabled", boolText (decide (config.enabled ≠ 0)), .boolean (decide (config.enabled ≠ 0))),
    ("method", quoted (methodText config.method), .string (methodText config.method)),
    ("host", quoted (cstr config.host.toList), .string (cstr config.host.toList)),
    ("port", decimalText config.port.toNat, .number config.port.toNat),
    ("path", quoted (cstr config.path.toList), .string (cstr config.path.toList)),
    ("trust_anchor_id", decimalText config.trustAnchorId.toNat,
      .number config.trustAnchorId.toNat)]

theorem methodText_spec (method : UInt8) :
    JsonText.Plain (methodText method) ∧ (methodText method).length ≤ 4 := by
  unfold methodText
  split <;> decide

/-- The characters of a host or a path need no escapes. -/
theorem plain_of_accepted {accept : UInt8 → Bool} {array : Bytes}
    (haccept : ∀ c, accept c = true → c ≠ 0x22 ∧ c ≠ 0x5C ∧ 0x20 ≤ c)
    (h : CallbackConfig.terminated accept array = true) :
    0 ∈ array ∧ JsonText.Plain (cstr array) := by
  obtain ⟨hzero, hall⟩ := CallbackConfig.terminated_iff.1 h
  exact ⟨hzero, fun c hc => haccept c (hall c hc)⟩

/-- What is known of an accepted configuration. -/
structure Shown (config : CallbackConfig.Config) : Prop where
  enabled : config.enabled = 0 ∨ config.enabled = 1
  method : config.method = CallbackConfig.methodGet ∨ config.method = CallbackConfig.methodPost
  host : JsonText.Plain (cstr config.host.toList) ∧
    (cstr config.host.toList).length < CallbackConfig.hostSize
  path : JsonText.Plain (cstr config.path.toList) ∧
    (cstr config.path.toList).length < CallbackConfig.pathSize

theorem le_one_iff {flag : UInt8} : flag ≤ 1 ↔ flag = 0 ∨ flag = 1 := by
  rw [UInt8.le_iff_toNat_le, ← UInt8.toNat_inj, ← UInt8.toNat_inj]
  show flag.toNat ≤ 1 ↔ flag.toNat = 0 ∨ flag.toNat = 1
  omega

theorem isHostCharacter_plain (c : UInt8) (h : CallbackConfig.isHostCharacter c = true) :
    c ≠ 0x22 ∧ c ≠ 0x5C ∧ 0x20 ≤ c := by
  simp only [CallbackConfig.isHostCharacter, Bool.or_eq_true, Bool.and_eq_true,
    decide_eq_true_eq, UInt8.le_iff_toNat_le, ← UInt8.toNat_inj, UInt8.reduceToNat] at h
  simp only [ne_eq, UInt8.le_iff_toNat_le, ← UInt8.toNat_inj, UInt8.reduceToNat]
  omega

theorem isPathCharacter_plain (c : UInt8) (h : CallbackConfig.isPathCharacter c = true) :
    c ≠ 0x22 ∧ c ≠ 0x5C ∧ 0x20 ≤ c := by
  simp only [CallbackConfig.isPathCharacter, Bool.and_eq_true, decide_eq_true_eq, ne_eq,
    UInt8.le_iff_toNat_le, ← UInt8.toNat_inj, UInt8.reduceToNat] at h
  simp only [ne_eq, UInt8.le_iff_toNat_le, ← UInt8.toNat_inj, UInt8.reduceToNat]
  omega

theorem shown_of_fieldsValid {config : CallbackConfig.Config}
    (h : CallbackConfig.fieldsValid config = true) : Shown config := by
  simp only [CallbackConfig.fieldsValid, CallbackConfig.hostValid, CallbackConfig.pathValid,
    Bool.and_eq_true, decide_eq_true_eq] at h
  obtain ⟨⟨⟨⟨⟨henabled, hmethod⟩, -⟩, -⟩, -, hhost⟩, -, hpath⟩ := h
  obtain ⟨hhostZero, hhostPlain⟩ := plain_of_accepted isHostCharacter_plain hhost
  obtain ⟨hpathZero, hpathPlain⟩ := plain_of_accepted isPathCharacter_plain hpath
  exact ⟨le_one_iff.1 henabled, le_one_iff.1 hmethod, ⟨hhostPlain, length_cstr_lt hhostZero⟩,
    hpathPlain, length_cstr_lt hpathZero⟩

/-- **The callback configuration** is shown as it is stored. -/
theorem getCallbackConfig_reports {ram : Ram}
    (h : CallbackConfig.fieldsValid ram.callback.snapshot.config = true) :
    (getCallbackConfig ram).Reports Callback.ofJson (.of ram.callback.snapshot.config) := by
  have hshown := shown_of_fieldsValid h
  generalize hconfig : ram.callback.snapshot.config = config at hshown
  have hnames : [(ascii "enabled").length, (ascii "method").length, (ascii "host").length,
      (ascii "port").length, (ascii "path").length, (ascii "trust_anchor_id").length] =
      [7, 6, 4, 4, 4, 15] := rfl
  simp only [List.cons.injEq, and_true] at hnames
  have hlength : (object ((callbackFields config).map fun f => (f.1, f.2.1))).length < 320 := by
    have henabled := length_boolText_le (decide (config.enabled ≠ 0))
    have hmethod := (methodText_spec config.method).2
    have hport : (decimalText config.port.toNat).length ≤ 5 :=
      length_decimalText_le (by decide) (config.port.toNat_lt.trans (by decide))
    have hanchor : (decimalText config.trustAnchorId.toNat).length ≤ 3 :=
      length_decimalText_le (by decide) (config.trustAnchorId.toNat_lt.trans (by decide))
    have hhost : (cstr config.host.toList).length < 64 := hshown.host.2
    have hpath : (cstr config.path.toList).length < 80 := hshown.path.2
    rw [length_object (by simp [callbackFields])]
    simp only [objectLength, callbackFields, List.map_cons, List.map_nil, List.sum_cons,
      List.sum_nil, hnames, length_quoted]
    omega
  have hspells : Spells (object ((callbackFields config).map fun f => (f.1, f.2.1)))
      (.object ((callbackFields config).map fun f => (ascii f.1, f.2.2))) := by
    refine spells_object (callbackFields config) ?_
    simp only [callbackFields, List.forall_mem_cons, List.not_mem_nil, false_implies,
      implies_true, and_true]
    exact ⟨⟨by simp [memberNames], spells_boolText _⟩,
      ⟨by simp [memberNames], spells_quoted (methodText_spec _).1⟩,
      ⟨by simp [memberNames], spells_quoted hshown.host.1⟩,
      ⟨by simp [memberNames], spells_number _⟩,
      ⟨by simp [memberNames], spells_quoted hshown.path.1⟩,
      by simp [memberNames], spells_number _⟩
  have hresponse : getCallbackConfig ram = respond 200 "OK"
      (formatted 320 (object ((callbackFields config).map fun f => (f.1, f.2.1)))) := by
    rw [← hconfig]
    rfl
  have hmethod : methodOf (methodText config.method) = some config.method := by
    rcases hshown.method with heq | heq <;> rw [heq] <;> decide
  rw [hresponse, formatted_eq hlength]
  refine .respond hspells (hlength.trans (by decide)) ?_
  simp only [callbackFields, List.map_cons, List.map_nil, Callback.ofJson, if_true, hmethod,
    natural_number, Option.bind_eq_bind, Option.bind_some, flagOf_ne_zero hshown.enabled]
  rfl

/-! ## The health-check configuration -/

/-- One resource as a client reads it. -/
structure Monitored where
  index : ℕ
  host : Bytes
  port : ℕ
  path : Bytes
  enabled : UInt8
  trustAnchorId : ℕ
deriving DecidableEq

def Monitored.of (slot : HealthCheckConfig.Resource × ℕ) : Monitored where
  index := slot.2
  host := cstr slot.1.host.toList
  port := slot.1.port.toNat
  path := cstr slot.1.path.toList
  enabled := slot.1.enabled
  trustAnchorId := slot.1.trustAnchorId.toNat

def Monitored.ofJson : Json → Option Monitored
  | .object [(n₁, index), (n₂, .string host), (n₃, port), (n₄, .string path),
      (n₅, .boolean enabled), (n₆, trustAnchorId)] =>
    if [n₁, n₂, n₃, n₄, n₅, n₆] = [ascii "index", ascii "host", ascii "port", ascii "path",
        ascii "enabled", ascii "trust_anchor_id"] then
      do some ⟨← natural index, host, ← natural port, path, flagOf enabled,
        ← natural trustAnchorId⟩
    else none
  | _ => none

/-- The configuration as a client reads it. -/
structure Monitoring where
  periodSeconds : ℕ
  resources : List Monitored
deriving DecidableEq

def Monitoring.ofJson : Json → Option Monitoring
  | .object [(n₁, periodSeconds), (n₂, .array resources)] =>
    if [n₁, n₂] = [ascii "period_seconds", ascii "resources"] then
      do some ⟨← natural periodSeconds, ← resources.mapM Monitored.ofJson⟩
    else none
  | _ => none

/-- The occupied slots, with their numbers. -/
def occupiedSlots (s : HealthCheckConfig.Snapshot) : List (HealthCheckConfig.Resource × ℕ) :=
  s.resources.toList.zipIdx.filter fun slot => decide (slot.1.occupied ≠ 0)

def Monitoring.of (s : HealthCheckConfig.Snapshot) : Monitoring :=
  ⟨s.periodSeconds.toNat, (occupiedSlots s).map Monitored.of⟩

/-- What `resourceJson` spells. -/
def resourceFields (index : ℕ) (host : Bytes) (port : ℕ) (path : Bytes) (enabled : Bool)
    (trustAnchor : ℕ) : List (String × Bytes × Json) :=
  [("index", decimalText index, .number index), ("host", quoted host, .string host),
    ("port", decimalText port, .number port), ("path", quoted path, .string path),
    ("enabled", boolText enabled, .boolean enabled),
    ("trust_anchor_id", decimalText trustAnchor, .number trustAnchor)]

section Resource

variable {index port trustAnchor : ℕ} {host path : Bytes} {enabled : Bool}

theorem spells_resourceJson (hhost : JsonText.Plain host) (hpath : JsonText.Plain path) :
    Spells (resourceJson index host port path enabled trustAnchor)
      (.object ((resourceFields index host port path enabled trustAnchor).map
        fun f => (ascii f.1, f.2.2))) := by
  refine spells_object (resourceFields index host port path enabled trustAnchor) ?_
  simp only [resourceFields, List.forall_mem_cons, List.not_mem_nil, false_implies, implies_true,
    and_true]
  exact ⟨⟨by simp [memberNames], spells_number _⟩,
    ⟨by simp [memberNames], spells_quoted hhost⟩,
    ⟨by simp [memberNames], spells_number _⟩,
    ⟨by simp [memberNames], spells_quoted hpath⟩,
    ⟨by simp [memberNames], spells_boolText _⟩,
    by simp [memberNames], spells_number _⟩

theorem length_resourceJson_le (hindex : index < 10) (hhost : host.length < 64)
    (hport : port < 10 ^ 5) (hpath : path.length < 80) (hanchor : trustAnchor < 10 ^ 3) :
    (resourceJson index host port path enabled trustAnchor).length ≤ 224 := by
  have hnames : [(ascii "index").length, (ascii "host").length, (ascii "port").length,
      (ascii "path").length, (ascii "enabled").length, (ascii "trust_anchor_id").length] =
      [5, 4, 4, 4, 7, 15] := rfl
  simp only [List.cons.injEq, and_true] at hnames
  have henabled := length_boolText_le enabled
  have hindexText : (decimalText index).length ≤ 1 := length_decimalText_le (by decide) hindex
  have hportText : (decimalText port).length ≤ 5 := length_decimalText_le (by decide) hport
  have hanchorText : (decimalText trustAnchor).length ≤ 3 :=
    length_decimalText_le (by decide) hanchor
  rw [resourceJson, length_object (by simp)]
  simp only [objectLength, List.map_cons, List.map_nil, List.sum_cons, List.sum_nil, hnames,
    length_quoted]
  omega

end Resource

def slotJson (slot : HealthCheckConfig.Resource × ℕ) : Bytes :=
  resourceJson slot.2 (cstr slot.1.host.toList) slot.1.port.toNat (cstr slot.1.path.toList)
    (decide (slot.1.enabled ≠ 0)) slot.1.trustAnchorId.toNat

def slotValue (slot : HealthCheckConfig.Resource × ℕ) : Json :=
  .object ((resourceFields slot.2 (cstr slot.1.host.toList) slot.1.port.toNat
    (cstr slot.1.path.toList) (decide (slot.1.enabled ≠ 0)) slot.1.trustAnchorId.toNat).map
      fun f => (ascii f.1, f.2.2))

theorem mem_occupiedSlots {s : HealthCheckConfig.Snapshot}
    {slot : HealthCheckConfig.Resource × ℕ} (h : slot ∈ occupiedSlots s) :
    ∃ hi : slot.2 < HealthCheckConfig.maxResources, slot.1 = s.resources[slot.2] ∧
      slot.1.occupied ≠ 0 := by
  obtain ⟨hmem, hoccupied⟩ := List.mem_filter.1 h
  obtain ⟨resource, index⟩ := slot
  obtain ⟨-, hindex, hresource⟩ := List.mem_zipIdx hmem
  have hi : index < HealthCheckConfig.maxResources := by
    rw [Vector.length_toList] at hindex
    omega
  exact ⟨hi, hresource, of_decide_eq_true hoccupied⟩

theorem length_occupiedSlots_le (s : HealthCheckConfig.Snapshot) :
    (occupiedSlots s).length ≤ HealthCheckConfig.maxResources := by
  refine (List.length_filter_le ..).trans ?_
  rw [List.length_zipIdx, Vector.length_toList]

theorem ofJson_slotValue {slot : HealthCheckConfig.Resource × ℕ}
    (h : slot.1.enabled = 0 ∨ slot.1.enabled = 1) :
    Monitored.ofJson (slotValue slot) = some (.of slot) := by
  simp only [slotValue, resourceFields, List.map_cons, List.map_nil, Monitored.ofJson, if_true,
    natural_number, Option.bind_eq_bind, Option.bind_some, flagOf_ne_zero h]
  rfl

/-- The text of the configuration. -/
theorem getHealthCheckConfig_eq {ram : Ram}
    (h : HealthCheckConfig.Presentable ram.health.snapshot) :
    let json := object [("period_seconds", decimalText ram.health.snapshot.periodSeconds.toNat),
      ("resources", array ((occupiedSlots ram.health.snapshot).map slotJson))]
    getHealthCheckConfig ram = respond 200 "OK" json ∧ json.length < responseSize - 192 := by
  have hloop : getHealthCheckConfig ram = respondList (responseSize - 192) "]\x7d"
      (appendAll (fun position slot =>
        append (responseSize - 192) (separated position (slotJson slot)))
        (occupiedSlots ram.health.snapshot) (ascii "\x7b\"period_seconds\":" ++
          decimalText ram.health.snapshot.periodSeconds.toNat ++ ascii ",\"resources\":[")) := rfl
  have hcount := length_occupiedSlots_le ram.health.snapshot
  have hperiod : (decimalText ram.health.snapshot.periodSeconds.toNat).length ≤ 10 :=
    length_decimalText_le (by decide) (UInt32.toNat_lt _ |>.trans (by decide))
  rw [hloop]
  refine respondList_eq (fun position slot => separated position (slotJson slot)) 225
    (fun slot _ _ used hfits => append_eq hfits) (fun slot hslot index => ?_) ?_ ?_
  · obtain ⟨hi, hslot, hoccupied⟩ := mem_occupiedSlots hslot
    have hreadable : HealthCheckConfig.Readable slot.1 := hslot ▸ h slot.2 hi (hslot ▸ hoccupied)
    have hhost : (cstr slot.1.host.toList).length < 64 := hreadable.host.2.1
    have hpath : (cstr slot.1.path.toList).length < 80 := hreadable.path.2.1
    have hlength : (slotJson slot).length ≤ 224 :=
      length_resourceJson_le (hi.trans (by decide)) hhost (slot.1.port.toNat_lt.trans (by decide))
        hpath (slot.1.trustAnchorId.toNat_lt.trans (by decide))
    have hcomma : (if index = 0 then [] else ascii ",").length ≤ 1 := by split <;> decide
    rw [separated, List.length_append]
    omega
  · have hstart : (ascii "\x7b\"period_seconds\":").length = 18 := rfl
    have hmiddle : (ascii ",\"resources\":[").length = 14 := rfl
    simp only [List.length_append, hstart, hmiddle, HealthCheckConfig.maxResources,
      responseSize] at *
    omega
  · have hstart : ascii "\x7b\"period_seconds\":" =
        0x7B :: (quoted (ascii "period_seconds") ++ [0x3A]) := by decide
    have hmiddle : ascii ",\"resources\":[" =
        0x2C :: (quoted (ascii "resources") ++ [0x3A, 0x5B]) := by decide
    rw [flatten_separated, hstart, hmiddle]
    simp [object, members, braces, array, List.intercalate_cons_cons]

/-- **The health-check configuration** is shown with its period and every occupied slot. -/
theorem getHealthCheckConfig_reports {ram : Ram}
    (hfit : HealthCheckConfig.Fit ram.health.snapshot)
    (h : HealthCheckConfig.Presentable ram.health.snapshot) :
    (getHealthCheckConfig ram).Reports Monitoring.ofJson (.of ram.health.snapshot) := by
  obtain ⟨hresponse, hshort⟩ := getHealthCheckConfig_eq h
  have hreadable : ∀ slot ∈ occupiedSlots ram.health.snapshot,
      HealthCheckConfig.Readable slot.1 := by
    intro slot hslot
    obtain ⟨hi, heq, hoccupied⟩ := mem_occupiedSlots hslot
    exact heq ▸ h slot.2 hi (heq ▸ hoccupied)
  have hspells : Spells (array ((occupiedSlots ram.health.snapshot).map slotJson))
      (.array ((occupiedSlots ram.health.snapshot).map slotValue)) :=
    spells_array fun slot hslot => spells_resourceJson (hreadable slot hslot).host.2.2
      (hreadable slot hslot).path.2.2
  have hbody := spells_object [("period_seconds",
      decimalText ram.health.snapshot.periodSeconds.toNat,
      .number ram.health.snapshot.periodSeconds.toNat), ("resources",
      array ((occupiedSlots ram.health.snapshot).map slotJson),
      .array ((occupiedSlots ram.health.snapshot).map slotValue))] (by
    simp only [List.forall_mem_cons, List.not_mem_nil, false_implies, implies_true, and_true]
    exact ⟨⟨by simp [memberNames], spells_number _⟩, by simp [memberNames], hspells⟩)
  have hslots : ((occupiedSlots ram.health.snapshot).map slotValue).mapM Monitored.ofJson =
      some ((occupiedSlots ram.health.snapshot).map Monitored.of) := by
    refine mapM_map Monitored.of fun slot hslot => ofJson_slotValue ?_
    obtain ⟨hi, heq, hoccupied⟩ := mem_occupiedSlots hslot
    exact heq ▸ (hfit.occupied slot.2 hi (heq ▸ hoccupied)).enabled
  rw [hresponse]
  refine .respond hbody hshort ?_
  simp only [List.map_cons, List.map_nil, Monitoring.ofJson, if_true, natural_number, hslots,
    Option.bind_eq_bind, Option.bind_some]
  rfl

/-! ## The recent results -/

/-- One result as a client reads it. -/
structure Outcome where
  sequence : ℕ
  timestamp : ℕ
  resourceIndex : ℕ
  status : Bytes
  httpStatus : ℕ
  elapsedMs : ℕ
  detail : ℤ
deriving DecidableEq

def Outcome.of (entry : HealthCheckLog.Entry) : Outcome where
  sequence := entry.sequence.toNat
  timestamp := entry.timestampUnix.toNat
  resourceIndex := entry.resourceIndex.toNat
  status := transportStatusText entry.status
  httpStatus := entry.httpStatus.toNat
  elapsedMs := entry.elapsedMs.toNat
  detail := entry.detail.toBitVec.toInt

def Outcome.ofJson : Json → Option Outcome
  | .object [(n₁, sequence), (n₂, timestamp), (n₃, resourceIndex), (n₄, .string status),
      (n₅, httpStatus), (n₆, elapsedMs), (n₇, .number detail)] =>
    if [n₁, n₂, n₃, n₄, n₅, n₆, n₇] = [ascii "sequence", ascii "timestamp",
        ascii "resource_index", ascii "status", ascii "http_status", ascii "elapsed_ms",
        ascii "detail"] then
      do some ⟨← natural sequence, ← natural timestamp, ← natural resourceIndex, status,
        ← natural httpStatus, ← natural elapsedMs, detail⟩
    else none
  | _ => none

def entryFields (entry : HealthCheckLog.Entry) : List (String × Bytes × Json) :=
  [("sequence", decimalText entry.sequence.toNat, .number entry.sequence.toNat),
    ("timestamp", decimalText entry.timestampUnix.toNat, .number entry.timestampUnix.toNat),
    ("resource_index", decimalText entry.resourceIndex.toNat,
      .number entry.resourceIndex.toNat),
    ("status", quoted (transportStatusText entry.status),
      .string (transportStatusText entry.status)),
    ("http_status", decimalText entry.httpStatus.toNat, .number entry.httpStatus.toNat),
    ("elapsed_ms", decimalText entry.elapsedMs.toNat, .number entry.elapsedMs.toNat),
    ("detail", integerText entry.detail.toBitVec.toInt, .number entry.detail.toBitVec.toInt)]

def entryValue (entry : HealthCheckLog.Entry) : Json :=
  .object ((entryFields entry).map fun f => (ascii f.1, f.2.2))

theorem transportStatusText_spec (status : UInt8) :
    JsonText.Plain (transportStatusText status) ∧ (transportStatusText status).length ≤ 17 := by
  have hstage := CallbackService.stage_characters status
  exact ⟨CallbackService.plain_of_letters hstage.1, hstage.2⟩

theorem spells_entryJson (entry : HealthCheckLog.Entry) :
    Spells (entryJson entry) (entryValue entry) := by
  refine spells_object (entryFields entry) ?_
  simp only [entryFields, List.forall_mem_cons, List.not_mem_nil, false_implies, implies_true,
    and_true]
  exact ⟨⟨by simp [memberNames], spells_number _⟩, ⟨by simp [memberNames], spells_number _⟩,
    ⟨by simp [memberNames], spells_number _⟩,
    ⟨by simp [memberNames], spells_quoted (transportStatusText_spec _).1⟩,
    ⟨by simp [memberNames], spells_number _⟩, ⟨by simp [memberNames], spells_number _⟩,
    by simp [memberNames], spells_integer _⟩

theorem length_entryJson_le (entry : HealthCheckLog.Entry) : (entryJson entry).length ≤ 163 := by
  obtain ⟨hsequence, htimestamp, hresource, hhttp, helapsed, hdetail⟩ :=
    CallbackService.length_event entry
  have hstatus := (transportStatusText_spec entry.status).2
  have hnames : [(ascii "sequence").length, (ascii "timestamp").length,
      (ascii "resource_index").length, (ascii "status").length, (ascii "http_status").length,
      (ascii "elapsed_ms").length, (ascii "detail").length] = [8, 9, 14, 6, 11, 10, 6] := rfl
  simp only [List.cons.injEq, and_true] at hnames
  have hjson : entryJson entry = object ((entryFields entry).map fun f => (f.1, f.2.1)) := rfl
  rw [hjson, length_object (by simp [entryFields])]
  simp only [objectLength, entryFields, List.map_cons, List.map_nil, List.sum_cons, List.sum_nil,
    hnames, length_quoted]
  omega

/-- An entry is on one line. -/
theorem lf_notMem_entryJson (entry : HealthCheckLog.Entry) : 0x0A ∉ entryJson entry := by
  have hnames : ∀ name ∈ ["sequence", "timestamp", "resource_index", "status", "http_status",
      "elapsed_ms", "detail"], 0x0A ∉ ascii name := by decide
  simp only [List.forall_mem_cons, List.not_mem_nil, false_implies, implies_true,
    and_true] at hnames
  obtain ⟨h₁, h₂, h₃, h₄, h₅, h₆, h₇⟩ := hnames
  have hstatus : 0x0A ∉ quoted (transportStatusText entry.status) := by
    simp only [quoted, List.mem_cons, List.mem_append, List.not_mem_nil, or_false, not_or]
    exact ⟨by decide, fun hc => absurd ((transportStatusText_spec _).1 _ hc).2.2 (by decide),
      by decide⟩
  have hdetail : 0x0A ∉ signedText entry.detail.toBitVec.toInt := by
    generalize entry.detail.toBitVec.toInt = n
    cases n with
    | ofNat n => exact lf_notMem_decimalText n
    | negSucc n =>
      show 0x0A ∉ integerText (.negSucc n)
      rw [JsonText.integerText_negSucc, List.mem_cons, not_or]
      exact ⟨by decide, lf_notMem_decimalText _⟩
  refine lf_notMem_object ?_
  simp only [List.forall_mem_cons, List.not_mem_nil, false_implies, implies_true, and_true]
  exact ⟨⟨h₁, lf_notMem_decimalText _⟩, ⟨h₂, lf_notMem_decimalText _⟩,
    ⟨h₃, lf_notMem_decimalText _⟩, ⟨h₄, hstatus⟩, ⟨h₅, lf_notMem_decimalText _⟩,
    ⟨h₆, lf_notMem_decimalText _⟩, h₇, hdetail⟩

theorem ofJson_entryValue (entry : HealthCheckLog.Entry) :
    Outcome.ofJson (entryValue entry) = some (.of entry) := by
  simp only [entryValue, entryFields, List.map_cons, List.map_nil, Outcome.ofJson, if_true,
    natural_number, Option.bind_eq_bind, Option.bind_some]
  rfl

/-- What `getLogs` answers with these entries. -/
def logsResponse (entries : List HealthCheckLog.Entry) : Response :=
  let list := appendAll (fun index entry => append logsJsonSize
    (separated index (entryJson entry))) entries (ascii "\x7b\"logs\":[")
  { respondList logsJsonSize "]\x7d" list with buffered := list.isSome }

theorem getLogs_eq (ram : Ram) : getLogs ram =
    HealthCheckLog.getRecent maxLogResults ram.log >>= fun entries =>
      pure (logsResponse entries, ram) := rfl

/-- The text of a list of results. -/
theorem logsResponse_eq {entries : List HealthCheckLog.Entry}
    (h : entries.length ≤ maxLogResults) :
    let json := object [("logs", array (entries.map entryJson))]
    logsResponse entries = { respond 200 "OK" json with buffered := true } ∧
      json.length < logsJsonSize := by
  have hopening : ascii "\x7b\"logs\":[" = 0x7B :: (quoted (ascii "logs") ++ [0x3A, 0x5B]) := by
    decide
  have hlength : (ascii "\x7b\"logs\":[").length = 9 := rfl
  obtain ⟨hresponse, hshort, hsome⟩ := namedList_eq logsJsonSize "logs" entries entryJson 163
    (f := fun index entry => append logsJsonSize (separated index (entryJson entry)))
    (fun entry _ index used hfits => append_eq hfits) (fun entry _ => length_entryJson_le entry)
    hopening (by
      rw [hlength]
      simp only [logsJsonSize, maxLogResults] at *
      omega)
  refine ⟨?_, hshort⟩
  rw [logsResponse]
  dsimp only
  rw [hresponse, hsome]

/-- A list of results is sent from a buffer of its own. -/
theorem complete_logs {json : Bytes} {members : List (Bytes × Json)}
    (htext : Spells json (.object members)) (hshort : json.length < logsJsonSize)
    (hline : 0x0A ∉ json) :
    Response.Complete false { respond 200 "OK" json with buffered := true } where
  shown := rfl
  unbroken _ := hline
  line := ok_mem
  text := ⟨members, htext⟩
  whole := by
    have hheader := Response.length_header
      (r := { respond 200 "OK" json with buffered := true }) ok_mem
    have hdigits : (decimalText json.length).length ≤ 4 :=
      length_decimalText_le (by decide) (hshort.trans (by decide))
    have hreason : (ascii "OK").length = 2 := rfl
    have hfits : ¬(Response.header { respond 200 "OK" json with buffered := true }).length ≥ 128 := by
      rw [hheader]
      simp only [respond, hreason]
      omega
    rw [Response.sent, if_pos rfl, if_neg hfits]
    rfl

theorem recentFrom_length {sector : TwoBank.Bank} {remaining room : ℕ} {c c' : Chip}
    {entries : List HealthCheckLog.Entry}
    (h : HealthCheckLog.recentFrom sector remaining room c = (some entries, c')) :
    entries.length ≤ room := by
  induction remaining generalizing room c entries with
  | zero =>
    cases h
    exact Nat.zero_le _
  | succ remaining ih =>
    cases room with
    | zero =>
      cases h
      exact Nat.zero_le _
    | succ room =>
      rw [HealthCheckLog.recentFrom] at h
      obtain ⟨⟨status, bytes⟩, c₁, -, h⟩ := bind_eq_some.1 h
      dsimp only at h
      split at h
      · cases h
        exact Nat.zero_le _
      · split at h
        · exact ih h
        · obtain ⟨rest, c₂, hrest, h⟩ := bind_eq_some.1 h
          cases h
          exact Nat.succ_le_succ (ih hrest)

/-- There is never more in the list than was asked for. -/
theorem getRecent_length {capacity : ℕ} {ram : HealthCheckLog.Ram} {c c' : Chip}
    {entries : List HealthCheckLog.Entry}
    (h : HealthCheckLog.getRecent capacity ram c = (some entries, c')) :
    entries.length ≤ capacity := by
  obtain ⟨scan, c₁, -, h⟩ := bind_eq_some.1 h
  obtain ⟨newer, c₂, hnewer, h⟩ := bind_eq_some.1 h
  obtain ⟨older, c₃, holder, h⟩ := bind_eq_some.1 h
  cases h
  have hfirst := recentFrom_length hnewer
  have hsecond := recentFrom_length holder
  rw [List.length_append]
  omega

/-- **The list of results** shows every entry that `HealthCheckLog_GetRecent` finds, whatever is
in the flash and whichever reads fail. -/
theorem getLogs_reports {ram ram' : Ram} {c c' : Chip} {response : Response}
    (h : getLogs ram c = (some (response, ram'), c')) :
    ∃ entries, HealthCheckLog.getRecent maxLogResults ram.log c = (some entries, c') ∧
      ram' = ram ∧ response.Reports (listMember "logs" Outcome.ofJson)
        (entries.map Outcome.of) := by
  rw [getLogs_eq] at h
  obtain ⟨entries, c₁, hrecent, h⟩ := bind_eq_some.1 h
  simp only [pure_apply, Prod.mk.injEq, Option.some.injEq] at h
  obtain ⟨⟨rfl, rfl⟩, rfl⟩ := h
  obtain ⟨hresponse, hshort⟩ := logsResponse_eq (getRecent_length hrecent)
  have hspells : Spells (array (entries.map entryJson)) (.array (entries.map entryValue)) :=
    spells_array fun entry _ => spells_entryJson entry
  have hbody := spells_object [("logs", array (entries.map entryJson),
      .array (entries.map entryValue))] (by simpa [memberNames] using hspells)
  refine ⟨entries, hrecent, rfl, ?_⟩
  have hline : 0x0A ∉ object [("logs", array (entries.map entryJson))] := by
    have hname : 0x0A ∉ ascii "logs" := by decide
    refine lf_notMem_object (List.forall_mem_singleton.2 ⟨hname, lf_notMem_array ?_⟩)
    simp only [List.mem_map, forall_exists_index, and_imp, forall_apply_eq_imp_iff₂]
    exact fun entry _ => lf_notMem_entryJson entry
  rw [hresponse]
  refine ⟨rfl, complete_logs hbody hshort hline, ?_⟩
  show (JsonText.parse (object [("logs", array (entries.map entryJson))])).bind _ = _
  refine (congrArg (Option.bind · (listMember "logs" Outcome.ofJson)) hbody.parse).trans ?_
  exact listMember_eq fun entry _ => ofJson_entryValue entry

/-! ## The sensors -/

/-- One sensor as a client reads it: its ROM in hexadecimal digits, and its temperature if it has
one. -/
structure Sensor where
  rom : Bytes
  centiDegrees : Option ℤ
  status : Bytes
deriving DecidableEq

def Sensor.of (m : Ds18b20.Measurement) : Sensor where
  rom := AuthService.hex m.rom.toList
  centiDegrees := if m.status = .ok then some m.temperatureCentiDegrees.toInt else none
  status := ds18b20StatusText m.status

def Sensor.ofJson : Json → Option Sensor
  | .object [(n₁, .string rom), (n₂, .number centiDegrees), (n₃, .string status)] =>
    if [n₁, n₂, n₃] = [ascii "rom", ascii "temperature_centi_degrees", ascii "status"] then
      some ⟨rom, some centiDegrees, status⟩
    else none
  | .object [(n₁, .string rom), (n₂, .string status)] =>
    if [n₁, n₂] = [ascii "rom", ascii "status"] then some ⟨rom, none, status⟩ else none
  | _ => none

/-- What `sensorJson` spells. -/
def sensorFields (m : Ds18b20.Measurement) : List (String × Bytes × Json) :=
  let rom := AuthService.hex m.rom.toList
  let status := ds18b20StatusText m.status
  if m.status = .ok then
    [("rom", quoted rom, .string rom), ("temperature_centi_degrees",
      signedText m.temperatureCentiDegrees.toInt,
      .number m.temperatureCentiDegrees.toInt),
      ("status", quoted status, .string status)]
  else [("rom", quoted rom, .string rom), ("status", quoted status, .string status)]

theorem sensorJson_eq (m : Ds18b20.Measurement) :
    sensorJson m = object ((sensorFields m).map fun f => (f.1, f.2.1)) := by
  unfold sensorJson sensorFields
  dsimp only
  split <;> rfl

theorem plain_hexDigit (n : UInt8) (h : n < 16) : AuthService.hexDigit n ≠ 0x22 ∧
    AuthService.hexDigit n ≠ 0x5C ∧ 0x20 ≤ AuthService.hexDigit n := by
  have hall : ∀ k < 16, AuthService.hexDigit (UInt8.ofNat k) ≠ 0x22 ∧
      AuthService.hexDigit (UInt8.ofNat k) ≠ 0x5C ∧
      0x20 ≤ AuthService.hexDigit (UInt8.ofNat k) := by decide
  have hn := hall n.toNat h
  rwa [UInt8.ofNat_toNat] at hn

theorem plain_hex (input : Bytes) : JsonText.Plain (AuthService.hex input) := by
  intro c hc
  obtain ⟨b, -, hb⟩ := List.mem_flatMap.1 hc
  have hhigh : b >>> 4 < 16 := by
    have := b.toNat_lt
    rw [UInt8.lt_iff_toNat_lt, UInt8.toNat_shiftRight]
    show b.toNat >>> 4 < 16
    rw [Nat.shiftRight_eq_div_pow]
    omega
  have hlow : b &&& 0x0F < 16 := by
    rw [UInt8.lt_iff_toNat_lt, UInt8.toNat_and]
    exact Nat.lt_of_le_of_lt Nat.and_le_right (by decide)
  rcases List.mem_cons.1 hb with rfl | hb
  · exact plain_hexDigit _ hhigh
  · rw [List.mem_singleton.1 hb]
    exact plain_hexDigit _ hlow

theorem ds18b20StatusText_spec (status : Ds18b20.Ds18b20Status) :
    JsonText.Plain (ds18b20StatusText status) ∧ (ds18b20StatusText status).length ≤ 9 := by
  cases status <;> decide

def sensorValue (m : Ds18b20.Measurement) : Json :=
  .object ((sensorFields m).map fun f => (ascii f.1, f.2.2))

theorem spells_sensorJson (m : Ds18b20.Measurement) : Spells (sensorJson m) (sensorValue m) := by
  rw [sensorJson_eq]
  refine spells_object (sensorFields m) ?_
  have hrom := spells_quoted (plain_hex m.rom.toList)
  have hstatus := spells_quoted (ds18b20StatusText_spec m.status).1
  unfold sensorFields
  dsimp only
  split
  · simp only [List.forall_mem_cons, List.not_mem_nil, false_implies, implies_true, and_true]
    exact ⟨⟨by simp [memberNames], hrom⟩, ⟨by simp [memberNames], spells_integer _⟩,
      by simp [memberNames], hstatus⟩
  · simp only [List.forall_mem_cons, List.not_mem_nil, false_implies, implies_true, and_true]
    exact ⟨⟨by simp [memberNames], hrom⟩, by simp [memberNames], hstatus⟩

theorem length_sensorJson_le (m : Ds18b20.Measurement) : (sensorJson m).length ≤ 90 := by
  have hnames : [(ascii "rom").length, (ascii "temperature_centi_degrees").length,
      (ascii "status").length] = [3, 25, 6] := rfl
  simp only [List.cons.injEq, and_true] at hnames
  have hrom : (AuthService.hex m.rom.toList).length = 16 := by
    rw [AuthService.length_hex, Vector.length_toList]
  have hstatus := (ds18b20StatusText_spec m.status).2
  have hlow := m.temperatureCentiDegrees.le_toInt
  have hhigh := m.temperatureCentiDegrees.toInt_lt
  have htemperature : (signedText m.temperatureCentiDegrees.toInt).length ≤ 6 :=
    JsonText.length_integerText_le (k := 5) (by decide) (by omega)
  have hne : ((sensorFields m).map fun f => (f.1, f.2.1)) ≠ [] := by
    unfold sensorFields
    dsimp only
    split <;> simp
  rw [sensorJson_eq, length_object hne]
  unfold sensorFields
  dsimp only
  split <;>
    · simp only [objectLength, List.map_cons, List.map_nil, List.sum_cons, List.sum_nil, hnames,
        length_quoted]
      omega

theorem ofJson_sensorValue (m : Ds18b20.Measurement) : Sensor.ofJson (sensorValue m) = some (.of m) := by
  unfold sensorValue sensorFields Sensor.of
  dsimp only
  split
  · rename_i hok
    simp only [List.map_cons, List.map_nil, Sensor.ofJson, if_true]
  · simp only [List.map_cons, List.map_nil, Sensor.ofJson, if_true]

/-- **The list of sensors** shows every measurement, as long as they come from one bus. -/
theorem getTemperature_reports {env : Env} (hcount : env.measurements.length ≤ 6) :
    (getTemperature env).Reports (listMember "sensors" Sensor.ofJson)
      (env.measurements.map Sensor.of) := by
  have hopening : ascii "\x7b\"sensors\":[" =
      0x7B :: (quoted (ascii "sensors") ++ [0x3A, 0x5B]) := by decide
  have hlength : (ascii "\x7b\"sensors\":[").length = 12 := rfl
  obtain ⟨hresponse, hshort, -⟩ := namedList_eq (responseSize - 192) "sensors"
    env.measurements sensorJson 90
    (f := fun index m => append (responseSize - 192) (separated index (sensorJson m)))
    (fun m _ index used hfits => append_eq hfits) (fun m _ => length_sensorJson_le m)
    hopening (by
      rw [hlength]
      simp only [responseSize]
      omega)
  have hspells : Spells (array (env.measurements.map sensorJson))
      (.array (env.measurements.map sensorValue)) := spells_array fun m _ => spells_sensorJson m
  have hbody := spells_object [("sensors", array (env.measurements.map sensorJson),
      .array (env.measurements.map sensorValue))] (by simpa [memberNames] using hspells)
  rw [show getTemperature env = _ from hresponse]
  exact .respond hbody hshort (listMember_eq fun m _ => ofJson_sensorValue m)

end HealthCheck.ApiService
