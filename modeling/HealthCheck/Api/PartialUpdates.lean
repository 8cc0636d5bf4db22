import HealthCheck.Api.JsonObject
import HealthCheck.Api.Routes
import HealthCheck.HealthCheckRequest
import HealthCheck.MasterSession
import HealthCheck.StoredConfigurations

/-!
# Partial updates

`PUT /api/v1/callback/config` and `PUT /api/v1/health-check/resources/…` take the members that the
body has and keep the others. All members are read before anything is stored, and what is stored
is checked as a whole.

* `Updates` — where a member of the new configuration comes from.
* `all_or_nothing` — an error that changes nothing, or an update of just these members that passes
  all checks.
-/

namespace HealthCheck.ApiService

open Nor hiding read driven_read read_ok read_cases
open CString Run TwoBank

/-! ## Members -/

/-- The name of a member in quotes occurs in the body. -/
def Occurs (json : Bytes) (key : String) : Prop := JsonText.quoted (ascii key) <:+: json

/-- A member has what was read where its quoted name occurs, and else it is kept. -/
structure Updates (json : Bytes) (key : String) (read kept : Prop) : Prop where
  read : Occurs json key → read
  kept : ¬Occurs json key → kept

theorem jsonHasKey_iff {json : Bytes} {key : String} (hshort : (ascii key).length ≤ 37) :
    jsonHasKey json (ascii key) = true ↔ Occurs json key := by
  have hlength : (ascii key).length + 2 < 40 := by omega
  rw [jsonHasKey, pattern_of_short hshort, Bool.and_eq_true, decide_eq_true_iff,
    Option.isSome_iff_ne_none, ne_eq, strstr_eq_none_iff, not_not]
  exact and_iff_right hlength

/-- A member that was read or kept. -/
theorem updates_of_member {α : Type} {json : Bytes} {key : String} {old new : α}
    {extracted : Option α} (hshort : (ascii key).length ≤ 37)
    (h : member json (ascii key) old extracted = some new) :
    Updates json key (extracted = some new) (new = old) := by
  have hkey : jsonHasKey json (ascii key) = true ↔ Occurs json key := jsonHasKey_iff hshort
  unfold member at h
  split at h
  · exact ⟨fun _ => h, fun hno => absurd (hkey.1 ‹_›) hno⟩
  · exact ⟨fun hocc => absurd (hkey.2 hocc) ‹_›, fun _ => (Option.some.inj h).symm⟩

theorem Updates.imp {json : Bytes} {key : String} {p p' q q' : Prop} (h : Updates json key p q)
    (hp : p → p') (hq : q → q') : Updates json key p' q' :=
  ⟨fun hocc => hp (h.read hocc), fun hno => hq (h.kept hno)⟩

/-! ## All or nothing -/

/-- A route that is answered with an error and touches nothing, or with 200 and then has done
something. -/
def AllOrNothing (x : Route) (ram : Ram) (c : Chip) (Done : Ram → Prop) : Prop :=
  ∃ response ram' c', x c = (some (response, ram'), c') ∧
    (400 ≤ response.status ∧ ram' = ram ∧ c' = c ∨ response.status = 200 ∧ Done ram')

section Refusals

variable {ram : Ram} {c : Chip} {Done : Ram → Prop}

theorem AllOrNothing.refused {response : Response} (h : 400 ≤ response.status) :
    AllOrNothing (pure (response, ram)) ram c Done :=
  ⟨response, ram, c, rfl, .inl ⟨h, rfl, rfl⟩⟩

/-- The checks before a route refuse it or let it through. -/
theorem AllOrNothing.guarded {env : Env} {request : Request}
    {route : AuthService.Principal → Route}
    (h : ∀ principal, AllOrNothing (route principal) ram c Done) :
    AllOrNothing (guarded env request ram route) ram c Done := by
  by_cases hadmin : Administrator env request ram
  · obtain ⟨principal, hprincipal, hrole⟩ := hadmin
    rw [guarded_of_administrator hprincipal hrole]
    exact h principal
  · rcases guarded_of_not route hadmin with hrejected | hforbidden
    · rw [hrejected]
      exact .refused (by decide)
    · rw [hforbidden]
      exact .refused (by decide)

end Refusals

/-! ## The callback -/

/-- What the callback store checks. -/
structure CheckedCallback (config : CallbackConfig.Config) : Prop where
  host : 1 ≤ (cstr config.host.toList).length ∧ (cstr config.host.toList).length ≤ 63 ∧
    ∀ c ∈ cstr config.host.toList, CallbackConfig.isHostCharacter c = true
  path : (cstr config.path.toList).head? = some 0x2F ∧ (cstr config.path.toList).length ≤ 79 ∧
    ∀ c ∈ cstr config.path.toList, 0x21 ≤ c ∧ c ≤ 0x7E ∧ c ≠ 0x22 ∧ c ≠ 0x5C ∧ c ≠ 0x23
  port : config.port ≠ 0
  enabled : config.enabled ≤ 1
  method : config.method ≤ 1
  anchor : config.trustAnchorId ≤ 3

/-- A text in an array begins with the first character of the array. -/
theorem cstr_toList {n : ℕ} (hn : 0 < n) (array : Vector UInt8 n) (h : array[0] ≠ 0) :
    ∃ rest, cstr array.toList = array[0] :: rest := by
  obtain ⟨⟨list⟩, rfl⟩ := array
  cases list with
  | nil => cases hn
  | cons first list => exact ⟨_, List.takeWhile_cons_of_pos (by simpa using h)⟩

theorem checked_of_fieldsValid {config : CallbackConfig.Config}
    (h : CallbackConfig.fieldsValid config = true) : CheckedCallback config := by
  simp only [CallbackConfig.fieldsValid, Bool.and_eq_true, decide_eq_true_eq] at h
  obtain ⟨⟨⟨⟨⟨henabled, hmethod⟩, hport⟩, hanchor⟩, hhost⟩, hpath⟩ := h
  simp only [CallbackConfig.hostValid, CallbackConfig.pathValid, Bool.and_eq_true,
    decide_eq_true_eq, CallbackConfig.terminated_iff] at hhost hpath
  obtain ⟨hfirst, hhostEnds, hhostCharacters⟩ := hhost
  obtain ⟨hslash, hpathEnds, hpathCharacters⟩ := hpath
  obtain ⟨rest, hhostText⟩ := cstr_toList (by decide) config.host hfirst
  obtain ⟨rest', hpathText⟩ := cstr_toList (by decide) config.path (by rw [hslash]; decide)
  refine ⟨⟨?_, ?_, hhostCharacters⟩, ⟨?_, ?_, fun c hc => ?_⟩, hport, henabled, hmethod, hanchor⟩
  · rw [hhostText]
    exact Nat.le_add_left 1 _
  · exact Nat.le_of_lt_succ (length_cstr_lt hhostEnds)
  · rw [hpathText, hslash]
    rfl
  · exact Nat.le_of_lt_succ (length_cstr_lt hpathEnds)
  · have hcharacter := hpathCharacters c hc
    simp only [CallbackConfig.isPathCharacter, Bool.and_eq_true, decide_eq_true_eq] at hcharacter
    obtain ⟨⟨⟨⟨hlow, hhigh⟩, hquote⟩, hbackslash⟩, hhash⟩ := hcharacter
    exact ⟨hlow, hhigh, hquote, hbackslash, hhash⟩

/-- A text that is stored over an array is what the array then denotes. -/
theorem cstr_overwritten {n : ℕ} {array : Vector UInt8 n} {text : Bytes} (hlength : text.length < n)
    (hzero : 0 ∉ text) : cstr (overwritten array text).toList = text := by
  have hprefix : text ++ [0] <+: (overwritten array text).toList := by
    refine List.prefix_iff_eq_take.2 (List.ext_getElem (by simp; omega) fun i hi hi' => ?_)
    simp only [List.getElem_take, Vector.getElem_toList, overwritten, Vector.getElem_ofFn]
    exact (List.getD_eq_getElem _ _ hi).symm
  obtain ⟨rest, hlist⟩ := hprefix
  rw [← hlist, List.append_assoc, List.singleton_append, cstr_append_zero hzero]

/-- What has become of the configuration. -/
structure UpdatedCallback (json : Bytes) (ram : Ram) (old new : CallbackConfig.Config) : Prop where
  enabled : Updates json "enabled"
    (jsonBoolean json (ascii "enabled") = some (decide (new.enabled ≠ 0)))
    (new.enabled = old.enabled)
  method : Updates json "method" (jsonString json (ascii "method") 8 = some (methodText new.method))
    (new.method = old.method)
  host : Updates json "host"
    (jsonString json (ascii "host") CallbackConfig.hostSize = some (cstr new.host.toList))
    (new.host = old.host)
  path : Updates json "path"
    (jsonString json (ascii "path") CallbackConfig.pathSize = some (cstr new.path.toList))
    (new.path = old.path)
  port : Updates json "port" (jsonNumber json (ascii "port") = some new.port.toNat)
    (new.port = old.port)
  trustAnchorId : Updates json "trust_anchor_id"
    (jsonNumber json (ascii "trust_anchor_id") = some new.trustAnchorId.toNat)
    (new.trustAnchorId = old.trustAnchorId)
  reserved : new.reserved = old.reserved
  checked : CheckedCallback new
  anchored : Anchored new.trustAnchorId ram

/-- An array member that was read or kept. -/
theorem updates_of_arrayMember {n : ℕ} {json : Bytes} {key : String} {old new : Vector UInt8 n}
    (hshort : (ascii key).length ≤ 37) (h : arrayMember json (ascii key) old = some new) :
    Updates json key (jsonString json (ascii key) n = some (cstr new.toList)) (new = old) := by
  refine (updates_of_member hshort h).imp (fun hread => ?_) id
  obtain ⟨text, htext, rfl⟩ := Option.map_eq_some_iff.1 hread
  obtain ⟨hplain, hlength⟩ := jsonString_eq_some htext
  rw [cstr_overwritten hlength (JsonText.zero_notMem_of_plain hplain)]
  exact htext

/-- The checks of the numbers in front of the stores. -/
theorem number_checks {port id : ℕ} {ram : Ram} (hport : ¬(port = 0 ∨ port > 65535))
    (hanchor : ¬unknownAnchor id ram) : (UInt16.ofNat port).toNat = port ∧
      (UInt8.ofNat id).toNat = id := by
  have hid : id ≤ TlsTrustStore.maxPersisted := by
    simp only [unknownAnchor, Bool.or_eq_true, decide_eq_true_eq, not_or, not_lt] at hanchor
    exact hanchor.1
  have hport : port < 65536 := by omega
  exact ⟨UInt16.toNat_ofNat_of_lt' hport,
    UInt8.toNat_ofNat_of_lt' (hid.trans_lt (by decide))⟩

/-- A valid configuration is stored while every command completes. -/
theorem set_calm {config : CallbackConfig.Config} (h : CallbackConfig.fieldsValid config = true)
    (ram : CallbackConfig.Ram) (m : Cells) (log : List Command) :
    ∃ ram' c', CallbackConfig.set config ram ⟨m, {}, log⟩ = (some (.ok, ram'), c') ∧
      ram'.snapshot.config = config := by
  obtain ⟨status, ram', log', hsave, hok⟩ := SectorStore.save_calm CallbackConfig.sound
    { ram.snapshot with config := config } ram m log
  obtain rfl : status = .ok := hok.mpr ((CallbackConfig.valid_stamp _).trans h)
  generalize (⟨_, {}, log'⟩ : Chip) = c' at hsave
  have hset : CallbackConfig.set config ram ⟨m, {}, log⟩ = (some (.ok, ram'), c') := by
    rw [CallbackConfig.set, h, Bool.not_true, if_neg Bool.false_ne_true]
    exact bind_of_some hsave
  refine ⟨ram', c', hset, ?_⟩
  rcases SectorStore.save_eq_some CallbackConfig.sound hsave with ⟨-, -, rfl, -⟩ | ⟨hne, -⟩
  · rfl
  · exact absurd rfl hne

/-- The last step: the configuration is refused by the store, or stored. -/
theorem stored_or_refused {ram : Ram} {config : CallbackConfig.Config} {m : Cells}
    {log : List Command} {Done : Ram → Prop} (response : Status → Response)
    (hok : (response .ok).status = 200) (herror : (response .error).status = 400)
    (hdone : CallbackConfig.fieldsValid config = true → ∀ callback : CallbackConfig.Ram,
      callback.snapshot.config = config → Done { ram with callback := callback }) :
    AllOrNothing (CallbackConfig.set config ram.callback >>= fun r =>
      pure (response r.1, { ram with callback := r.2 })) ram ⟨m, {}, log⟩ Done := by
  cases hfields : CallbackConfig.fieldsValid config with
  | false =>
    rw [CallbackConfig.set, hfields, Bool.not_false, if_pos rfl]
    exact ⟨_, _, _, rfl, .inl ⟨herror.ge, rfl, rfl⟩⟩
  | true =>
    obtain ⟨callback, c', hset, hsnapshot⟩ := set_calm hfields ram.callback m log
    exact ⟨_, _, c', bind_of_some hset, .inr ⟨hok, hdone hfields callback hsnapshot⟩⟩

theorem methodText_injective {a b : UInt8} (ha : a ≤ 1) (hb : b ≤ 1)
    (h : methodText a = methodText b) : a = b := by
  have hcases (c : UInt8) (hc : c ≤ 1) : c = 0 ∨ c = 1 := by
    have hnat : c.toNat ≤ 1 := hc
    exact (Nat.le_one_iff_eq_zero_or_eq_one.1 hnat).imp UInt8.toNat_inj.1 UInt8.toNat_inj.1
  rcases hcases a ha with rfl | rfl <;> rcases hcases b hb with rfl | rfl
  · rfl
  · exact absurd h (by decide)
  · exact absurd h (by decide)
  · rfl

/-- **The callback configuration** is updated as a whole, or not at all. -/
theorem putCallbackConfig_all_or_nothing {ram : Ram} (json : Bytes) (m : Cells)
    (log : List Command)
    (hvalid : CallbackConfig.fieldsValid (CallbackConfig.get ram.callback) = true) :
    AllOrNothing (putCallbackConfig json ram) ram ⟨m, {}, log⟩ fun ram' =>
      ∃ callback, ram' = { ram with callback := callback } ∧ UpdatedCallback json ram
        (CallbackConfig.get ram.callback) (CallbackConfig.get callback) := by
  unfold putCallbackConfig
  dsimp only
  generalize CallbackConfig.get ram.callback = old at hvalid ⊢
  split
  · exact .refused (by decide)
  rename_i hmembers
  split
  · exact .refused (by decide)
  rename_i hmethods
  split
  · exact .refused (by decide)
  rename_i hports
  split
  · exact .refused (by decide)
  rename_i hanchors
  obtain ⟨hportValue, hanchorValue⟩ := number_checks hports hanchors
  refine stored_or_refused (fun status => if status ≠ .ok then badRequest "invalid_request"
    else respond 200 "OK" (object [("updated", boolText true)])) rfl rfl
    fun hfields callback hcallback => ⟨callback, rfl, ?_⟩
  rw [CallbackConfig.get, hcallback]
  simp only [callbackMembers, Option.bind_eq_bind, Option.bind_eq_some_iff, Option.pure_def,
    Option.some.injEq, Prod.mk.injEq] at hmembers
  obtain ⟨enabled, henabled, method, hmethod, host, hhost, path, hpath, port, hport, trustAnchor,
    hanchor, rfl, rfl, rfl, rfl, rfl, rfl⟩ := hmembers
  have hchecked := checked_of_fieldsValid hfields
  have hold := checked_of_fieldsValid hvalid
  refine ⟨?_, ?_, updates_of_arrayMember (by decide) hhost,
    updates_of_arrayMember (by decide) hpath, ?_, ?_, rfl, hchecked, anchored_ofNat hanchors⟩
  · refine (updates_of_member (by decide) henabled).imp (fun h => ?_) id
    obtain ⟨enabled, hread, rfl⟩ := Option.map_eq_some_iff.1 h
    rw [hread]
    cases enabled <;> rfl
  · have hspelled : methodText (if method = ascii "POST" then CallbackConfig.methodPost
        else CallbackConfig.methodGet) = method := by
      split
      · rw [‹method = ascii "POST"›]
        rfl
      · rename_i hpost
        by_cases hget : method = ascii "GET"
        · rw [hget]
          rfl
        · exact absurd ⟨hget, hpost⟩ hmethods
    refine (updates_of_member (by decide) hmethod).imp (fun h => ?_) fun h => ?_
    · rw [h]
      exact congrArg some hspelled.symm
    · exact methodText_injective hchecked.method hold.method (hspelled.trans h)
  · refine (updates_of_member (by decide) hport).imp (fun h => ?_) fun h => ?_
    · rw [h, hportValue]
    · exact UInt16.toNat_inj.1 (hportValue.trans h)
  · refine (updates_of_member (by decide) hanchor).imp (fun h => ?_) fun h => ?_
    · rw [h, hanchorValue]
    · exact UInt8.toNat_inj.1 (hanchorValue.trans h)

/-! ## A resource -/

/-- What has become of a resource. -/
structure UpdatedResource (json : Bytes) (ram : Ram) (old new : HealthCheckConfig.Resource) :
    Prop where
  host : Updates json "host"
    (jsonString json (ascii "host") HealthCheckConfig.hostSize = some (cstr new.host.toList))
    (cstr new.host.toList = cstr old.host.toList)
  path : Updates json "path"
    (jsonString json (ascii "path") HealthCheckConfig.pathSize = some (cstr new.path.toList))
    (cstr new.path.toList = cstr old.path.toList)
  port : Updates json "port" (jsonNumber json (ascii "port") = some new.port.toNat)
    (new.port = old.port)
  enabled : Updates json "enabled"
    (jsonBoolean json (ascii "enabled") = some (decide (new.enabled ≠ 0)))
    (new.enabled = old.enabled)
  trustAnchorId : Updates json "trust_anchor_id"
    (jsonNumber json (ascii "trust_anchor_id") = some new.trustAnchorId.toNat)
    (new.trustAnchorId = old.trustAnchorId)
  occupied : new.occupied = old.occupied
  reserved : new.reserved = old.reserved
  checked : new.Occupied
  anchored : Anchored new.trustAnchorId ram

/-- What has become of the configuration: one resource of it has changed. -/
structure UpdatedHealth (json : Bytes) (index : ℕ) (ram : Ram)
    (old new : HealthCheckConfig.Snapshot) : Prop where
  slot : ∃ h : index < HealthCheckConfig.maxResources,
    UpdatedResource json ram old.resources[index] new.resources[index]
  others : ∀ i (h : i < HealthCheckConfig.maxResources), i ≠ index →
    new.resources[i] = old.resources[i]
  period : new.periodSeconds = old.periodSeconds

/-- What accepted members make of a resource. -/
theorem updated_filled {json : Bytes} {ram : Ram} {old : HealthCheckConfig.Resource}
    (hold : old.Occupied) {host path : Bytes} {port trustAnchor : ℕ} {enabled : Bool}
    (hmembers : resourceMembers json old = some (host, path, port, enabled, trustAnchor))
    (hports : ¬(port = 0 ∨ port > 65535)) (hanchors : ¬unknownAnchor trustAnchor ram)
    (hvalid : HealthCheckConfig.argumentsValid host (UInt16.ofNat port) path
      (UInt8.ofNat trustAnchor) = true) :
    UpdatedResource json ram old (HealthCheckConfig.filled old host (UInt16.ofNat port) path
      enabled (UInt8.ofNat trustAnchor)) := by
  obtain ⟨hportValue, hanchorValue⟩ := number_checks hports hanchors
  simp only [resourceMembers, Option.bind_eq_bind, Option.bind_eq_some_iff, Option.pure_def,
    Option.some.injEq, Prod.mk.injEq] at hmembers
  obtain ⟨host, hhost, path, hpath, port, hport, enabled, henabled, trustAnchor, hanchor, rfl, rfl,
    rfl, rfl, rfl⟩ := hmembers
  have hhostZero := zero_notMem_of_textAsked (textAsked_member hhost)
  have hpathZero := zero_notMem_of_textAsked (textAsked_member hpath)
  have hchecked : (HealthCheckConfig.filled old host (UInt16.ofNat port) path enabled
      (UInt8.ofNat trustAnchor)).Occupied :=
    HealthCheckConfig.occupied_filled hhostZero hpathZero hvalid
  simp only [HealthCheckConfig.argumentsValid, Bool.and_eq_true, decide_eq_true_eq] at hvalid
  have hhostText : cstr (charArray HealthCheckConfig.hostSize host).toList = host :=
    cstr_charArray hvalid.1.2 hhostZero
  have hpathText : cstr (charArray HealthCheckConfig.pathSize path).toList = path :=
    cstr_charArray hvalid.2 hpathZero
  refine ⟨?_, ?_, ?_, ?_, ?_, rfl, rfl, hchecked, anchored_ofNat hanchors⟩
  · refine (updates_of_member (by decide) hhost).imp (fun h => ?_) fun h => ?_
    · rw [h]
      exact congrArg some hhostText.symm
    · refine hhostText.trans (h.trans (List.take_of_length_le ?_))
      exact Nat.le_pred_of_lt (length_cstr_lt hold.host.1)
  · refine (updates_of_member (by decide) hpath).imp (fun h => ?_) fun h => ?_
    · rw [h]
      exact congrArg some hpathText.symm
    · refine hpathText.trans (h.trans (List.take_of_length_le ?_))
      exact Nat.le_pred_of_lt (length_cstr_lt hold.path.1)
  · refine (updates_of_member (by decide) hport).imp (fun h => ?_) fun h => ?_
    · rw [h]
      exact congrArg some hportValue.symm
    · exact UInt16.toNat_inj.1 (hportValue.trans h)
  · refine (updates_of_member (by decide) henabled).imp (fun h => ?_) fun h => ?_
    · rw [h]
      cases enabled <;> rfl
    · show (if enabled then (1 : UInt8) else 0) = old.enabled
      rcases hold.enabled with hzero | hone
      · rw [h, hzero]
        rfl
      · rw [h, hone]
        rfl
  · refine (updates_of_member (by decide) hanchor).imp (fun h => ?_) fun h => ?_
    · rw [h]
      exact congrArg some hanchorValue.symm
    · exact UInt8.toNat_inj.1 (hanchorValue.trans h)

/-- **A resource** is updated as a whole, or not at all. -/
theorem putResource_all_or_nothing {ram : Ram} (json : Bytes) (index : ℕ) (m : Cells)
    (log : List Command) (hfit : HealthCheckConfig.Fit ram.health.snapshot) :
    AllOrNothing (putResource json index ram) ram ⟨m, {}, log⟩ fun ram' =>
      ∃ health, ram' = { ram with health := health } ∧
        UpdatedHealth json index ram ram.health.snapshot health.snapshot := by
  unfold putResource
  dsimp only
  split
  · exact .refused (by decide)
  rename_i hoccupied
  obtain ⟨hindex, hslot⟩ := HealthCheckConfig.getD_occupied hoccupied
  rw [hslot] at hoccupied ⊢
  have hold := hfit.occupied index hindex hoccupied
  split
  · exact .refused (by decide)
  rename_i host path port enabled trustAnchor hmembers
  split
  · exact .refused (by decide)
  rename_i hports
  split
  · exact .refused (by decide)
  rename_i hanchors
  cases hvalid : HealthCheckConfig.argumentsValid host (UInt16.ofNat port) path
    (UInt8.ofNat trustAnchor) with
  | false =>
    rw [HealthCheckConfig.updateResource, dif_pos hindex, hvalid, Bool.not_false, if_pos rfl]
    exact ⟨_, _, _, rfl, .inl ⟨show 400 ≤ 400 from le_rfl, rfl, rfl⟩⟩
  | true =>
    have hedit : HealthCheckConfig.edited (.updateResource index host (UInt16.ofNat port) path
        enabled (UInt8.ofNat trustAnchor)) ram.health.snapshot = .ok { ram.health.snapshot with
          resources := ram.health.snapshot.resources.set index (HealthCheckConfig.filled
            ram.health.snapshot.resources[index] host (UInt16.ofNat port) path enabled
            (UInt8.ofNat trustAnchor)) } := by
      rw [HealthCheckConfig.edited, dif_pos hindex, hvalid, Bool.not_true,
        if_neg Bool.false_ne_true, if_neg hoccupied]
    obtain ⟨health, c', happly, hsnapshot⟩ := HealthCheckConfig.apply_calm hedit
      (HealthCheckConfig.periodValid_iff.2 hfit.period) m log
    have hupdate : HealthCheckConfig.updateResource index host (UInt16.ofNat port) path enabled
        (UInt8.ofNat trustAnchor) ram.health ⟨m, {}, log⟩ = (some (.ok, health), c') := happly
    refine ⟨_, _, c', bind_of_some hupdate, .inr ⟨rfl, health, rfl, ?_⟩⟩
    rw [hsnapshot]
    refine ⟨⟨hindex, ?_⟩, fun i hi hne => Vector.getElem_set_ne hindex hi (Ne.symm hne), rfl⟩
    have hset : (HealthCheckConfig.stamp { ram.health.snapshot with
        resources := ram.health.snapshot.resources.set index (HealthCheckConfig.filled
          ram.health.snapshot.resources[index] host (UInt16.ofNat port) path enabled
          (UInt8.ofNat trustAnchor)) }).resources[index] = HealthCheckConfig.filled
          ram.health.snapshot.resources[index] host (UInt16.ofNat port) path enabled
          (UInt8.ofNat trustAnchor) := Vector.getElem_set_self hindex
    rw [hset]
    exact updated_filled hold hmembers hports hanchors hvalid

/-! ## Every state reached -/

/-- **Partial updates are all or nothing**, in every state that a device reaches from erased flash,
whatever flash commands fail or lose power on the way, while what is cut off fails its checksum,
and for every request and every body. An error leaves the variables and the flash as they are.
Otherwise the members whose quoted names occur in the body have the values that their extractors
read there, all else is as it was, and what is stored passes the checks. -/
theorem all_or_nothing {events : List Device.Event}
    (hevents : Along Device.step Device.Untorn Device.start events) {ram : Ram}
    (hram : (run Device.step Device.start events).ram = some ram) (env : Env) (request : Request)
    (body : Bytes) :
    (request.is "PUT" "/api/v1/callback/config" →
      AllOrNothing (dispatch env request body ram) ram
        ⟨(run Device.step Device.start events).cells, {}, []⟩ fun ram' =>
          ∃ callback, ram' = { ram with callback := callback } ∧ UpdatedCallback (cstr body) ram
            (CallbackConfig.get ram.callback) (CallbackConfig.get callback)) ∧
    (request.under "PUT" "/api/v1/health-check/resources/" →
      AllOrNothing (dispatch env request body ram) ram
        ⟨(run Device.step Device.start events).cells, {}, []⟩ fun ram' =>
          ∃ index health, pathNumber (HealthCheckConfig.maxResources - 1)
              (request.behind "/api/v1/health-check/resources/") = some index ∧
            ram' = { ram with health := health } ∧
            UpdatedHealth (cstr body) index ram ram.health.snapshot health.snapshot) := by
  have hconfigured := Device.configured_run hevents
  refine ⟨fun hroute => ?_, fun hroute => ?_⟩
  · rw [dispatch_putCallbackConfig hroute]
    exact .guarded fun _ =>
      putCallbackConfig_all_or_nothing (cstr body) _ [] (hconfigured.callback ram hram)
  · rw [dispatch_put .resources hroute]
    refine .guarded fun _ => ?_
    rw [Collection.put]
    cases hindex : pathNumber (HealthCheckConfig.maxResources - 1)
      (request.behind "/api/v1/health-check/resources/") with
    | none => exact .refused (by decide)
    | some index =>
      obtain ⟨response, ram', c', hrun, hcases⟩ :=
        putResource_all_or_nothing (cstr body) index _ [] (hconfigured.health ram hram)
      refine ⟨response, ram', c', hrun, hcases.imp_right ?_⟩
      rintro ⟨hstatus, health, hsame, hupdated⟩
      exact ⟨hstatus, index, health, rfl, hsame, hupdated⟩

/-- The run of the master leaves nothing torn. -/
theorem untorn_masterRun : Along Device.step Device.Untorn Device.start Device.masterRun := by
  refine Device.along_masterRun (fun d e he _ _ => .of_calm (Device.calm_master he))
    fun d ram _ _ hram hsessions =>
      ⟨Device.torn_cutPeriod hram hsessions .health _, fun x hx => .inl ?_⟩
  rw [Device.step_cutPeriod hram hsessions, SectorStore.target_eq_address] at hx
  rcases Bank.eq_or_other x (HealthCheckConfig.sectorStore.activeBank ram.health).other with
    rfl | rfl
  · have hzeroed := HealthCheckConfig.unmigratable_zeroed
      (HealthCheckConfig.sectorStore.activeBank ram.health).other d.cells
    exact absurd hx (by rw [hzeroed]; exact Bool.false_ne_true)
  · rwa [HealthCheckConfig.legacyLoad_congr
      (SectorStore.zeroed_other HealthCheckConfig.sound _ d.cells)] at hx

/-- The request to disable the resource of the compiled default. -/
def disableRequest : Request := Device.masterRequest "PUT" "/api/v1/health-check/resources/0"

def disableBody : Bytes := object [("enabled", boolText false)]

/-- The master sends it when it has logged in again behind a save that lost power. -/
theorem all_or_nothing_master :
    ∃ ram, (run Device.step Device.start Device.masterRun).ram = some ram ∧
      Administrator masterEnv disableRequest ram ∧
      AllOrNothing (dispatch masterEnv disableRequest disableBody ram) ram
        ⟨(run Device.step Device.start Device.masterRun).cells, {}, []⟩ fun ram' =>
          ∃ index health, pathNumber (HealthCheckConfig.maxResources - 1)
              (disableRequest.behind "/api/v1/health-check/resources/") = some index ∧
            ram' = { ram with health := health } ∧
            UpdatedHealth (cstr disableBody) index ram ram.health.snapshot health.snapshot := by
  obtain ⟨-, ram, hram, hsessions⟩ := Device.run_masterRun
  exact ⟨ram, hram, administrator_master rfl hsessions,
    (all_or_nothing untorn_masterRun hram masterEnv disableRequest disableBody).2 (by decide)⟩

end HealthCheck.ApiService
