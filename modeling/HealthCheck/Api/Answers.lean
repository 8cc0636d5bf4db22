import HealthCheck.Api.Replies

/-!
# Every response is complete

Whatever is asked and whatever the flash does, each route that comes to its end sends a known
status line with a whole JSON object behind it.

* `Answers` — a route all of whose responses are complete.
* `answers_dispatch` — `apiService_Dispatch` is one, with texts that can be shown.
-/

namespace HealthCheck.ApiService

open Nor hiding read driven_read read_ok read_cases
open CString
open JsonText (Json Spells spells_number)

/-! ## Routes -/

/-- Whatever the flash does, a route that comes to its end sends a complete response, with its body
or without. -/
def Answers (head : Bool) (x : Route) : Prop :=
  ∀ c r c', x c = (some r, c') → r.1.Complete head

namespace Answers

variable {head : Bool}

theorem pure {response : Response} {ram : Ram} (h : response.Complete head) :
    Answers head (Pure.pure (response, ram)) := by
  intro c r c' hx
  cases hx
  exact h

theorem bind {α : Type} {x : FlashM α} {f : α → Route}
    (h : ∀ c a c', x c = (some a, c') → Answers head (f a)) : Answers head (x >>= f) := by
  intro c r c' hx
  obtain ⟨a, c₁, ha, hf⟩ := bind_eq_some.1 hx
  exact h c a c₁ ha c₁ r c' hf

theorem ite {p : Prop} [Decidable p] {x y : Route} (hx : p → Answers head x)
    (hy : ¬p → Answers head y) : Answers head (if p then x else y) := by
  split
  · exact hx ‹_›
  · exact hy ‹_›

theorem administrator {principal : AuthService.Principal} {ram : Ram} {route : Route}
    (h : Answers false route) : Answers false (ApiService.administrator principal ram route) := by
  unfold ApiService.administrator
  split
  · exact .pure forbidden_complete
  · exact h

end Answers

section Tokens

variable (env : Env) (json : Bytes) (request : Request) (ram : Ram)

theorem postToken_complete : (postToken env json ram).1.Complete false := by
  unfold postToken
  split
  · refine issued_complete (by simp [errorCodes]) fun pair hpair => ?_
    unfold AuthService.login at hpair
    dsimp only at hpair
    split at hpair
    · cases hpair
    · exact readable_issue hpair
  · exact badRequest_complete (by simp [errorCodes])

theorem postRefresh_complete : (postRefresh env json ram).1.Complete false := by
  unfold postRefresh
  split
  · exact badRequest_complete (by simp [errorCodes])
  · refine issued_complete (by simp [errorCodes]) fun pair hpair => ?_
    unfold AuthService.refresh at hpair
    dsimp only at hpair
    split at hpair
    · cases hpair
    · split at hpair
      · cases hpair
      · split at hpair
        · cases hpair
        · exact readable_issue hpair

theorem postRevoke_complete : (postRevoke env request ram).1.Complete false := by
  unfold postRevoke
  dsimp only
  split
  · exact unauthorized_complete (by simp [errorCodes])
  · exact object_complete [("revoked", boolText true, .boolean true)] ok_mem (by simp)
      (.cons (by simp [memberNames]) (spells_boolText _) .nil) (by decide)

theorem postBuzzerTest_complete : (postBuzzerTest json ram).1.Complete false := by
  have hbuzzer : buzzerUnavailable.Complete false := unavailable_complete (by simp [errorCodes])
  unfold postBuzzerTest
  split
  · exact badRequest_complete (by simp [errorCodes])
  · split
    · dsimp only
      split
      · exact hbuzzer
      · exact object_complete [("scheduled", boolText true, .boolean true),
          ("pattern", quoted (ascii "alert"), .string (ascii "alert"))] accepted_mem (by simp)
          (.cons (by simp [memberNames]) (spells_boolText _) <| .cons (by simp [memberNames])
            (spells_quoted (plain_words "alert" (by simp)).1) .nil) (by decide)
    · split
      · split
        · exact badRequest_complete (by simp [errorCodes])
        · rename_i index _
          split
          · exact badRequest_complete (by simp [errorCodes])
          · rename_i hindex
            dsimp only
            split
            · exact hbuzzer
            · have hnames : [(ascii "scheduled").length, (ascii "pattern").length,
                  (ascii "resource_index").length, (ascii "certificate_expiry").length] =
                  [9, 7, 14, 18] := rfl
              simp only [List.cons.injEq, and_true] at hnames
              have hnumber : (decimalText index).length ≤ 1 :=
                length_decimalText_le (by decide) ((not_le.1 hindex).trans (by decide))
              have hbool := length_boolText_le true
              refine formatted_complete [("scheduled", boolText true, .boolean true),
                ("pattern", quoted (ascii "certificate_expiry"), .string _),
                ("resource_index", decimalText index, .number index)] accepted_mem (by simp)
                (.cons (by simp [memberNames]) (spells_boolText _) <| .cons
                  (by simp [memberNames]) (spells_quoted (plain_words _ (by simp)).1) <| .cons
                  (by simp [memberNames]) (spells_number _) .nil) ?_ (by decide)
              simp only [spelledLength, objectLength, List.map_cons, List.map_nil, List.sum_cons,
                List.sum_nil, hnames, length_quoted]
              omega
      · exact badRequest_complete (by simp [errorCodes])

end Tokens

/-! ### Accounts -/

section Accounts

variable {env : Env} {json : Bytes} {principal : AuthService.Principal} {ram : Ram}

theorem username_complete {status : ℕ} {reason : String} {username : Bytes}
    (hline : (status, ascii reason) ∈ statusLines) (hplain : JsonText.Plain username)
    (hshort : username.length < 25) :
    (respond status reason (formatted 96 (object [("username", quoted username)]))).Complete false := by
  have hname : (ascii "username").length = 8 := rfl
  refine formatted_complete [("username", quoted username, .string username)] hline (by simp)
    (.cons (by simp [memberNames]) (spells_quoted hplain) .nil) ?_ (by decide)
  simp only [spelledLength, objectLength, List.map_cons, List.map_nil, List.sum_cons,
    List.sum_nil, hname, length_quoted]
  omega

theorem answers_saveUser {username role : Bytes} {enabled : UInt8} {updating : Bool}
    (hplain : JsonText.Plain username) (hshort : username.length < 25) :
    Answers false (saveUser env json principal username role enabled updating ram) := by
  unfold saveUser
  split
  · exact .pure (badRequest_complete (by simp [errorCodes]))
  · refine .bind fun c r c' _ => .pure ?_
    split
    · exact notFound_complete (by simp [errorCodes])
    · split
      · exact badRequest_complete (by simp [errorCodes])
      · refine username_complete ?_ hplain hshort
        cases updating <;> decide

theorem answers_postUser : Answers false (postUser env json principal ram) := by
  unfold postUser
  split
  · exact .pure (badRequest_complete (by simp [errorCodes]))
  · rename_i username husername
    obtain ⟨hplain, hshort⟩ := jsonString_eq_some husername
    exact answers_saveUser hplain hshort

variable (h : UserStore.Presentable ram.auth.users.snapshot)
include h

/-- The name of an account that is found. -/
theorem plain_of_find {username : Bytes} {found : UserStore.Record × ℕ}
    (hfind : UserStore.find username ram.auth.users = some found) :
    JsonText.Plain username ∧ username.length < 25 := by
  obtain ⟨record, p⟩ := found
  obtain ⟨hmem, rfl⟩ := UserStore.find_eq_some hfind
  exact ⟨(h.accounts record hmem).name, (h.accounts record hmem).short⟩

theorem answers_putUser (name : Bytes) : Answers false (putUser env json name principal ram) := by
  unfold putUser
  dsimp only
  split
  · exact .pure (notFound_complete (by simp [errorCodes]))
  · rename_i existing _ hfind
    obtain ⟨hplain, hshort⟩ := plain_of_find h hfind
    exact answers_saveUser hplain hshort

/-- The name in the path is a C string. -/
theorem answers_deleteUser {name : Bytes} (hname : 0 ∉ name) :
    Answers false (deleteUser name principal ram) := by
  refine .bind fun c r c' hdelete => .pure ?_
  obtain ⟨status, auth⟩ := r
  dsimp only
  split
  · exact notFound_complete (by simp [errorCodes])
  · split
    · exact forbidden_complete
    · split
      · exact storageError_complete
      · rename_i hfound hallowed hok
        have hstatus : status = .ok := not_not.1 hok
        subst hstatus
        have htext : cstr (pathUsername name) = pathUsername name :=
          cstr_of_notMem fun hzero => hname (List.mem_of_mem_take hzero)
        unfold AuthService.deleteUser at hdelete
        rw [htext] at hdelete
        dsimp only at hdelete
        split at hdelete
        · cases hdelete
        · split at hdelete
          · cases hdelete
          · rename_i hfind
            obtain ⟨found, hfind⟩ := Option.ne_none_iff_exists'.1 hfind
            obtain ⟨hplain, hshort⟩ := plain_of_find h hfind
            have hnames : [(ascii "username").length, (ascii "deleted").length] = [8, 7] := rfl
            simp only [List.cons.injEq, and_true] at hnames
            have hbool := length_boolText_le true
            refine formatted_complete [("username", quoted (pathUsername name), .string _),
              ("deleted", boolText true, .boolean true)] ok_mem (by simp)
              (.cons (by simp [memberNames]) (spells_quoted hplain) <| .cons
                (by simp [memberNames]) (spells_boolText _) .nil) ?_ (by decide)
            simp only [spelledLength, objectLength, List.map_cons, List.map_nil, List.sum_cons,
              List.sum_nil, hnames, length_quoted]
            omega

theorem getUsers_complete (hadmin : principal.role = UserStore.roleAdministrator) :
    (getUsers principal ram).Complete false :=
  (getUsers_reports (decide_eq_true hadmin) h).complete

end Accounts

/-! ### Certificates and anchors -/

section Trust

variable {env : Env} {body : Bytes} {ram : Ram}

theorem answers_putCertificate : Answers false (putCertificate env body ram) := by
  unfold putCertificate
  split
  · exact .pure (badRequest_complete (by simp [errorCodes]))
  · exact .bind fun c r c' _ => .pure
      (tlsCredentialsRespond_complete _ (.inl rfl) (by simp [errorCodes]))

theorem answers_putPrivateKey : Answers false (putPrivateKey env body ram) := by
  unfold putPrivateKey
  split
  · exact .pure (badRequest_complete (by simp [errorCodes]))
  · exact .bind fun c r c' _ => .pure
      (tlsCredentialsRespond_complete _ (.inr rfl) (by simp [errorCodes]))

theorem getTrustAnchors_complete (ram : Ram) : (getTrustAnchors ram).Complete false := by
  rcases getTrustAnchors_cases ram with hprintable | htoo
  · exact (getTrustAnchors_reports hprintable).complete
  · rw [htoo]
    exact responseTooLarge_complete

/-- A number, and what was done with it. -/
theorem numbered_complete {status : ℕ} {reason name : String} {id : ℕ}
    (hline : (status, ascii reason) ∈ statusLines)
    (hname : name ∈ memberNames ∧ (ascii name).length ≤ 8) (hid : id < 10) (done : String)
    (hdone : done ∈ memberNames ∧ (ascii done).length ≤ 8) :
    (respond status reason (formatted 48 (object [
      (name, decimalText id), (done, boolText true)]))).Complete false := by
  have hnumber : (decimalText id).length ≤ 1 := length_decimalText_le (by decide) hid
  have hbool := length_boolText_le true
  refine formatted_complete [(name, decimalText id, .number id), (done, boolText true,
    .boolean true)] hline (by simp) (.cons hname.1 (spells_number _) <|
      .cons hdone.1 (spells_boolText _) .nil) ?_ (by decide)
  simp only [spelledLength, objectLength, List.map_cons, List.map_nil, List.sum_cons,
    List.sum_nil]
  omega

/-- A name for each of these. -/
theorem short_names : ∀ name ∈ ["id", "index", "deleted", "replaced"],
    name ∈ memberNames ∧ (ascii name).length ≤ 8 := by
  decide

theorem assigned_add {c c' : Chip} {status : TlsTrustStore.TrustStatus} {assigned : Option ℕ}
    {trust trust' : TlsTrustStore.Ram}
    (h : TlsTrustStore.add body env.anchor trust c = (some ((status, assigned), trust'), c')) :
    assigned.getD 0 < TlsTrustStore.maxAnchors := by
  unfold TlsTrustStore.add at h
  rcases hindex : trust.snapshot.anchors.toList.findIdx? (·.occupied = 0) with _ | index
  · rw [hindex] at h
    cases h
    decide
  · have hlt : index < TlsTrustStore.maxAnchors := by
      obtain ⟨hlt, -⟩ := List.findIdx?_eq_some_iff_getElem.1 hindex
      rwa [Vector.length_toList] at hlt
    rw [hindex] at h
    rcases hvalid : TlsTrustStore.validateDer body env.anchor with refused | anchor
    · rw [hvalid] at h
      cases h
      decide
    · rw [hvalid] at h
      obtain ⟨⟨status', trust₁⟩, c₁, -, h⟩ := bind_eq_some.1 h
      cases h
      split
      · exact hlt
      · decide

theorem answers_postTrustAnchor : Answers false (postTrustAnchor env body ram) := by
  refine .bind fun c r c' hadd => .pure ?_
  obtain ⟨⟨status, assigned⟩, trust⟩ := r
  dsimp only
  split
  · exact trustStoreError_complete _
  · have hid : assigned.getD 0 < 10 := (assigned_add hadd).trans (by decide)
    have hnumber : (decimalText (assigned.getD 0)).length ≤ 1 :=
      length_decimalText_le (by decide) hid
    have hname : (ascii "id").length = 2 := rfl
    refine formatted_complete [("id", decimalText (assigned.getD 0), .number (assigned.getD 0 : ℕ))]
      created_mem (by simp) (.cons (by simp [memberNames]) (spells_number _) .nil) ?_ (by decide)
    simp only [spelledLength, objectLength, List.map_cons, List.map_nil, List.sum_cons,
      List.sum_nil, hname]
    omega

theorem trustAnchorInUse_complete : trustAnchorInUse.Complete false :=
  conflict_complete (by simp [errorCodes])

theorem answers_deleteTrustAnchors : Answers false (deleteTrustAnchors ram) := by
  unfold deleteTrustAnchors
  split
  · exact .pure trustAnchorInUse_complete
  · refine .bind fun c r c' _ => .pure ?_
    split
    · exact trustStoreError_complete _
    · exact object_complete [("trust_anchors_cleared", boolText true, .boolean true)] ok_mem
        (by simp) (.cons (by simp [memberNames]) (spells_boolText _) .nil) (by decide)

theorem answers_deleteTrustAnchor {id : ℕ} (hid : id < 10) :
    Answers false (deleteTrustAnchor id ram) := by
  unfold deleteTrustAnchor
  split
  · exact .pure trustAnchorInUse_complete
  · refine .bind fun c r c' _ => .pure ?_
    split
    · exact trustStoreError_complete _
    · exact numbered_complete ok_mem (short_names _ (by simp)) hid _ (short_names _ (by simp))

theorem answers_putTrustAnchor {id : ℕ} (hid : id < 10) :
    Answers false (putTrustAnchor env body id ram) := by
  refine .bind fun c r c' _ => .pure ?_
  split
  · exact trustStoreError_complete _
  · exact numbered_complete ok_mem (short_names _ (by simp)) hid _ (short_names _ (by simp))

/-- A number that is taken from a path is not too large. -/
theorem pathNumber_le {maximum id : ℕ} {text : Bytes} (h : pathNumber maximum text = some id) :
    id ≤ maximum := by
  unfold pathNumber at h
  split at h
  · cases h
  · split at h
    · cases h
    · rename_i hnumber
      cases h
      simp only [not_or, not_lt] at hnumber
      omega

end Trust

/-! ### Configurations -/

section Configurations

variable {json : Bytes} {ram : Ram}

theorem answers_putCallbackConfig : Answers false (putCallbackConfig json ram) := by
  unfold putCallbackConfig
  dsimp only
  split
  · exact .pure (badRequest_complete (by simp [errorCodes]))
  · split
    · exact .pure (badRequest_complete (by simp [errorCodes]))
    · split
      · exact .pure (badRequest_complete (by simp [errorCodes]))
      · split
        · exact .pure (badRequest_complete (by simp [errorCodes]))
        · refine .bind fun c r c' _ => .pure ?_
          split
          · exact badRequest_complete (by simp [errorCodes])
          · exact object_complete [("updated", boolText true, .boolean true)] ok_mem (by simp)
              (.cons (by simp [memberNames]) (spells_boolText _) .nil) (by decide)

/-- A number in a request has 32 bits. -/
theorem jsonNumber_lt {key : Bytes} {n : ℕ} (h : jsonNumber json key = some n) : n < 2 ^ 32 := by
  obtain ⟨cursor, -, h⟩ := Option.bind_eq_some_iff.1 h
  obtain ⟨value, -, h⟩ := Option.bind_eq_some_iff.1 h
  dsimp only at h
  split at h
  · cases h
  · split at h
    · cases h
    · rename_i hbig
      split at h
      · cases h
        exact not_le.1 hbig
      · cases h

theorem answers_putHealthCheckConfig : Answers false (putHealthCheckConfig json ram) := by
  unfold putHealthCheckConfig
  split
  · exact .pure (badRequest_complete (by simp [errorCodes]))
  · rename_i period hperiod
    refine .bind fun c r c' _ => .pure ?_
    split
    · exact badRequest_complete (by simp [errorCodes])
    · split
      · exact storageError_complete
      · have hnumber : (decimalText period).length ≤ 10 :=
          length_decimalText_le (by decide) ((jsonNumber_lt hperiod).trans (by decide))
        have hname : (ascii "period_seconds").length = 14 := rfl
        refine formatted_complete [("period_seconds", decimalText period, .number period)] ok_mem
          (by simp) (.cons (by simp [memberNames]) (spells_number _) .nil) ?_ (by decide)
        simp only [spelledLength, objectLength, List.map_cons, List.map_nil, List.sum_cons,
          List.sum_nil, hname]
        omega

theorem known_of_unknownAnchor {id : ℕ} (h : ¬unknownAnchor id ram = true) :
    id ≤ TlsTrustStore.maxPersisted := by
  simp only [unknownAnchor, Bool.or_eq_true, decide_eq_true_eq, not_or, not_lt] at h
  exact h.1

theorem resource_complete {status index port trustAnchor : ℕ} {reason : String}
    {host path : Bytes} {enabled : Bool} (hline : (status, ascii reason) ∈ statusLines)
    (hindex : index < HealthCheckConfig.maxResources)
    (hhost : JsonText.Plain host ∧ host.length < 64)
    (hpath : JsonText.Plain path ∧ path.length < 80) (hport : ¬(port = 0 ∨ port > 65535))
    (hanchor : ¬unknownAnchor trustAnchor ram = true) :
    (respond status reason (formatted 256
      (resourceJson index host port path enabled trustAnchor))).Complete false := by
  have hid := known_of_unknownAnchor hanchor
  simp only [not_or, not_lt] at hport
  have hlength : (resourceJson index host port path enabled trustAnchor).length ≤ 224 :=
    length_resourceJson_le (hindex.trans (by decide)) hhost.2 (by omega) hpath.2
      (Nat.lt_of_le_of_lt hid (by decide))
  rw [formatted_eq (by omega)]
  exact respond_complete hline (spells_resourceJson hhost.1 hpath.1)
    (Nat.lt_of_le_of_lt hlength (by decide))

theorem assigned_addResource {host path : Bytes} {port : UInt16} {enabled : Bool}
    {trustAnchorId : UInt8} {health health' : HealthCheckConfig.Ram} {c c' : Chip}
    {status : HealthCheckConfig.ConfigStatus} {assigned : Option ℕ}
    (h : HealthCheckConfig.addResource host port path enabled trustAnchorId health c =
      (some ((status, assigned), health'), c')) :
    assigned.getD 0 < HealthCheckConfig.maxResources := by
  unfold HealthCheckConfig.addResource at h
  split at h
  · cases h
    decide
  · rcases hindex : health.snapshot.resources.toList.findIdx? (·.occupied = 0) with _ | index
    · rw [hindex] at h
      cases h
      decide
    · have hlt : index < HealthCheckConfig.maxResources := by
        obtain ⟨hlt, -⟩ := List.findIdx?_eq_some_iff_getElem.1 hindex
        rwa [Vector.length_toList] at hlt
      rw [hindex] at h
      obtain ⟨⟨status', health₁⟩, c₁, -, h⟩ := bind_eq_some.1 h
      cases h
      split
      · exact hlt
      · decide

theorem answers_postResource : Answers false (postResource json ram) := by
  unfold postResource
  split
  · rename_i host path port hhost hpath hport
    dsimp only
    split
    · exact .pure (badRequest_complete (by simp [errorCodes]))
    · rename_i hvalid
      split
      · exact .pure (badRequest_complete (by simp [errorCodes]))
      · rename_i hanchor
        refine .bind fun c r c' hadd => .pure ?_
        obtain ⟨⟨status, assigned⟩, health⟩ := r
        dsimp only
        split
        · exact conflict_complete (by simp [errorCodes])
        · split
          · exact badRequest_complete (by simp [errorCodes])
          · exact resource_complete created_mem (assigned_addResource hadd)
              (jsonString_eq_some hhost) (jsonString_eq_some hpath) hvalid hanchor
  · exact .pure (badRequest_complete (by simp [errorCodes]))

theorem answers_deleteResource {index : ℕ} (hindex : index < 10) :
    Answers false (deleteResource index ram) := by
  refine .bind fun c r c' _ => .pure ?_
  split
  · exact notFound_complete (by simp [errorCodes])
  · split
    · exact storageError_complete
    · exact numbered_complete ok_mem (short_names _ (by simp)) hindex _ (short_names _ (by simp))

/-- A text of a resource that is read, or kept, can be shown. -/
theorem plain_member {n : ℕ} {key text : Bytes} {stored : Vector UInt8 n} (hn : 0 < n)
    (h : member json key ((cstr stored.toList).take (n - 1)) (jsonString json key n) = some text)
    (hstored : JsonText.Plain (cstr stored.toList)) : JsonText.Plain text ∧ text.length < n := by
  unfold member at h
  split at h
  · exact jsonString_eq_some h
  · cases h
    refine ⟨fun c hc => hstored c (List.mem_of_mem_take hc), ?_⟩
    have hlength := List.length_take_le (n - 1) (cstr stored.toList)
    omega

theorem answers_putResource {index : ℕ} (h : HealthCheckConfig.Presentable ram.health.snapshot) :
    Answers false (putResource json index ram) := by
  unfold putResource
  dsimp only
  split
  · exact .pure (notFound_complete (by simp [errorCodes]))
  · rename_i hoccupied
    obtain ⟨hindex, hslot⟩ := HealthCheckConfig.getD_occupied hoccupied
    rw [hslot] at hoccupied ⊢
    have hreadable := h index hindex hoccupied
    split
    · exact .pure (badRequest_complete (by simp [errorCodes]))
    · rename_i host path port enabled trustAnchor hmembers
      simp only [resourceMembers, Option.bind_eq_bind, Option.bind_eq_some_iff, Option.pure_def,
        Option.some.injEq, Prod.mk.injEq] at hmembers
      obtain ⟨_, hhost, _, hpath, _, -, _, -, _, -, rfl, rfl, rfl, rfl, rfl⟩ := hmembers
      split
      · exact .pure (badRequest_complete (by simp [errorCodes]))
      · rename_i hvalid
        split
        · exact .pure (badRequest_complete (by simp [errorCodes]))
        · rename_i hanchor
          refine .bind fun c r c' _ => .pure ?_
          split
          · exact notFound_complete (by simp [errorCodes])
          · split
            · exact badRequest_complete (by simp [errorCodes])
            · exact resource_complete ok_mem hindex
                (plain_member (by decide) hhost hreadable.host.2.2)
                (plain_member (by decide) hpath hreadable.path.2.2) hvalid hanchor

end Configurations

/-! ## Every request -/

section Requests

variable {env : Env} {request : Request} {body : Bytes} {ram : Ram}

/-- What has to be known of the variables: their texts can be shown. -/
structure Ram.Shown (ram : Ram) : Prop where
  accounts : UserStore.Presentable ram.auth.users.snapshot
  fit : HealthCheckConfig.Fit ram.health.snapshot
  resources : HealthCheckConfig.Presentable ram.health.snapshot
  callback : CallbackConfig.fieldsValid ram.callback.snapshot.config = true

theorem answers_getLogs (ram : Ram) : Answers false (getLogs ram) := by
  intro c r c' hlogs
  obtain ⟨entries, -, -, hreports⟩ := getLogs_reports hlogs
  exact hreports.complete

theorem answers_authorized {principal : AuthService.Principal} (henv : env.Shown)
    (hram : ram.Shown) (hpath : 0 ∉ request.path) :
    Answers false (authorized env request body principal ram) := by
  unfold authorized
  refine .ite (fun _ => .pure (postRevoke_complete env request ram)) fun _ => ?_
  refine .ite (fun _ => .administrator (.pure (postBuzzerTest_complete (cstr body) ram)))
    fun _ => ?_
  refine .ite (fun _ => ?_) fun _ => ?_
  · unfold administrator
    exact .ite (fun _ => .pure forbidden_complete) fun hadmin =>
      .pure (getUsers_complete hram.accounts (not_not.1 hadmin))
  refine .ite (fun _ => .administrator answers_postUser) fun _ => ?_
  refine .ite (fun _ => .administrator (answers_putUser hram.accounts _)) fun _ => ?_
  refine .ite (fun _ => .administrator (answers_deleteUser hram.accounts fun hzero =>
    hpath (List.mem_of_mem_drop hzero))) fun _ => ?_
  refine .ite (fun _ => .administrator answers_putCertificate) fun _ => ?_
  refine .ite (fun _ => .administrator answers_putPrivateKey) fun _ => ?_
  refine .ite (fun _ => .pure (getTrustAnchors_complete ram)) fun _ => ?_
  refine .ite (fun _ => .administrator answers_postTrustAnchor) fun _ => ?_
  refine .ite (fun _ => .administrator answers_deleteTrustAnchors) fun _ => ?_
  refine .ite (fun _ => .administrator ?_) fun _ => ?_
  · split
    · exact .pure (notFound_complete (by simp [errorCodes]))
    · rename_i id hid
      have hsmall : id < 10 := Nat.lt_of_le_of_lt (pathNumber_le hid) (by decide)
      exact .ite (fun _ => answers_deleteTrustAnchor hsmall) fun _ => answers_putTrustAnchor hsmall
  refine .ite (fun _ => .pure (getCallbackConfig_reports hram.callback).complete) fun _ => ?_
  refine .ite (fun _ => .administrator answers_putCallbackConfig) fun _ => ?_
  refine .ite (fun _ => .pure (getHealthCheckConfig_reports hram.fit hram.resources).complete)
    fun _ => ?_
  refine .ite (fun _ => .administrator answers_putHealthCheckConfig) fun _ => ?_
  refine .ite (fun _ => .administrator answers_postResource) fun _ => ?_
  refine .ite (fun _ => .administrator ?_) fun _ => ?_
  · split
    · exact .pure (notFound_complete (by simp [errorCodes]))
    · rename_i index hindex
      exact .ite (fun _ => answers_deleteResource
        (Nat.lt_of_le_of_lt (pathNumber_le hindex) (by decide))) fun _ =>
          answers_putResource hram.resources
  refine .ite (fun _ => answers_getLogs ram) fun _ => ?_
  refine .ite (fun _ => .pure (getTemperature_reports henv.sensors).complete)
    fun _ => ?_
  exact .ite (fun _ => .pure (getRtc_complete env)) fun _ =>
    .pure (notFound_complete (by simp [errorCodes]))

/-- **Every response is complete**, whatever is asked. -/
theorem answers_dispatch (henv : env.Shown) (hram : ram.Shown) (hpath : 0 ∉ request.path) :
    Answers (request.is "HEAD" "/health") (dispatch env request body ram) := by
  unfold dispatch
  refine .ite (fun hhealth => .pure ?_) fun hother => ?_
  · have hhead : request.is "HEAD" "/health" = decide (request.method = ascii "HEAD") := by
      have hget : ascii "GET" ≠ ascii "HEAD" := by decide
      simp only [Request.is, Bool.and_eq_true, decide_eq_true_eq] at hhealth
      rcases hhealth with ⟨hmethod, hpath⟩ | ⟨hmethod, hpath⟩ <;>
        simp [Request.is, hmethod, hpath, hget]
    rw [hhead]
    exact health_complete henv request
  have hhead : request.is "HEAD" "/health" = false :=
    Bool.eq_false_iff.2 fun his => hother (.inr his)
  rw [hhead]
  refine .ite (fun _ => .pure (postToken_complete env (cstr body) ram)) fun _ => ?_
  refine .ite (fun _ => .pure (postRefresh_complete env (cstr body) ram)) fun _ => ?_
  split
  · exact .pure (unauthorized_complete (by simp [errorCodes]))
  · exact answers_authorized henv hram hpath

end Requests

end HealthCheck.ApiService
