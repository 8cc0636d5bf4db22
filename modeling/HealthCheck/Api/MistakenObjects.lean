import HealthCheck.Api.NamedObjects
import HealthCheck.HealthCheckRequest
import HealthCheck.Lib.Scan
import HealthCheck.MasterSession

/-!
# An object that a URL does not name

A text that is not faithful is the beginning of another one. There are a request for it and a device
on which the request deletes the object that has the beginning as its name.

* `shared` — the device, and the request `deletion`.
* `only_named_iff` — so faithful texts are the only ones on which a request does what it should.
-/

namespace HealthCheck.ApiService

open Nor hiding read driven_read read_ok read_cases
open CString TwoBank

/-! ## The request -/

/-- A request to delete what a target names. -/
def deletion (target : Bytes) : Message :=
  ⟨ascii "DELETE", target, [], [bearerNames.1 ++ zeroToken], []⟩

theorem length_deletion (target : Bytes) : (deletion target).text.length = target.length + 100 := by
  simp [Message.text, Message.header, Message.firstLine, deletion, following, crlf, bearerNames,
    zeroToken, ascii]

theorem deletion_sent {target : Bytes} (hword : IsWord target) (hlength : target.length ≤ 2459) :
    (deletion target).Sent zeroToken where
  method := show IsWord (ascii "DELETE") ∧ (ascii "DELETE").length ≤ 7 by decide
  target := hword
  version := show IsHeaderLine [] by decide
  lines := List.forall_mem_singleton.2 (by decide)
  length := .absent
    (show ∀ name ∈ lengthNames, fields name [bearerNames.1 ++ zeroToken] = [] by decide) rfl
  bearer := .upper (show fields bearerNames.1 [bearerNames.1 ++ zeroToken] = _ by decide)
  token := by decide
  body := Nat.zero_le _
  fits := by
    rw [length_deletion]
    omega

/-- It arrives in one read. -/
def deletionReads (target : Bytes) : List SslRead :=
  dataReads [(0x44, (deletion target).text.tail)]

theorem arrived_deletionReads (target : Bytes) :
    arrived (deletionReads target) = (deletion target).text :=
  List.append_nil _

theorem requestTarget_deletion {target : Bytes} (hword : IsWord target) :
    requestTarget (deletion target).header = target := by
  have hheader : (deletion target).header =
      ascii "DELETE" ++ 0x20 :: (target ++ 0x20 :: following (deletion target).lines) := by
    simp [Message.header, Message.firstLine, deletion]
  obtain ⟨first, rest, htarget⟩ := List.exists_cons_of_ne_nil hword.1
  have hspace : ∀ c ∈ target, (!isSpace c) = true := fun c hc => by simpa using (hword.2 c hc).1
  have hfirst : isSpace first = false := by
    simpa using hspace first (htarget ▸ List.mem_cons_self)
  have hdelete : ascii "DELETE" = 0x44 :: ascii "ELETE" := by decide
  have hdeleteWord : IsWord (ascii "DELETE") := by decide
  have hstart (tail : Bytes) :
      (ascii "DELETE" ++ tail).dropWhile isSpace = ascii "DELETE" ++ tail := by
    rw [hdelete, List.cons_append]
    exact List.dropWhile_cons_of_neg (by decide)
  have hmethod (tail : Bytes) :
      (ascii "DELETE" ++ 0x20 :: tail).dropWhile (!isSpace ·) = 0x20 :: tail :=
    dropWhile_append (fun c hc => by simpa using (hdeleteWord.2 c hc).1) (by simp [isSpace])
  have hblank (tail : Bytes) : (0x20 :: (target ++ tail)).dropWhile isSpace = target ++ tail := by
    rw [List.dropWhile_cons_of_pos (by decide), htarget]
    exact List.dropWhile_cons_of_neg (by simp [hfirst])
  rw [requestTarget, hheader, hstart, hmethod, hblank]
  exact takeWhile_append hspace (by simp [isSpace])

theorem arrives_deletion {target : Bytes} (hword : IsWord target) (hlength : target.length ≤ 2459)
    (stack : ℕ → UInt8) (stale : Request) :
    Arrives (deletionReads target) (readRequest requestSize stack stale (deletionReads target))
      target := by
  have hsent := deletion_sent hword hlength
  have hread := readRequest_sent hsent (arrived_deletionReads target) stack stale
  refine ⟨not_interrupted_dataReads _ _, ?_, (deletion target).header.length, ?_, ?_⟩
  · rw [deletionReads, hread]
  · rw [deletionReads, hread]
    exact hsent.findHeaderEnd_text
  · rw [deletionReads, hread]
    show requestTarget ((deletion target).text.take _) = _
    rw [Message.Sent.take_header]
    exact requestTarget_deletion hword

/-! ## The route -/

/-- The route of a deletion. -/
def Collection.delete (collection : Collection) (request : Request)
    (principal : AuthService.Principal) (ram : Ram) : Route :=
  match collection with
  | .users => deleteUser (request.behind "/api/v1/users/") principal ram
  | .anchors =>
    match pathNumber TlsTrustStore.maxPersisted (request.behind "/api/v1/trust-anchors/") with
    | none => pure (notFound "trust_anchor_not_found", ram)
    | some id => deleteTrustAnchor id ram
  | .resources =>
    match pathNumber (HealthCheckConfig.maxResources - 1)
      (request.behind "/api/v1/health-check/resources/") with
    | none => pure (notFound "resource_not_found", ram)
    | some index => deleteResource index ram

theorem dispatch_deletion {env : Env} {request : Request} {ram : Ram} {body : Bytes}
    {principal : AuthService.Principal} {collection : Collection}
    (hmethod : request.method = ascii "DELETE")
    (hbegins : ascii collection.path <+: request.path)
    (hprincipal : authorize env request ram = some principal)
    (hadmin : principal.role = UserStore.roleAdministrator) :
    dispatch env request body ram = collection.delete request principal ram := by
  have hother {method : String} (path : String) (h : ascii "DELETE" ≠ ascii method) :
      request.is method path = false := by
    simp [Request.is, hmethod, h]
  have hput (path : String) : request.under "PUT" path = false := by
    have hne : ascii "DELETE" ≠ ascii "PUT" := by decide
    simp [Request.under, hmethod, hne]
  have hanchors : request.is "DELETE" "/api/v1/trust-anchors" = false :=
    Bool.eq_false_iff.2 (not_is hbegins (by cases collection <;> decide))
  have hunder (collection' : Collection) :
      request.under "DELETE" collection'.path = decide (collection' = collection) := by
    by_cases heq : collection' = collection
    · subst heq
      simp [Request.under, hmethod, hbegins]
    · rw [decide_eq_false heq]
      exact Bool.eq_false_iff.2 fun h => heq (eq_of_under hbegins h)
  have hgetDelete : ascii "DELETE" ≠ ascii "GET" := by decide
  have hheadDelete : ascii "DELETE" ≠ ascii "HEAD" := by decide
  have hpostDelete : ascii "DELETE" ≠ ascii "POST" := by decide
  have hputDelete : ascii "DELETE" ≠ ascii "PUT" := by decide
  have husers := hunder .users
  have hanchor := hunder .anchors
  have hresources := hunder .resources
  simp only [Collection.path] at husers hanchor hresources
  cases hid : pathNumber TlsTrustStore.maxPersisted (request.behind "/api/v1/trust-anchors/") <;>
    cases hindex : pathNumber (HealthCheckConfig.maxResources - 1)
      (request.behind "/api/v1/health-check/resources/") <;>
    cases collection <;>
    simp [dispatch, authorized, administrator, hprincipal, hadmin, hother, hput, hanchors, husers,
      hanchor, hresources, hgetDelete, hheadDelete, hpostDelete, hputDelete, Collection.delete,
      hmethod, hid, hindex]

/-! ## What is deleted -/

section Deletions

variable {ram : Ram} {m : Cells} {log : List Command}

/-- While every command completes, an account that exists is deleted. -/
theorem deletes_user {username name : Bytes} {principal : AuthService.Principal}
    (hkeyed : ram.auth.users.snapshot.Keyed)
    (hexists : ram.auth.users.snapshot.accounts username ≠ none)
    (hadmin : principal.role = UserStore.roleAdministrator) (hname : pathUsername name = username)
    (hmaster : username ≠ AuthService.masterUsername) (hzero : 0 ∉ username) :
    ∃ r c', deleteUser name principal ram ⟨m, {}, log⟩ = (some r, c') ∧
      r.2.content (.user username) = none := by
  obtain ⟨users, c₁, hexec⟩ := UserStore.exec_calm (.delete username) hkeyed m log
  have hsaved : ((UserStore.Op.delete username).saved ram.auth.users.snapshot).isSome = true := by
    rw [UserStore.Op.saved, Option.isSome_map]
    exact Option.isSome_iff_ne_none.2 (UserStore.position_eq_none.not.2 hexists)
  rw [hsaved] at hexec
  obtain ⟨⟨status, users'⟩, c₂, hdelete, hret⟩ := bind_eq_some.1 hexec
  simp only [pure_apply, Prod.mk.injEq, Option.some.injEq, decide_eq_true_eq] at hret
  obtain ⟨⟨rfl, rfl⟩, rfl⟩ := hret
  have haccounts : users'.snapshot.accounts username = none := by
    obtain ⟨-, candidate, hcandidate, hsnapshot⟩ :=
      (UserStore.exec_eq_some hexec).resolve_right fun h => by cases h.1
    rw [hsnapshot]
    show candidate.accounts username = none
    rw [(UserStore.keyed_saved hkeyed hcandidate).2]
    exact Function.update_self ..
  have hfound : UserStore.find username ram.auth.users ≠ none := by
    intro hnone
    refine hexists ?_
    rw [← UserStore.find_map_fst, hnone]
    rfl
  have hcalled : AuthService.deleteUser principal username ram.auth ⟨m, {}, log⟩ =
      (some (.ok, ⟨AuthService.closeSession username ram.auth.sessions, users'⟩), c₂) := by
    unfold AuthService.deleteUser
    rw [cstr_of_notMem hzero]
    dsimp only
    rw [if_neg (by simp [AuthService.isAdministrator, hadmin, hmaster]), if_neg hfound,
      bind_of_some hdelete, if_pos rfl]
    rfl
  unfold deleteUser
  rw [hname]
  refine ⟨_, c₂, bind_of_some hcalled, ?_⟩
  have hgone : UserStore.find username users' = none := by
    rw [← UserStore.find_map_fst, Option.map_eq_none_iff] at haccounts
    exact haccounts
  show (UserStore.find username users').map _ = none
  rw [hgone]
  rfl

/-- While every command completes, an anchor that exists can be deleted. -/
theorem delete_calm {id : ℕ} {trust : TlsTrustStore.Ram}
    (hexists : TlsTrustStore.anchorExists id trust = true)
    (hwell : trust.snapshot.anchors.toList.all TlsTrustStore.Anchor.wellFormed = true) :
    ∃ trust' c', TlsTrustStore.delete id trust ⟨m, {}, log⟩ = (some (.ok, trust'), c') ∧
      TlsTrustStore.anchors trust'.snapshot id = none := by
  obtain ⟨status, trust', c', hcommit, -, hok⟩ :=
    TlsTrustStore.commit_calm (trust.setAnchor id TlsTrustStore.zeroAnchor) m log
  have hvalid : status = .ok := by
    rw [hok, TlsTrustStore.isSnapshotValid_stamp]
    exact TlsTrustStore.all_setAnchor id hwell TlsTrustStore.wellFormed_zero
  subst hvalid
  have hdelete : TlsTrustStore.delete id trust ⟨m, {}, log⟩ = (some (.ok, trust'), c') := by
    rw [TlsTrustStore.delete, hexists]
    exact hcommit
  have happly : TlsTrustStore.apply (.delete id) trust ⟨m, {}, log⟩ = _ := hdelete
  obtain ⟨heffect, -⟩ := TlsTrustStore.apply_ok happly
  refine ⟨trust', c', hdelete, ?_⟩
  rw [heffect]
  exact Function.update_self ..

/-- It is, when it is not in use. -/
theorem deletes_anchor {id : ℕ} (hexists : TlsTrustStore.anchorExists id ram.trust = true)
    (hwell : ram.trust.snapshot.anchors.toList.all TlsTrustStore.Anchor.wellFormed = true)
    (hfree : isTrustAnchorInUse id ram = false) :
    ∃ r c', deleteTrustAnchor id ram ⟨m, {}, log⟩ = (some r, c') ∧
      r.2.content (.anchor id) = none := by
  obtain ⟨trust, c', hdelete, hanchors⟩ : ∃ trust c', TlsTrustStore.delete id ram.trust
      ⟨m, {}, log⟩ = (some (.ok, trust), c') ∧ TlsTrustStore.anchors trust.snapshot id = none :=
    delete_calm hexists hwell
  unfold deleteTrustAnchor
  rw [hfree, if_neg Bool.false_ne_true]
  refine ⟨_, c', bind_of_some hdelete, ?_⟩
  show (TlsTrustStore.anchors trust.snapshot id).map _ = none
  rw [hanchors]
  rfl

/-- So is a resource. -/
theorem deletes_resource {index : ℕ} (hindex : index < HealthCheckConfig.maxResources)
    (hoccupied : ram.health.snapshot.resources[index].occupied ≠ 0)
    (hperiod : HealthCheckConfig.periodValid ram.health.snapshot.periodSeconds = true) :
    ∃ r c', deleteResource index ram ⟨m, {}, log⟩ = (some r, c') ∧
      r.2.content (.resource index) = none := by
  have hedit : HealthCheckConfig.edited (.deleteResource index) ram.health.snapshot =
      .ok { ram.health.snapshot with
        resources := ram.health.snapshot.resources.set index HealthCheckConfig.zeroResource } := by
    rw [HealthCheckConfig.edited, dif_pos hindex, if_neg hoccupied]
  obtain ⟨health, c', happly, hsnapshot⟩ := HealthCheckConfig.apply_calm hedit hperiod m log
  have hdelete : HealthCheckConfig.deleteResource index ram.health ⟨m, {}, log⟩ =
      (some (.ok, health), c') := happly
  refine ⟨_, c', bind_of_some hdelete, ?_⟩
  show (Option.filter _ health.snapshot.resources[index]?).map _ = none
  rw [hsnapshot]
  show (Option.filter _ (ram.health.snapshot.resources.set index
    HealthCheckConfig.zeroResource)[index]?).map _ = none
  rw [Vector.getElem?_set_self hindex]
  rfl

end Deletions

/-! ## The device -/

/-- An account with a username of up to 24 characters. -/
def account (username : Bytes) : UserStore.Record :=
  { UserStore.zeroRecord with username := charArray UserStore.usernameSize username }

/-- Four anchors. -/
def sharedAnchors : TlsTrustStore.Snapshot :=
  { TlsTrustStore.zero with anchors := .replicate _ TlsTrustStore.defaultAnchor }

theorem maxUsers_pos : 0 < UserStore.maxUsers := by decide

/-- A device with one account, four anchors and one kind of resource in all slots. -/
def shared (username : Bytes) (resource : HealthCheckConfig.Resource) : Ram where
  auth := ⟨masterSessions,
    ⟨{ UserStore.empty with
      count := 1
      users := (Vector.replicate _ UserStore.zeroRecord).set 0 (account username) maxUsers_pos },
      FlashLayout.userStoreSectorB⟩⟩
  trust := ⟨sharedAnchors, .a⟩
  health := ⟨{ HealthCheckConfig.default with resources := .replicate _ resource },
    FlashLayout.healthCheckConfigSectorA⟩
  callback := ⟨CallbackConfig.default, FlashLayout.callbackConfigSectorA⟩
  credentials := ⟨⟨TlsServerCredentials.zero, FlashLayout.tlsServerCredentialsSectorB⟩, false,
    none, none⟩
  buzzer := ⟨true, 0, 0⟩
  log := ⟨.a, 0, 1⟩

/-- What it keeps in the bank of the anchors. -/
def sharedCells : Cells :=
  programmed (TlsTrustStore.address .a) (TlsTrustStore.layout.encode sharedAnchors) fun _ => 0xFF

theorem wellFormed_shared :
    sharedAnchors.anchors.toList.all TlsTrustStore.Anchor.wellFormed = true := by
  rw [sharedAnchors, Vector.toList_replicate]
  exact List.all_eq_true.2 fun a ha =>
    List.eq_of_mem_replicate ha ▸ TlsTrustStore.wellFormed_default

theorem ready_shared (username : Bytes) (resource : HealthCheckConfig.Resource) :
    Ready (shared username resource) ⟨sharedCells, {}, []⟩ where
  users := show (1 : UInt16).toNat ≤ UserStore.maxUsers by decide
  anchors := by
    show (TlsTrustStore.layout.decode
      (sharedCells.slice (TlsTrustStore.address .a) TlsTrustStore.layout.size)).anchors = _
    rw [← TlsTrustStore.layout.length_encode sharedAnchors, sharedCells,
      slice_programmed fun _ _ _ => rfl, TlsTrustStore.layout.decode_encode]
    rfl
  wellFormed := wellFormed_shared
  undone := by
    intro t left hfate
    have hnone : TlsTrustStore.undoRead {} = .completes := by
      simp [TlsTrustStore.undoRead, TlsTrustStore.writeFails]
    rw [hnone] at hfate
    cases hfate

theorem records_shared (username : Bytes) (resource : HealthCheckConfig.Resource) :
    (shared username resource).auth.users.snapshot.records = [account username] := rfl

/-- What is on the device: the account, all anchors, and the resource in all slots. -/
structure Has (username : Bytes) (resource : HealthCheckConfig.Resource) (ram : Ram) : Prop where
  ready : Ready ram ⟨sharedCells, {}, []⟩
  accepts : ∀ request : Request, request.authorization = zeroToken → ∃ principal,
    authorize masterEnv request ram = some principal ∧
      principal.role = UserStore.roleAdministrator
  keyed : ram.auth.users.snapshot.Keyed
  accounts : ram.auth.users.snapshot.accounts username ≠ none
  anchors : ∀ id < TlsTrustStore.maxAnchors, TlsTrustStore.anchorExists id ram.trust = true
  resources : ram.health.snapshot.resources = .replicate _ resource
  period : HealthCheckConfig.periodValid ram.health.snapshot.periodSeconds = true
  callback : ram.callback.snapshot.config.enabled = 0

theorem has_shared {username : Bytes} (resource : HealthCheckConfig.Resource)
    (hlength : username.length < UserStore.usernameSize) (hzero : 0 ∉ username) :
    Has username resource (shared username resource) where
  ready := ready_shared username resource
  accepts _ htoken := ⟨_, authorize_master htoken rfl, rfl⟩
  keyed := ⟨(ready_shared username resource).users, by
    rw [records_shared]
    exact List.nodup_singleton _⟩
  accounts := by
    have hname : (account username).name = username := cstr_charArray hlength hzero
    rw [UserStore.Snapshot.accounts, records_shared, KeyedList.lookup,
      List.find?_cons_of_pos (by simp [hname])]
    exact Option.some_ne_none _
  anchors id hid := by
    have hanchor : sharedAnchors.anchors[id]? = some TlsTrustStore.defaultAnchor :=
      (Vector.getElem?_replicate ..).trans (if_pos hid)
    unfold TlsTrustStore.anchorExists
    dsimp only [shared]
    rw [hanchor]
    rfl
  resources := rfl
  period := rfl
  callback := rfl

/-! ## The texts that name only their own object -/

section Iff

variable {collection : Collection} {text : Bytes}

/-- An object that the deletion deletes is named by the text. -/
theorem OnlyNamed.names (h : OnlyNamed collection text)
    (hword : IsWord (ascii collection.path ++ text))
    (hlength : (ascii collection.path ++ text).length ≤ 2459) {username : Bytes}
    {resource : HealthCheckConfig.Resource} {ram : Ram} (hram : Has username resource ram)
    {o : Object} (hcontent : ram.content o ≠ none)
    (hdelete : ∀ (request : Request) (principal : AuthService.Principal),
      request.path.drop (ascii collection.path).length = text.take collection.room →
      principal.role = UserStore.roleAdministrator → ∃ r c',
        collection.delete request principal ram ⟨sharedCells, {}, []⟩ = (some r, c') ∧
          r.2.content o = none) : collection.Names text o := by
  have hread := readRequest_sent (deletion_sent hword hlength) (arrived_deletionReads _)
    (fun _ => 0) blankRequest
  generalize hreads : dataReads _ = reads at hread
  have harrives := arrives_deletion hword hlength (fun _ => 0) blankRequest
  rw [deletionReads, hreads] at harrives
  generalize hrequest : Request.mk _ _ _ _ _ = request at hread
  have hmethod : request.method = ascii "DELETE" := by rw [← hrequest]; rfl
  have htoken : request.authorization = zeroToken := by rw [← hrequest]
  have hpath : request.path = (ascii collection.path ++ text).take 79 := by rw [← hrequest]; rfl
  obtain ⟨hbegins, hbehind⟩ := path_cut hpath
  obtain ⟨principal, hprincipal, hadmin⟩ := hram.accepts request htoken
  obtain ⟨r, c', hdelete, hgone⟩ := hdelete request principal hbehind hadmin
  rw [← dispatch_deletion hmethod hbegins hprincipal hadmin] at hdelete
  have honly := h (fun _ => 0) blankRequest reads masterEnv ram ⟨sharedCells, {}, []⟩ r.1 r.2 c'
    harrives (by rw [hread]; exact .inr hmethod) hram.ready (by rw [hread]; exact hdelete)
  refine (honly.objects o ?_).1
  rw [hgone]
  exact hcontent.symm

variable (hword : IsWord (ascii collection.path ++ text))
  (hlength : (ascii collection.path ++ text).length ≤ 2459)
include hword

theorem text_plain : 0 ∉ text ∧ ∀ c ∈ text, isSpace c = false :=
  ⟨fun h0 => hword.zero_notMem (List.mem_append_right _ h0), fun c hc => by
    simpa using (hword.2 c (List.mem_append_right _ hc)).1⟩

include hlength

/-- A long username is the name of another account as well. -/
theorem OnlyNamed.faithful (h : OnlyNamed collection text) : collection.Faithful text := by
  obtain ⟨hzero, hspace⟩ := text_plain hword
  cases collection with
  | users =>
    by_contra hlong
    have hlong : 24 < text.length := Nat.not_le.1 hlong
    have hcut : (text.take 24).length = 24 := List.length_take_of_le hlong.le
    have hzero' : 0 ∉ text.take 24 := fun h0 => hzero (List.mem_of_mem_take h0)
    have hram := has_shared HealthCheckConfig.zeroResource
      (hcut.trans_lt (by decide : 24 < UserStore.usernameSize)) hzero'
    generalize shared (text.take 24) HealthCheckConfig.zeroResource = ram at hram
    have hmaster : text.take 24 ≠ AuthService.masterUsername := by
      intro heq
      rw [heq] at hcut
      exact absurd hcut (by decide)
    have hnames : Collection.users.Names text (.user (text.take 24)) := by
      refine h.names hword hlength hram ?_ ?_
      · intro hnone
        refine hram.accounts ?_
        rw [← UserStore.find_map_fst]
        exact Option.map_eq_none_iff.2 (Option.map_eq_none_iff.1 hnone)
      · intro request principal hbehind hadmin
        refine deletes_user hram.keyed hram.accounts hadmin ?_ hmaster hzero'
        show (request.path.drop (ascii Collection.users.path).length).take 24 = _
        rw [hbehind, List.take_take]
        rfl
    have hsame : text.take 24 = text := hnames
    rw [hsame] at hcut
    omega
  | anchors =>
    intro id hid
    have hram := has_shared HealthCheckConfig.zeroResource (by decide : ([] : Bytes).length < _)
      List.not_mem_nil
    generalize shared [] HealthCheckConfig.zeroResource = ram at hram
    have hle := (denotes_of_pathNumber (fun c hc => hspace c (List.mem_of_mem_take hc)) (by decide)
      hid).2
    have hexists := hram.anchors id (Nat.lt_succ_of_le hle)
    show Collection.anchors.Names text (.anchor id)
    refine h.names hword hlength hram ?_ ?_
    · rw [TlsTrustStore.anchorExists_eq] at hexists
      intro hnone
      rw [Option.map_eq_none_iff.1 hnone] at hexists
      cases hexists
    · intro request principal hbehind hadmin
      have hnumber : pathNumber TlsTrustStore.maxPersisted
          (request.behind "/api/v1/trust-anchors/") = some id := by
        rw [← hid, ← hbehind]
        rfl
      rw [Collection.delete, hnumber]
      refine deletes_anchor hexists hram.ready.wellFormed ?_
      have hfree : HealthCheckConfig.isTrustAnchorInUse (UInt8.ofNat id) ram.health = false := by
        rw [HealthCheckConfig.isTrustAnchorInUse, hram.resources, Vector.toList_replicate]
        rfl
      have hidle : CallbackConfig.isTrustAnchorInUse (UInt8.ofNat id) ram.callback = false := by
        rw [CallbackConfig.isTrustAnchorInUse, CallbackConfig.get, hram.callback]
        rfl
      rw [isTrustAnchorInUse, hfree, hidle]
      rfl
  | resources =>
    intro index hindex
    have hram := has_shared { HealthCheckConfig.zeroResource with occupied := 1 }
      (by decide : ([] : Bytes).length < _) List.not_mem_nil
    generalize shared [] { HealthCheckConfig.zeroResource with occupied := 1 } = ram at hram
    have hle := (denotes_of_pathNumber (fun c hc => hspace c (List.mem_of_mem_take hc)) (by decide)
      hindex).2
    have hlt : index < HealthCheckConfig.maxResources := Nat.lt_succ_of_le hle
    have hoccupied : ram.health.snapshot.resources[index].occupied ≠ 0 := by
      simp [hram.resources]
    show Collection.resources.Names text (.resource index)
    refine h.names hword hlength hram ?_ ?_
    · simp [Ram.content, Vector.getElem?_eq_getElem hlt, hoccupied]
    · intro request principal hbehind hadmin
      have hnumber : pathNumber (HealthCheckConfig.maxResources - 1)
          (request.behind "/api/v1/health-check/resources/") = some index := by
        rw [← hindex, ← hbehind]
        rfl
      rw [Collection.delete, hnumber]
      exact deletes_resource hlt hoccupied hram.period

end Iff

/-- **A request acts only on the object its URL names** exactly when what is left of the name is
faithful: a username that fits its array, and a number whose beginning is no other number of an
object. A text that does not fit into a request with a token never arrives. -/
theorem only_named_iff (collection : Collection) (text : Bytes) :
    (collection.Faithful text → OnlyNamed collection text) ∧
      (IsWord (ascii collection.path ++ text) → (ascii collection.path ++ text).length ≤ 2459 →
        OnlyNamed collection text → collection.Faithful text) :=
  ⟨only_named, fun hword hlength h => h.faithful hword hlength⟩

/-- A username of 25 characters. -/
theorem longer_name_deletes : ¬OnlyNamed .users (List.replicate 25 0x61) := by
  intro h
  have hfaithful : Collection.users.Faithful (List.replicate 25 0x61) :=
    h.faithful (by decide) (by decide)
  exact absurd hfaithful (by simp [Collection.Faithful, UserStore.usernameSize])

end HealthCheck.ApiService
