import HealthCheck.Api.Dispatch
import HealthCheck.Api.JsonObject
import HealthCheck.AuthServiceProof
import HealthCheck.HealthCheckLogProof
import HealthCheck.Lib.JsonText

/-!
# What a request can do

The routes of `apiService_Dispatch` taken together: whatever method and path a request has, it
does one of a few things. It leaves everything alone, issues or revokes tokens, asks the buzzer for
a sound, changes an account, or carries out one operation of one of the other stores.

* `Effect` — these cases, each with what the request asked for and what was checked before.
* `dispatch_effect` — there are no others.
-/

namespace HealthCheck.ApiService

open Nor hiding read driven_read read_ok read_cases
open CString TwoBank

/-! ## The stores behind the routes -/

/-- The components whose contents outlast a reboot and that requests can change. -/
inductive Part where
  | users
  | trust
  | health
  | callback
  | credentials
deriving DecidableEq

/-- The store of a component. -/
def Part.store : Part → Store
  | .users => UserStore.store
  | .trust => TlsTrustStore.store
  | .health => HealthCheckConfig.store
  | .callback => CallbackConfig.store
  | .credentials => TlsServerCredentials.store

/-- Its variables. -/
def Ram.part (ram : Ram) : (p : Part) → p.store.Ram
  | .users => ram.auth.users
  | .trust => ram.trust
  | .health => ram.health
  | .callback => ram.callback
  | .credentials => ram.credentials

/-- Nothing changes but the variables of one component, and for the users the sessions. -/
structure Kept (p : Part) (ram ram' : Ram) : Prop where
  parts : ∀ q ≠ p, ram'.part q = ram.part q
  sessions : p ≠ .users → ram'.auth.sessions = ram.auth.sessions
  buzzer : ram'.buzzer = ram.buzzer
  log : ram'.log = ram.log

/-- A route that is one operation of a component, with a response for its outcome. -/
structure Drives (p : Part) (op : p.store.Op) (ram : Ram) (x : Route) : Prop where
  chip : ∀ c, (x c).2 = (p.store.exec op (ram.part p) c).2
  vars : ∀ c, (x c).1.map (fun r => r.2.part p) =
    (p.store.exec op (ram.part p) c).1.map Prod.snd
  kept : ∀ c r c', x c = (some r, c') → Kept p ram r.2

/-- A route that changes nothing. -/
structure Quiet (ram : Ram) (x : Route) : Prop where
  driven : Driven ∅ x
  same : ∀ c r c', x c = (some r, c') → r.2 = ram

theorem Quiet.pure (response : Response) (ram : Ram) : Quiet ram (pure (response, ram)) where
  driven := .pure _
  same c r c' h := by
    rw [pure_apply, Prod.mk.injEq, Option.some.injEq] at h
    rw [← h.1]

/-- A program that ends in a computation. -/
theorem bind_pure_apply {α β : Type} (f : FlashM α) (g : α → β) (c : Chip) :
    (f >>= fun a => pure (g a)) c = ((f c).1.map g, (f c).2) := by
  rcases h : f c with ⟨_ | a, c'⟩
  · rw [bind_of_none h]
    rfl
  · rw [bind_of_some h]
    rfl

/-- An operation and a route that begin with the same program and then only compute. -/
theorem Drives.of_bind {p : Part} {op : p.store.Op} {ram : Ram} {x : Route} {α : Type}
    {f : FlashM α} {g : α → Bool × p.store.Ram} {k : α → Response × Ram}
    (hexec : p.store.exec op (ram.part p) = f >>= fun a => Pure.pure (g a))
    (hx : x = f >>= fun a => Pure.pure (k a)) (hvars : ∀ a, (k a).2.part p = (g a).2)
    (hkept : ∀ a, Kept p ram (k a).2) : Drives p op ram x := by
  subst hx
  refine ⟨fun c => ?_, fun c => ?_, fun c r c' h => ?_⟩
  · rw [hexec, bind_pure_apply, bind_pure_apply]
  · rw [hexec, bind_pure_apply, bind_pure_apply, Option.map_map, Option.map_map]
    exact congrArg (fun f' => Option.map f' (f c).1) (funext hvars)
  · rw [bind_pure_apply, Prod.mk.injEq, Option.map_eq_some_iff] at h
    obtain ⟨⟨a, -, rfl⟩, -⟩ := h
    exact hkept a

/-! ## What a request asks for -/

/-- The routes that issue and revoke tokens. -/
def Request.IsToken (request : Request) : Prop :=
  request.is "POST" "/api/v1/auth/token" ∨ request.is "POST" "/api/v1/auth/refresh" ∨
    request.is "POST" "/api/v1/auth/revoke"

/-- The request's bearer token is accepted, with the role of an administrator. -/
def Administrator (env : Env) (request : Request) (ram : Ram) : Prop :=
  ∃ principal, authorize env request ram = some principal ∧
    principal.role = UserStore.roleAdministrator

/-- The account a request is to create or to change. -/
def UserAsked (request : Request) (username : Bytes) (mustExist : UInt8) : Prop :=
  mustExist = 0 ∧ request.is "POST" "/api/v1/users" ∧ JsonText.Plain username ∨
    mustExist = 1 ∧ request.under "PUT" "/api/v1/users/" ∧
      username = pathUsername (request.behind "/api/v1/users/")

/-- The operations of the trust store that a request can ask for. None removes an anchor that is
in use. -/
def TrustAsked (env : Env) (request : Request) (ram : Ram) : TlsTrustStore.Op → Prop
  | .add _ mbed => request.is "POST" "/api/v1/trust-anchors" ∧ mbed = env.anchor
  | .replace id _ mbed => request.under "PUT" "/api/v1/trust-anchors/" ∧
    pathNumber TlsTrustStore.maxPersisted (request.behind "/api/v1/trust-anchors/") = some id ∧
    mbed = env.anchor
  | .delete id => request.under "DELETE" "/api/v1/trust-anchors/" ∧
    pathNumber TlsTrustStore.maxPersisted (request.behind "/api/v1/trust-anchors/") = some id ∧
    isTrustAnchorInUse id ram = false
  | .reset => request.is "DELETE" "/api/v1/trust-anchors" ∧
    ∀ id ≤ TlsTrustStore.maxPersisted, isTrustAnchorInUse id ram = false

/-- An anchor that a configuration may refer to. -/
def Anchored (id : UInt8) (ram : Ram) : Prop := TlsTrustStore.anchorExists id.toNat ram.trust = true

/-- A text member of a resource: read from the request, or as it is stored. -/
def TextAsked {n : ℕ} (text : Bytes) (stored : Vector UInt8 n) : Prop :=
  JsonText.Plain text ∨ text = (cstr stored.toList).take (n - 1)

/-- The operations of the health-check configuration that a request can ask for. None makes a
resource refer to an anchor that is not there. -/
def HealthAsked (request : Request) (ram : Ram) : HealthCheckConfig.Op → Prop
  | .setPeriodSeconds _ => request.is "PUT" "/api/v1/health-check/config"
  | .addResource host _ path _ trustAnchorId =>
    request.is "POST" "/api/v1/health-check/resources" ∧ JsonText.Plain host ∧
      JsonText.Plain path ∧ Anchored trustAnchorId ram
  | .updateResource index host _ path _ trustAnchorId =>
    request.under "PUT" "/api/v1/health-check/resources/" ∧
    pathNumber (HealthCheckConfig.maxResources - 1)
      (request.behind "/api/v1/health-check/resources/") = some index ∧
    Anchored trustAnchorId ram ∧
    (let resource := (HealthCheckConfig.getResources ram.health).getD index
      HealthCheckConfig.zeroResource
    resource.occupied ≠ 0 ∧ TextAsked host resource.host ∧ TextAsked path resource.path)
  | .deleteResource index => request.under "DELETE" "/api/v1/health-check/resources/" ∧
    pathNumber (HealthCheckConfig.maxResources - 1)
      (request.behind "/api/v1/health-check/resources/") = some index

/-- The same for the callback. -/
def CallbackAsked (request : Request) (ram : Ram) (config : CallbackConfig.Config) : Prop :=
  request.is "PUT" "/api/v1/callback/config" ∧ Anchored config.trustAnchorId ram

/-- The same for the server credentials. -/
def CredentialsAsked (request : Request) : TlsServerCredentials.Op → Prop
  | .stageCertificate .. => request.is "PUT" "/api/v1/tls/certificate"
  | .stagePrivateKey .. => request.is "PUT" "/api/v1/tls/private-key"

/-- The operations a request can ask a component for. Accounts are changed through the service
above their store. -/
def Asked (env : Env) (request : Request) (ram : Ram) : (p : Part) → p.store.Op → Prop
  | .users, _ => False
  | .trust, op => TrustAsked env request ram op
  | .health, op => HealthAsked request ram op
  | .callback, config => CallbackAsked request ram config
  | .credentials, op => CredentialsAsked request op

/-- What the token routes can make of the variables of the authentication service. -/
inductive Granted (auth : AuthService.Ram) : AuthService.Ram → Prop where
  | login (sha256 : AuthService.Sha256) (derive : AuthService.Derive) (username password : Bytes)
      (draws : AuthService.Draws) (now : UInt32) :
      Granted auth (AuthService.login sha256 derive username password draws now auth).2.2
  | refresh (sha256 : AuthService.Sha256) (token : Bytes) (draws : AuthService.Draws)
      (now issuedAt : UInt32) :
      Granted auth (AuthService.refresh sha256 token draws now issuedAt auth).2.2
  | revoke (sha256 : AuthService.Sha256) (token : Bytes) (now : UInt32) :
      Granted auth (AuthService.revoke sha256 token now auth).2

theorem Granted.users {auth auth' : AuthService.Ram} (h : Granted auth auth') :
    auth'.users = auth.users := by
  cases h with
  | login => exact AuthService.users_login
  | refresh => exact AuthService.users_refresh
  | revoke => exact AuthService.users_revoke

/-- What a route does. -/
inductive Effect (env : Env) (request : Request) (ram : Ram) (x : Route) : Prop where
  | quiet (h : Quiet ram x)
  | session (htoken : request.IsToken) (response : Response) (auth : AuthService.Ram)
      (hgranted : Granted ram.auth auth)
      (hstatus : auth.sessions ≠ ram.auth.sessions → response.status = 200)
      (hx : x = pure (response, { ram with auth := auth }))
  | buzzer (hadmin : Administrator env request ram) (response : Response)
      (buzzer : BuzzerService.Ram) (hx : x = pure (response, { ram with buzzer := buzzer }))
  | putUser (principal : AuthService.Principal)
      (hprincipal : authorize env request ram = some principal)
      (hadmin : principal.role = UserStore.roleAdministrator)
      (username password : Bytes) (role enabled mustExist : UInt8)
      (hrole : role = UserStore.roleAdministrator ∨ role = UserStore.roleUser)
      (hasked : UserAsked request username mustExist)
      (response : AuthService.AuthStatus → Response)
      (hx : x = AuthService.putUser env.derive principal username password role enabled mustExist
        env.salt ram.auth >>= fun r => pure (response r.1, { ram with auth := r.2 }))
  | deleteUser (principal : AuthService.Principal)
      (hprincipal : authorize env request ram = some principal)
      (hadmin : principal.role = UserStore.roleAdministrator)
      (hasked : request.under "DELETE" "/api/v1/users/")
      (response : AuthService.AuthStatus → Response)
      (hx : x = AuthService.deleteUser principal (pathUsername (request.behind "/api/v1/users/"))
        ram.auth >>= fun r => pure (response r.1, { ram with auth := r.2 }))
  | drives (hadmin : Administrator env request ram) (p : Part) (op : p.store.Op)
      (hasked : Asked env request ram p op) (h : Drives p op ram x)

/-! ## Route by route -/

section Routes

variable {env : Env} {request : Request} {ram : Ram} {principal : AuthService.Principal}

theorem Effect.pure (response : Response) : Effect env request ram (pure (response, ram)) :=
  .quiet (.pure response ram)

/-- One comparison of method and path after the other. -/
theorem Effect.ite {p : Prop} [Decidable p] {x y : Route} (hx : p → Effect env request ram x)
    (hy : ¬p → Effect env request ram y) : Effect env request ram (if p then x else y) := by
  split
  · exact hx ‹_›
  · exact hy ‹_›

/-- Behind the check of the role only an administrator's route counts. -/
theorem Effect.administrator {route : Route}
    (h : principal.role = UserStore.roleAdministrator → Effect env request ram route) :
    Effect env request ram (administrator principal ram route) := by
  unfold ApiService.administrator
  split
  · exact .pure _
  · rename_i hrole
    exact h (not_ne_iff.1 hrole)

/-- A refused pair leaves the sessions alone, an issued one is answered with 200. -/
theorem session_issued (htoken : request.IsToken) (code : String)
    {x : AuthService.AuthStatus × Option AuthService.TokenPair × AuthService.Ram}
    (hgranted : Granted ram.auth x.2.2) (hok : x.1 = .ok → ∃ pair, x.2.1 = some pair)
    (hfailed : x.1 ≠ .ok → x.2 = (none, ram.auth)) :
    Effect env request ram (Pure.pure (issued code (x.1, x.2.1), { ram with auth := x.2.2 })) := by
  obtain ⟨status, pair, auth⟩ := x
  refine .session htoken (issued code (status, pair)) auth hgranted (fun hne => ?_) rfl
  by_cases hstatus : status = .ok
  · obtain ⟨pair', hpair⟩ := hok hstatus
    change pair = some pair' at hpair
    rw [hstatus, hpair]
    rfl
  · have hsame := (Prod.mk.inj (hfailed hstatus)).2
    exact absurd (congrArg AuthService.Ram.sessions hsame) hne

theorem effect_postToken (htoken : request.IsToken) (json : Bytes) :
    Effect env request ram (Pure.pure (postToken env json ram)) := by
  unfold postToken
  split
  · refine session_issued htoken "invalid_credentials" (.login ..) (fun hok => ?_)
      AuthService.login_failed
    have hnow : env.now = AuthService.tick env.now.toNat := UInt32.ofNat_toNat.symm
    rw [hnow] at hok ⊢
    obtain ⟨pair, hpair, -⟩ := AuthService.login_ok (Prod.ext hok rfl)
    exact ⟨pair, hpair⟩
  · exact .pure _

theorem effect_postRefresh (htoken : request.IsToken) (json : Bytes) :
    Effect env request ram (Pure.pure (postRefresh env json ram)) := by
  unfold postRefresh
  split
  · exact .pure _
  · refine session_issued htoken "invalid_refresh_token" (.refresh ..) (fun hok => ?_)
      AuthService.refresh_failed
    have hissued : env.issuedAt = AuthService.tick env.issuedAt.toNat := UInt32.ofNat_toNat.symm
    rw [hissued] at hok ⊢
    obtain ⟨pair, digest, j, hpair, -⟩ := AuthService.refresh_ok (Prod.ext hok rfl)
    exact ⟨pair, hpair⟩

theorem effect_postRevoke (htoken : request.IsToken) :
    Effect env request ram (Pure.pure (postRevoke env request ram)) := by
  unfold postRevoke
  have hgranted : Granted ram.auth
      (AuthService.revoke env.sha256 request.authorization env.now ram.auth).2 := .revoke ..
  have hfailed : (AuthService.revoke env.sha256 request.authorization env.now ram.auth).1 ≠ .ok →
      (AuthService.revoke env.sha256 request.authorization env.now ram.auth).2 = ram.auth :=
    AuthService.revoke_failed
  generalize AuthService.revoke env.sha256 request.authorization env.now ram.auth = x at *
  obtain ⟨status, auth⟩ := x
  refine .session htoken _ auth hgranted (fun hne => ?_) rfl
  by_cases hstatus : status = .ok
  · rw [if_neg (not_not_intro hstatus)]
    rfl
  · exact absurd (congrArg AuthService.Ram.sessions (hfailed hstatus)) hne

/-! ### The buzzer -/

theorem effect_postBuzzerTest (hadmin : Administrator env request ram) (json : Bytes) :
    Effect env request ram (Pure.pure (postBuzzerTest json ram)) := by
  unfold postBuzzerTest
  split
  · exact .pure _
  · split
    · exact .buzzer hadmin _ _ rfl
    · split
      · split
        · exact .pure _
        · split
          · exact .pure _
          · exact .buzzer hadmin _ _ rfl
      · exact .pure _

/-! ### Accounts -/

/-- What `apiService_JsonString` stores is plain, and its NUL fits behind it. -/
theorem jsonString_eq_some {json key text : Bytes} {capacity : ℕ}
    (h : jsonString json key capacity = some text) :
    JsonText.Plain text ∧ text.length < capacity := by
  unfold jsonString at h
  split at h
  · cases h
  · rename_i hcapacity
    obtain ⟨cursor, -, hstring⟩ := Option.bind_eq_some_iff.1 h
    simp only [stringAt, Option.bind_eq_bind, Option.bind_eq_some_iff, Prod.exists,
      stringValue_eq_some] at hstring
    obtain ⟨-, -, value, -, found, rest, ⟨-, hplain, hlength⟩, htext⟩ := hstring
    rw [Option.ite_none_right_eq_some, Option.some.injEq] at htext
    obtain ⟨-, rfl⟩ := htext
    refine ⟨hplain, ?_⟩
    by_cases hnil : found = []
    · rw [hnil, List.length_nil]
      omega
    · have := hlength hnil
      omega

section Admin

variable (hprincipal : authorize env request ram = some principal)
  (hadmin : principal.role = UserStore.roleAdministrator)
include hprincipal hadmin

theorem effect_saveUser {username role : Bytes} {enabled : UInt8} {updating : Bool} {json : Bytes}
    (hasked : UserAsked request username (if updating then 1 else 0)) :
    Effect env request ram (saveUser env json principal username role enabled updating ram) := by
  unfold saveUser
  split
  · exact .pure _
  · refine .putUser principal hprincipal hadmin _ _ _ _ _ ?_ hasked
      (fun status => if status = .notFound then notFound "user_not_found"
        else if status ≠ .ok then badRequest "user_not_saved"
        else respond (if updating then 200 else 201) (if updating then "OK" else "Created")
          (formatted 96 (object [("username", quoted username)]))) rfl
    split
    · exact .inl rfl
    · exact .inr rfl

theorem effect_postUser (hroute : request.is "POST" "/api/v1/users") (json : Bytes) :
    Effect env request ram (postUser env json principal ram) := by
  unfold postUser
  split
  · exact .pure _
  · rename_i username husername
    exact effect_saveUser hprincipal hadmin (.inl ⟨rfl, hroute, (jsonString_eq_some husername).1⟩)

theorem effect_putUser (hroute : request.under "PUT" "/api/v1/users/") (json : Bytes) :
    Effect env request ram
      (putUser env json (request.behind "/api/v1/users/") principal ram) := by
  unfold putUser
  dsimp only
  split
  · exact .pure _
  · exact effect_saveUser hprincipal hadmin (.inr ⟨rfl, hroute, rfl⟩)

theorem effect_deleteUser (hroute : request.under "DELETE" "/api/v1/users/") :
    Effect env request ram (deleteUser (request.behind "/api/v1/users/") principal ram) :=
  .deleteUser principal hprincipal hadmin hroute
    (fun status => if status = .notFound then notFound "user_not_found"
      else if status = .forbidden then forbidden
      else if status ≠ .ok then storageError
      else respond 200 "OK" (formatted 64 (object [
        ("username", quoted (pathUsername (request.behind "/api/v1/users/"))),
        ("deleted", boolText true)]))) rfl

end Admin

/-- A route for two methods tells them apart again. -/
theorem under_of_method {path : String} (h : request.under "PUT" path ∨ request.under "DELETE" path)
    (hmethod : request.method = ascii "DELETE") : request.under "DELETE" path := by
  refine h.resolve_left fun hput => ?_
  simp only [Request.under, Bool.and_eq_true, decide_eq_true_eq] at hput
  exact absurd (hput.1.symm.trans hmethod) (by decide)

theorem under_of_not_method {path : String}
    (h : request.under "PUT" path ∨ request.under "DELETE" path)
    (hmethod : request.method ≠ ascii "DELETE") : request.under "PUT" path := by
  refine h.resolve_right fun hdelete => ?_
  simp only [Request.under, Bool.and_eq_true, decide_eq_true_eq] at hdelete
  exact hmethod hdelete.1

/-! ### The other stores -/

/-- A component other than the users is changed through a field of its own. -/
theorem Kept.trust (trust : TlsTrustStore.Ram) : Kept .trust ram { ram with trust := trust } where
  parts q hq := by cases q <;> first | rfl | exact absurd rfl hq
  sessions _ := rfl
  buzzer := rfl
  log := rfl

theorem Kept.health (health : HealthCheckConfig.Ram) :
    Kept .health ram { ram with health := health } where
  parts q hq := by cases q <;> first | rfl | exact absurd rfl hq
  sessions _ := rfl
  buzzer := rfl
  log := rfl

theorem Kept.callback (callback : CallbackConfig.Ram) :
    Kept .callback ram { ram with callback := callback } where
  parts q hq := by cases q <;> first | rfl | exact absurd rfl hq
  sessions _ := rfl
  buzzer := rfl
  log := rfl

theorem Kept.credentials (credentials : TlsServerCredentials.Ram) :
    Kept .credentials ram { ram with credentials := credentials } where
  parts q hq := by cases q <;> first | rfl | exact absurd rfl hq
  sessions _ := rfl
  buzzer := rfl
  log := rfl

/-- An anchor that is not unknown is there, whatever the width of its number. -/
theorem anchored_ofNat {id : ℕ} (h : ¬ unknownAnchor id ram) : Anchored (UInt8.ofNat id) ram := by
  simp only [unknownAnchor, Bool.or_eq_true, decide_eq_true_eq, Bool.not_eq_true', not_or,
    Bool.not_eq_false, not_lt] at h
  have hsmall : id < 256 := h.1.trans_lt (by decide)
  rw [Anchored, UInt8.toNat_ofNat_of_lt' hsmall]
  exact h.2

/-- A member that is read from the request is plain, one that is missing keeps its text. -/
theorem textAsked_member {n : ℕ} {json key text : Bytes} {stored : Vector UInt8 n}
    (h : member json key ((cstr stored.toList).take (n - 1)) (jsonString json key n) =
      some text) : TextAsked text stored := by
  unfold member at h
  split at h
  · exact .inl (jsonString_eq_some h).1
  · exact .inr (Option.some.inj h).symm

/-- Neither has a NUL. -/
theorem zero_notMem_of_textAsked {n : ℕ} {text : Bytes} {stored : Vector UInt8 n}
    (h : TextAsked text stored) : 0 ∉ text := by
  rcases h with hplain | rfl
  · exact JsonText.zero_notMem_of_plain hplain
  · exact fun hmem => zero_notMem_cstr _ (List.mem_of_mem_take hmem)

variable (hadmin : Administrator env request ram)
include hadmin

theorem effect_putCertificate (hroute : request.is "PUT" "/api/v1/tls/certificate")
    (body : Bytes) : Effect env request ram (putCertificate env body ram) := by
  unfold putCertificate
  split
  · exact .pure _
  · exact .drives hadmin .credentials (.stageCertificate body env.credentials) hroute
      (.of_bind (g := fun r => (decide (r.1 = .activated), r.2)) rfl rfl (fun _ => rfl)
        fun r => Kept.credentials r.2)

theorem effect_putPrivateKey (hroute : request.is "PUT" "/api/v1/tls/private-key")
    (body : Bytes) : Effect env request ram (putPrivateKey env body ram) := by
  unfold putPrivateKey
  split
  · exact .pure _
  · exact .drives hadmin .credentials (.stagePrivateKey body env.credentials) hroute
      (.of_bind (g := fun r => (decide (r.1 = .activated), r.2)) rfl rfl (fun _ => rfl)
        fun r => Kept.credentials r.2)

theorem effect_postTrustAnchor (hroute : request.is "POST" "/api/v1/trust-anchors")
    (body : Bytes) : Effect env request ram (postTrustAnchor env body ram) := by
  have hexec : Part.trust.store.exec (.add body env.anchor) ram.trust =
      TlsTrustStore.add body env.anchor ram.trust >>= fun r =>
        Pure.pure (decide (r.1.1 = .ok), r.2) := by
    show TlsTrustStore.exec (.add body env.anchor) ram.trust = _
    simp only [TlsTrustStore.exec, TlsTrustStore.apply, bind_assoc, pure_bind]
  exact .drives hadmin .trust (.add body env.anchor) ⟨hroute, rfl⟩
    (.of_bind hexec rfl (fun _ => rfl) fun r => Kept.trust r.2)

theorem effect_deleteTrustAnchors (hroute : request.is "DELETE" "/api/v1/trust-anchors") :
    Effect env request ram (deleteTrustAnchors ram) := by
  unfold deleteTrustAnchors
  split
  · exact .pure _
  · rename_i hunused
    refine .drives hadmin .trust .reset ⟨hroute, fun id hid => ?_⟩
      (.of_bind (g := fun r => (decide (r.1 = .ok), r.2)) rfl rfl (fun _ => rfl)
        fun r => Kept.trust r.2)
    rw [List.any_eq_true, not_exists] at hunused
    exact Bool.eq_false_iff.2 fun huse =>
      hunused id ⟨List.mem_range.2 (Nat.lt_succ_of_le hid), huse⟩

theorem effect_deleteTrustAnchor {id : ℕ} (hroute : request.under "DELETE" "/api/v1/trust-anchors/")
    (hid : pathNumber TlsTrustStore.maxPersisted (request.behind "/api/v1/trust-anchors/") =
      some id) : Effect env request ram (deleteTrustAnchor id ram) := by
  unfold deleteTrustAnchor
  split
  · exact .pure _
  · rename_i hunused
    exact .drives hadmin .trust (.delete id) ⟨hroute, hid, Bool.eq_false_iff.2 hunused⟩
      (.of_bind (g := fun r => (decide (r.1 = .ok), r.2)) rfl rfl (fun _ => rfl)
        fun r => Kept.trust r.2)

theorem effect_putTrustAnchor {id : ℕ} (hroute : request.under "PUT" "/api/v1/trust-anchors/")
    (hid : pathNumber TlsTrustStore.maxPersisted (request.behind "/api/v1/trust-anchors/") =
      some id) (body : Bytes) : Effect env request ram (putTrustAnchor env body id ram) :=
  .drives hadmin .trust (.replace id body env.anchor) ⟨hroute, hid, rfl⟩
    (.of_bind (g := fun r => (decide (r.1 = .ok), r.2)) rfl rfl (fun _ => rfl)
      fun r => Kept.trust r.2)

theorem effect_putCallbackConfig (hroute : request.is "PUT" "/api/v1/callback/config")
    (json : Bytes) : Effect env request ram (putCallbackConfig json ram) := by
  unfold putCallbackConfig
  dsimp only
  split
  · exact .pure _
  · split
    · exact .pure _
    · split
      · exact .pure _
      · split
        · exact .pure _
        · rename_i hanchor
          exact .drives hadmin .callback _ ⟨hroute, anchored_ofNat hanchor⟩
            (.of_bind (g := fun r => (decide (r.1 = .ok), r.2)) rfl rfl (fun _ => rfl)
              fun r => Kept.callback r.2)

theorem effect_putHealthCheckConfig (hroute : request.is "PUT" "/api/v1/health-check/config")
    (json : Bytes) : Effect env request ram (putHealthCheckConfig json ram) := by
  unfold putHealthCheckConfig
  split
  · exact .pure _
  · rename_i period _
    exact .drives hadmin .health (.setPeriodSeconds (UInt32.ofNat period)) hroute
      (.of_bind (g := fun r => (decide (r.1 = .ok), r.2)) rfl rfl (fun _ => rfl)
        fun r => Kept.health r.2)

theorem effect_postResource (hroute : request.is "POST" "/api/v1/health-check/resources")
    (json : Bytes) : Effect env request ram (postResource json ram) := by
  unfold postResource
  split
  · rename_i host path port hhost hpath _
    dsimp only
    split
    · exact .pure _
    · split
      · exact .pure _
      · rename_i hanchor
        generalize hid : (jsonNumber json (ascii "trust_anchor_id")).getD 0 = id at hanchor ⊢
        have hexec : Part.health.store.exec (.addResource host (UInt16.ofNat port) path
            ((jsonBoolean json (ascii "enabled")).getD true) (UInt8.ofNat id)) ram.health =
            HealthCheckConfig.addResource host (UInt16.ofNat port) path
              ((jsonBoolean json (ascii "enabled")).getD true) (UInt8.ofNat id) ram.health >>=
              fun r => Pure.pure (decide (r.1.1 = .ok), r.2) := by
          show HealthCheckConfig.exec (.addResource ..) ram.health = _
          simp only [HealthCheckConfig.exec, HealthCheckConfig.apply, bind_assoc, pure_bind]
        exact .drives hadmin .health (.addResource ..)
          ⟨hroute, (jsonString_eq_some hhost).1, (jsonString_eq_some hpath).1,
            anchored_ofNat hanchor⟩
          (.of_bind hexec rfl (fun _ => rfl) fun r => Kept.health r.2)
  · exact .pure _

theorem effect_deleteResource {index : ℕ}
    (hroute : request.under "DELETE" "/api/v1/health-check/resources/")
    (hindex : pathNumber (HealthCheckConfig.maxResources - 1)
      (request.behind "/api/v1/health-check/resources/") = some index) :
    Effect env request ram (deleteResource index ram) :=
  .drives hadmin .health (.deleteResource index) ⟨hroute, hindex⟩
    (.of_bind (g := fun r => (decide (r.1 = .ok), r.2)) rfl rfl (fun _ => rfl)
      fun r => Kept.health r.2)

theorem effect_putResource {index : ℕ}
    (hroute : request.under "PUT" "/api/v1/health-check/resources/")
    (hindex : pathNumber (HealthCheckConfig.maxResources - 1)
      (request.behind "/api/v1/health-check/resources/") = some index) (json : Bytes) :
    Effect env request ram (putResource json index ram) := by
  unfold putResource
  dsimp only
  split
  · exact .pure _
  · rename_i hoccupied
    split
    · exact .pure _
    · rename_i host path port enabled id hmembers
      simp only [resourceMembers, Option.bind_eq_bind, Option.bind_eq_some_iff, Option.pure_def,
        Option.some.injEq, Prod.mk.injEq] at hmembers
      obtain ⟨_, hhost, _, hpath, _, -, _, -, _, -, rfl, rfl, rfl, rfl, rfl⟩ := hmembers
      split
      · exact .pure _
      · split
        · exact .pure _
        · rename_i hanchor
          exact .drives hadmin .health (.updateResource ..)
            ⟨hroute, hindex, anchored_ofNat hanchor, hoccupied, textAsked_member hhost,
              textAsked_member hpath⟩
            (.of_bind (g := fun r => (decide (r.1 = .ok), r.2)) rfl rfl (fun _ => rfl)
              fun r => Kept.health r.2)

omit hadmin in
theorem effect_getLogs : Effect env request ram (getLogs ram) := by
  refine .quiet ⟨(HealthCheckLog.driven_getRecent ∅ maxLogResults ram.log).bind
    fun _ => .pure _, fun c r c' h => ?_⟩
  obtain ⟨entries, c₁, -, h⟩ := bind_eq_some.1 h
  simp only [pure_apply, Prod.mk.injEq, Option.some.injEq] at h
  rw [← h.1]

end Routes

/-! ## All routes -/

variable {env : Env} {request : Request} {ram : Ram}

/-- Behind the check of the bearer token. -/
theorem authorized_effect {principal : AuthService.Principal}
    (hprincipal : authorize env request ram = some principal) (body : Bytes) :
    Effect env request ram (authorized env request body principal ram) := by
  have hadmin : principal.role = UserStore.roleAdministrator → Administrator env request ram :=
    fun hrole => ⟨principal, hprincipal, hrole⟩
  unfold authorized
  refine .ite (fun h => effect_postRevoke (.inr (.inr h))) fun _ => ?_
  refine .ite (fun _ => .administrator fun hrole =>
    effect_postBuzzerTest (hadmin hrole) _) fun _ => ?_
  refine .ite (fun _ => .administrator fun _ => .pure _) fun _ => ?_
  refine .ite (fun h => .administrator fun hrole =>
    effect_postUser hprincipal hrole h _) fun _ => ?_
  refine .ite (fun h => .administrator fun hrole => effect_putUser hprincipal hrole h _) fun _ => ?_
  refine .ite (fun h => .administrator fun hrole =>
    effect_deleteUser hprincipal hrole h) fun _ => ?_
  refine .ite (fun h => .administrator fun hrole =>
    effect_putCertificate (hadmin hrole) h _) fun _ => ?_
  refine .ite (fun h => .administrator fun hrole =>
    effect_putPrivateKey (hadmin hrole) h _) fun _ => ?_
  refine .ite (fun _ => .pure _) fun _ => ?_
  refine .ite (fun h => .administrator fun hrole =>
    effect_postTrustAnchor (hadmin hrole) h _) fun _ => ?_
  refine .ite (fun h => .administrator fun hrole =>
    effect_deleteTrustAnchors (hadmin hrole) h) fun _ => ?_
  refine .ite (fun hroute => .administrator fun hrole => ?_) fun _ => ?_
  · split
    · exact .pure _
    · rename_i id hid
      exact .ite
        (fun h => effect_deleteTrustAnchor (hadmin hrole) (under_of_method hroute h) hid)
        (fun h => effect_putTrustAnchor (hadmin hrole) (under_of_not_method hroute h) hid _)
  refine .ite (fun _ => .pure _) fun _ => ?_
  refine .ite (fun h => .administrator fun hrole =>
    effect_putCallbackConfig (hadmin hrole) h _) fun _ => ?_
  refine .ite (fun _ => .pure _) fun _ => ?_
  refine .ite (fun h => .administrator fun hrole =>
    effect_putHealthCheckConfig (hadmin hrole) h _) fun _ => ?_
  refine .ite (fun h => .administrator fun hrole =>
    effect_postResource (hadmin hrole) h _) fun _ => ?_
  refine .ite (fun hroute => .administrator fun hrole => ?_) fun _ => ?_
  · split
    · exact .pure _
    · rename_i index hindex
      exact .ite
        (fun h => effect_deleteResource (hadmin hrole) (under_of_method hroute h) hindex)
        (fun h => effect_putResource (hadmin hrole) (under_of_not_method hroute h) hindex _)
  exact .ite (fun _ => effect_getLogs) fun _ => .ite (fun _ => .pure _) fun _ =>
    .ite (fun _ => .pure _) fun _ => .pure _

/-- **What a request can do**, for any method, path, authorization and body. -/
theorem dispatch_effect (env : Env) (request : Request) (body : Bytes) (ram : Ram) :
    Effect env request ram (dispatch env request body ram) := by
  unfold dispatch
  refine .ite (fun _ => .pure _) fun _ => ?_
  refine .ite (fun htoken => effect_postToken (.inl htoken) _) fun _ => ?_
  refine .ite (fun hrefresh => effect_postRefresh (.inr (.inl hrefresh)) _) fun _ => ?_
  split
  · exact .pure _
  · exact authorized_effect ‹_› body

/-! ## As operations of the stores -/

/-- The operations of the user store that a request can lead to: an account is created under a
plain name, or it is changed or deleted under the name in the path. -/
def UserChanges (request : Request) (ram : Ram) : UserStore.Op → Prop
  | .put record =>
    (record.role = UserStore.roleAdministrator ∨ record.role = UserStore.roleUser) ∧
    (record.enabled = 0 ∨ record.enabled = 1) ∧ 0 ∈ record.username.toList ∧
    record.name ≠ AuthService.masterUsername ∧
    (request.is "POST" "/api/v1/users" ∧ JsonText.Plain record.name ∨
      request.under "PUT" "/api/v1/users/" ∧
        record.name = cstr (pathUsername (request.behind "/api/v1/users/")) ∧
        (UserStore.find record.name ram.auth.users).isSome)
  | .delete name => request.under "DELETE" "/api/v1/users/" ∧
    name = cstr (pathUsername (request.behind "/api/v1/users/"))

/-- The operations a request can lead to. -/
def Changes (env : Env) (request : Request) (ram : Ram) : (p : Part) → p.store.Op → Prop
  | .users, op => UserChanges request ram op
  | .trust, op => TrustAsked env request ram op
  | .health, op => HealthAsked request ram op
  | .callback, config => CallbackAsked request ram config
  | .credentials, op => CredentialsAsked request op

/-- A route that leaves the flash and all components alone. -/
structure Still (ram : Ram) (x : Route) : Prop where
  driven : Driven ∅ x
  parts : ∀ c r c', x c = (some r, c') → ∀ p, r.2.part p = ram.part p
  log : ∀ c r c', x c = (some r, c') → r.2.log = ram.log

theorem Kept.auth (auth : AuthService.Ram) : Kept .users ram { ram with auth := auth } where
  parts q hq := by cases q <;> first | rfl | exact absurd rfl hq
  sessions hne := absurd rfl hne
  buzzer := rfl
  log := rfl

theorem Quiet.still {x : Route} (h : Quiet ram x) : Still ram x where
  driven := h.driven
  parts c r c' hx p := by rw [h.same c r c' hx]
  log c r c' hx := by rw [h.same c r c' hx]

/-- Variables outside the stores may change. -/
theorem still_pure {response : Response} {ram' : Ram} (hparts : ∀ p, ram'.part p = ram.part p)
    (hlog : ram'.log = ram.log) : Still ram (Pure.pure (response, ram')) where
  driven := .pure _
  parts c r c' h p := by
    rw [pure_apply, Prod.mk.injEq, Option.some.injEq] at h
    rw [← h.1]
    exact hparts p
  log c r c' h := by
    rw [pure_apply, Prod.mk.injEq, Option.some.injEq] at h
    rw [← h.1]
    exact hlog

/-- The end of a change of an account. -/
def accountSaved (username : Bytes) (response : AuthService.AuthStatus → Response) (ram : Ram)
    (r : Status × UserStore.Ram) : Response × Ram :=
  if r.1 = .ok then (response .ok,
    { ram with auth := ⟨AuthService.closeSession username ram.auth.sessions, r.2⟩ })
  else (response .storageError, { ram with auth := ⟨ram.auth.sessions, r.2⟩ })

theorem accountSaved_spec (username : Bytes) (response : AuthService.AuthStatus → Response)
    (ram : Ram) (r : Status × UserStore.Ram) :
    (accountSaved username response ram r).2.part .users = r.2 ∧
      Kept .users ram (accountSaved username response ram r).2 := by
  unfold accountSaved
  split
  · exact ⟨rfl, .auth _⟩
  · exact ⟨rfl, .auth _⟩

/-- A record that is stored is one operation of the user store. -/
theorem drives_storeUser (username : Bytes) (record : UserStore.Record)
    (response : AuthService.AuthStatus → Response) :
    Drives .users (.put record) ram
      (AuthService.storeUser username record ram.auth >>= fun r =>
        Pure.pure (response r.1, { ram with auth := r.2 })) := by
  have hroute : (AuthService.storeUser username record ram.auth >>= fun r =>
      Pure.pure (response r.1, { ram with auth := r.2 })) =
      UserStore.put record ram.auth.users >>= fun r =>
        Pure.pure (accountSaved username response ram r) := by
    simp only [AuthService.storeUser, bind_assoc]
    refine congrArg _ (funext fun r => ?_)
    unfold accountSaved
    split <;> rfl
  exact .of_bind (g := fun r => (decide (r.1 = .ok), r.2)) rfl hroute
    (fun r => (accountSaved_spec username response ram r).1)
    fun r => (accountSaved_spec username response ram r).2

/-- So is a deletion. -/
theorem drives_deleteUser (username : Bytes) (response : AuthService.AuthStatus → Response) :
    Drives .users (.delete username) ram
      ((UserStore.delete username ram.auth.users >>= fun r =>
        if r.1 = .ok then
          Pure.pure (.ok, ⟨AuthService.closeSession username ram.auth.sessions, r.2⟩)
        else Pure.pure (.storageError, ⟨ram.auth.sessions, r.2⟩)) >>= fun r =>
        Pure.pure (response r.1, { ram with auth := r.2 })) := by
  refine .of_bind (g := fun r => (decide (r.1 = .ok), r.2)) rfl ?_
    (fun r => (accountSaved_spec username response ram r).1)
    fun r => (accountSaved_spec username response ram r).2
  rw [bind_assoc]
  refine congrArg _ (funext fun r => ?_)
  unfold accountSaved
  split <;> rfl

theorem Still.of_pure {α : Type} {f : FlashM α} {a : α} {k : α → Response × Ram}
    (hf : f = Pure.pure a) (hparts : ∀ p, (k a).2.part p = ram.part p)
    (hlog : (k a).2.log = ram.log) : Still ram (f >>= fun a => Pure.pure (k a)) := by
  subst hf
  rw [pure_bind]
  exact still_pure hparts hlog

/-- A change of an account is refused, or it stores a record under the account's name. -/
theorem putUser_cases (derive : AuthService.Derive) (actor : AuthService.Principal)
    (username password : Bytes) (role enabled mustExist : UInt8)
    (salt : Option (Vector UInt8 16)) (auth : AuthService.Ram) :
    (∃ status, AuthService.putUser derive actor username password role enabled mustExist salt
      auth = pure (status, auth)) ∨
    ∃ record : UserStore.Record, AuthService.putUser derive actor username password role enabled
        mustExist salt auth = AuthService.storeUser (cstr username) record auth ∧
      record.role = role ∧ (record.enabled = 0 ∨ record.enabled = 1) ∧
      0 ∈ record.username.toList ∧ record.name = cstr username ∧
      cstr username ≠ AuthService.masterUsername ∧
      (mustExist ≠ 0 → (UserStore.find (cstr username) auth.users).isSome) := by
  unfold AuthService.putUser
  dsimp only
  split
  · exact .inl ⟨_, rfl⟩
  · rename_i hallowed
    simp only [Bool.or_eq_true, decide_eq_true_eq, not_or, ge_iff_le, not_le] at hallowed
    split
    · exact .inl ⟨_, rfl⟩
    · rename_i hfound
      split
      · exact .inl ⟨_, rfl⟩
      · rcases salt with _ | salt
        · exact .inl ⟨_, rfl⟩
        · rcases hderive : derive password salt AuthService.userIterations with _ | verifier
          · simp only [AuthService.newRecord, hderive]
            exact .inl ⟨_, rfl⟩
          · simp only [AuthService.newRecord, hderive]
            refine .inr ⟨_, rfl, rfl, ?_, zero_mem_charArray (by decide) _,
              cstr_charArray hallowed.1.2 (zero_notMem_cstr username), hallowed.2,
              fun hmust => ?_⟩
            · by_cases henabled : enabled ≠ 0
              · exact .inr (if_pos henabled)
              · exact .inl (if_neg henabled)
            · rw [not_and, Bool.not_eq_false] at hfound
              exact hfound hmust

/-- A deletion is refused, or it deletes the record of the name. -/
theorem deleteUser_cases (actor : AuthService.Principal) (username : Bytes)
    (auth : AuthService.Ram) :
    (∃ status, AuthService.deleteUser actor username auth = pure (status, auth)) ∨
    AuthService.deleteUser actor username auth =
      UserStore.delete (cstr username) auth.users >>= fun r =>
        if r.1 = .ok then
          pure (.ok, ⟨AuthService.closeSession (cstr username) auth.sessions, r.2⟩)
        else pure (.storageError, ⟨auth.sessions, r.2⟩) := by
  unfold AuthService.deleteUser
  dsimp only
  split
  · exact .inl ⟨_, rfl⟩
  · split
    · exact .inl ⟨_, rfl⟩
    · exact .inr rfl

/-- **Every request is at most one operation of one store.** -/
theorem Effect.changes {x : Route} (h : Effect env request ram x) :
    Still ram x ∨ ∃ p op, Changes env request ram p op ∧ Drives p op ram x := by
  cases h with
  | quiet h => exact .inl h.still
  | session htoken response auth hgranted hstatus hx =>
    refine .inl (hx ▸ still_pure (fun p => ?_) rfl)
    cases p with
    | users => exact hgranted.users
    | _ => rfl
  | buzzer hadmin response buzzer hx =>
    exact .inl (hx ▸ still_pure (fun p => by cases p <;> rfl) rfl)
  | putUser principal hprincipal hadmin username password role enabled mustExist hrole hasked
      response hx =>
    subst hx
    rcases putUser_cases env.derive principal username password role enabled mustExist env.salt
      ram.auth with ⟨status, hidle⟩ |
        ⟨record, hstore, hrecord, henabled, hzero, hname, hmaster, hfound⟩
    · exact .inl (.of_pure hidle (fun p => by cases p <;> rfl) rfl)
    · rw [hstore]
      refine .inr ⟨.users, .put record, ⟨hrecord ▸ hrole, henabled, hzero, hname ▸ hmaster, ?_⟩,
        drives_storeUser _ record response⟩
      rcases hasked with ⟨-, hroute, hplain⟩ | ⟨rfl, hroute, rfl⟩
      · refine .inl ⟨hroute, fun c hc => hplain c ?_⟩
        rw [hname] at hc
        exact (List.takeWhile_prefix _).subset hc
      · exact .inr ⟨hroute, hname, hname ▸ hfound (by decide)⟩
  | deleteUser principal hprincipal hadmin hasked response hx =>
    subst hx
    rcases deleteUser_cases principal (pathUsername (request.behind "/api/v1/users/")) ram.auth
      with ⟨status, hidle⟩ | hdelete
    · exact .inl (.of_pure hidle (fun p => by cases p <;> rfl) rfl)
    · rw [hdelete]
      exact .inr ⟨.users, .delete _, ⟨hasked, rfl⟩, drives_deleteUser _ response⟩
  | drives hadmin p op hasked h =>
    refine .inr ⟨p, op, ?_, h⟩
    cases p with
    | users => exact hasked.elim
    | _ => exact hasked

end HealthCheck.ApiService
