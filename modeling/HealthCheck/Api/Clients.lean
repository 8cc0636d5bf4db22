import HealthCheck.Api.Connection

/-!
# What a client reads

A client writes a request, in any cut, reads the answer as an HTTP response and its body as JSON.
It finds the accounts, the trust anchors, the configurations, the recent results and the sensors
as the device holds them.

* `Finds` — what a client finds in what it was sent.
* `serve_written` — the request is dispatched as the client meant it.
* `client_reads` — the lists, from bytes to bytes, in every state that a device reaches.
-/

namespace HealthCheck.ApiService

open Nor hiding read driven_read read_ok read_cases
open CString Run
open JsonText (Json)

/-! ## A client -/

section Clients

variable {env : Env} {stack : ℕ → UInt8} {stale : Request} {writes : List SslWrite}
  {ram ram' : Ram} {c c' : Chip} {w : Written}

/-- A client finds `value` in what it was sent. -/
def Finds {α : Type} (w : Written) (read : Json → Option α) (value : α) : Prop :=
  ∃ reply, Http.Reply.read false w.sent = some reply ∧ reply.status = ascii "200" ∧
    (JsonText.parse reply.body).bind read = some value

theorem finds_of_reports {α : Type} {response : Response} {read : Json → Option α} {value : α}
    (h : response.Reports read value) (hpositive : SslWrite.nothing ∉ writes)
    (hok : (response.write writes).result = 0) : Finds (response.write writes) read value := by
  refine ⟨response.reply, ?_, ?_, ?_⟩
  · rw [h.complete.full_of_write hpositive hok]
    exact h.complete.read_full
  · show decimalText response.status = _
    rw [h.ok]
    decide
  · have hbody : response.reply.body = response.json := by
      show (if response.headOnly then [] else response.json) = _
      rw [h.complete.shown, if_neg Bool.false_ne_true]
    rw [hbody]
    exact h.body

variable {m : Message} {token : Bytes} {chunks : List (UInt8 × Bytes)}

/-- A message that a client wrote is dispatched as it was meant. -/
theorem serve_written (env : Env) (stack : ℕ → UInt8) (stale : Request) (writes : List SslWrite)
    (ram : Ram) (hm : m.Written token) (hcut : arrived (dataReads chunks) = m.text) :
    ∃ request : Request, request.method = m.method ∧ request.path = m.target ∧
      request.authorization = token ∧
      serve env stack stale (dataReads chunks) writes ram =
        dispatch env request m.body ram >>= fun r => pure (r.1.write writes, r.2) := by
  obtain ⟨hok, hmethod, hpath, htoken, hbody, -⟩ := readRequest_written hm hcut stack stale
  refine ⟨_, hmethod, hpath, htoken, ?_⟩
  rw [serve]
  dsimp only
  rw [if_pos hok, hbody]

end Clients

/-! ## The lists -/

section Lists

variable {env : Env} {request : Request} {body : Bytes} {ram ram' : Ram}
  {principal : AuthService.Principal}

/-- What a route sends can be read by a client as `value`. -/
def Answered {α : Type} (x : Route) (read : Json → Option α) (value : α) : Prop :=
  ∀ c r c', x c = (some r, c') → r.1.Reports read value

theorem Answered.pure {α : Type} {response : Response} {read : Json → Option α} {value : α}
    (h : response.Reports read value) : Answered (Pure.pure (response, ram)) read value := by
  intro c r c' hx
  cases hx
  exact h

theorem dispatch_getUsers (hprincipal : authorize env request ram = some principal)
    (hadmin : principal.role = UserStore.roleAdministrator) (h : request.is "GET" "/api/v1/users") :
    dispatch env request body ram = pure (getUsers principal ram, ram) := by
  simp only [Request.is, Bool.and_eq_true, decide_eq_true_eq] at h
  simp +decide [dispatch, authorized, administrator, Request.is, hprincipal, hadmin, h.1, h.2]

theorem dispatch_getTrustAnchors (hprincipal : authorize env request ram = some principal)
    (h : request.is "GET" "/api/v1/trust-anchors") :
    dispatch env request body ram = pure (getTrustAnchors ram, ram) := by
  simp only [Request.is, Bool.and_eq_true, decide_eq_true_eq] at h
  simp +decide [dispatch, authorized, Request.is, Request.under, hprincipal, h.1, h.2]

theorem dispatch_getCallbackConfig (hprincipal : authorize env request ram = some principal)
    (h : request.is "GET" "/api/v1/callback/config") :
    dispatch env request body ram = pure (getCallbackConfig ram, ram) := by
  simp only [Request.is, Bool.and_eq_true, decide_eq_true_eq] at h
  simp +decide [dispatch, authorized, Request.is, Request.under, hprincipal, h.1, h.2]

theorem dispatch_getHealthCheckConfig (hprincipal : authorize env request ram = some principal)
    (h : request.is "GET" "/api/v1/health-check/config") :
    dispatch env request body ram = pure (getHealthCheckConfig ram, ram) := by
  simp only [Request.is, Bool.and_eq_true, decide_eq_true_eq] at h
  simp +decide [dispatch, authorized, Request.is, Request.under, hprincipal, h.1, h.2]

theorem dispatch_getLogs (hprincipal : authorize env request ram = some principal)
    (h : request.is "GET" "/api/v1/health-check/logs") :
    dispatch env request body ram = getLogs ram := by
  simp only [Request.is, Bool.and_eq_true, decide_eq_true_eq] at h
  simp +decide [dispatch, authorized, Request.is, Request.under, hprincipal, h.1, h.2]

theorem dispatch_getTemperature (hprincipal : authorize env request ram = some principal)
    (h : request.is "GET" "/api/v1/temperature") :
    dispatch env request body ram = pure (getTemperature env, ram) := by
  simp only [Request.is, Bool.and_eq_true, decide_eq_true_eq] at h
  simp +decide [dispatch, authorized, Request.is, Request.under, hprincipal, h.1, h.2]

end Lists

/-! ## From bytes to bytes -/

section Bytes

variable {env : Env} {stack : ℕ → UInt8} {stale : Request} {writes : List SslWrite}
  {ram ram' : Ram} {c c' : Chip} {w : Written} {m : Message} {token : Bytes}
  {chunks : List (UInt8 × Bytes)} {principal : AuthService.Principal}

/-- A client finds what the route of its request reports. -/
theorem finds_of_route {α : Type} {read : Json → Option α} {value : α} (hm : m.Written token)
    (hcut : arrived (dataReads chunks) = m.text)
    (hserve : serve env stack stale (dataReads chunks) writes ram c = (some (w, ram'), c'))
    (hpositive : SslWrite.nothing ∉ writes) (hok : w.result = 0)
    (hroute : ∀ request : Request, request.method = m.method → request.path = m.target →
      request.authorization = token →
        Answered (dispatch env request m.body ram) read value) :
    Finds w read value := by
  obtain ⟨request, hmethod, hpath, htoken, heq⟩ := serve_written env stack stale writes ram
    hm hcut
  rw [heq] at hserve
  obtain ⟨⟨response, after⟩, c₁, hdispatch, hret⟩ := bind_eq_some.1 hserve
  simp only [pure_apply, Prod.mk.injEq, Option.some.injEq] at hret
  obtain ⟨⟨rfl, -⟩, -⟩ := hret
  exact finds_of_reports (hroute request hmethod hpath htoken c _ c₁ hdispatch) hpositive hok

/-- **What a client reads** of a device in a state it can reach, with an accepted token: the
accounts, if it is an administrator, the trust anchors, as long as no subject has a control
character, both configurations, the results that are found in the log, and the sensors. -/
theorem client_reads {events : List Device.Event}
    (hrun : Along Device.step Device.Whole Device.start events)
    (hram : (run Device.step Device.start events).ram = some ram) (henv : env.Shown)
    (hm : m.Written token) (hget : m.method = ascii "GET")
    (htoken : AuthService.authorize env.sha256 token env.authorizedAt ram.auth.sessions =
      (.ok, some principal))
    (hcut : arrived (dataReads chunks) = m.text)
    (hserve : serve env stack stale (dataReads chunks) writes ram c = (some (w, ram'), c'))
    (hpositive : SslWrite.nothing ∉ writes) (hok : w.result = 0) :
    (m.target = ascii "/api/v1/users" → principal.role = UserStore.roleAdministrator →
      Finds w (listMember "users" Account.ofJson)
        (master :: (UserStore.list UserStore.maxUsers ram.auth.users).map Account.of)) ∧
    (m.target = ascii "/api/v1/trust-anchors" →
      (∀ anchor ∈ TlsTrustStore.list TlsTrustStore.maxAnchors ram.trust,
        Printable anchor.subject) →
      Finds w (listMember "trust_anchors" Anchor.ofJson)
        ((TlsTrustStore.list TlsTrustStore.maxAnchors ram.trust).map Anchor.of)) ∧
    (m.target = ascii "/api/v1/callback/config" →
      Finds w Callback.ofJson (.of ram.callback.snapshot.config)) ∧
    (m.target = ascii "/api/v1/health-check/config" →
      Finds w Monitoring.ofJson (.of ram.health.snapshot)) ∧
    (m.target = ascii "/api/v1/health-check/logs" →
      ∃ entries, HealthCheckLog.getRecent maxLogResults ram.log c = (some entries, c') ∧
        Finds w (listMember "logs" Outcome.ofJson) (entries.map Outcome.of)) ∧
    (m.target = ascii "/api/v1/temperature" →
      Finds w (listMember "sensors" Sensor.ofJson) (env.measurements.map Sensor.of)) := by
  have hshown := shown_of_presentable (Device.presentable_run hrun) hram
  have hprincipal (request : Request) (h : request.authorization = token) :
      authorize env request ram = some principal := by
    rw [authorize, h, htoken]
  have his {request : Request} {path : String} (hmethod : request.method = m.method)
      (hpath : request.path = m.target) (h : m.target = ascii path) : request.is "GET" path := by
    simp only [Request.is, hmethod, hget, hpath, h, decide_true, Bool.and_self]
  refine ⟨fun htarget hadmin => ?_, fun htarget hprintable => ?_, fun htarget => ?_,
    fun htarget => ?_, fun htarget => ?_, fun htarget => ?_⟩
  · refine finds_of_route hm hcut hserve hpositive hok fun request hmethod hpath htext => ?_
    rw [dispatch_getUsers (hprincipal request htext) hadmin (his hmethod hpath htarget)]
    exact .pure (getUsers_reports (decide_eq_true hadmin) hshown.accounts)
  · refine finds_of_route hm hcut hserve hpositive hok fun request hmethod hpath htext => ?_
    rw [dispatch_getTrustAnchors (hprincipal request htext) (his hmethod hpath htarget)]
    exact .pure (getTrustAnchors_reports hprintable)
  · refine finds_of_route hm hcut hserve hpositive hok fun request hmethod hpath htext => ?_
    rw [dispatch_getCallbackConfig (hprincipal request htext) (his hmethod hpath htarget)]
    exact .pure (getCallbackConfig_reports hshown.callback)
  · refine finds_of_route hm hcut hserve hpositive hok fun request hmethod hpath htext => ?_
    rw [dispatch_getHealthCheckConfig (hprincipal request htext) (his hmethod hpath htarget)]
    exact .pure (getHealthCheckConfig_reports hshown.fit hshown.resources)
  · obtain ⟨request, hmethod, hpath, htext, heq⟩ := serve_written env stack stale writes
      ram hm hcut
    rw [heq, dispatch_getLogs (hprincipal request htext) (his hmethod hpath htarget)] at hserve
    obtain ⟨⟨response, after⟩, c₁, hlogs, hret⟩ := bind_eq_some.1 hserve
    simp only [pure_apply, Prod.mk.injEq, Option.some.injEq] at hret
    obtain ⟨⟨rfl, -⟩, rfl⟩ := hret
    obtain ⟨entries, hrecent, -, hreports⟩ := getLogs_reports hlogs
    exact ⟨entries, hrecent, finds_of_reports hreports hpositive hok⟩
  · refine finds_of_route hm hcut hserve hpositive hok fun request hmethod hpath htext => ?_
    rw [dispatch_getTemperature (hprincipal request htext) (his hmethod hpath htarget)]
    exact .pure (getTemperature_reports henv.sensors)

end Bytes

end HealthCheck.ApiService
