import HealthCheck.Api.Clients
import HealthCheck.DeviceLog
import HealthCheck.StoredAnchors

/-!
# What a device reports is what it holds

As long as no flash command fails, what a client is sent is complete: all accounts, all trust
anchors, both configurations, and the latest results that health checks have recorded, across any
number of start-ups.

* `client_finds` — the lists, from the events that a device went through to what a client reads.
-/

namespace HealthCheck

open Nor hiding read driven_read read_ok read_cases
open ApiService CString FactoryReset FlashLayout Run TwoBank
open JsonText (Json)

namespace Device

variable {events : List Event}

theorem whole_of_calm (hcalm : ∀ e ∈ events, e.Calm) : Along step Whole start events :=
  (along_of_forall hcalm).mono fun _ _ he => .of_calm (calm_of_calm he)

end Device

namespace ApiService

variable {env : Env} {stack : ℕ → UInt8} {stale : Request} {writes : List SslWrite}
  {ram ram' : Ram} {c' : Chip} {w : Written} {m : Message} {token : Bytes}
  {chunks : List (UInt8 × Bytes)} {principal : AuthService.Principal}

/-- **What a client finds** with an accepted token is what the device holds: after any start-ups,
requests and health checks in which no flash command fails, with subjects as Mbed TLS writes them,
before the numbers of the log run out, however request and answer are cut. -/
theorem client_finds {events : List Device.Event} (hcalm : ∀ e ∈ events, e.Calm)
    (hreadable : ∀ e ∈ events, e.Readable)
    (hfew : (run Device.step Device.start events).logged.length < 2 ^ 32 - 1)
    (hram : (run Device.step Device.start events).ram = some ram) (henv : env.Shown)
    (hm : m.Written token) (hget : m.method = ascii "GET")
    (htoken : AuthService.authorize env.sha256 token env.authorizedAt ram.auth.sessions =
      (.ok, some principal))
    (hcut : arrived (dataReads chunks) = m.text)
    (hserve : serve env stack stale (dataReads chunks) writes ram
      ⟨(run Device.step Device.start events).cells, {}, []⟩ = (some (w, ram'), c'))
    (hpositive : SslWrite.nothing ∉ writes) (hok : w.result = 0) :
    (m.target = ascii "/api/v1/users" → principal.role = UserStore.roleAdministrator →
      Finds w (listMember "users" Account.ofJson)
        (master :: (UserStore.list UserStore.maxUsers ram.auth.users).map Account.of)) ∧
    (m.target = ascii "/api/v1/trust-anchors" →
      Finds w (listMember "trust_anchors" Anchor.ofJson)
        ((TlsTrustStore.list TlsTrustStore.maxAnchors ram.trust).map Anchor.of)) ∧
    (m.target = ascii "/api/v1/callback/config" →
      Finds w Callback.ofJson (.of ram.callback.snapshot.config)) ∧
    (m.target = ascii "/api/v1/health-check/config" →
      Finds w Monitoring.ofJson (.of ram.health.snapshot)) ∧
    (m.target = ascii "/api/v1/health-check/logs" →
      Finds w (listMember "logs" Outcome.ofJson)
        (((run Device.step Device.start events).logged.take maxLogResults).map Outcome.of)) ∧
    (m.target = ascii "/api/v1/temperature" →
      Finds w (listMember "sensors" Sensor.ofJson) (env.measurements.map Sensor.of)) := by
  obtain ⟨husers, hanchors, hcallback, hhealth, hlogs, hsensors⟩ := client_reads
    (Device.whole_of_calm hcalm) hram henv hm hget htoken hcut hserve hpositive hok
  refine ⟨husers, fun htarget => hanchors htarget ?_, hcallback, hhealth, fun htarget => ?_,
    hsensors⟩
  · exact TlsTrustStore.printable_list ((Device.legible_run hcalm hreadable).ram hram)
  · obtain ⟨entries, hrecent, hfinds⟩ := hlogs htarget
    rw [Device.recent_run hcalm hfew hram (by decide)] at hrecent
    rwa [Option.some.inj (Prod.mk.inj hrecent).1]

/-! ### The master's accounts -/

/-- The master asks for the accounts. -/
def usersMessage : Message :=
  ⟨ascii "GET", ascii "/api/v1/users", ascii "HTTP/1.1",
    [ascii "Authorization: Bearer " ++ zeroToken], []⟩

theorem usersMessage_written : usersMessage.Written zeroToken where
  method := by decide
  target := by decide
  version := by decide
  lines := by
    simp only [usersMessage, List.forall_mem_cons]
    exact ⟨by decide, List.forall_mem_nil _⟩
  length := .absent (by decide) rfl
  bearer := .upper (by decide)
  token := by decide
  body := by decide
  fits := by decide

theorem logged_master :
    (run Device.step Device.start [.boot {}, Device.masterLogin]).logged = [] := by
  rw [run, List.foldl_cons, List.foldl_cons, List.foldl_nil, Device.masterLogin,
    Device.logged_request, Device.logged_boot, Device.start]

/-- The master, who logged in to a device that was just started for the first time, finds the
account that is compiled in. -/
theorem client_finds_master : ∃ ram w c c',
    (run Device.step Device.start [.boot {}, Device.masterLogin]).ram = some ram ∧
      serve masterEnv (fun _ => 0) blankRequest (dataReads [(0x47, usersMessage.text.tail)])
        (.replicate 2048 (.taken 0)) ram c = (some (w, ram), c') ∧
      Finds w (listMember "users" Account.ofJson) [master] := by
  obtain ⟨ram, hram, ⟨principal, hprincipal, hadmin⟩, hempty⟩ := master_in
  have hcalm : ∀ e ∈ [Device.Event.boot {}, Device.masterLogin], e.Calm := by
    rintro e (_ | ⟨_, _ | ⟨_, ⟨⟩⟩⟩) <;> rfl
  have hreadable : ∀ e ∈ [Device.Event.boot {}, Device.masterLogin], e.Readable := by
    rintro e (_ | ⟨_, _ | ⟨_, ⟨⟩⟩⟩)
    · trivial
    · exact fun c hc => by cases hc
  have hfew : (run Device.step Device.start [.boot {}, Device.masterLogin]).logged.length <
      2 ^ 32 - 1 := by
    rw [logged_master]
    decide
  have hcut : arrived (dataReads [(0x47, usersMessage.text.tail)]) = usersMessage.text := by
    decide
  have hshown := shown_of_presentable
    (Device.presentable_run (Device.whole_of_calm hcalm)) hram
  have htoken : AuthService.authorize masterEnv.sha256 zeroToken masterEnv.authorizedAt
      ram.auth.sessions = (.ok, some principal) := by
    rw [authorize] at hprincipal
    split at hprincipal
    · rename_i found haccepted
      rw [← hprincipal]
      exact haccepted
    · cases hprincipal
  let w := (getUsers principal ram).write (.replicate 2048 (.taken 0))
  have hserve : serve masterEnv (fun _ => 0) blankRequest
      (dataReads [(0x47, usersMessage.text.tail)]) (.replicate 2048 (.taken 0)) ram
      ⟨(run Device.step Device.start [.boot {}, Device.masterLogin]).cells, {}, []⟩ =
        (some (w, ram),
          ⟨(run Device.step Device.start [.boot {}, Device.masterLogin]).cells, {}, []⟩) := by
    obtain ⟨request, hmethod, hpath, htext, heq⟩ := serve_written masterEnv (fun _ => 0)
      blankRequest (.replicate 2048 (.taken 0)) ram usersMessage_written hcut
    have hroute : request.is "GET" "/api/v1/users" := by
      simp only [Request.is, hmethod, hpath, usersMessage, decide_true, Bool.and_self]
    have haccepted : authorize masterEnv request ram = some principal := by
      rw [authorize, htext, htoken]
    rw [heq, dispatch_getUsers haccepted hadmin hroute]
    rfl
  have hcomplete : (getUsers principal ram).Complete false :=
    getUsers_complete hshown.accounts hadmin
  have hbuffered : (getUsers principal ram).buffered = false := by
    rw [(getUsers_eq (decide_eq_true hadmin) hshown.accounts).1]
    rfl
  have htaking : Taking (.replicate 2048 (.taken 0)) := fun x hx =>
    ⟨0, List.eq_of_mem_replicate hx⟩
  have hok : w.result = 0 := by
    refine hcomplete.write_ok htaking ?_
    have hlength := hcomplete.length_lt hbuffered
    rw [List.length_replicate]
    simp only [responseSize] at hlength
    omega
  have hlist : (UserStore.list UserStore.maxUsers ram.auth.users).map Account.of = [] := by
    rw [UserStore.list, hempty]
    rfl
  have hpositive : SslWrite.nothing ∉ List.replicate 2048 (SslWrite.taken 0) := by
    intro hnothing
    cases List.eq_of_mem_replicate hnothing
  have hfinds := (client_finds hcalm hreadable hfew hram shown_masterEnv
    usersMessage_written rfl htoken hcut hserve hpositive hok).1 rfl hadmin
  rw [hlist] at hfinds
  exact ⟨ram, w, _, _, hram, hserve, hfinds⟩

end ApiService

end HealthCheck
