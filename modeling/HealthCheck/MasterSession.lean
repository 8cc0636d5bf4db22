import HealthCheck.Api.Routes
import HealthCheck.Device

/-!
# The session of the master

The built-in administrator logs in to a device that holds what the firmware was compiled with, and
sends requests. One of them loses power while its configuration is saved, and behind the next
start-up the device holds what it held before.

* `masterEnv`, `masterLogin` — the login, with the digests of its tokens.
* `masterRequest` — a request with its access token.
* `Compiled` — a device with the compiled defaults.
* `masterRun` — a start-up and a login, a save that is cut off, a start-up and a login again.
-/

namespace HealthCheck

open Nor hiding read driven_read read_ok read_cases
open CString TwoBank

/-! ## The login -/

namespace ApiService

/-- The text of an access token of 32 bytes 0. -/
def zeroToken : Bytes := List.replicate 64 0x30

/-- And of a refresh token of 32 bytes 0x33. -/
def threeToken : Bytes := List.replicate 64 0x33

def zeroDigest : Vector UInt8 32 :=
  #v[0x60, 0xE0, 0x5B, 0xD1, 0xB1, 0x95, 0xAF, 0x2F, 0x94, 0x11, 0x2F, 0xA7, 0x19, 0x7A, 0x5C, 0x88,
    0x28, 0x90, 0x58, 0x84, 0x0C, 0xE7, 0xC6, 0xDF, 0x96, 0x93, 0x75, 0x6B, 0xC6, 0x25, 0x0F, 0x55]

def threeDigest : Vector UInt8 32 :=
  #v[0x79, 0xBD, 0x7D, 0x7F, 0xD6, 0x84, 0xB3, 0x99, 0x85, 0x7C, 0x58, 0x2B, 0x1B, 0x71, 0x72, 0xDD,
    0xF2, 0x77, 0xD4, 0xFE, 0x1B, 0x02, 0x7E, 0xC5, 0x2B, 0x28, 0xDA, 0x3A, 0xE3, 0x81, 0xE6, 0x75]

/-- The digests of the two; others are not needed. -/
def masterSha256 : AuthService.Sha256 := fun text =>
  if text = zeroToken then some zeroDigest
  else if text = threeToken then some threeDigest
  else none

/-- It stands for the master's password, of which only the verifier is compiled in. -/
def masterPassword : Bytes := ascii "password"

/-- A password that the master gives to an account. -/
def userPassword : Bytes := ascii "a long password"

def userSalt : Vector UInt8 16 := .replicate _ 0

def userVerifier : Vector UInt8 32 :=
  #v[0xC3, 0xA8, 0x49, 0x58, 0x3C, 0x82, 0xA4, 0xAB, 0x99, 0x6F, 0xFA, 0x58, 0x5C, 0xDE, 0xCD, 0xA6,
    0x65, 0xB7, 0xFA, 0x0D, 0x02, 0x38, 0x74, 0x41, 0xCD, 0x1C, 0x39, 0x0E, 0x46, 0x74, 0xB9, 0x6F]

/-- The derivations from the two; others are not needed. -/
def masterDerive : AuthService.Derive := fun password salt iterations =>
  if password = masterPassword ∧ salt = AuthService.masterPasswordSalt ∧
      iterations = AuthService.masterPasswordIterations then
    some AuthService.masterPasswordVerifier
  else if password = userPassword ∧ salt = userSalt ∧ iterations = AuthService.userIterations then
    some userVerifier
  else none

/-- What the rest of the system says. -/
def masterEnv : Env where
  version := []
  buildDate := []
  networkReady := true
  flashAvailable := true
  measurements := []
  rtcSynchronized := true
  unixTime := 0
  dateTime := ⟨0, 0, 0, 0, 0, 0⟩
  sha256 := masterSha256
  derive := masterDerive
  draws := ⟨some (.replicate _ 0), some (.replicate _ 0x33)⟩
  salt := some userSalt
  authorizedAt := 0
  now := 0
  issuedAt := 0
  anchor := ⟨0, 0, 0, 0, []⟩
  credentials := ⟨0, 0, 0, 0⟩

/-- The session that the login opens. -/
def adminSession : AuthService.Session where
  active := 1
  role := UserStore.roleAdministrator
  username := charArray UserStore.usernameSize AuthService.masterUsername
  accessDigest := zeroDigest
  refreshDigest := threeDigest
  accessIssuedAt := 0
  refreshIssuedAt := 0

theorem sessionCount_pos : 0 < AuthService.sessionCount := by decide

def masterSessions : AuthService.Sessions :=
  (Vector.replicate _ AuthService.zeroSession).set 0 adminSession sessionCount_pos

def loginRequest : Request := ⟨ascii "POST", ascii "/api/v1/auth/token", [], 0, 0⟩

def loginBody : Bytes :=
  object [("username", quoted (ascii "master")), ("password", quoted masterPassword)]

/-- The login opens the first session. -/
theorem login_master (users : UserStore.Ram) :
    (AuthService.login masterEnv.sha256 masterEnv.derive (ascii "master") masterPassword
      masterEnv.draws masterEnv.now ⟨.replicate _ AuthService.zeroSession, users⟩).2.2 =
      ⟨masterSessions, users⟩ := by
  have hverified : AuthService.verifyMasterPassword masterEnv.derive masterPassword = .ok := by
    decide +kernel
  have hchecked : AuthService.checkPassword masterEnv.derive (cstr (ascii "master"))
      masterPassword users = (.ok, UserStore.roleAdministrator) := by
    have hmaster : cstr (ascii "master") = AuthService.masterUsername := by decide
    rw [AuthService.checkPassword, if_pos hmaster, hverified]
  have hissued : (AuthService.issue masterEnv.sha256 (cstr (ascii "master"))
      UserStore.roleAdministrator masterEnv.draws masterEnv.now
      (.replicate _ AuthService.zeroSession)).2.2 = masterSessions := by
    decide +kernel
  unfold AuthService.login
  dsimp only
  rw [hchecked]
  dsimp only
  rw [if_neg (not_not_intro rfl), hissued]

/-- Its token is accepted. -/
theorem authorize_master {request : Request} {ram : Ram}
    (htoken : request.authorization = zeroToken) (hsessions : ram.auth.sessions = masterSessions) :
    authorize masterEnv request ram =
      some ⟨AuthService.masterUsername, UserStore.roleAdministrator⟩ := by
  have haccepted : AuthService.authorize masterEnv.sha256 zeroToken masterEnv.authorizedAt
      masterSessions =
      (.ok, some ⟨AuthService.masterUsername, UserStore.roleAdministrator⟩) := by
    decide +kernel
  rw [authorize, htoken, hsessions, haccepted]

theorem administrator_master {request : Request} {ram : Ram}
    (htoken : request.authorization = zeroToken) (hsessions : ram.auth.sessions = masterSessions) :
    Administrator masterEnv request ram :=
  ⟨_, authorize_master htoken hsessions, rfl⟩

/-- The login on a device without sessions. -/
theorem dispatch_masterLogin {ram : Ram}
    (hsessions : ram.auth.sessions = .replicate _ AuthService.zeroSession) (c : Chip) :
    ∃ response, dispatch masterEnv loginRequest loginBody ram c = (some (response,
      { ram with auth := ⟨masterSessions, ram.auth.users⟩ }), c) := by
  have hauth : ram.auth = ⟨.replicate _ AuthService.zeroSession, ram.auth.users⟩ := by
    rw [← hsessions]
  have hlogin := login_master ram.auth.users
  rw [← hauth] at hlogin
  have hroute : dispatch masterEnv loginRequest loginBody ram =
      pure (postToken masterEnv (cstr loginBody) ram) := by
    unfold dispatch
    rw [if_neg (by decide), if_pos (by decide)]
  have husername : jsonString (cstr loginBody) (ascii "username") UserStore.usernameSize =
      some (ascii "master") := by
    decide +kernel
  have hpassword : jsonString (cstr loginBody) (ascii "password") 129 = some masterPassword := by
    decide +kernel
  rw [hroute, postToken, husername, hpassword]
  dsimp only
  rw [hlogin]
  exact ⟨_, rfl⟩

end ApiService

namespace Device

open FactoryReset FlashLayout HealthCheck.ApiService Run
open W25q64 (cutErase zeroed)

/-! ## Requests of the master -/

/-- A request with the master's token. -/
def masterRequest (method target : String) : Request :=
  ⟨ascii method, ascii target, zeroToken, 0, 0⟩

def masterLogin : Event := .request masterEnv loginRequest loginBody {}

/-- The body of a request to set the period. -/
def periodBody (seconds : ℕ) : Bytes := object [("period_seconds", decimalText seconds)]

/-- A request for another period. Power is lost while the sector for it is erased. -/
def cutPeriod : Event :=
  .request masterEnv (masterRequest "PUT" "/api/v1/health-check/config") (periodBody 300) cutErase

theorem step_masterLogin {d : Device} {ram : Ram} (hram : d.ram = some ram)
    (hsessions : ram.auth.sessions = .replicate _ AuthService.zeroSession) :
    d.step masterLogin =
      { d with ram := some { ram with auth := ⟨masterSessions, ram.auth.users⟩ } } := by
  obtain ⟨response, hlogin⟩ := dispatch_masterLogin hsessions ⟨d.cells, {}, []⟩
  unfold step masterLogin
  dsimp only
  rw [hram]
  dsimp only
  rw [hlogin]
  rfl

/-- What the save leaves. -/
theorem step_cutPeriod {d : Device} {ram : Ram} (hram : d.ram = some ram)
    (hsessions : ram.auth.sessions = masterSessions) :
    d.step cutPeriod =
      { d with
        cells := zeroed (HealthCheckConfig.sectorStore.target ram.health) d.cells
        ram := none } := by
  have hnumber : jsonNumber (cstr (periodBody 300)) (ascii "period_seconds") = some 300 := by
    decide +kernel
  have hperiod : HealthCheckConfig.periodValid 300 = true := by decide
  have hdispatch : dispatch masterEnv (masterRequest "PUT" "/api/v1/health-check/config")
      (periodBody 300) ram ⟨d.cells, cutErase, []⟩ =
        (none, ⟨zeroed (HealthCheckConfig.sectorStore.target ram.health) d.cells, {},
          [.erase (HealthCheckConfig.sectorStore.target ram.health) W25q64.sectorSize
            d.cells]⟩) := by
    rw [dispatch_putHealthCheckConfig (by decide),
      guarded_of_administrator (authorize_master rfl hsessions) rfl, putHealthCheckConfig, hnumber]
    exact bind_of_none (HealthCheckConfig.apply_cut hperiod ram.health d.cells)
  unfold step cutPeriod
  dsimp only
  rw [hram]
  dsimp only
  rw [hdispatch]
  rfl

/-! ## The compiled defaults -/

/-- A device that holds what was compiled in, and has it loaded when it runs. -/
structure Compiled (d : Device) : Prop where
  stocked : ∀ p : Part, p.store.Stocked (· = p.store.factory) d.cells
  unmarked : ¬Marked d.cells
  log : HealthCheckLog.Idle d.cells []
  current : ∀ ram, d.ram = some ram →
    ∀ p : Part, p.store.Current (· = p.store.factory) d.cells (ram.part p)

variable {d : Device} {ram : Ram}

/-- Nothing is left to migrate. -/
theorem Compiled.unspoilt (h : Compiled d) (m : Cells) (p : Part) :
    Unspoilt (S := p.store) m d.cells := fun _ hnone =>
  (h.stocked p).found.resolve_left fun ⟨x, hx⟩ => Bool.false_ne_true ((hnone x).symm.trans hx)

/-- The generations have just begun. -/
theorem Compiled.generation (h : Compiled d) (hram : d.ram = some ram) (p : Part) :
    p.store.generation (p.store.snapshot (ram.part p)) + 1 < 2 ^ 32 := by
  rw [(h.current ram hram p).snapshot, p.lawful.factory_generation]
  split <;> decide

theorem compiled_start : Compiled start where
  stocked p := Store.stocked_erased p.lawful
  unmarked := not_marked_erased
  log := idle_erased
  current := nofun

/-- It comes up without sessions. -/
theorem compiled_boot (h : Compiled d) : ∃ ram, (d.step (.boot {})).ram = some ram ∧
    ram.auth.sessions = .replicate _ AuthService.zeroSession ∧ Compiled (d.step (.boot {})) := by
  have hopened : Opened (fun p image => image = p.store.factory) (fun _ => none) d.cells :=
    fun p => ⟨fun _ => h.stocked p, nofun⟩
  obtain ⟨ram, c', hstartup, hcurrent, hunmarked, hlog⟩ := startup_calm
    (c := ⟨d.cells, {}, []⟩) hopened (fun _ => rfl) h.unmarked h.log trivial (by decide) rfl
  have hstep : d.step (.boot {}) = { d with cells := c'.cells, ram := some ram } := by
    unfold step
    dsimp only
    rw [hstartup]
    rfl
  obtain ⟨stores, -, -, -, -, -, -, -, -, -, -, -, -, -, hram⟩ := startup_eq_some hstartup
  rw [hstep]
  refine ⟨ram, rfl, by rw [hram]; rfl, fun p => ?_, hunmarked, hlog.idle, fun ram' hram' p => ?_⟩
  · exact ((hcurrent p).2 _ rfl).stocked p.local
  · rw [← Option.some.inj hram']
    exact (hcurrent p).2 _ rfl

/-- The login writes nothing. -/
theorem compiled_masterLogin (h : Compiled d) (hram : d.ram = some ram)
    (hsessions : ram.auth.sessions = .replicate _ AuthService.zeroSession) :
    Compiled (d.step masterLogin) := by
  rw [step_masterLogin hram hsessions]
  refine ⟨h.stocked, h.unmarked, h.log, fun ram' hram' p => ?_⟩
  obtain rfl := Option.some.inj hram'
  have hcurrent := h.current ram hram p
  cases p <;> exact hcurrent

/-! ## The save that is cut off -/

section Cut

variable (hram : d.ram = some ram) (hsessions : ram.auth.sessions = masterSessions)
include hram hsessions

/-- It writes to the sectors of its configuration only. -/
theorem cutPeriod_elsewhere {i : ℕ} (hi : i ∉ Part.health.store.span) :
    (d.step cutPeriod).cells i = d.cells i := by
  rw [step_cutPeriod hram hsessions]
  refine (overwrite_outside fun hmem => hi ?_ : zeroed _ d.cells i = d.cells i)
  rw [SectorStore.target_eq_address] at hmem
  cases hbank : (HealthCheckConfig.sectorStore.activeBank ram.health).other with
  | a => exact .inl (hbank ▸ hmem)
  | b => exact .inr (hbank ▸ hmem)

theorem cutPeriod_other {p : Part} (hp : p ≠ .health) :
    ∀ i ∈ p.store.span, (d.step cutPeriod).cells i = d.cells i := fun _ hi =>
  cutPeriod_elsewhere hram hsessions fun hhealth =>
    Set.disjoint_left.1 (Part.disjoint hp) hi hhealth

/-- The bank in use is left. -/
theorem cutPeriod_active : HealthCheckConfig.sectorStore.load (d.step cutPeriod).cells
      (HealthCheckConfig.sectorStore.activeBank ram.health) =
    HealthCheckConfig.sectorStore.load d.cells
      (HealthCheckConfig.sectorStore.activeBank ram.health) := by
  rw [step_cutPeriod hram hsessions, SectorStore.target_eq_address]
  have hother := SectorStore.zeroed_other HealthCheckConfig.sound
    (HealthCheckConfig.sectorStore.activeBank ram.health).other d.cells
  rw [Bank.other_other] at hother
  exact SectorStore.load_congr HealthCheckConfig.sound hother

/-- No bank holds a new image. -/
theorem torn_cutPeriod (p : Part) (done : Cells) :
    Torn (S := p.store) d.cells (d.step cutPeriod).cells done := by
  by_cases hp : p = .health
  · subst hp
    rw [step_cutPeriod hram hsessions, SectorStore.target_eq_address]
    exact SectorStore.torn_zeroed HealthCheckConfig.sound HealthCheckConfig.isValid_zeros _ _
  · exact fun x _ => .inl (Store.load_eq p.lawful (cutPeriod_other hram hsessions hp) x)

theorem stocked_cutPeriod (h : Compiled d) (p : Part) :
    p.store.Stocked (· = p.store.factory) (d.step cutPeriod).cells := by
  by_cases hp : p = .health
  · subst hp
    have hactive := (h.current ram hram .health).active.resolve_right Bool.false_ne_true
    refine ⟨fun x hx => ?_, .inl ⟨_, (congrArg _ (cutPeriod_active hram hsessions)).trans hactive⟩⟩
    obtain hsame | hsame := torn_cutPeriod hram hsessions .health d.cells x hx
    all_goals
      rw [hsame] at hx ⊢
      exact (h.stocked .health).images x hx
  · exact (h.stocked p).congr p.lawful p.local (cutPeriod_other hram hsessions hp)

/-- The compiled defaults are still there. -/
theorem compiled_cutPeriod (h : Compiled d) : Compiled (d.step cutPeriod) where
  stocked := stocked_cutPeriod hram hsessions h
  unmarked := by
    rw [Marked.congr fun i hi => cutPeriod_elsewhere hram hsessions fun hspan =>
      Set.disjoint_left.1 Part.health.disjoint_marker hspan hi]
    exact h.unmarked
  log := h.log.elsewhere fun i hi => cutPeriod_elsewhere hram hsessions fun hspan =>
    Set.disjoint_left.1 Part.health.disjoint_log hspan hi
  current ram' hram' := by
    rw [step_cutPeriod hram hsessions] at hram'
    cases hram'

end Cut

/-! ## The run -/

/-- A start-up and a login. -/
theorem compiled_session (h : Compiled d) : Compiled (d.step (.boot {})) ∧
    Compiled ((d.step (.boot {})).step masterLogin) ∧ ∃ ram,
      ((d.step (.boot {})).step masterLogin).ram = some ram ∧
        ram.auth.sessions = masterSessions := by
  obtain ⟨ram, hram, hsessions, hbooted⟩ := compiled_boot h
  refine ⟨hbooted, compiled_masterLogin hbooted hram hsessions, ?_⟩
  rw [step_masterLogin hram hsessions]
  exact ⟨_, rfl, rfl⟩

/-- The master logs in, loses power with a save, and logs in again behind the next start-up. -/
def masterRun : List Event := [.boot {}, masterLogin, cutPeriod, .boot {}, masterLogin]

theorem run_masterRun : Compiled (run step start masterRun) ∧ ∃ ram,
    (run step start masterRun).ram = some ram ∧ ram.auth.sessions = masterSessions := by
  obtain ⟨-, hlogin, ram, hram, hsessions⟩ := compiled_session compiled_start
  obtain ⟨-, hagain⟩ := compiled_session (compiled_cutPeriod hram hsessions hlogin)
  rw [masterRun, run, List.foldl_cons, List.foldl_cons, List.foldl_cons, List.foldl_cons,
    List.foldl_cons, List.foldl_nil]
  exact hagain

/-- Nothing goes wrong in its other events. -/
theorem calm_master {e : Event} (h : e ∈ [Event.boot {}, masterLogin]) : e.calm = e := by
  simp only [List.mem_cons, List.not_mem_nil, or_false] at h
  rcases h with rfl | rfl <;> rfl

/-- What holds of an event without a fault and of the save holds of every event. -/
theorem along_masterRun {P : Device → Event → Prop}
    (hcalm : ∀ d, ∀ e ∈ [Event.boot {}, masterLogin], Compiled d → Compiled (d.step e) → P d e)
    (hcut : ∀ d ram, Compiled d → Compiled (d.step cutPeriod) → d.ram = some ram →
      ram.auth.sessions = masterSessions → P d cutPeriod) : Along step P start masterRun := by
  have hboot : Event.boot {} ∈ [Event.boot {}, masterLogin] := List.mem_cons_self
  have hmaster : masterLogin ∈ [Event.boot {}, masterLogin] :=
    List.mem_cons_of_mem _ List.mem_cons_self
  obtain ⟨hbooted, hlogin, ram, hram, hsessions⟩ := compiled_session compiled_start
  have hsaved := compiled_cutPeriod hram hsessions hlogin
  obtain ⟨hbooted', hlogin', -⟩ := compiled_session hsaved
  exact ⟨hcalm _ _ hboot compiled_start hbooted, hcalm _ _ hmaster hbooted hlogin,
    hcut _ ram hlogin hsaved hram hsessions, hcalm _ _ hboot hsaved hbooted',
    hcalm _ _ hmaster hbooted' hlogin', trivial⟩

end Device

end HealthCheck
