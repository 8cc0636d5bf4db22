import HealthCheck.Api.Effects
import HealthCheck.FactoryResetRuns
import HealthCheck.HealthCheckLogShared
import HealthCheck.Lib.Run
import HealthCheck.Lib.StoreContents

/-!
# The device

One flash with the five stores and the result log on it, and what happens to it: `rtos_StartupTask`
opens everything, the API service handles one request at a time, the health-check service records
one result after the other, a held button resets everything, and power can be lost in between or
in the middle of any of it.

* `Device`, `Event`, `Device.step` — the device and its runs.
* `Part.disjoint` — no component writes to the sectors of another.
* `startup_calm` — start-up brings up everything when nothing goes wrong.
-/

namespace HealthCheck

open Nor hiding read driven_read read_ok read_cases
open ApiService FactoryReset FlashLayout TwoBank W25q64

/-! ## The machine -/

/-- The flash, and the variables while the device is running. -/
structure Device where
  cells : Cells
  ram : Option Ram
  /-- The entries `HealthCheckLog_Append` has handed out, latest first. -/
  logged : List HealthCheckLog.Entry

namespace Device

/-- One round of `healthCheckService_CheckResource`: the resource, what `TlsTransport_Head` stores,
what `Rtc_GetUnixTime` stores, and whether a warning about a certificate is due. -/
structure Check where
  resourceIndex : UInt8
  result : HealthCheckLog.Result
  timestamp : UInt32
  warning : Bool

/-- `TLS_TRANSPORT_OK` and `HEALTH_CHECK_OK_STATUS`. -/
def Check.healthy (check : Check) : Bool :=
  check.result.status = 0 && check.result.httpStatus = 200

/-- What it asks the buzzer for. -/
def Check.sounds (check : Check) (buzzer : BuzzerService.Ram) : BuzzerService.Ram :=
  let buzzer := if check.warning then
      (BuzzerService.certificateExpiryWarning check.resourceIndex.toNat buzzer).2
    else buzzer
  if check.healthy then buzzer else (BuzzerService.alert buzzer).2

/-- `healthCheckService_CheckResource` behind `TlsTransport_Head`, with the entry it may hand to the
callback service. -/
def checkResource (check : Check) (ram : Ram) : FlashM (Option HealthCheckLog.Entry × Ram) := do
  let (_, entry, log) ← HealthCheckLog.append check.resourceIndex check.result check.timestamp
    ram.log
  pure (entry, { ram with buzzer := check.sounds ram.buzzer, log := log })

/-- The variables the services start with. -/
def started (stores : Stores) : Ram where
  auth := ⟨.replicate _ AuthService.zeroSession, stores.users⟩
  trust := stores.trust
  health := stores.health
  callback := stores.callback
  credentials := stores.credentials
  buzzer := ⟨true, 0, 0⟩
  log := stores.log

/-- `rtos_StartupTask`. Without a result it ends in `Error_Handler`. -/
def startup : FlashM (Option Ram) := do
  let status ← recover
  if status ≠ .ok then pure none
  else do
    let stores ← openStores
    pure (stores.map started)

/-- One thing that happens, with the fates of its flash commands. `reset` is the factory reset
of the button. -/
inductive Event where
  | boot (fates : Fates)
  | request (env : Env) (request : Request) (body : List UInt8) (fates : Fates)
  | check (check : Check) (fates : Fates)
  | reset (locked : Bool) (fates : Fates)

/-- The same when nothing goes wrong. -/
def Event.calm : Event → Event
  | .boot _ => .boot {}
  | .request env r body _ => .request env r body {}
  | .check c _ => .check c {}
  | .reset locked _ => .reset locked {}

/-- A device that was never started. -/
def start : Device := ⟨fun _ => 0xFF, none, []⟩

/-- One event. A device that is not running handles nothing. -/
def step (d : Device) : Event → Device
  | .boot fates =>
    let out := startup ⟨d.cells, fates, []⟩
    { d with cells := out.2.cells, ram := out.1.join }
  | .request env request body fates =>
    match d.ram with
    | none => d
    | some ram =>
      let out := dispatch env request body ram ⟨d.cells, fates, []⟩
      { d with cells := out.2.cells, ram := out.1.map Prod.snd }
  | .check check fates =>
    match d.ram with
    | none => d
    | some ram =>
      let out := checkResource check ram ⟨d.cells, fates, []⟩
      ⟨out.2.cells, out.1.map Prod.snd, (out.1.bind Prod.fst).toList ++ d.logged⟩
  | .reset locked fates =>
    match d.ram with
    | none => d
    | some ram =>
      let out := execute locked ⟨d.cells, fates, []⟩
      { d with cells := out.2.cells, ram := if out.1 = some .returned then some ram else none }

end Device

/-! ## The sectors of a component -/

namespace ApiService

theorem Part.lawful (p : Part) : p.store.Lawful := by
  cases p with
  | users => exact UserStore.lawful
  | trust => exact TlsTrustStore.lawful
  | health => exact HealthCheckConfig.lawful
  | callback => exact CallbackConfig.lawful
  | credentials => exact TlsServerCredentials.lawful

/-- Where the sectors of a component begin and end. -/
def Part.bounds : Part → ℕ × ℕ
  | .users => (sector 2, capacityBytes)
  | .health => (sector 4, sector 2)
  | .credentials => (sector 6, sector 4)
  | .trust => (sector 15, sector 9)
  | .callback => (sector 18, sector 16)

theorem Part.span_subset (p : Part) : p.store.span ⊆ Set.Ico p.bounds.1 p.bounds.2 := by
  have hsector : ∀ {σ : Type} (S : SectorStore σ) {lo hi : ℕ}, lo ≤ S.sectorA →
      S.sectorA + sectorSize = S.sectorB → S.sectorB + sectorSize ≤ hi →
      S.region .a ∪ S.region .b ⊆ Set.Ico lo hi := fun S _ _ ha hab hb =>
    Set.union_subset (region_subset S ha hab hb .a) (region_subset S ha hab hb .b)
  cases p with
  | users => exact hsector UserStore.sectorStore (by decide) (by decide) (by decide)
  | trust =>
    refine Set.union_subset ?_ ?_ <;> refine Set.Ico_subset_Ico (by decide) (by decide)
  | health => exact hsector HealthCheckConfig.sectorStore (by decide) (by decide) (by decide)
  | callback => exact hsector CallbackConfig.sectorStore (by decide) (by decide) (by decide)
  | credentials =>
    exact hsector TlsServerCredentials.sectorStore (by decide) (by decide) (by decide)

/-- The components are apart. -/
theorem Part.disjoint {p q : Part} (h : p ≠ q) : Disjoint p.store.span q.store.span := by
  have hbounds : p.bounds.2 ≤ q.bounds.1 ∨ q.bounds.2 ≤ p.bounds.1 := by
    revert h
    cases p <;> cases q <;> decide
  refine Set.disjoint_left.2 fun i hp hq => ?_
  have hp := p.span_subset hp
  have hq := q.span_subset hq
  simp only [Set.mem_Ico] at hp hq
  omega

/-- And so is the log, -/
theorem Part.disjoint_log (p : Part) : Disjoint p.store.span HealthCheckLog.region := by
  have hbounds : p.bounds.2 ≤ HealthCheckLog.sectorBase .a ∨
      HealthCheckLog.sectorBase .b + sectorSize ≤ p.bounds.1 := by cases p <;> decide
  refine Set.disjoint_left.2 fun i hp hlog => ?_
  have hp := p.span_subset hp
  simp only [HealthCheckLog.region, Set.mem_Ico] at hp hlog
  omega

/-- and the marker of a factory reset. -/
theorem Part.disjoint_marker (p : Part) : Disjoint p.store.span markerRegion := by
  have hbounds : p.bounds.2 ≤ factoryResetMarkerSector ∨
      factoryResetMarkerSector + sectorSize ≤ p.bounds.1 := by cases p <;> decide
  refine Set.disjoint_left.2 fun i hp hmarker => ?_
  have hp := p.span_subset hp
  simp only [markerRegion, Set.mem_Ico] at hp hmarker
  omega

/-- The freshness of a store with banks of one sector. -/
theorem local_sectorStore {σ : Type} {S : SectorStore σ} (hS : S.Sound) {Ram Op : Type}
    {vars : Ram → SectorRam σ} {init : FlashM (Status × Ram)}
    {exec : Op → Ram → FlashM (Bool × Ram)} {clear : Cells → Bank → Prop} {factory : σ}
    {lazy : Bool}
    (hclear : ∀ {m m' x}, (∀ i ∈ S.region x, m' i = m i) → clear m x → clear m' x)
    (hlazy : lazy = true → ∀ m x, clear m x) :
    (S.store Ram Op vars init exec clear factory lazy).Local where
  congr {m m'} h hfresh x := by
    have hx : ∀ i ∈ S.region x, m' i = m i := fun i hi => h i (by
      cases x
      · exact .inl hi
      · exact .inr hi)
    have hload : S.load m' x = S.load m x := SectorStore.load_congr hS hx
    exact ⟨hload ▸ (hfresh x).1, hclear hx (hfresh x).2⟩
  lazy hl m hnone x := ⟨hnone x, hlazy hl m x⟩

theorem Part.local (p : Part) : p.store.Local := by
  cases p with
  | users => exact local_sectorStore UserStore.sound (fun _ h => h) fun _ _ _ => trivial
  | trust =>
    refine ⟨fun {m m'} h hfresh => ⟨?_, fun i hi => (h i (.inr hi)).trans (hfresh.2 i hi)⟩, nofun⟩
    have hload : TlsTrustStore.load m' .a = TlsTrustStore.load m .a :=
      TlsTrustStore.lawful.load_congr fun i hi => h i (.inl hi)
    rw [hload]
    exact hfresh.1
  | health =>
    exact local_sectorStore HealthCheckConfig.sound HealthCheckConfig.unmigratable_congr nofun
  | callback => exact local_sectorStore CallbackConfig.sound (fun _ h => h) fun _ _ _ => trivial
  | credentials =>
    exact local_sectorStore TlsServerCredentials.sound (fun _ h => h) fun _ _ _ => trivial

end ApiService

/-! ## Nothing goes wrong at start-up -/

namespace Device

/-- Images of all components with the given properties: those that are open are current, the
others will be found. -/
def Opened (P : (p : Part) → p.store.Image → Prop) (opened : (p : Part) → Option p.store.Ram)
    (m : Cells) : Prop :=
  ∀ p, (opened p = none → p.store.Stocked (P p) m) ∧
    ∀ ram, opened p = some ram → p.store.Current (P p) m ram

variable {P : (p : Part) → p.store.Image → Prop} {opened : (p : Part) → Option p.store.Ram}
  {c c' : Chip} {m m' : Cells}

/-- Writes elsewhere do not matter. -/
theorem Opened.congr (h : Opened P opened m) (hm : ∀ p : Part, ∀ i ∈ p.store.span, m' i = m i) :
    Opened P opened m' := fun p =>
  ⟨fun hp => ((h p).1 hp).congr p.lawful p.local (hm p),
    fun ram hram => ((h p).2 ram hram).congr p.lawful (hm p)⟩

/-- One component is opened. -/
theorem Opened.boot (h : Opened P opened c.cells) (p : Part) (hp : opened p = none)
    (hfactory : P p p.store.factory) (hc : c.fates = {}) :
    ∃ ram c', p.store.init c = (some (.ok, ram), c') ∧ c'.fates = {} ∧
      Steps p.store.span c c' ∧ Opened P (Function.update opened p (some ram)) c'.cells := by
  obtain ⟨ram, c', hinit, hcurrent⟩ := ((h p).1 hp).boot p.lawful hfactory hc
  have hsteps := p.lawful.init_driven.steps c
  rw [hinit] at hsteps
  refine ⟨ram, c', hinit, (hc ▸ hsteps.fates).of_nil, hsteps, fun q => ?_⟩
  by_cases hq : q = p
  · subst hq
    rw [Function.update_self]
    exact ⟨nofun, fun ram' hram' => (Option.some.inj hram') ▸ hcurrent⟩
  · rw [Function.update_of_ne hq]
    have hkept : ∀ i ∈ q.store.span, c'.cells i = c.cells i := fun i hi =>
      hsteps.outside i (Set.disjoint_left.1 (Part.disjoint hq) hi)
    exact ⟨fun hnone => ((h q).1 hnone).congr q.lawful q.local hkept,
      fun ram' hram' => ((h q).2 ram' hram').congr q.lawful hkept⟩

/-- The components keep off the log and off the marker. -/
theorem kept_log {p : Part} (h : Steps p.store.span c c') :
    ∀ i ∈ HealthCheckLog.region, c'.cells i = c.cells i := fun i hi =>
  h.outside i fun hspan => Set.disjoint_left.1 p.disjoint_log hspan hi

theorem kept_marker {p : Part} (h : Steps p.store.span c c') :
    ∀ i ∈ markerRegion, c'.cells i = c.cells i := fun i hi =>
  h.outside i fun hspan => Set.disjoint_left.1 p.disjoint_marker hspan hi

theorem marker_notMem_log {i : ℕ} (h : i ∈ markerRegion) : i ∉ HealthCheckLog.region := by
  have hbounds : factoryResetMarkerSector + sectorSize ≤ HealthCheckLog.sectorBase .a := by decide
  intro hlog
  simp only [markerRegion, HealthCheckLog.region, Set.mem_Ico] at h hlog
  omega

/-- No factory reset is under way. -/
theorem recover_calm (hmarker : ¬Marked c.cells) (hc : c.fates = {}) :
    ∃ c', recover c = (some .ok, c') ∧ c'.cells = c.cells ∧ c'.fates = {} := by
  obtain ⟨found, c', hfound⟩ := driven_markerValid.returns c hc
  have hsteps := driven_markerValid.steps c
  rw [hfound] at hsteps
  refine ⟨c', ?_, funext fun i => hsteps.outside i (Set.notMem_empty i), (hc ▸ hsteps.fates).of_nil⟩
  rw [recover, bind_of_some hfound, markerValid_of_not_marked hmarker hfound]
  rfl

/-- **Start-up opens everything.** -/
theorem startup_calm (h : Opened P (fun _ => none) c.cells)
    (hfactory : ∀ p, P p p.store.factory) (hmarker : ¬Marked c.cells)
    {hist : List HealthCheckLog.Record} (hlog : HealthCheckLog.Idle c.cells hist)
    (hnumbered : HealthCheckLog.Numbered hist) (hfew : hist.length < 2 ^ 32 - 1)
    (hc : c.fates = {}) :
    ∃ ram c', startup c = (some (some ram), c') ∧
      Opened P (fun p => some (ram.part p)) c'.cells ∧ ¬Marked c'.cells ∧
      HealthCheckLog.Running c'.cells hist ram.log := by
  obtain ⟨c₀, hrecover, hcells₀, hc₀⟩ := recover_calm hmarker hc
  rw [← hcells₀] at h hlog hmarker
  obtain ⟨trust, c₁, h₁, hc₁, hs₁, ho₁⟩ := h.boot .trust rfl (hfactory _) hc₀
  obtain ⟨callback, c₂, h₂, hc₂, hs₂, ho₂⟩ := ho₁.boot .callback rfl (hfactory _) hc₁
  obtain ⟨health, c₃, h₃, hc₃, hs₃, ho₃⟩ := ho₂.boot .health rfl (hfactory _) hc₂
  have hlog₃ : HealthCheckLog.Idle c₃.cells hist :=
    ((hlog.elsewhere (kept_log hs₁)).elsewhere (kept_log hs₂)).elsewhere (kept_log hs₃)
  obtain ⟨log, c₄, h₄, hlog₄⟩ := HealthCheckLog.init_calm hlog₃ hnumbered hfew hc₃
  have hs₄ := HealthCheckLog.driven_init.steps c₃
  rw [h₄] at hs₄
  have hc₄ : c₄.fates = {} := (hc₃ ▸ hs₄.fates).of_nil
  have ho₄ := ho₃.congr fun p i hi => hs₄.outside i (Set.disjoint_left.1 p.disjoint_log hi)
  obtain ⟨credentials, c₅, h₅, hc₅, hs₅, ho₅⟩ := ho₄.boot .credentials rfl (hfactory _) hc₄
  obtain ⟨users, c₆, h₆, hc₆, hs₆, ho₆⟩ := ho₅.boot .users rfl (hfactory _) hc₅
  have hopen : openStores c₀ =
      (some (some ⟨trust, callback, health, log, credentials, users⟩), c₆) := by
    unfold openStores
    refine (bind_of_some h₁).trans ((bind_of_some h₂).trans ((bind_of_some h₃).trans
      ((bind_of_some h₄).trans ((bind_of_some h₅).trans ((bind_of_some h₆).trans ?_)))))
    rfl
  refine ⟨started ⟨trust, callback, health, log, credentials, users⟩, c₆, ?_, ?_, ?_, ?_⟩
  · rw [startup, bind_of_some hrecover, if_neg (not_not_intro rfl), bind_of_some hopen]
    rfl
  · refine fun p => ⟨nofun, fun ram hram => (ho₆ p).2 ram ?_⟩
    rw [← hram]
    cases p <;> rfl
  · refine fun hmarked => hmarker ((Marked.congr fun i hi => ?_).1 hmarked)
    rw [kept_marker hs₆ i hi, kept_marker hs₅ i hi, hs₄.outside i (marker_notMem_log hi),
      kept_marker hs₃ i hi, kept_marker hs₂ i hi, kept_marker hs₁ i hi]
  · exact (hlog₄.elsewhere (kept_log hs₅)).elsewhere (kept_log hs₆)

/-- What each step of start-up keeps, it keeps, whether it comes up or not. -/
theorem preserves_startup {Inv : Cells → Prop} (hrecover : Preserves Inv recover)
    (hpart : ∀ p : Part, Preserves Inv p.store.init) (hlog : Preserves Inv HealthCheckLog.init) :
    Preserves Inv startup := by
  have hopen : Preserves Inv openStores := by
    refine (hpart .trust).bind fun _ => (Preserves.pure _).ite ?_
    refine (hpart .callback).bind fun _ => (Preserves.pure _).ite ?_
    refine (hpart .health).bind fun _ => (Preserves.pure _).ite ?_
    refine hlog.bind fun _ => (Preserves.pure _).ite ?_
    refine (hpart .credentials).bind fun _ => (Preserves.pure _).ite ?_
    exact (hpart .users).bind fun _ => (Preserves.pure _).ite (.pure _)
  exact hrecover.bind fun _ => (Preserves.pure _).ite (hopen.bind fun _ => .pure _)

/-- Behind a check of a status. -/
theorem behind_ok {α β : Type} {status : Status} {x : FlashM α} {f : α → FlashM (Option β)} {b : β}
    (h : (if status ≠ .ok then pure none else x >>= f) c = (some (some b), c')) :
    status = .ok ∧ ∃ a c₁, x c = (some a, c₁) ∧ f a c₁ = (some (some b), c') := by
  split at h
  · cases h
  · exact ⟨not_ne_iff.1 ‹_›, bind_eq_some.1 h⟩

/-- **What start-up went through** when it comes up. -/
theorem startup_eq_some {ram : Ram} (h : startup c = (some (some ram), c')) :
    ∃ (stores : Stores) (c₀ c₁ c₂ c₃ c₄ c₅ : Chip), recover c = (some .ok, c₀) ∧
      TlsTrustStore.init c₀ = (some (.ok, stores.trust), c₁) ∧
      CallbackConfig.init c₁ = (some (.ok, stores.callback), c₂) ∧
      HealthCheckConfig.init c₂ = (some (.ok, stores.health), c₃) ∧
      HealthCheckLog.init c₃ = (some (.ok, stores.log), c₄) ∧
      TlsServerCredentials.init c₄ = (some (.ok, stores.credentials), c₅) ∧
      UserStore.init c₅ = (some (.ok, stores.users), c') ∧ ram = started stores := by
  obtain ⟨status, c₀, hrecover, h⟩ := bind_eq_some.1 h
  obtain ⟨rfl, opening, d, hopen, h⟩ := behind_ok h
  simp only [pure_apply, Prod.mk.injEq, Option.some.injEq] at h
  obtain ⟨hstores, rfl⟩ := h
  obtain ⟨stores, rfl, rfl⟩ := Option.map_eq_some_iff.1 hstores
  unfold openStores at hopen
  obtain ⟨⟨_, trust⟩, c₁, htrust, hopen⟩ := bind_eq_some.1 hopen
  obtain ⟨rfl, ⟨_, callback⟩, c₂, hcallback, hopen⟩ := behind_ok hopen
  obtain ⟨rfl, ⟨_, health⟩, c₃, hhealth, hopen⟩ := behind_ok hopen
  obtain ⟨rfl, ⟨_, log⟩, c₄, hlog, hopen⟩ := behind_ok hopen
  obtain ⟨rfl, ⟨_, credentials⟩, c₅, hcredentials, hopen⟩ := behind_ok hopen
  obtain ⟨rfl, ⟨_, users⟩, c₆, husers, hopen⟩ := behind_ok hopen
  dsimp only at hopen
  split at hopen
  · cases hopen
  · rename_i hstatus
    obtain rfl := not_ne_iff.1 hstatus
    simp only [pure_apply, Prod.mk.injEq, Option.some.injEq] at hopen
    obtain ⟨rfl, rfl⟩ := hopen
    exact ⟨_, c₀, c₁, c₂, c₃, c₄, c₅, hrecover, htrust, hcallback, hhealth, hlog, hcredentials,
      husers, rfl⟩

theorem idle_erased : HealthCheckLog.Idle (fun _ => 0xFF) [] :=
  ⟨.inl (HealthCheckLog.Sys.records_of_erased fun _ _ _ _ => rfl), fun _ => rfl⟩

/-- A device that was never started comes up. -/
theorem startup_erased (hfactory : ∀ p, P p p.store.factory) :
    ∃ ram c', startup ⟨fun _ => 0xFF, {}, []⟩ = (some (some ram), c') ∧
      Opened P (fun p => some (ram.part p)) c'.cells ∧ ¬Marked c'.cells ∧
      HealthCheckLog.Running c'.cells [] ram.log := by
  have hopened : Opened P (fun _ => none) fun _ => 0xFF := fun p =>
    ⟨fun _ => Store.stocked_erased p.lawful, nofun⟩
  exact startup_calm (c := ⟨fun _ => 0xFF, {}, []⟩) hopened hfactory not_marked_erased idle_erased
    trivial (by decide) rfl

/-- So does one that is switched on for the first time. -/
theorem first_boot : ∃ ram, (Run.run step start [.boot {}]).ram = some ram := by
  obtain ⟨ram, c', hstartup, -⟩ := startup_erased (P := fun _ _ => True) fun _ => trivial
  refine ⟨ram, ?_⟩
  show (startup ⟨fun _ => 0xFF, {}, []⟩).1.join = some ram
  rw [hstartup]
  rfl

/-- The variables behind an event: start-up's, those a request leaves, or as they were but for
the log and the buzzer. -/
theorem ram_step {d : Device} {e : Event} {ram : Ram} (h : (d.step e).ram = some ram) :
    (∃ fates c', startup ⟨d.cells, fates, []⟩ = (some (some ram), c') ∧
      (d.step e).cells = c'.cells) ∨
    (∃ before env request body response fates c', d.ram = some before ∧
      dispatch env request body before ⟨d.cells, fates, []⟩ = (some (response, ram), c')) ∨
    ∃ before log buzzer, d.ram = some before ∧
      ram = { before with log := log, buzzer := buzzer } := by
  have hsame : d.ram = some ram → ∃ before log buzzer, d.ram = some before ∧
      ram = { before with log := log, buzzer := buzzer } := fun hd => ⟨ram, _, _, hd, rfl⟩
  cases e with
  | boot fates =>
    rcases hstartup : startup ⟨d.cells, fates, []⟩ with ⟨_ | _ | ram', c'⟩
    · simp only [step, hstartup] at h
      cases h
    · simp only [step, hstartup] at h
      cases h
    · simp only [step, hstartup] at h
      obtain rfl := Option.some.inj h
      exact .inl ⟨fates, c', hstartup, congrArg (fun r => r.2.cells) hstartup⟩
  | request env request body fates =>
    simp only [step] at h
    split at h
    · exact .inr (.inr (hsame h))
    · rename_i before hbefore
      obtain ⟨⟨response, ram⟩, hr, rfl⟩ := Option.map_eq_some_iff.1 h
      exact .inr (.inl ⟨before, env, request, body, response, fates, _, hbefore, Prod.ext hr rfl⟩)
  | check check fates =>
    simp only [step] at h
    split at h
    · exact .inr (.inr (hsame h))
    · rename_i before hbefore
      obtain ⟨r, hr, rfl⟩ := Option.map_eq_some_iff.1 h
      obtain ⟨⟨_, entry, log⟩, c₁, -, hret⟩ := bind_eq_some.1 (Prod.ext hr rfl :
        checkResource check before ⟨d.cells, fates, []⟩ = (some r, _))
      simp only [pure_apply, Prod.mk.injEq, Option.some.injEq] at hret
      obtain ⟨rfl, -⟩ := hret
      exact .inr (.inr ⟨before, log, _, hbefore, rfl⟩)
  | reset locked fates =>
    simp only [step] at h
    split at h
    · exact .inr (.inr (hsame h))
    · rename_i before hbefore
      split at h
      · exact .inr (.inr (hsame (hbefore.trans h)))
      · cases h

end Device

end HealthCheck
