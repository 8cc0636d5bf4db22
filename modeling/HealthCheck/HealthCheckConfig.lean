import HealthCheck.Lib.CString
import HealthCheck.SectorStore
import HealthCheck.TlsTrustStore

/-!
# The health-check configuration

`health_check_config.c`: the check period and three resource slots in a one-sector A/B store of
version 2. Start-up migrates a version-1 snapshot when there is no version-2 one, and saves the
compiled default when there is neither.
-/

namespace HealthCheck.HealthCheckConfig

open Nor hiding read driven_read read_ok read_cases
open CString Crc32 Memory TwoBank

/-- `HEALTH_CHECK_CONFIG_MAX_RESOURCES`. -/
def maxResources : ℕ := 3

/-- `HEALTH_CHECK_CONFIG_HOST_SIZE`. -/
def hostSize : ℕ := 64

/-- `HEALTH_CHECK_CONFIG_PATH_SIZE`. -/
def pathSize : ℕ := 80

/-- `HEALTH_CHECK_CONFIG_MIN_PERIOD_SECONDS`. -/
def minPeriodSeconds : UInt32 := 60

/-- `HEALTH_CHECK_CONFIG_MAX_PERIOD_SECONDS`. -/
def maxPeriodSeconds : UInt32 := 1800

/-- `HealthCheckConfig_StatusTypeDef`. -/
inductive ConfigStatus where
  | ok
  | invalidArgument
  | notFound
  | full
  | storageError
deriving DecidableEq, Repr

/-- `HealthCheckConfig_ResourceTypeDef`. -/
structure Resource where
  occupied : UInt8
  enabled : UInt8
  trustAnchorId : UInt8
  reserved : UInt8
  port : UInt16
  host : Vector UInt8 hostSize
  path : Vector UInt8 pathSize
deriving DecidableEq

/-- `HealthCheckConfig_SnapshotTypeDef`, with the bytes the compiler puts before `crc`. -/
structure Snapshot where
  magic : UInt32
  version : UInt16
  reserved : UInt16
  generation : UInt32
  periodSeconds : UInt32
  resources : Vector Resource maxResources
  padding : UInt16
  crc : UInt32
deriving DecidableEq

/-- `HealthCheckConfig_LegacyResourceTypeDef`. -/
structure LegacyResource where
  occupied : UInt8
  enabled : UInt8
  port : UInt16
  host : Vector UInt8 hostSize
  path : Vector UInt8 pathSize
deriving DecidableEq

/-- `HealthCheckConfig_LegacySnapshotTypeDef`. -/
structure LegacySnapshot where
  magic : UInt32
  version : UInt16
  reserved : UInt16
  generation : UInt32
  periodSeconds : UInt32
  resources : Vector LegacyResource maxResources
  crc : UInt32
deriving DecidableEq

/-! ## Layouts -/

def resourceLayout : Layout Resource :=
  (pair u8 (pair u8 (pair u8 (pair u8 (pair u16 (pair (array u8 hostSize)
    (array u8 pathSize))))))).as
    (fun r => (r.occupied, r.enabled, r.trustAnchorId, r.reserved, r.port, r.host, r.path))
    (fun ⟨occupied, enabled, trustAnchorId, reserved, port, host, path⟩ =>
      ⟨occupied, enabled, trustAnchorId, reserved, port, host, path⟩)
    fun _ => rfl

def legacyResourceLayout : Layout LegacyResource :=
  (pair u8 (pair u8 (pair u16 (pair (array u8 hostSize) (array u8 pathSize))))).as
    (fun r => (r.occupied, r.enabled, r.port, r.host, r.path))
    (fun ⟨occupied, enabled, port, host, path⟩ => ⟨occupied, enabled, port, host, path⟩)
    fun _ => rfl

/-- Everything before the CRC. -/
def bodyLayout : Layout
    (UInt32 × UInt16 × UInt16 × UInt32 × UInt32 × Vector Resource maxResources × UInt16) :=
  pair u32 (pair u16 (pair u16 (pair u32 (pair u32
    (pair (array resourceLayout maxResources) u16)))))

def legacyBodyLayout : Layout
    (UInt32 × UInt16 × UInt16 × UInt32 × UInt32 × Vector LegacyResource maxResources) :=
  pair u32 (pair u16 (pair u16 (pair u32 (pair u32 (array legacyResourceLayout maxResources)))))

def Snapshot.body (s : Snapshot) :
    UInt32 × UInt16 × UInt16 × UInt32 × UInt32 × Vector Resource maxResources × UInt16 :=
  (s.magic, s.version, s.reserved, s.generation, s.periodSeconds, s.resources, s.padding)

def LegacySnapshot.body (s : LegacySnapshot) :
    UInt32 × UInt16 × UInt16 × UInt32 × UInt32 × Vector LegacyResource maxResources :=
  (s.magic, s.version, s.reserved, s.generation, s.periodSeconds, s.resources)

def layout : Layout Snapshot :=
  (pair bodyLayout u32).as (fun s => (s.body, s.crc))
    (fun ⟨⟨magic, version, reserved, generation, periodSeconds, resources, padding⟩, crc⟩ =>
      ⟨magic, version, reserved, generation, periodSeconds, resources, padding, crc⟩)
    fun _ => rfl

def legacyLayout : Layout LegacySnapshot :=
  (pair legacyBodyLayout u32).as (fun s => (s.body, s.crc))
    (fun ⟨⟨magic, version, reserved, generation, periodSeconds, resources⟩, crc⟩ =>
      ⟨magic, version, reserved, generation, periodSeconds, resources, crc⟩)
    fun _ => rfl

/-! ## Validation -/

/-- `healthCheckConfig_Crc` up to the `crc` field. -/
def crcOf (s : Snapshot) : UInt32 := crc32 (bodyLayout.encode s.body)

/-- `healthCheckConfig_Crc` up to the `crc` field of a version-1 snapshot. -/
def legacyCrcOf (s : LegacySnapshot) : UInt32 := crc32 (legacyBodyLayout.encode s.body)

def magic : UInt32 := 0x48434643
def version : UInt16 := 2
def legacyVersion : UInt16 := 1

/-- The period is in bounds. -/
def periodValid (periodSeconds : UInt32) : Bool :=
  minPeriodSeconds ≤ periodSeconds && periodSeconds ≤ maxPeriodSeconds

/-- `healthCheckConfig_IsValid`. -/
def isValid (s : Snapshot) : Bool :=
  s.magic = magic && s.version = version && periodValid s.periodSeconds && s.crc = crcOf s

/-- `healthCheckConfig_IsLegacyValid`. -/
def isLegacyValid (s : LegacySnapshot) : Bool :=
  s.magic = magic && s.version = legacyVersion && periodValid s.periodSeconds &&
    s.crc = legacyCrcOf s

/-! ## The store -/

/-- The header `healthCheckConfig_Save` writes. -/
def stamp (s : Snapshot) : Snapshot :=
  let s := { s with magic := magic, version := version, generation := s.generation + 1 }
  { s with crc := crcOf s }

def sectorStore : SectorStore Snapshot where
  sectorA := FlashLayout.healthCheckConfigSectorA
  sectorB := FlashLayout.healthCheckConfigSectorB
  layout := layout
  stamp := stamp
  isValid := isValid
  generation := Snapshot.generation

abbrev Ram := SectorRam Snapshot

/-- `healthCheckConfig_Save`. -/
def save (candidate : Snapshot) (ram : Ram) : FlashM (Status × Snapshot × Ram) :=
  sectorStore.save candidate ram

def zeroResource : Resource := ⟨0, 0, 0, 0, 0, .replicate _ 0, .replicate _ 0⟩

/-- A snapshot cleared with `memset`. -/
def zero : Snapshot := ⟨0, 0, 0, 0, 0, .replicate _ zeroResource, 0, 0⟩

/-- `healthCheckConfig_MigrateLegacy`. -/
def migrateLegacy (legacy : LegacySnapshot) : Snapshot :=
  { zero with
    generation := legacy.generation
    periodSeconds := legacy.periodSeconds
    resources := legacy.resources.map fun r =>
      { occupied := r.occupied
        enabled := r.enabled
        trustAnchorId := 0
        reserved := 0
        port := r.port
        host := r.host
        path := r.path } }

/-- `healthCheckConfig_SetDefault`. -/
def default : Snapshot :=
  { zero with
    periodSeconds := 60
    resources := (Vector.replicate maxResources zeroResource).set 0
      { occupied := 1
        enabled := 1
        trustAnchorId := 0
        reserved := 0
        port := 443
        host := charArray hostSize (ascii "pgw.intraclear.com")
        path := charArray pathSize (ascii "/") } }

/-- The version-1 snapshot to migrate, with its address. -/
def chooseLegacy (firstValid secondValid : Bool) (first second : LegacySnapshot) :
    Option (LegacySnapshot × ℕ) :=
  if firstValid && (!secondValid || first.generation ≥ second.generation) then
    some (first, FlashLayout.healthCheckConfigSectorA)
  else if secondValid then some (second, FlashLayout.healthCheckConfigSectorB)
  else none

/-- Save what is in RAM, as `HealthCheckConfig_Init` does: the stamped snapshot stays there. -/
def saveInPlace (ram : Ram) : FlashM (Status × Ram) := do
  let (status, candidate, ram) ← save ram.snapshot ram
  pure (status, { ram with snapshot := candidate })

/-- `HealthCheckConfig_Init` without a version-2 snapshot. -/
def initLegacy : FlashM (Status × Ram) := do
  let (firstStatus, firstBytes) ←
    W25q64.read FlashLayout.healthCheckConfigSectorA legacyLayout.size
  let first := legacyLayout.decode firstBytes
  let (secondStatus, secondBytes) ←
    W25q64.read FlashLayout.healthCheckConfigSectorB legacyLayout.size
  let second := legacyLayout.decode secondBytes
  match chooseLegacy (firstStatus = .ok && isLegacyValid first)
      (secondStatus = .ok && isLegacyValid second) first second with
  | some (legacy, address) => saveInPlace ⟨migrateLegacy legacy, address⟩
  | none => saveInPlace ⟨default, FlashLayout.healthCheckConfigSectorB⟩

/-- `HealthCheckConfig_Init`. -/
def init : FlashM (Status × Ram) := do
  match ← sectorStore.newestSnapshot with
  | some ram => pure (.ok, ram)
  | none => initLegacy

/-- `HealthCheckConfig_GetPeriodSeconds`. -/
def getPeriodSeconds (ram : Ram) : UInt32 := ram.snapshot.periodSeconds

/-- `HealthCheckConfig_GetResources`. -/
def getResources (ram : Ram) : Vector Resource maxResources := ram.snapshot.resources

/-- Save a candidate and report as the configuration functions do. -/
def commit (candidate : Snapshot) (ram : Ram) : FlashM (ConfigStatus × Ram) := do
  let (status, _, ram) ← save candidate ram
  pure (if status = .ok then .ok else .storageError, ram)

/-- `HealthCheckConfig_SetPeriodSeconds`. -/
def setPeriodSeconds (periodSeconds : UInt32) (ram : Ram) : FlashM (ConfigStatus × Ram) :=
  if !periodValid periodSeconds then pure (.invalidArgument, ram)
  else commit { ram.snapshot with periodSeconds := periodSeconds } ram

/-- The arguments `HealthCheckConfig_AddResource` and `HealthCheckConfig_UpdateResource`
accept. -/
def argumentsValid (host : Bytes) (port : UInt16) (path : Bytes) (trustAnchorId : UInt8) : Bool :=
  host ≠ [] && path.head? = some 0x2F && port ≠ 0 &&
    trustAnchorId.toNat ≤ TlsTrustStore.maxPersisted && host.length < hostSize &&
    path.length < pathSize

/-- `HealthCheckConfig_AddResource`: a status, and the slot that was occupied. -/
def addResource (host : Bytes) (port : UInt16) (path : Bytes) (enabled : Bool)
    (trustAnchorId : UInt8) (ram : Ram) : FlashM ((ConfigStatus × Option ℕ) × Ram) :=
  if !argumentsValid host port path trustAnchorId then pure ((.invalidArgument, none), ram)
  else
    match ram.snapshot.resources.toList.findIdx? (·.occupied = 0) with
    | none => pure ((.full, none), ram)
    | some index => do
      let (status, ram) ← commit { ram.snapshot with
        resources := ram.snapshot.resources.setIfInBounds index
          { occupied := 1
            enabled := if enabled then 1 else 0
            trustAnchorId := trustAnchorId
            reserved := 0
            port := port
            host := charArray hostSize host
            path := charArray pathSize path } } ram
      pure ((status, if status = .ok then some index else none), ram)

/-- `HealthCheckConfig_UpdateResource`. -/
def updateResource (index : ℕ) (host : Bytes) (port : UInt16) (path : Bytes) (enabled : Bool)
    (trustAnchorId : UInt8) (ram : Ram) : FlashM (ConfigStatus × Ram) :=
  if h : index < maxResources then
    if !argumentsValid host port path trustAnchorId then pure (.invalidArgument, ram)
    else if ram.snapshot.resources[index].occupied = 0 then pure (.notFound, ram)
    else commit { ram.snapshot with
      resources := ram.snapshot.resources.set index
        { ram.snapshot.resources[index] with
          enabled := if enabled then 1 else 0
          trustAnchorId := trustAnchorId
          port := port
          host := charArray hostSize host
          path := charArray pathSize path } } ram
  else pure (.invalidArgument, ram)

/-- `HealthCheckConfig_DeleteResource`. -/
def deleteResource (index : ℕ) (ram : Ram) : FlashM (ConfigStatus × Ram) :=
  if h : index < maxResources then
    if ram.snapshot.resources[index].occupied = 0 then pure (.notFound, ram)
    else commit { ram.snapshot with
      resources := ram.snapshot.resources.set index zeroResource } ram
  else pure (.invalidArgument, ram)

/-- `HealthCheckConfig_IsTrustAnchorInUse`. -/
def isTrustAnchorInUse (trustAnchorId : UInt8) (ram : Ram) : Bool :=
  ram.snapshot.resources.toList.any fun r => r.occupied ≠ 0 && r.trustAnchorId = trustAnchorId

/-! ## The two-bank scheme -/

/-- The mutations of the store. -/
inductive Op where
  | setPeriodSeconds (periodSeconds : UInt32)
  | addResource (host : Bytes) (port : UInt16) (path : Bytes) (enabled : Bool)
      (trustAnchorId : UInt8)
  | updateResource (index : ℕ) (host : Bytes) (port : UInt16) (path : Bytes) (enabled : Bool)
      (trustAnchorId : UInt8)
  | deleteResource (index : ℕ)

/-- A mutation and its status. -/
def apply (op : Op) (ram : Ram) : FlashM (ConfigStatus × Ram) :=
  match op with
  | .setPeriodSeconds periodSeconds => setPeriodSeconds periodSeconds ram
  | .addResource host port path enabled trustAnchorId => do
    let ((status, _), ram) ← addResource host port path enabled trustAnchorId ram
    pure (status, ram)
  | .updateResource index host port path enabled trustAnchorId =>
    updateResource index host port path enabled trustAnchorId ram
  | .deleteResource index => deleteResource index ram

/-- A mutation, and whether it reports success. -/
def exec (op : Op) (ram : Ram) : FlashM (Bool × Ram) := do
  let (status, ram) ← apply op ram
  pure (status = .ok, ram)

/-- What a bank holds as a version-1 snapshot. -/
def legacyLoad (m : Cells) (x : Bank) : LegacySnapshot :=
  legacyLayout.decode (m.slice (sectorStore.address x) legacyLayout.size)

/-- There is nothing to migrate in a bank. -/
def unmigratable (m : Cells) (x : Bank) : Prop := isLegacyValid (legacyLoad m x) = false

/-- The configuration as a two-bank store. -/
def store : Store :=
  sectorStore.store Ram Op id init exec unmigratable (stamp default) false

theorem sound : sectorStore.Sound where
  aligned x := by cases x <;> decide
  below x := by cases x <;> decide
  ne := by decide
  pos := by decide
  fits := by decide
  generation_stamp _ := rfl

theorem isValid_stamp (s : Snapshot) : isValid (stamp s) = periodValid s.periodSeconds := by
  have hcrc : (stamp s).crc = crcOf (stamp s) := rfl
  simp only [isValid, hcrc, decide_true, Bool.and_true]
  simp [stamp]

/-- The compiled default is a valid configuration. -/
theorem isValid_default : sectorStore.isValid (sectorStore.stamp default) = true := by
  have hvalid : sectorStore.isValid = isValid := rfl
  have hstamp : sectorStore.stamp = stamp := rfl
  rw [hvalid, hstamp, isValid_stamp]
  decide

theorem load_erased (x : Bank) : (sectorStore.load (fun _ => 0xFF) x).magic = 0xFFFFFFFF := by
  rw [SectorStore.load, slice_const]
  rfl

theorem isValid_erased (x : Bank) :
    sectorStore.isValid (sectorStore.load (fun _ => 0xFF) x) = false := by
  have h : sectorStore.isValid = isValid := rfl
  simp [h, isValid, load_erased, magic]

/-- The version is in the same place in both formats. -/
theorem legacyVersion_eq (m : Cells) (x : Bank) :
    (legacyLoad m x).version = (sectorStore.load m x).version := by
  have hold : (legacyLoad m x).version = u16.decode
      ((((m.slice (sectorStore.address x) 464).take 460).drop 4).take 2) := rfl
  have hnew : (sectorStore.load m x).version = u16.decode
      ((((m.slice (sectorStore.address x) 472).take 468).drop 4).take 2) := rfl
  rw [hold, hnew, take_slice _ _ (by decide), take_slice _ _ (by decide), drop_slice, drop_slice,
    take_slice _ _ (by decide), take_slice _ _ (by decide)]

theorem legacyLoad_congr {m m' : Cells} {x : Bank}
    (h : ∀ i ∈ sectorStore.region x, m' i = m i) : legacyLoad m' x = legacyLoad m x := by
  have hfits : legacyLayout.size ≤ W25q64.sectorSize := by decide
  rw [legacyLoad, legacyLoad, slice_congr fun i hi hi' => h i ⟨hi, by omega⟩]

theorem unmigratable_congr {m m' : Cells} {x : Bank}
    (h : ∀ i ∈ sectorStore.region x, m' i = m i) (hm : unmigratable m x) : unmigratable m' x := by
  rwa [unmigratable, legacyLoad_congr h]

theorem unmigratable_erased (x : Bank) : unmigratable (fun _ => 0xFF) x := by
  have hmagic : (legacyLoad (fun _ => 0xFF) x).magic = 0xFFFFFFFF := by
    rw [legacyLoad, slice_const]
    rfl
  simp [unmigratable, isLegacyValid, hmagic, magic]

/-- A bank that holds a snapshot of the store. -/
theorem unmigratable_of_load {m : Cells} {candidate : Snapshot} {x : Bank}
    (h : sectorStore.load m x = sectorStore.stamp candidate) : unmigratable m x := by
  have hversion : (legacyLoad m x).version = version := by
    rw [legacyVersion_eq, h]
    rfl
  simp [unmigratable, isLegacyValid, hversion, version, legacyVersion]

theorem commits_commit {candidate : Snapshot} {ram : Ram} {f : ConfigStatus × Ram → Bool × Ram}
    (h : candidate.generation = ram.snapshot.generation)
    (hf : ∀ s r, f (s, r) = (decide (s = .ok), r)) :
    store.Commits ram (stamp candidate) (commit candidate ram >>= fun r => pure (f r)) := by
  have hreports : SectorStore.Reports (id : Ram → Ram) fun r : Status × Snapshot × Ram =>
      f (if r.1 = .ok then .ok else .storageError, r.2.2) := fun s x r => by
    simp only [hf]
    cases s <;> exact ⟨rfl, rfl⟩
  simp only [commit, bind_assoc, pure_bind]
  refine SectorStore.commits_save sound ?_ hreports
  exact h

theorem shape_commit {candidate : Snapshot} {ram : Ram} {f : ConfigStatus × Ram → Bool × Ram}
    (h : candidate.generation = ram.snapshot.generation)
    (hf : ∀ s r, f (s, r) = (decide (s = .ok), r)) :
    store.Shape ram (commit candidate ram >>= fun r => pure (f r)) :=
  .commits _ (commits_commit h hf)

theorem shape_exec (op : Op) (ram : Ram) : store.Shape ram (exec op ram) := by
  have hidle : store.Shape ram (pure (false, ram)) := .idle false ram rfl rfl rfl
  cases op with
  | setPeriodSeconds periodSeconds =>
    simp only [exec, apply, setPeriodSeconds]
    split
    · exact hidle
    · exact shape_commit rfl fun _ _ => rfl
  | addResource host port path enabled trustAnchorId =>
    simp only [exec, apply, addResource]
    split
    · exact hidle
    · split
      · exact hidle
      · simp only [bind_assoc, pure_bind]
        exact shape_commit rfl fun _ _ => rfl
  | updateResource index host port path enabled trustAnchorId =>
    simp only [exec, apply, updateResource]
    split
    · split
      · exact hidle
      · split
        · exact hidle
        · exact shape_commit rfl fun _ _ => rfl
    · exact hidle
  | deleteResource index =>
    simp only [exec, apply, deleteResource]
    split
    · split
      · exact hidle
      · exact shape_commit rfl fun _ _ => rfl
    · exact hidle

/-- What start-up does with the newest snapshot. -/
def resume : Option Ram → FlashM (Status × Ram)
  | some ram => pure (.ok, ram)
  | none => initLegacy

theorem init_eq : init = sectorStore.newestSnapshot >>= resume := rfl

theorem resume_some (ram : Ram) : resume (some ram) = pure (.ok, ram) := rfl

theorem driven_saveInPlace (ram : Ram) :
    Driven (sectorStore.region .a ∪ sectorStore.region .b) (saveInPlace ram) :=
  SectorStore.driven_save_both sound _ _ _

theorem driven_initLegacy :
    Driven (sectorStore.region .a ∪ sectorStore.region .b) initLegacy := by
  refine (W25q64.driven_read _ _ _).bind fun ⟨s, bytes⟩ => ?_
  refine (W25q64.driven_read _ _ _).bind fun ⟨s', bytes'⟩ => ?_
  dsimp only
  split <;> exact driven_saveInPlace _

/-- A store with nothing to migrate saves the default. -/
theorem seeds_initLegacy {c : Chip} (hreads : c.fates.ReadsSucceed)
    (hfresh : ∀ x, unmigratable c.cells x) : store.Seeds initLegacy c := by
  have hrange : ∀ x, W25q64.inRange (sectorStore.address x) legacyLayout.size = true := fun x =>
    W25q64.inRange_of_sector (by decide) (by decide) (sound.aligned x) (sound.below x)
  refine SectorStore.seeds_read (hrange .a) hreads fun c₁ hcells₁ hreads₁ => ?_
  refine SectorStore.seeds_read (hrange .b) hreads₁ fun c₂ hcells₂ hreads₂ => ?_
  have ha : isLegacyValid (legacyLayout.decode
      (c.cells.slice FlashLayout.healthCheckConfigSectorA legacyLayout.size)) = false := hfresh .a
  have hb : isLegacyValid (legacyLayout.decode
      (c.cells.slice FlashLayout.healthCheckConfigSectorB legacyLayout.size)) = false := hfresh .b
  have hdefault : store.Seeds (saveInPlace ⟨default, FlashLayout.healthCheckConfigSectorB⟩) c₂ := by
    refine SectorStore.seeds_save sound isValid_default (fun _ => ?_) (fun _ _ => ?_) c₂
    · rfl
    · rfl
  rw [hcells₁]
  simp only [decide_true, Bool.true_and, ha, hb]
  exact hdefault

theorem lawful : store.Lawful := by
  rw [store, init_eq]
  refine SectorStore.lawful sound resume id resume_some (fun _ => rfl) ?_
    (fun _ c hreads hfresh => ?_) ?_ (fun x => ⟨isValid_erased x, unmigratable_erased x⟩) ?_ ?_
  · intro h
    cases h
  · exact seeds_initLegacy hreads fun x => (hfresh x).2
  · exact driven_initLegacy
  · rfl
  · rw [← init_eq]
    exact shape_exec

/-! ## Saves that lose power -/

open W25q64 (cutErase zeroed)

/-- Zeros are a snapshot of neither version. -/
theorem isValid_zeros : isValid (layout.decode (.replicate layout.size 0)) = false := by
  have hmagic : (layout.decode (.replicate layout.size 0)).magic = 0 := rfl
  simp [isValid, hmagic, magic]

theorem unmigratable_zeroed (x : Bank) (m : Cells) :
    unmigratable (zeroed (sectorStore.address x) m) x := by
  have hslice : (zeroed (sectorStore.address x) m).slice (sectorStore.address x)
      legacyLayout.size = Cells.slice (fun _ => 0) (sectorStore.address x) legacyLayout.size :=
    slice_congr fun i hi hi' => if_pos ⟨hi, hi'.trans (Nat.add_lt_add_left (by decide) _)⟩
  have hmagic : (legacyLoad (zeroed (sectorStore.address x) m) x).magic = 0 := by
    rw [legacyLoad, hslice, slice_const]
    rfl
  simp [unmigratable, isLegacyValid, hmagic, magic]

/-- A start-up without a snapshot to load, cut off while it saves one to the other sector than
`x`. -/
theorem init_cut {m : Cells} {x : Bank} {choice : Option (LegacySnapshot × ℕ)}
    (hinvalid : ∀ y, sectorStore.isValid (sectorStore.load m y) = false)
    (hchoice : chooseLegacy (isLegacyValid (legacyLoad m .a)) (isLegacyValid (legacyLoad m .b))
      (legacyLoad m .a) (legacyLoad m .b) = choice)
    (haddress : choice.elim FlashLayout.healthCheckConfigSectorB Prod.snd = sectorStore.address x) :
    init ⟨m, cutErase, []⟩ = (none, ⟨zeroed (sectorStore.address x.other) m, {},
      [.erase (sectorStore.address x.other) W25q64.sectorSize m]⟩) := by
  have hnone : sectorStore.newestSnapshot ⟨m, cutErase, []⟩ = (some none, ⟨m, cutErase, []⟩) := by
    rw [SectorStore.newestSnapshot_of_reads_nil sound rfl, SectorStore.newestRam_of_fresh hinvalid]
  have hrange : ∀ y, W25q64.inRange (sectorStore.address y) legacyLayout.size = true := fun y =>
    W25q64.inRange_of_sector (by decide) (by decide) (sound.aligned y) (sound.below y)
  have hread : ∀ y, W25q64.read (sectorStore.address y) legacyLayout.size
      ⟨m, cutErase, []⟩ = _ := fun y => W25q64.read_of_reads_nil (hrange y) rfl
  have hcut : ∀ image, saveInPlace ⟨image, sectorStore.address x⟩ ⟨m, cutErase, []⟩ =
      (none, ⟨zeroed (sectorStore.address x.other) m, {},
        [.erase (sectorStore.address x.other) W25q64.sectorSize m]⟩) := fun image => by
    have hsave := SectorStore.save_cut sound image ⟨image, sectorStore.address x⟩ m []
    rw [SectorStore.target_eq_address, SectorStore.activeBank_address sound] at hsave
    exact bind_of_none hsave
  rw [init, bind_of_some hnone]
  dsimp only
  refine (bind_of_some (hread .a)).trans ((bind_of_some (hread .b)).trans ?_)
  simp only [decide_true, Bool.true_and]
  generalize hchosen : chooseLegacy _ _ _ _ = chosen
  obtain rfl := hchosen.symm.trans hchoice
  cases chosen with
  | none =>
    rw [Option.elim_none] at haddress
    dsimp only
    rw [haddress]
    exact hcut default
  | some chosen =>
    rw [Option.elim_some] at haddress
    dsimp only
    rw [haddress]
    exact hcut _

/-- The first one is to save the default. -/
theorem init_erased_cut : init ⟨fun _ => 0xFF, cutErase, []⟩ =
    (none, ⟨zeroed (sectorStore.address .a) fun _ => 0xFF, {},
      [.erase (sectorStore.address .a) W25q64.sectorSize fun _ => 0xFF]⟩) := by
  have hlegacy : ∀ x, isLegacyValid (legacyLoad (fun _ => 0xFF) x) = false := unmigratable_erased
  have hchoice : chooseLegacy (isLegacyValid (legacyLoad (fun _ => 0xFF) .a))
      (isLegacyValid (legacyLoad (fun _ => 0xFF) .b)) (legacyLoad (fun _ => 0xFF) .a)
      (legacyLoad (fun _ => 0xFF) .b) = none := by
    rw [hlegacy, hlegacy]
    rfl
  exact init_cut (x := .b) isValid_erased hchoice rfl

/-- A new period, cut off while it is saved. -/
theorem apply_cut {periodSeconds : UInt32} (h : periodValid periodSeconds = true) (ram : Ram)
    (m : Cells) : apply (.setPeriodSeconds periodSeconds) ram ⟨m, cutErase, []⟩ =
      (none, ⟨zeroed (sectorStore.target ram) m, {},
        [.erase (sectorStore.target ram) W25q64.sectorSize m]⟩) := by
  rw [apply, setPeriodSeconds, h]
  exact bind_of_none (SectorStore.save_cut sound ..)

end HealthCheck.HealthCheckConfig
