import HealthCheck.Lib.CString
import HealthCheck.SectorStore
import HealthCheck.TlsTrustStore

/-!
# The callback configuration

`callback_config.c`: the destination of outbound callbacks in a one-sector A/B store. A store
without a valid snapshot saves the compiled default, which is disabled.
-/

namespace HealthCheck.CallbackConfig

open Nor hiding read driven_read read_ok read_cases
open CString Crc32 Memory TwoBank

/-- `CALLBACK_CONFIG_HOST_SIZE`. -/
def hostSize : ℕ := 64

/-- `CALLBACK_CONFIG_PATH_SIZE`. -/
def pathSize : ℕ := 80

/-- `CALLBACK_METHOD_GET`. -/
def methodGet : UInt8 := 0

/-- `CALLBACK_METHOD_POST`. -/
def methodPost : UInt8 := 1

/-- `CallbackConfig_TypeDef`. -/
structure Config where
  enabled : UInt8
  method : UInt8
  trustAnchorId : UInt8
  reserved : UInt8
  port : UInt16
  host : Vector UInt8 hostSize
  path : Vector UInt8 pathSize
deriving DecidableEq

/-- `CallbackConfig_SnapshotTypeDef`, with the bytes the compiler puts before `crc`. -/
structure Snapshot where
  magic : UInt32
  version : UInt16
  reserved : UInt16
  generation : UInt32
  config : Config
  padding : UInt16
  crc : UInt32
deriving DecidableEq

def configLayout : Layout Config :=
  (pair u8 (pair u8 (pair u8 (pair u8 (pair u16 (pair (array u8 hostSize)
    (array u8 pathSize))))))).as
    (fun c => (c.enabled, c.method, c.trustAnchorId, c.reserved, c.port, c.host, c.path))
    (fun ⟨enabled, method, trustAnchorId, reserved, port, host, path⟩ =>
      ⟨enabled, method, trustAnchorId, reserved, port, host, path⟩)
    fun _ => rfl

/-- Everything before the CRC. -/
def bodyLayout : Layout (UInt32 × UInt16 × UInt16 × UInt32 × Config × UInt16) :=
  pair u32 (pair u16 (pair u16 (pair u32 (pair configLayout u16))))

def Snapshot.body (s : Snapshot) : UInt32 × UInt16 × UInt16 × UInt32 × Config × UInt16 :=
  (s.magic, s.version, s.reserved, s.generation, s.config, s.padding)

def layout : Layout Snapshot :=
  (pair bodyLayout u32).as (fun s => (s.body, s.crc))
    (fun ⟨⟨magic, version, reserved, generation, config, padding⟩, crc⟩ =>
      ⟨magic, version, reserved, generation, config, padding, crc⟩)
    fun _ => rfl

/-! ## Validation -/

/-- The characters `callbackConfig_HostValid` accepts. -/
def isHostCharacter (c : UInt8) : Bool :=
  (0x61 ≤ c && c ≤ 0x7A) || (0x41 ≤ c && c ≤ 0x5A) || (0x30 ≤ c && c ≤ 0x39) ||
    c = 0x2E || c = 0x2D

/-- The characters `callbackConfig_PathValid` accepts. -/
def isPathCharacter (c : UInt8) : Bool :=
  0x21 ≤ c && c ≤ 0x7E && c ≠ 0x22 && c ≠ 0x5C && c ≠ 0x23

/-- The loop of both: accepted characters up to a NUL inside the array. -/
def terminated (accept : UInt8 → Bool) : List UInt8 → Bool
  | [] => false
  | c :: rest => c = 0 || (accept c && terminated accept rest)

/-- The characters of an accepted text are accepted, and it ends inside the array. -/
theorem terminated_iff {accept : UInt8 → Bool} {array : List UInt8} :
    terminated accept array ↔ 0 ∈ array ∧ ∀ c ∈ cstr array, accept c := by
  induction array with
  | nil => simp [terminated]
  | cons c rest ih =>
    by_cases hc : c = 0
    · subst hc
      simp [terminated, cstr]
    · have hcstr : cstr (c :: rest) = c :: cstr rest :=
        List.takeWhile_cons_of_pos (by simpa using hc)
      rw [hcstr, terminated]
      simp [hc, Ne.symm hc, ih, and_left_comm]

/-- `callbackConfig_HostValid`. -/
def hostValid (host : Vector UInt8 hostSize) : Bool :=
  host[0] ≠ 0 && terminated isHostCharacter host.toList

/-- `callbackConfig_PathValid`. -/
def pathValid (path : Vector UInt8 pathSize) : Bool :=
  path[0] = 0x2F && terminated isPathCharacter path.toList

/-- `callbackConfig_FieldsValid`. -/
def fieldsValid (c : Config) : Bool :=
  c.enabled ≤ 1 && c.method ≤ methodPost && c.port ≠ 0 &&
    c.trustAnchorId.toNat ≤ TlsTrustStore.maxPersisted && hostValid c.host && pathValid c.path

/-- `callbackConfig_Crc` up to the `crc` field. -/
def crcOf (s : Snapshot) : UInt32 := crc32 (bodyLayout.encode s.body)

def magic : UInt32 := 0x43424B43
def version : UInt16 := 1

/-- `callbackConfig_Valid`. -/
def valid (s : Snapshot) : Bool :=
  s.magic = magic && s.version = version && fieldsValid s.config && s.crc = crcOf s

/-! ## The store -/

/-- The header `callbackConfig_Save` writes. -/
def stamp (s : Snapshot) : Snapshot :=
  let s := { s with magic := magic, version := version, generation := s.generation + 1 }
  { s with crc := crcOf s }

def sectorStore : SectorStore Snapshot where
  sectorA := FlashLayout.callbackConfigSectorA
  sectorB := FlashLayout.callbackConfigSectorB
  layout := layout
  stamp := stamp
  isValid := valid
  generation := Snapshot.generation

abbrev Ram := SectorRam Snapshot

/-- `callbackConfig_Save`. -/
def save (candidate : Snapshot) (ram : Ram) : FlashM (Status × Snapshot × Ram) :=
  sectorStore.save candidate ram

/-- The compiled default, as `CallbackConfig_Init` fills it in. -/
def default : Snapshot where
  magic := 0
  version := 0
  reserved := 0
  generation := 0
  config :=
    { enabled := 0
      method := methodPost
      trustAnchorId := 0
      reserved := 0
      port := 443
      host := charArray hostSize (ascii "loopback.intraclear.com")
      path := charArray pathSize (ascii "/") }
  padding := 0
  crc := 0

/-- `CallbackConfig_Init`. It saves the default in place: the stamped snapshot stays in RAM. -/
def init : FlashM (Status × Ram) := do
  match ← sectorStore.newestSnapshot with
  | some ram => pure (.ok, ram)
  | none => do
    let (status, candidate, ram) ← save default ⟨default, FlashLayout.callbackConfigSectorB⟩
    pure (status, { ram with snapshot := candidate })

/-- `CallbackConfig_Get`. -/
def get (ram : Ram) : Config := ram.snapshot.config

/-- `CallbackConfig_Set`. -/
def set (config : Config) (ram : Ram) : FlashM (Status × Ram) :=
  if !fieldsValid config then pure (.error, ram)
  else do
    let (status, _, ram) ← save { ram.snapshot with config := config } ram
    pure (status, ram)

/-- `CallbackConfig_IsTrustAnchorInUse`. -/
def isTrustAnchorInUse (trustAnchorId : UInt8) (ram : Ram) : Bool :=
  (get ram).enabled ≠ 0 && (get ram).trustAnchorId = trustAnchorId

/-! ## The two-bank scheme -/

/-- `CallbackConfig_Set`, and whether it reports success. -/
def exec (config : Config) (ram : Ram) : FlashM (Bool × Ram) := do
  let (status, ram) ← set config ram
  pure (status = .ok, ram)

/-- The callback configuration as a two-bank store. -/
def store : Store :=
  sectorStore.store Ram Config id init exec (fun _ _ => True) (stamp default) false

theorem sound : sectorStore.Sound where
  aligned x := by cases x <;> decide
  below x := by cases x <;> decide
  ne := by decide
  pos := by decide
  fits := by decide
  generation_stamp _ := rfl

theorem valid_stamp (s : Snapshot) : valid (stamp s) = fieldsValid s.config := by
  have hcrc : (stamp s).crc = crcOf (stamp s) := rfl
  simp only [valid, hcrc, decide_true, Bool.and_true]
  simp [stamp]

/-- The compiled default is a valid configuration. -/
theorem valid_default : sectorStore.isValid (sectorStore.stamp default) = true := by
  have hvalid : sectorStore.isValid = valid := rfl
  have hstamp : sectorStore.stamp = stamp := rfl
  rw [hvalid, hstamp, valid_stamp]
  decide

theorem load_erased (x : Bank) : (sectorStore.load (fun _ => 0xFF) x).magic = 0xFFFFFFFF := by
  rw [SectorStore.load, slice_const]
  rfl

theorem valid_erased (x : Bank) :
    sectorStore.isValid (sectorStore.load (fun _ => 0xFF) x) = false := by
  have h : sectorStore.isValid = valid := rfl
  simp [h, valid, load_erased, magic]

theorem shape_exec (config : Config) (ram : Ram) : store.Shape ram (exec config ram) := by
  simp only [exec, set]
  split
  · exact .idle false ram rfl rfl rfl
  · have hreports : SectorStore.Reports (id : Ram → Ram)
        fun r : Status × Snapshot × Ram => (decide (r.1 = .ok), r.2.2) := fun _ _ _ => ⟨rfl, rfl⟩
    simp only [bind_assoc, pure_bind]
    refine .commits _ (SectorStore.commits_save sound ?_ hreports)
    rfl

/-- What start-up does with the newest snapshot. -/
def resume : Option Ram → FlashM (Status × Ram)
  | some ram => pure (.ok, ram)
  | none => do
    let (status, candidate, ram) ← save default ⟨default, FlashLayout.callbackConfigSectorB⟩
    pure (status, { ram with snapshot := candidate })

theorem init_eq : init = sectorStore.newestSnapshot >>= resume := rfl

theorem resume_some (ram : Ram) : resume (some ram) = pure (.ok, ram) := rfl

theorem lawful : store.Lawful := by
  rw [store, init_eq]
  refine SectorStore.lawful sound resume id resume_some (fun _ => rfl) ?_ (fun _ c _ _ => ?_) ?_
    (fun x => ⟨valid_erased x, trivial⟩) ?_ ?_
  · intro h
    cases h
  · refine SectorStore.seeds_save sound valid_default (fun _ => ?_) (fun _ _ => ?_) c
    · rfl
    · rfl
  · exact SectorStore.driven_save_both sound default _ _
  · rfl
  · rw [← init_eq]
    exact shape_exec

/-- What a mutation leaves in RAM. -/
theorem exec_eq_some {config : Config} {ram ram' : Ram} {c c' : Chip} {ok : Bool}
    (h : exec config ram c = (some (ok, ram'), c')) :
    fieldsValid config = true ∧ ram'.snapshot.config = config ∨ ram' = ram := by
  obtain ⟨⟨status, ram₁⟩, c₁, hset, hret⟩ := bind_eq_some.1 h
  simp only [pure_apply, Prod.mk.injEq, Option.some.injEq] at hret
  obtain ⟨⟨-, rfl⟩, -⟩ := hret
  unfold set at hset
  split at hset
  · simp only [pure_apply, Prod.mk.injEq, Option.some.injEq] at hset
    exact .inr hset.1.2.symm
  · rename_i hvalid
    obtain ⟨⟨s, candidate, ram₂⟩, c₂, hsave, hret⟩ := bind_eq_some.1 hset
    simp only [pure_apply, Prod.mk.injEq, Option.some.injEq] at hret
    obtain ⟨⟨-, rfl⟩, -⟩ := hret
    rcases SectorStore.save_eq_some sound hsave with ⟨-, -, rfl, -⟩ | ⟨-, rfl⟩
    · exact .inl ⟨by simpa using hvalid, rfl⟩
    · exact .inr rfl

end HealthCheck.CallbackConfig
