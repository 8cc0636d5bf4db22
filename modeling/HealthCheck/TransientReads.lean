import HealthCheck.HealthCheckLogReadFailures
import HealthCheck.TlsTrustReadFailures

/-!
# What reads that fail at start-up may destroy

Six parts of the firmware read the flash when they start. Reads fail for a while and then work
again, erases and page programs always complete.

* `keeps_iff_spared` — for each part, and whichever reads fail, exactly when a reboot with working
  reads finds again what was there before.
* `callback_destroyed` — two failed reads cost the callback configuration.
-/

namespace HealthCheck

open Nor hiding read driven_read read_ok read_cases observes_read uncut_read read_pattern
open TwoBank W25q64

/-- The parts that read the flash in their `_Init`. -/
inductive StoredPart
  | userStore
  | healthCheckConfig
  | callbackConfig
  | tlsTrustStore
  | tlsServerCredentials
  | healthCheckLog
deriving DecidableEq

namespace StoredPart

variable (m : Cells) (p : Pattern)

/-- **Nothing is destroyed**: behind a start-up whose reads turn out as in `p`, one with working
reads loads the newest snapshot from before it, and hands out every record. -/
def Keeps : StoredPart → Prop
  | .userStore => ∀ s, UserStore.sectorStore.Finds m s →
      Loads UserStore.init (·.snapshot) (bootCells UserStore.init m p) s
  | .healthCheckConfig => ∀ s, HealthCheckConfig.Newest m s →
      Loads HealthCheckConfig.init (·.snapshot) (bootCells HealthCheckConfig.init m p) s
  | .callbackConfig => ∀ s, CallbackConfig.sectorStore.Finds m s →
      Loads CallbackConfig.init (·.snapshot) (bootCells CallbackConfig.init m p) s
  | .tlsTrustStore => ∀ s, TlsTrustStore.Newest m s →
      Loads TlsTrustStore.init (·.snapshot) (bootCells TlsTrustStore.init m p) s
  | .tlsServerCredentials => ∀ s, TlsServerCredentials.sectorStore.Finds m s →
      Loads TlsServerCredentials.init (·.store.snapshot) (bootCells TlsServerCredentials.init m p) s
  | .healthCheckLog => ∀ x, ∀ r ∈ HealthCheckLog.records m x,
      HealthCheckLog.Recalls (bootCells HealthCheckLog.init m p) r

/-- **The start-up does no harm**: it reads a snapshot, or what it writes instead does not displace
the newest one; and it erases no sector with records that the other does not have. -/
def Spared : StoredPart → Prop
  | .userStore => True
  | .healthCheckConfig => ∀ s, HealthCheckConfig.Newest m s →
      HealthCheckConfig.sectorStore.ReadsSnapshot m p ∨
        match HealthCheckConfig.legacyRead m p with
        | some (legacy, _) =>
          HealthCheckConfig.stamp (HealthCheckConfig.migrateLegacy legacy) = s
        | none => HealthCheckConfig.stamp HealthCheckConfig.default = s ∨
            (HealthCheckConfig.sectorStore.load m .b = s ∧ 1 < s.generation.toNat)
  | .callbackConfig => ∀ s, CallbackConfig.sectorStore.Finds m s →
      CallbackConfig.sectorStore.ReadsSnapshot m p ∨
        CallbackConfig.stamp CallbackConfig.default = s ∨
          (CallbackConfig.sectorStore.load m .b = s ∧ 1 < s.generation.toNat)
  | .tlsTrustStore => ∀ s, TlsTrustStore.Newest m s →
      TlsTrustStore.ReadsSnapshot m p ∨
        TlsTrustStore.stamp (TlsTrustStore.fallback m p) = s ∨
          if TlsTrustStore.isSnapshotValid (TlsTrustStore.stamp (TlsTrustStore.fallback m p)) then
            TlsTrustStore.load m .b = s ∧
              (TlsTrustStore.stamp (TlsTrustStore.fallback m p)).generation.toNat <
                s.generation.toNat
          else TlsTrustStore.Behind m s
  | .tlsServerCredentials => True
  | .healthCheckLog => ∀ x, ∀ r ∈ HealthCheckLog.records m x,
      ∃ y, r ∈ HealthCheckLog.found m y ∧ HealthCheckLog.erasedSector m p ≠ some y

/-- **Failing reads destroy nothing** just if the start-up that meets them does no harm. -/
theorem keeps_iff_spared (part : StoredPart) : part.Keeps m p ↔ part.Spared m p := by
  cases part with
  | userStore => exact iff_of_true (fun s h => UserStore.loads_newest h p) trivial
  | healthCheckConfig =>
    exact forall₂_congr fun s h => HealthCheckConfig.loads_newest_iff h p
  | callbackConfig => exact forall₂_congr fun s h => CallbackConfig.loads_newest_iff h p
  | tlsTrustStore => exact forall₂_congr fun s h => TlsTrustStore.loads_newest_iff h p
  | tlsServerCredentials =>
    exact iff_of_true (fun s h => TlsServerCredentials.loads_newest h p) trivial
  | healthCheckLog =>
    exact forall₃_congr fun x r hr =>
      HealthCheckLog.recalls_boot_iff ((List.mem_filter.1 hr).2)

/-! ## A configuration that is lost -/

end StoredPart

namespace CallbackConfig

/-- The default, switched on, as the save behind generation `n` leaves it. -/
def enabled (n : UInt32) : Snapshot :=
  stamp { default with generation := n, config := { default.config with enabled := 1 } }

/-- A flash with generation 3 in the first sector and 2 in the second. -/
def savedTwice : Cells :=
  sectorStore.stored (sectorStore.address .a) (enabled 2)
    (sectorStore.stored (sectorStore.address .b) (enabled 1) fun _ => 0xFF)

theorem valid_enabled (n : UInt32) : sectorStore.isValid (enabled n) = true := by
  have hvalid : sectorStore.isValid = valid := rfl
  have hfields : fieldsValid { default.config with enabled := 1 } = true := by decide
  rw [hvalid, enabled, valid_stamp]
  exact hfields

theorem savedTwice_first : sectorStore.load savedTwice .a = enabled 2 :=
  SectorStore.load_stored sound .a _ _

theorem savedTwice_second : sectorStore.load savedTwice .b = enabled 1 :=
  (SectorStore.load_stored_other sound .a _ _).trans (SectorStore.load_stored sound .b _ _)

theorem finds_savedTwice : sectorStore.Finds savedTwice (enabled 2) := by
  refine ⟨.a, newest_eq_some_iff.2 ⟨?_, fun _ => ?_⟩, savedTwice_first⟩
  · rw [savedTwice_first]
    exact valid_enabled 2
  · rw [savedTwice_first, Bank.other, savedTwice_second]
    have hgeneration (n : UInt32) : sectorStore.generation (enabled n) = n + 1 := rfl
    rw [hgeneration, hgeneration, Outranks]
    decide

/-- Both reads of a start-up time out. -/
def unread : Pattern := [some (true, fun _ => 0), some (true, fun _ => 0)]

/-- **A configuration is lost**: the start-up that fails to read it saves the default over it. -/
theorem savedTwice_lost :
    ¬Loads init (·.snapshot) (bootCells init savedTwice unread) (enabled 2) := by
  rw [loads_newest_iff finds_savedTwice]
  rintro ((⟨hread, -⟩ | ⟨hread, -⟩) | hsame | ⟨hsame, -⟩)
  · exact absurd hread (by decide)
  · exact absurd hread (by decide)
  · exact absurd (congrArg (·.config.enabled) hsame) (by decide)
  · rw [savedTwice_second] at hsame
    exact absurd (congrArg (·.generation) hsame) (by decide)

end CallbackConfig

/-- Failing reads do destroy a configuration. -/
theorem callback_destroyed :
    ¬StoredPart.callbackConfig.Keeps CallbackConfig.savedTwice CallbackConfig.unread := fun h =>
  CallbackConfig.savedTwice_lost (h _ CallbackConfig.finds_savedTwice)

end HealthCheck
