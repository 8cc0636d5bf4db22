import HealthCheck.FlashLayout
import HealthCheck.Lib.Crc
import HealthCheck.Lib.Layout
import HealthCheck.Lib.TwoBank

/-!
# The result log

`health_check_log.c`: two sectors of 170 slots that are filled one after the other. A record is
programmed into the next slot, never into one that may hold something already, and a sector is
erased when the other one is full. Start-up finds its place again by reading both sectors.

Sector 0 is bank `a`, sector 1 bank `b`.
-/

namespace HealthCheck.HealthCheckLog

open Nor hiding read driven_read read_ok read_cases
open Crc32 Memory TwoBank W25q64

/-- `HEALTH_CHECK_LOG_ERASED_SEQUENCE`. -/
def erasedSequence : UInt32 := 0xFFFFFFFF

/-- `healthCheckLog_RecordTypeDef`; `detail` is the two's complement of an `int32_t`. -/
structure Record where
  sequence : UInt32
  timestampUnix : UInt32
  elapsedMs : UInt32
  detail : UInt32
  httpStatus : UInt16
  resourceIndex : UInt8
  status : UInt8
  crc : UInt32
deriving DecidableEq

/-- `TlsTransport_ResultTypeDef`, the fields a record keeps. -/
structure Result where
  status : UInt8
  httpStatus : UInt16
  elapsedMs : UInt32
  detail : UInt32

/-- `HealthCheckLog_EntryTypeDef`. -/
structure Entry where
  sequence : UInt32
  timestampUnix : UInt32
  elapsedMs : UInt32
  detail : UInt32
  httpStatus : UInt16
  resourceIndex : UInt8
  status : UInt8
deriving DecidableEq

/-- The fields of a record before its CRC. -/
def bodyLayout : Layout (UInt32 × UInt32 × UInt32 × UInt32 × UInt16 × UInt8 × UInt8) :=
  pair u32 (pair u32 (pair u32 (pair u32 (pair u16 (pair u8 u8)))))

def Record.body (r : Record) : UInt32 × UInt32 × UInt32 × UInt32 × UInt16 × UInt8 × UInt8 :=
  (r.sequence, r.timestampUnix, r.elapsedMs, r.detail, r.httpStatus, r.resourceIndex, r.status)

def layout : Layout Record :=
  (pair bodyLayout u32).as (fun r => (r.body, r.crc))
    (fun ⟨⟨sequence, timestampUnix, elapsedMs, detail, httpStatus, resourceIndex, status⟩, crc⟩ =>
      ⟨sequence, timestampUnix, elapsedMs, detail, httpStatus, resourceIndex, status, crc⟩)
    fun _ => rfl

/-- `healthCheckLog_Crc` up to the `crc` field. -/
def crcOf (r : Record) : UInt32 := crc32 (bodyLayout.encode r.body)

/-- `sizeof(healthCheckLog_RecordTypeDef)`. -/
def recordSize : ℕ := 24

/-- `HEALTH_CHECK_LOG_SLOTS_PER_SECTOR`. -/
def slotsPerSector : ℕ := sectorSize / recordSize

/-- The fields of a record that are handed to a caller. -/
def Record.entry (r : Record) : Entry :=
  ⟨r.sequence, r.timestampUnix, r.elapsedMs, r.detail, r.httpStatus, r.resourceIndex, r.status⟩

/-- `healthCheckLog_SectorBase`. -/
def sectorBase : Bank → ℕ
  | .a => FlashLayout.healthCheckLogSector0
  | .b => FlashLayout.healthCheckLogSector1

def slotAddress (sector : Bank) (slot : ℕ) : ℕ := sectorBase sector + slot * recordSize

/-- The variables of the log. -/
structure Ram where
  activeSector : Bank
  nextSlot : ℕ
  nextSequence : UInt32

/-- What `healthCheckLog_ScanSector` reports. -/
structure Scan where
  count : ℕ
  nextAvailableSlot : ℕ
  lastSequence : UInt32

/-- The loop of `healthCheckLog_ScanSector`. -/
def scanSlots (sector : Bank) : List ℕ → Scan → FlashM Scan
  | [], scan => pure scan
  | slot :: slots, scan => do
    let (status, bytes) ← read (slotAddress sector slot) recordSize
    let record := layout.decode bytes
    if status ≠ .ok then scanSlots sector slots { scan with nextAvailableSlot := slot + 1 }
    else if record.sequence = erasedSequence then pure { scan with nextAvailableSlot := slot }
    else if record.crc ≠ crcOf record then
      -- a torn write: its slot is skipped
      scanSlots sector slots { scan with nextAvailableSlot := slot + 1 }
    else scanSlots sector slots ⟨scan.count + 1, slot + 1, record.sequence⟩

/-- `healthCheckLog_ScanSector`. -/
def scanSector (sector : Bank) : FlashM Scan :=
  scanSlots sector (List.range slotsPerSector) ⟨0, slotsPerSector, 0⟩

/-- `healthCheckLog_RollToSector`. -/
def rollToSector (sector : Bank) (ram : Ram) : FlashM (Bool × Ram) := do
  let erased ← eraseSector (sectorBase sector)
  if erased ≠ .ok then pure (false, ram)
  else pure (true, { ram with activeSector := sector, nextSlot := 0 })

/-- The end of `HealthCheckLog_Init` when a sector has to be erased first. -/
def initRoll (sector : Bank) (ram : Ram) : FlashM (Status × Ram) := do
  let (rolled, ram) ← rollToSector sector ram
  pure (if rolled then .ok else .error, ram)

/-- The choice `HealthCheckLog_Init` makes between the two sectors. -/
def resume (first second : Scan) : FlashM (Status × Ram) :=
  let ram : Ram := ⟨.a, 0, 0⟩
  if first.count = 0 ∧ second.count = 0 then initRoll .a { ram with nextSequence := 1 }
  else
    let active := if first.lastSequence ≥ second.lastSequence then .a else .b
    let scan := if first.lastSequence ≥ second.lastSequence then first else second
    if scan.nextAvailableSlot < slotsPerSector then
      pure (.ok, ⟨active, scan.nextAvailableSlot, scan.lastSequence + 1⟩)
    else initRoll active.other { ram with nextSequence := scan.lastSequence + 1 }

/-- `HealthCheckLog_Init`. -/
def init : FlashM (Status × Ram) := do
  let first ← scanSector .a
  let second ← scanSector .b
  resume first second

/-- The record `HealthCheckLog_Append` writes; `timestamp` is what `Rtc_GetUnixTime` stores, 0
when it fails. -/
def newRecord (resourceIndex : UInt8) (result : Result) (timestamp sequence : UInt32) : Record :=
  let record : Record :=
    { sequence := sequence
      timestampUnix := timestamp
      elapsedMs := result.elapsedMs
      detail := result.detail
      httpStatus := result.httpStatus
      resourceIndex := resourceIndex
      status := result.status
      crc := 0 }
  { record with crc := crcOf record }

/-- `HealthCheckLog_Append` from the program on: the status, the entry and the variables. -/
def appendRecord (resourceIndex : UInt8) (result : Result) (timestamp : UInt32) (ram : Ram) :
    FlashM (Status × Option Entry × Ram) := do
  let record := newRecord resourceIndex result timestamp ram.nextSequence
  let address := slotAddress ram.activeSector ram.nextSlot
  let ram' := { ram with nextSlot := ram.nextSlot + 1, nextSequence := ram.nextSequence + 1 }
  let status ← program address (layout.encode record)
  if status ≠ .ok then pure (status, none, ram')
  else do
    let (status, bytes) ← read address recordSize
    if status ≠ .ok ∨ bytes ≠ layout.encode record then pure (.error, none, ram')
    else pure (.ok, some (layout.decode bytes).entry, ram')

/-- `HealthCheckLog_Append`. -/
def append (resourceIndex : UInt8) (result : Result) (timestamp : UInt32) (ram : Ram) :
    FlashM (Status × Option Entry × Ram) :=
  if ram.nextSlot ≥ slotsPerSector then do
    let (rolled, ram) ← rollToSector ram.activeSector.other ram
    if rolled = false then pure (.error, none, ram)
    else appendRecord resourceIndex result timestamp ram
  else appendRecord resourceIndex result timestamp ram

/-- The inner loop of `HealthCheckLog_GetRecent`: from slot `remaining` downwards, with room for
`room` entries. -/
def recentFrom (sector : Bank) : ℕ → ℕ → FlashM (List Entry)
  | 0, _ => pure []
  | _, 0 => pure []
  | remaining + 1, room + 1 => do
    let (status, bytes) ← read (slotAddress sector remaining) recordSize
    let record := layout.decode bytes
    if status ≠ .ok then pure []
    else if record.sequence = erasedSequence ∨ record.crc ≠ crcOf record then
      recentFrom sector remaining (room + 1)
    else do
      let entries ← recentFrom sector remaining room
      pure (record.entry :: entries)

/-- `HealthCheckLog_GetRecent`. -/
def getRecent (capacity : ℕ) (ram : Ram) : FlashM (List Entry) := do
  let other := ram.activeSector.other
  let scan ← scanSector other
  let newer ← recentFrom ram.activeSector ram.nextSlot capacity
  let older ← recentFrom other scan.nextAvailableSlot (capacity - newer.length)
  pure (newer ++ older)

end HealthCheck.HealthCheckLog
