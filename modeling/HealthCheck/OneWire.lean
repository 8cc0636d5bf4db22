import Mathlib.Algebra.Order.Ring.Nat
import Mathlib.Tactic.Common

/-!
# The 1-Wire bus

`onewire.c` without its timing: a bus answers a reset with a presence level, a read slot with a
level, and takes write slots. `oneWire_SearchUnlocked` finds the ROM codes on it, and `romBus` is
a bus with a set of devices that take part in a search.
-/

namespace HealthCheck.OneWire

/-- `ONEWIRE_MAX_DEVICES`. -/
def maxDevices : ℕ := 6

/-- `ONEWIRE_COMMAND_SEARCH_ROM`. -/
def commandSearchRom : UInt8 := 0xF0
/-- `ONEWIRE_COMMAND_MATCH_ROM`. -/
def commandMatchRom : UInt8 := 0x55
/-- `ONEWIRE_COMMAND_READ_POWER_SUPPLY`. -/
def commandReadPowerSupply : UInt8 := 0xB4

/-- A bus in states `σ`. Levels are `true` for high. -/
structure Bus (σ : Type) where
  /-- The level that is sampled behind a reset pulse. -/
  reset : σ → Bool × σ
  readBit : σ → Bool × σ
  writeBit : Bool → σ → σ

/-- A bus that answers every sample from a sequence. Its states are positions. -/
def sampledBus (samples : ℕ → Bool) : Bus ℕ where
  reset p := (samples p, p + 1)
  readBit p := (samples p, p + 1)
  writeBit _ p := p

/-- The `rom` of a `OneWireDevice_TypeDef`. -/
abbrev Rom := Vector UInt8 8

/-! ## CRC -/

/-- The loop of `OneWire_CRC8`. -/
def crc8Bits : ℕ → UInt8 → UInt8 → UInt8
  | 0, crc, _ => crc
  | n + 1, crc, value =>
    let mix := (crc ^^^ value) &&& 1
    let crc := crc >>> 1
    crc8Bits n (if mix ≠ 0 then crc ^^^ 0x8C else crc) (value >>> 1)

/-- `OneWire_CRC8`. -/
def crc8 (crc value : UInt8) : UInt8 := crc8Bits 8 crc value

/-- The CRC over all bytes of a ROM code, 0 if its last byte is right. -/
def Rom.crc (rom : Rom) : UInt8 := rom.toList.foldl crc8 0

/-! ## Bits of a ROM code -/

/-- `bitMask` for a `romBit`, which counts from 1. -/
def bitMask (romBit : ℕ) : UInt8 := UInt8.ofNat (1 <<< ((romBit - 1) % 8))

/-- `(rom[byteIndex] & bitMask) != 0`. -/
def Rom.test (rom : Rom) (romBit : ℕ) : Bool :=
  rom.toList.getD ((romBit - 1) / 8) 0 &&& bitMask romBit ≠ 0

/-- The bit of a direction is set or cleared. -/
def Rom.assign (rom : Rom) (romBit : ℕ) (direction : Bool) : Rom :=
  let byteIndex := (romBit - 1) / 8
  let byte := rom.toList.getD byteIndex 0
  rom.setIfInBounds byteIndex
    (if direction then byte ||| bitMask romBit else byte &&& ~~~bitMask romBit)

/-! ## The search -/

section Search

variable {σ : Type} (bus : Bus σ)

/-- The loop of `OneWire_WriteByte`. -/
def writeBits : ℕ → UInt8 → σ → σ
  | 0, _, s => s
  | n + 1, value, s => writeBits n (value >>> 1) (bus.writeBit (value &&& 1 ≠ 0) s)

/-- `OneWire_WriteByte`. -/
def writeByte (value : UInt8) (s : σ) : σ := writeBits bus 8 value s

/-- The loop of `OneWire_ReadByte`, `n` bits from `bit` on. -/
def readBits : ℕ → ℕ → UInt8 → σ → UInt8 × σ
  | 0, _, value, s => (value, s)
  | n + 1, bit, value, s =>
    let (level, s) := bus.readBit s
    readBits n (bit + 1) (value ||| UInt8.ofNat ((if level then 1 else 0) <<< bit)) s

/-- `OneWire_ReadByte`. -/
def readByte (s : σ) : UInt8 × σ := readBits bus 8 0 0 s

/-- `OneWire_MatchRom`, and whether it returns `SUCCESS`. -/
def matchRom (rom : Rom) (s : σ) : Bool × σ :=
  let (presence, s) := bus.reset s
  if presence then (false, s)
  else (true, rom.toList.foldl (fun s byte => writeByte bus byte s) (writeByte bus commandMatchRom s))

/-- `OneWire_ReadPowerSupply`: `isParasitic`, if it returns `SUCCESS`. -/
def readPowerSupply (rom : Rom) (s : σ) : Option Bool × σ :=
  let (matched, s) := matchRom bus rom s
  if matched then
    let (level, s) := bus.readBit (writeByte bus commandReadPowerSupply s)
    (some (!level), s)
  else (none, s)

/-- The inner loop of `oneWire_SearchUnlocked`, `n` bits from `romBit` on: whether it got to the
end, `rom` and `discrepancy`. -/
def searchBits (lastDiscrepancy : ℕ) : ℕ → ℕ → Rom → ℕ → σ → Bool × Rom × ℕ × σ
  | 0, _, rom, discrepancy, s => (true, rom, discrepancy, s)
  | n + 1, romBit, rom, discrepancy, s =>
    let (bit, s) := bus.readBit s
    let (complement, s) := bus.readBit s
    if bit && complement then (false, rom, discrepancy, s)
    else
      let direction :=
        if bit ≠ complement then bit
        else if romBit < lastDiscrepancy then rom.test romBit
        else decide (romBit = lastDiscrepancy)
      let discrepancy := if bit = complement ∧ direction = false then romBit else discrepancy
      searchBits lastDiscrepancy n (romBit + 1) (rom.assign romBit direction) discrepancy
        (bus.writeBit direction s)

/-- The outer loop, with room for some more devices: the devices it records. -/
def searchLoop : ℕ → Rom → ℕ → List Rom → σ → List Rom × σ
  | 0, _, _, devices, s => (devices, s)
  | room + 1, rom, lastDiscrepancy, devices, s =>
    let (presence, s) := bus.reset s
    if presence then (devices, s)
    else
      let s := writeByte bus commandSearchRom s
      let (completed, rom, discrepancy, s) := searchBits bus lastDiscrepancy 64 1 rom 0 s
      if completed = false then (devices, s)
      else if rom.crc ≠ 0 then (devices, s)
      else if discrepancy = 0 then (devices ++ [rom], s)
      else searchLoop room rom discrepancy (devices ++ [rom]) s

/-- `oneWire_SearchUnlocked`: whether it returns `SUCCESS`, and `oneWireDevices` up to
`oneWireDeviceCount`. -/
def searchUnlocked (s : σ) : Bool × List Rom × σ :=
  let (devices, s) := searchLoop bus maxDevices (Vector.replicate 8 0) 0 [] s
  (decide (devices.length > 0), devices, s)

end Search

/-! ## A bus with devices -/

/-- What the devices on a bus wait for. In a search these are the devices that matched all
directions so far and the bit they are at. -/
inductive Phase
  | idle
  | command (written : List Bool)
  | bit (matched : List Rom) (romBit : ℕ)
  | complement (matched : List Rom) (romBit : ℕ)
  | direction (matched : List Rom) (romBit : ℕ)

/-- The devices `S` on one line. Low wins over high in every read slot. -/
def romBus (S : List Rom) : Bus Phase where
  reset _ := (S.isEmpty, .command [])
  readBit
    | .bit matched romBit => (matched.all (·.test romBit), .complement matched romBit)
    | .complement matched romBit => (matched.all (!·.test romBit), .direction matched romBit)
    | phase => (true, phase)
  writeBit
    | value, .command written =>
      let written := written ++ [value]
      if written.length < 8 then .command written
      else if written = [false, false, false, false, true, true, true, true] then .bit S 1
      else .idle
    | value, .direction matched romBit =>
      .bit (matched.filter fun rom => rom.test romBit = value) (romBit + 1)
    | _, phase => phase

end HealthCheck.OneWire
