import HealthCheck.OneWire

/-!
# The temperature sensors

`ds18b20.c` over any bus: `DS18B20_Measure` converts and reads the devices one after the other.
Delays have no effect on the model; how often `ds18b20_WaitForConversion` polls before its time
is up is an input.
-/

namespace HealthCheck.Ds18b20

open OneWire

/-- `DS18B20_COMMAND_CONVERT_T`. -/
def commandConvertT : UInt8 := 0x44
/-- `DS18B20_COMMAND_READ_SCRATCHPAD`. -/
def commandReadScratchpad : UInt8 := 0xBE

/-- `DS18B20_StatusTypeDef`. -/
inductive Ds18b20Status where
  | ok
  | bus
  | timeout
  | crc
deriving DecidableEq, Repr

/-- `DS18B20_MeasurementTypeDef`. -/
structure Measurement where
  rom : Rom
  temperatureCentiDegrees : Int16
  status : Ds18b20Status
deriving DecidableEq

section Measure

variable {σ : Type} (bus : Bus σ)

/-- `ds18b20_WaitForConversion`, which polls again as often as `polls` says. -/
def waitForConversion : ℕ → σ → Bool × σ
  | 0, s => bus.readBit s
  | polls + 1, s =>
    let (level, s) := bus.readBit s
    if level then (true, s) else waitForConversion polls s

/-- `ds18b20_MeasureDevice` up to its read of the scratchpad. -/
def convert (rom : Rom) (polls : ℕ) (s : σ) : Except Ds18b20Status Unit × σ :=
  match readPowerSupply bus rom s with
  | (none, s) => (.error .bus, s)
  | (some isParasitic, s) =>
    match matchRom bus rom s with
    | (false, s) => (.error .bus, s)
    | (true, s) =>
      let s := writeByte bus commandConvertT s
      match if isParasitic then (true, s) else waitForConversion bus polls s with
      | (false, s) => (.error .timeout, s)
      | (true, s) =>
        match matchRom bus rom s with
        | (false, s) => (.error .bus, s)
        | (true, s) => (.ok (), writeByte bus commandReadScratchpad s)

/-- The loop that reads the scratchpad. -/
def readBytes : ℕ → σ → List UInt8 × σ
  | 0, s => ([], s)
  | n + 1, s =>
    let (byte, s) := readByte bus s
    let (bytes, s) := readBytes n s
    (byte :: bytes, s)

/-- `ds18b20_MeasureDevice`: the status and the scratchpad, if it reads one. -/
def measureDevice (rom : Rom) (polls : ℕ) (s : σ) : Ds18b20Status × List UInt8 × σ :=
  match convert bus rom polls s with
  | (.error status, s) => (status, [], s)
  | (.ok _, s) =>
    let (scratchpad, s) := readBytes bus 9 s
    (if scratchpad.foldl crc8 0 = 0 then .ok else .crc, scratchpad, s)

/-- The temperature of a scratchpad, in sixteenths of a degree there. -/
def centiDegrees (scratchpad : List UInt8) : Int16 :=
  let raw := ((scratchpad.getD 1 0).toUInt16 <<< 8 ||| (scratchpad.getD 0 0).toUInt16).toInt16
  Int16.ofInt ((raw.toInt * 100).tdiv 16)

/-- The loop of `DS18B20_Measure` over the devices, from one index on: what it records, each with
the scratchpad behind it. -/
def measureDevices (polls : ℕ → ℕ) : ℕ → List Rom → σ → List (Measurement × List UInt8) × σ
  | _, [], s => ([], s)
  | index, rom :: devices, s =>
    let (status, scratchpad, s) := measureDevice bus rom (polls index) s
    let (results, s) := measureDevices polls (index + 1) devices s
    ((⟨rom, if status = .ok then centiDegrees scratchpad else 0, status⟩, scratchpad) :: results, s)

/-- `DS18B20_Measure`: whether it returns `SUCCESS`, and `measurements` up to `count`. -/
def measure (capacity : ℕ) (devices : List Rom) (polls : ℕ → ℕ) (s : σ) :
    Bool × List Measurement × σ :=
  let (results, s) := measureDevices bus polls 0 (devices.take capacity) s
  (decide (results.length > 0), results.map Prod.fst, s)

end Measure

end HealthCheck.Ds18b20
