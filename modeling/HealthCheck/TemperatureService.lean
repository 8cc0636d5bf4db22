import HealthCheck.Ds18b20

/-!
# Published temperatures

`temperature_service.c`: a task that searches the bus when it knows no device or a minute has
passed, measures all devices, and publishes the results.

* `current_iff` — so what is published is current as long as no round without a sensor follows one
  with a sensor.
-/

namespace HealthCheck.TemperatureService

open OneWire Ds18b20

/-- `pdMS_TO_TICKS(ONEWIRE_SEARCH_PERIOD_MS)`. -/
def searchPeriod : UInt32 := 60000

/-- `oneWireDevices`, `lastSearchTick`, and `measurements` up to `measurementCount`. -/
structure Service where
  devices : List Rom
  lastSearchTick : UInt32
  measurements : List Measurement

/-- What `TemperatureService_Init` leaves. -/
def start : Service := ⟨[], 0, []⟩

/-- What a round of the task meets: the tick, the bus, which may have changed since the last
round, and how often each conversion is polled. -/
structure Round (σ : Type) where
  now : UInt32
  line : σ
  polls : ℕ → ℕ

section Rounds

variable {σ : Type} (bus : Bus σ)

/-- The search of a round, if there is one. -/
def search (r : Round σ) (s : Service) : Service × σ :=
  if s.devices.length = 0 ∨ r.now - s.lastSearchTick ≥ searchPeriod then
    let (_, devices, line) := searchUnlocked bus r.line
    ({ s with devices := devices, lastSearchTick := r.now }, line)
  else (s, r.line)

/-- A round of `temperatureService_Task`, with `latest` up to `latestCount`. -/
def round (s : Service) (r : Round σ) : Service × List Measurement :=
  let (s, line) := search bus r s
  let (success, latest, _) := Ds18b20.measure bus maxDevices s.devices r.polls line
  (if success then { s with measurements := latest } else s, latest)

/-- `TemperatureService_GetMeasurements`. -/
def getMeasurements (capacity : ℕ) (s : Service) : List Measurement := s.measurements.take capacity

/-- What is there after each round of a run, with the results of the round's measurement. -/
def report (s : Service) : List (Round σ) → List (Service × List Measurement)
  | [] => []
  | r :: rounds => round bus s r :: report (round bus s r).1 rounds

end Rounds

/-- What is published is the results of the round. -/
def Current (x : Service × List Measurement) : Prop :=
  ∀ capacity, getMeasurements capacity x.1 = x.2.take capacity

/-! ## Rounds -/

variable {σ : Type} {bus : Bus σ}

theorem current_of_eq {x : Service × List Measurement} (h : x.1.measurements = x.2) : Current x :=
  fun capacity => congrArg (List.take capacity) h

theorem Current.eq {x : Service × List Measurement} (h : Current x) : x.1.measurements = x.2 := by
  have hall := h (x.1.measurements.length + x.2.length)
  rw [getMeasurements, List.take_of_length_le (by omega), List.take_of_length_le (by omega)] at hall
  exact hall

/-- A round publishes its results, unless there are none. -/
theorem round_measurements (s : Service) (r : Round σ) : (round bus s r).1.measurements =
    if (round bus s r).2 = [] then s.measurements else (round bus s r).2 := by
  have hsearch : (search bus r s).1.measurements = s.measurements := by
    unfold search
    split <;> rfl
  rcases hmeasure : Ds18b20.measure bus maxDevices (search bus r s).1.devices r.polls
    (search bus r s).2 with ⟨success, latest, line⟩
  have hsuccess : success = decide (latest ≠ []) := by
    unfold Ds18b20.measure at hmeasure
    obtain ⟨rfl, hrest⟩ := Prod.mk.inj hmeasure
    obtain ⟨rfl, -⟩ := Prod.mk.inj hrest
    simp [List.length_pos_iff]
  have hround : round bus s r = (if success then
      { (search bus r s).1 with measurements := latest } else (search bus r s).1, latest) := by
    simp only [round, hmeasure]
  rw [hround, hsuccess]
  by_cases hempty : latest = []
  · simp [hempty, hsearch]
  · simp [hempty]

/-- A round leaves current results unless it has none and older ones are left. -/
theorem current_round (s : Service) (r : Round σ) :
    Current (round bus s r) ↔ (round bus s r).2 = [] → s.measurements = [] := by
  have hmeasurements : (round bus s r).1.measurements =
      if (round bus s r).2 = [] then s.measurements else (round bus s r).2 := round_measurements s r
  constructor
  · intro h hempty
    rw [h.eq, if_pos hempty] at hmeasurements
    rw [← hmeasurements, hempty]
  · intro h
    refine current_of_eq (hmeasurements.trans ?_)
    split
    · rename_i hempty
      rw [h hempty, hempty]
    · rfl

/-- From any state on, also what is published before the run counts. -/
theorem current_from (s : Service) (rounds : List (Round σ)) :
    (∀ x ∈ report bus s rounds, Current x) ↔
      (report bus s rounds).Pairwise (fun earlier later => later.2 = [] → earlier.2 = []) ∧
        ∀ x ∈ report bus s rounds, x.2 = [] → s.measurements = [] := by
  induction rounds generalizing s with
  | nil => simp [report]
  | cons r rounds ih =>
    have hmeasurements : (round bus s r).1.measurements =
        if (round bus s r).2 = [] then s.measurements else (round bus s r).2 :=
      round_measurements s r
    rw [report, List.forall_mem_cons, List.forall_mem_cons, List.pairwise_cons, ih, current_round,
      hmeasurements]
    by_cases hempty : (round bus s r).2 = []
    · -- the round changes nothing that is published
      simp only [hempty, if_true, forall_const, imp_true_iff, true_and]
      tauto
    · simp only [hempty, if_false, false_imp_iff, true_and, imp_false]
      constructor
      · rintro ⟨hpairwise, hlater⟩
        exact ⟨⟨hlater, hpairwise⟩, fun x hx h => absurd h (hlater x hx)⟩
      · rintro ⟨⟨hlater, hpairwise⟩, -⟩
        exact ⟨hpairwise, hlater⟩

/-- **When published temperatures are current**: over every run of rounds on any bus, after every
round the published measurements are those of the round, exactly when every round without a
sensor has only such rounds before it. -/
theorem current_iff (bus : Bus σ) (rounds : List (Round σ)) :
    (∀ x ∈ report bus start rounds, Current x) ↔
      (report bus start rounds).Pairwise fun earlier later => later.2 = [] → earlier.2 = [] :=
  (current_from start rounds).trans (and_iff_left fun _ _ _ => rfl)

/-! ## A sensor that is unplugged -/

/-- A sensor. -/
def sensorRom : Rom := #v[0x28, 0x01, 0x02, 0x03, 0x04, 0x05, 0x06, 0x9E]

/-- Its scratchpad at 25 °C. -/
def sensorScratchpad : List UInt8 := [0x90, 0x01, 0x4B, 0x46, 0x7F, 0xFF, 0x0C, 0x10, 0x33]

/-- The bits of bytes, in the order of the bus. -/
def wireBits (bytes : List UInt8) : List Bool :=
  bytes.flatMap fun byte => (List.range 8).map fun i => byte.toNat.testBit i

/-- What the line reads in a round with the sensor: one pass of the search, and one measurement
with external power. -/
def sensorSamples : List Bool :=
  [false] ++ (wireBits sensorRom.toList).flatMap (fun bit => [bit, !bit]) ++
    [false, true, false, true, false] ++ wireBits sensorScratchpad

/-- The line with the sensor until it is unplugged. -/
def unpluggedBus : Bus ℕ := sampledBus fun p => sensorSamples.getD p true

/-- A round with the sensor, and one a minute later without it. -/
def unplugged : List (Round ℕ) := [⟨0, 0, fun _ => 0⟩, ⟨60000, 1000, fun _ => 0⟩]

/-- The reading of an unplugged sensor is still published. -/
theorem unplugged_stale : ¬∀ x ∈ report unpluggedBus start unplugged, Current x := by
  have hreport : ((report unpluggedBus start unplugged).map fun x => (x.1.measurements, x.2)) =
      [([⟨sensorRom, 2500, .ok⟩], [⟨sensorRom, 2500, .ok⟩]), ([⟨sensorRom, 2500, .ok⟩], [])] := by
    decide +kernel
  intro h
  have hall : ∀ y ∈ (report unpluggedBus start unplugged).map
      fun x => (x.1.measurements, x.2), y.1 = y.2 :=
    List.forall_mem_map.2 fun x hx => (h x hx).eq
  rw [hreport] at hall
  cases hall _ (List.mem_cons_of_mem _ List.mem_cons_self)

end HealthCheck.TemperatureService
