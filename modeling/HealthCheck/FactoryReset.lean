import HealthCheck.FlashLayout
import HealthCheck.Lib.Layout
import HealthCheck.Lib.Run

/-!
# The factory reset

`factory_reset_service.c` behind its button: a marker is written to a sector of its own, the
sectors of the persistent stores are erased and read back, and the marker is erased last. Every
boot looks for a marker and goes on where an interrupted reset was.

* `aborted_stays_aborted_iff`: a reset that is reported as aborted never happens later, if and
  only if no failed call of `factoryReset_Arm` has left a complete marker behind.
-/

namespace HealthCheck.FactoryReset

open Nor hiding read driven_read read_ok read_cases
open Memory W25q64 FlashLayout Run

/-- `FACTORY_RESET_MARKER_MAGIC`. -/
def markerMagic : UInt32 := 0x46525354

/-- `FACTORY_RESET_VERIFY_CHUNK_SIZE`. -/
def verifyChunkSize : ℕ := 64

/-- `FactoryReset_MarkerTypeDef`: the magic and its inverse. -/
abbrev Marker := UInt32 × UInt32

def markerLayout : Layout Marker := pair u32 u32

/-- The marker `factoryReset_Arm` writes. -/
def marker : Marker := (markerMagic, ~~~markerMagic)

/-- `sizeof(FactoryReset_MarkerTypeDef)`. -/
def markerSize : ℕ := 8

/-- `factoryReset_MarkerValid`. -/
def markerValid : FlashM Bool := do
  let (status, bytes) ← read factoryResetMarkerSector markerSize
  pure (status = .ok && markerLayout.decode bytes = marker)

/-- `factoryReset_Arm`. -/
def arm : FlashM Status := do
  let status ← eraseSector factoryResetMarkerSector
  if status ≠ .ok then pure .error
  else
    let status ← program factoryResetMarkerSector (markerLayout.encode marker)
    if status ≠ .ok then pure .error
    else if ← markerValid then pure .ok
    else pure .error

/-- The loop of `factoryReset_VerifyErased`. -/
def verifyChunks (address : ℕ) : List ℕ → FlashM Status
  | [] => pure .ok
  | chunk :: chunks => do
    let (status, bytes) ← read (address + chunk * verifyChunkSize) verifyChunkSize
    if status ≠ .ok then pure .error
    else if bytes.any (· ≠ 0xFF) then pure .error
    else verifyChunks address chunks

/-- `factoryReset_VerifyErased`. -/
def verifyErased (address : ℕ) : FlashM Status :=
  verifyChunks address (List.range (sectorSize / verifyChunkSize))

/-- The body of both loops of `factoryReset_ErasePersistentData`, for some sectors. -/
def eraseSectors : List ℕ → FlashM Status
  | [] => pure .ok
  | address :: addresses => do
    let status ← eraseSector address
    if status ≠ .ok then pure .error
    else
      let status ← verifyErased address
      if status ≠ .ok then pure .error else eraseSectors addresses

/-- The sectors of the first loop. -/
def dataSectors : List ℕ := (List.range factoryResetDataSectors).map fun i => sector (i + 1)

/-- `callbackSectors`. -/
def callbackSectors : List ℕ := [callbackConfigSectorA, callbackConfigSectorB]

/-- `factoryReset_ErasePersistentData`. -/
def erasePersistentData : FlashM Status := do
  let status ← eraseSectors dataSectors
  if status ≠ .ok then pure .error
  else
    let status ← eraseSectors callbackSectors
    if status ≠ .ok then pure .error else eraseSector factoryResetMarkerSector

/-- `FactoryResetService_Recover`. -/
def recover : FlashM Status := do
  if ← markerValid then erasePersistentData else pure .ok

/-- How `factoryReset_Execute` ends: it returns to the task, or resets the controller. -/
inductive Outcome
  | returned
  | reset
deriving DecidableEq

/-- `factoryReset_Execute`; `locked` tells whether `W25Q64_Lock` succeeds. -/
def execute (locked : Bool) : FlashM Outcome := do
  if !locked then pure .returned
  else
    let status ← arm
    if status ≠ .ok then pure .returned
    else
      let _ ← erasePersistentData
      pure .reset

/-! ## The marker -/

/-- There is a valid marker in the cells. -/
def Marked (m : Cells) : Prop :=
  markerLayout.decode (m.slice factoryResetMarkerSector markerSize) = marker

/-- The cells of the marker sector. -/
def markerRegion : Set ℕ :=
  Set.Ico factoryResetMarkerSector (factoryResetMarkerSector + sectorSize)

instance (i : ℕ) : Decidable (i ∈ markerRegion) := inferInstanceAs (Decidable (_ ≤ i ∧ i < _))

theorem length_encode_marker : (markerLayout.encode marker).length = markerSize :=
  markerLayout.length_encode marker

theorem Marked.congr {m m' : Cells} (h : ∀ i ∈ markerRegion, m' i = m i) :
    Marked m' ↔ Marked m := by
  unfold Marked
  rw [slice_congr fun i hi hi' => h i ⟨hi, hi'.trans (by decide)⟩]

/-- A marker that is programmed over an erased sector is valid. -/
theorem marked_programmed (m : Cells) :
    Marked (programmed factoryResetMarkerSector (markerLayout.encode marker)
      (blank factoryResetMarkerSector sectorSize m)) := by
  have hslice : (programmed factoryResetMarkerSector (markerLayout.encode marker)
      (blank factoryResetMarkerSector sectorSize m)).slice factoryResetMarkerSector
        (markerLayout.encode marker).length = markerLayout.encode marker :=
    slice_programmed_blank m (by rw [length_encode_marker]; decide)
  unfold Marked
  rw [length_encode_marker] at hslice
  rw [hslice, markerLayout.decode_encode]

theorem inRange_marker : inRange factoryResetMarkerSector markerSize = true := by decide

/-- What `factoryReset_MarkerValid` finds when its read completes. -/
theorem markerValid_of_marked {m : Cells} (h : Marked m) (log : List Command) :
    markerValid ⟨m, {}, log⟩ = (some true, ⟨m, {}, log⟩) := by
  unfold markerValid
  rw [bind_of_some (read_calm m log inRange_marker)]
  unfold Marked at h
  simp [h]

/-- Whatever happens to its read, it finds no marker where there is none. -/
theorem markerValid_of_not_marked {c : Chip} (h : ¬Marked c.cells) {b : Bool} {c' : Chip}
    (hc : markerValid c = (some b, c')) : b = false := by
  obtain ⟨⟨status, bytes⟩, c₁, hread, hpure⟩ := bind_eq_some.mp hc
  simp only [pure_apply, Prod.mk.injEq, Option.some.injEq] at hpure
  rw [← hpure.1]
  by_cases hok : status = .ok
  · subst hok
    rw [(W25q64.read_ok hread).1]
    exact Bool.and_eq_false_imp.mpr fun _ => decide_eq_false h
  · simp [hok]

theorem driven_markerValid : Driven ∅ markerValid :=
  (driven_read ∅ _ _).bind fun _ => .pure _

/-- A boot that finds no marker leaves the chip alone. -/
theorem recover_of_not_marked {c : Chip} (h : ¬Marked c.cells) :
    (markerValid c).1 ≠ some true ∧ (recover c).2.cells = c.cells ∧
      (recover c).2.log = c.log := by
  have hcells : (markerValid c).2.cells = c.cells :=
    funext fun i => (driven_markerValid.steps c).outside i (Set.notMem_empty i)
  have hlog : (markerValid c).2.log = c.log := by
    unfold markerValid
    rcases hread : read factoryResetMarkerSector markerSize c with ⟨_ | ⟨status, bytes⟩, c'⟩
    · rw [bind_of_none hread]
      exact read_log hread
    · rw [bind_of_some hread]
      exact read_log hread
  rcases hvalid : markerValid c with ⟨_ | found, c'⟩
  · rw [hvalid] at hcells hlog
    unfold recover
    rw [bind_of_none hvalid]
    exact ⟨nofun, hcells, hlog⟩
  · rw [hvalid] at hcells hlog
    have hfound := markerValid_of_not_marked h hvalid
    unfold recover
    rw [bind_of_some hvalid, hfound]
    exact ⟨nofun, hcells, hlog⟩

/-! ## Aborted resets -/

/-- No failed call of `factoryReset_Arm` leaves a complete marker: neither its erase nor its
program, and its last read does not fail behind a program that completes. -/
def Spares (fates : Fates) (m : Cells) : Prop :=
  match fates.erases.headD .completes with
  | .powerLost _ => True
  | .fails _ left => ¬Marked (overwrite factoryResetMarkerSector sectorSize left m)
  | .completes =>
    match fates.programs.headD .completes with
    | .powerLost _ => True
    | .fails _ left => ¬Marked (overwrite factoryResetMarkerSector markerSize left
        (blank factoryResetMarkerSector sectorSize m))
    | .completes => ∀ timedOut left, fates.reads.headD .completes ≠ .fails timedOut left

section Arm

variable (m : Cells) (fates : Fates) (log : List Command)

theorem eraseSector_marker : eraseSector factoryResetMarkerSector =
    Nor.erase factoryResetMarkerSector sectorSize := by
  rw [eraseSector, if_neg (by decide)]

theorem program_marker : program factoryResetMarkerSector (markerLayout.encode marker) =
    Nor.pageProgram pageSize factoryResetMarkerSector (markerLayout.encode marker) :=
  program_eq_pageProgram (by rw [length_encode_marker]; decide)
    (by rw [length_encode_marker]; decide)

/-- The end of `factoryReset_Arm`, behind a program that completed: it fails only if its read
does, and then the marker is there. -/
theorem arm_verifies {c : Chip} (h : Marked c.cells) : ∃ r c',
    (do if ← markerValid then pure Status.ok else pure .error : FlashM Status) c = (r, c') ∧
    (r = none ∨ r = some .ok ∨ r = some .error) ∧
    (r = some .error → ((∀ timedOut left, c.fates.reads.headD .completes ≠
      .fails timedOut left) ↔ ¬Marked c'.cells)) ∧
    ((¬∀ timedOut left, c.fates.reads.headD .completes ≠ .fails timedOut left) →
      r = some .error) := by
  let c' : Chip := { c with fates := { c.fates with reads := c.fates.reads.tail } }
  have hread : read factoryResetMarkerSector markerSize c =
      Nor.read factoryResetMarkerSector markerSize c := by rw [W25q64.read, if_pos inRange_marker]
  rcases hfate : c.fates.reads.headD .completes with _ | ⟨timedOut, left⟩ | _
  · have hvalid : markerValid c = (some true, c') := by
      have hok : Nor.read factoryResetMarkerSector markerSize c =
          (some (.ok, c.cells.slice factoryResetMarkerSector markerSize), c') := by
        simp only [Nor.read, hfate, c']
      unfold markerValid
      rw [bind_of_some (hread.trans hok)]
      unfold Marked at h
      simp [h]
    rw [bind_of_some hvalid]
    refine ⟨_, _, rfl, .inr (.inl rfl), (fun hno => by cases hno), fun hno => absurd ?_ hno⟩
    intro timedOut left hfate
    cases hfate
  · have hvalid : markerValid c = (some false, c') := by
      have hfails : Nor.read factoryResetMarkerSector markerSize c =
          (some (failure timedOut, left.slice 0 markerSize), c') := by
        simp only [Nor.read, hfate, c']
      unfold markerValid
      rw [bind_of_some (hread.trans hfails)]
      simp
    rw [bind_of_some hvalid]
    refine ⟨_, _, rfl, .inr (.inr rfl), fun _ => ⟨fun hno => ?_, fun hno => absurd h hno⟩,
      fun _ => rfl⟩
    exact absurd rfl (hno timedOut left)
  · have hlost : markerValid c = (none, c') := by
      have hlost : Nor.read factoryResetMarkerSector markerSize c = (none, c') := by
        simp only [Nor.read, hfate, c']
      unfold markerValid
      rw [bind_of_none (hread.trans hlost)]
    rw [bind_of_none hlost]
    refine ⟨_, _, rfl, .inl rfl, (fun hno => by cases hno), fun hno => absurd ?_ hno⟩
    intro timedOut left hfate
    cases hfate

/-- `factoryReset_Arm` fails with a complete marker on the chip only if one of its calls leaves it
there, and if one does, it fails so. -/
theorem arm_cases : ∃ r c', arm ⟨m, fates, log⟩ = (r, c') ∧
    (r = none ∨ r = some .ok ∨ r = some .error) ∧
    (r = some .error → (Spares fates m ↔ ¬Marked c'.cells)) ∧
    (¬Spares fates m → r = some .error) := by
  unfold arm Spares
  rw [eraseSector_marker, program_marker]
  rcases herase : fates.erases.headD .completes with _ | ⟨timedOut, left⟩ | left
  · -- the sector is erased
    rw [bind_of_some (erase_of_completes herase), if_neg (not_not_intro rfl)]
    rcases hprogram : fates.programs.headD .completes with _ | ⟨timedOut, left⟩ | left
    · have hwritten := marked_programmed m
      have hpage : factoryResetMarkerSector % pageSize +
          (markerLayout.encode marker).length ≤ pageSize := by
        rw [length_encode_marker]
        decide
      rw [← burn_eq_programmed _ _ hpage] at hwritten
      rw [bind_of_some (pageProgram_of_completes hprogram), if_neg (not_not_intro rfl)]
      refine arm_verifies hwritten
    · rw [bind_of_some (pageProgram_of_fails hprogram), if_pos (failure_ne_ok timedOut),
        length_encode_marker]
      exact ⟨_, _, rfl, .inr (.inr rfl), fun _ => Iff.rfl, fun _ => rfl⟩
    · rw [bind_of_none (pageProgram_of_powerLost hprogram)]
      exact ⟨_, _, rfl, .inl rfl, nofun, fun h => absurd trivial h⟩
  · rw [bind_of_some (erase_of_fails herase), if_pos (failure_ne_ok timedOut)]
    exact ⟨_, _, rfl, .inr (.inr rfl), fun _ => Iff.rfl, fun _ => rfl⟩
  · rw [bind_of_none (erase_of_powerLost herase)]
    exact ⟨_, _, rfl, .inl rfl, nofun, fun h => absurd trivial h⟩

end Arm

/-- What comes after a reset that was reported as aborted: boots, and between them writes of the
stores, which leave the marker sector alone. -/
inductive Later
  | boot (fates : Fates)
  | write (cells : Cells)

/-- The cells behind it. -/
def after (m : Cells) : Later → Cells
  | .boot fates => (recover ⟨m, fates, []⟩).2.cells
  | .write cells => fun i => if i ∈ markerRegion then m i else cells i

/-- A boot finds no valid marker and erases nothing. -/
def Harmless (m : Cells) : Later → Prop
  | .boot fates => (markerValid ⟨m, fates, []⟩).1 ≠ some true ∧
    (recover ⟨m, fates, []⟩).2.cells = m ∧ (recover ⟨m, fates, []⟩).2.log = []
  | .write _ => True

/-- A program that stays out of the marker sector is such a write. -/
theorem after_of_driven {α : Type} {x : FlashM α} (h : Driven markerRegionᶜ x) (c : Chip) :
    (x c).2.cells = after c.cells (.write (x c).2.cells) := by
  funext i
  show _ = if i ∈ markerRegion then c.cells i else (x c).2.cells i
  split_ifs with hi
  · exact (h.steps c).outside i (Set.notMem_compl_iff.mpr hi)
  · rfl

theorem not_marked_after {m : Cells} (h : ¬Marked m) (e : Later) : ¬Marked (after m e) := by
  cases e with
  | boot fates =>
    show ¬Marked (recover ⟨m, fates, []⟩).2.cells
    rw [(recover_of_not_marked (c := ⟨m, fates, []⟩) h).2.1]
    exact h
  | write cells =>
    refine fun hmarked => h ((Marked.congr fun i hi => ?_).mp hmarked)
    exact if_pos hi

theorem harmless_of_not_marked {m : Cells} (h : ¬Marked m) (events : List Later) :
    Along after Harmless m events := by
  induction events generalizing m with
  | nil => trivial
  | cons e events ih =>
    refine ⟨?_, ih (not_marked_after h e)⟩
    cases e with
    | boot fates => exact recover_of_not_marked (c := ⟨m, fates, []⟩) h
    | write cells => trivial

theorem execute_locked : execute true = arm >>= fun status =>
    if status ≠ .ok then pure .returned
    else erasePersistentData >>= fun _ => pure .reset := rfl

/-- A call that leaves a complete marker ends in a reset that is reported as aborted and pending. -/
theorem marked_of_not_spares {m : Cells} {fates : Fates} (log : List Command)
    (h : ¬Spares fates m) :
    ∃ c', execute true ⟨m, fates, log⟩ = (some .returned, c') ∧ Marked c'.cells := by
  obtain ⟨r, c', harm, -, hmarked, hspares⟩ := arm_cases m fates log
  have herror := hspares h
  rw [herror] at harm
  refine ⟨c', ?_, not_not.mp fun hno => h ((hmarked herror).mpr hno)⟩
  rw [execute_locked, bind_of_some harm]
  rfl

theorem not_marked_of_spares {m : Cells} {fates : Fates} {log : List Command} {c' : Chip}
    (h : Spares fates m) (hc : execute true ⟨m, fates, log⟩ = (some .returned, c')) :
    ¬Marked c'.cells := by
  obtain ⟨r, c₁, harm, hr, hmarked, -⟩ := arm_cases m fates log
  rw [execute_locked] at hc
  obtain ⟨status, c₂, harm', hrest⟩ := bind_eq_some.mp hc
  rw [harm] at harm'
  obtain ⟨rfl, rfl⟩ := Prod.mk.inj harm'
  rcases hr with hnone | hok | herror
  · cases hnone
  · -- an armed reset ends in a reset of the controller
    cases hok
    rw [if_neg (not_not_intro rfl)] at hrest
    obtain ⟨status, c₃, -, hreset⟩ := bind_eq_some.mp hrest
    cases hreset
  · cases herror
    have hc' : c₁ = c' := (Prod.mk.inj hrest).2
    rw [← hc']
    exact (hmarked rfl).mp h

/-- A boot that finds a marker is not harmless. -/
theorem not_harmless_of_marked {m : Cells} (h : Marked m) : ¬Harmless m (.boot {}) :=
  fun hboot => hboot.1 (congrArg Prod.fst (markerValid_of_marked h []))

/-- **Aborted resets.** On a chip without a valid marker, a reset that returns to its task never
happens later, whatever else is written and however often the device boots, if and only if the
flash could not be locked or no failed call of `factoryReset_Arm` leaves a complete marker. -/
theorem aborted_stays_aborted_iff {m : Cells} (hm : ¬Marked m) (locked : Bool) (fates : Fates)
    (log : List Command) :
    (∀ c', execute locked ⟨m, fates, log⟩ = (some .returned, c') →
      ∀ events, Along after Harmless c'.cells events) ↔
    (locked = true → Spares fates m) := by
  cases locked with
  | false =>
    refine ⟨fun _ => nofun, fun _ c' hc => ?_⟩
    have hc' : (⟨m, fates, log⟩ : Chip) = c' := (Prod.mk.inj hc).2
    rw [← hc']
    exact harmless_of_not_marked hm
  | true =>
    constructor
    · intro h _
      by_contra hnot
      obtain ⟨c', hreturns, hmarked⟩ := marked_of_not_spares log hnot
      exact not_harmless_of_marked hmarked (h c' hreturns [.boot {}]).1
    · intro h c' hc
      exact harmless_of_not_marked (not_marked_of_spares (h rfl) hc)

theorem not_marked_erased : ¬Marked fun _ => 0xFF := by
  unfold Marked
  rw [slice_const]
  decide

/-- An erase that fails and leaves the sector erased. -/
theorem aborted_stays_aborted_erase : ¬Marked (fun _ => 0xFF) ∧ ∀ c',
    execute true ⟨fun _ => 0xFF, { erases := [.fails false fun _ => 0xFF] }, []⟩ =
      (some .returned, c') → ∀ events, Along after Harmless c'.cells events := by
  refine ⟨not_marked_erased, ?_⟩
  refine (aborted_stays_aborted_iff not_marked_erased true _ []).mpr fun _ => ?_
  show ¬Marked (overwrite _ _ _ _)
  refine fun h => not_marked_erased ((Marked.congr fun i hi => ?_).mp h)
  exact if_pos hi

/-- The cells of the marker sector behind `factoryReset_Arm`. -/
def armed : Cells :=
  programmed factoryResetMarkerSector (markerLayout.encode marker)
    (blank factoryResetMarkerSector sectorSize fun _ => 0xFF)

/-- On erased flash the chip completes the program of the marker, and the driver reports a
timeout: the reset is aborted, and the next boot finds a valid marker. -/
theorem aborted_reset_happens :
    ¬∀ (m : Cells) (fates : Fates), ¬Marked m →
      ∀ c', execute true ⟨m, fates, []⟩ = (some .returned, c') →
        ∀ events, Along after Harmless c'.cells events := by
  intro h
  have hspares : ¬Spares { programs := [.fails true armed] } fun _ => 0xFF := by
    show ¬¬Marked (overwrite factoryResetMarkerSector markerSize armed
      (blank factoryResetMarkerSector sectorSize fun _ => 0xFF))
    have hslice : (overwrite factoryResetMarkerSector markerSize armed
        (blank factoryResetMarkerSector sectorSize fun _ => 0xFF)).slice
          factoryResetMarkerSector markerSize =
        armed.slice factoryResetMarkerSector markerSize :=
      slice_congr fun i hi hi' => if_pos ⟨hi, hi'⟩
    have hmarked : Marked armed := marked_programmed _
    rw [not_not]
    unfold Marked at hmarked ⊢
    rw [hslice]
    exact hmarked
  obtain ⟨c', hreturns, hmarked⟩ := marked_of_not_spares [] hspares
  exact not_harmless_of_marked hmarked
    (h _ _ not_marked_erased c' hreturns [.boot {}]).1

end HealthCheck.FactoryReset
