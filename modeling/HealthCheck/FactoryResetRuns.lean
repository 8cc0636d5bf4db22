import HealthCheck.FactoryReset
import HealthCheck.HealthCheckLogRuns
import HealthCheck.PersistentStores

/-!
# The factory reset under power losses

A reset that is interrupted goes on at the next boot, before the stores are opened.

* `reset_all_or_nothing`: when start-up goes on to the stores, the sectors of the reset are as they
  were or all erased, and then every store comes up in its compiled default; the marker is erased
  only behind the last of them.
-/

namespace HealthCheck.FactoryReset

open Nor hiding read driven_read read_ok read_cases observes_read uncut_read
open Memory W25q64 FlashLayout Run

/-- The 17 sectors of the persistent data. -/
def ownedSectors : List ℕ := dataSectors ++ callbackSectors

/-- All of them are erased. -/
def AllErased (m : Cells) : Prop :=
  ∀ a ∈ ownedSectors, ∀ i, a ≤ i → i < a + sectorSize → m i = 0xFF

/-- All of them are as they were on `m`. -/
def Untouched (m m' : Cells) : Prop :=
  ∀ a ∈ ownedSectors, ∀ i, a ≤ i → i < a + sectorSize → m' i = m i

/-- A command that erases the marker finds all of them erased. -/
def MarkerLast : Command → Prop
  | .erase address _ before => address = factoryResetMarkerSector → Marked before → AllErased before
  | .program .. => True

theorem nodup_ownedSectors : ownedSectors.Nodup := by decide

theorem aligned_ownedSectors : ∀ a ∈ ownedSectors, a % sectorSize = 0 ∧ a < capacityBytes := by
  decide

theorem marker_not_owned : factoryResetMarkerSector ∉ ownedSectors := by decide

/-! ## Erasing sectors -/

/-- The cells of some sectors. -/
def sectorCells (sectors : List ℕ) : Set ℕ :=
  {i | ∃ a ∈ sectors, a ≤ i ∧ i < a + sectorSize}

/-- Aligned sectors that are not the same have no cell in common. -/
theorem sector_unique {a b i : ℕ} (ha : a % sectorSize = 0) (hb : b % sectorSize = 0)
    (hai : a ≤ i ∧ i < a + sectorSize) (hbi : b ≤ i ∧ i < b + sectorSize) : a = b := by
  simp only [sectorSize] at *
  omega

theorem driven_verifyChunks (region : Set ℕ) (address : ℕ) (chunks : List ℕ) :
    Driven region (verifyChunks address chunks) := by
  induction chunks with
  | nil => exact .pure _
  | cons chunk chunks ih =>
    refine (driven_read _ _ _).bind fun ⟨status, bytes⟩ => ?_
    dsimp only
    split
    · exact .pure _
    · split
      · exact .pure _
      · exact ih

theorem verifyChunks_log (address : ℕ) (chunks : List ℕ) (c : Chip) :
    (verifyChunks address chunks c).2.log = c.log ∧
      (verifyChunks address chunks c).2.cells = c.cells := by
  induction chunks generalizing c with
  | nil => exact ⟨rfl, rfl⟩
  | cons chunk chunks ih =>
    have hcells : ∀ c', (read (address + chunk * verifyChunkSize) verifyChunkSize c).2 = c' →
        c'.cells = c.cells := fun c' hc' => funext fun i =>
      hc' ▸ ((driven_read ∅ _ _).steps c).outside i (Set.notMem_empty i)
    rcases hread : read (address + chunk * verifyChunkSize) verifyChunkSize c with
      ⟨_ | ⟨status, bytes⟩, c'⟩
    · rw [verifyChunks, bind_of_none hread]
      exact ⟨read_log hread, hcells c' (by rw [hread])⟩
    · rw [verifyChunks, bind_of_some hread]
      have hlog := read_log hread
      have hcells := hcells c' (by rw [hread])
      dsimp only
      split
      · exact ⟨hlog, hcells⟩
      · split
        · exact ⟨hlog, hcells⟩
        · exact ⟨(ih c').1.trans hlog, (ih c').2.trans hcells⟩

/-- Chunks that were verified are erased, whatever else the calls report. -/
theorem verifyChunks_ok {address : ℕ} {chunks : List ℕ} {c c' : Chip}
    (h : verifyChunks address chunks c = (some .ok, c')) : ∀ chunk ∈ chunks, ∀ i,
      address + chunk * verifyChunkSize ≤ i →
      i < address + chunk * verifyChunkSize + verifyChunkSize → c.cells i = 0xFF := by
  induction chunks generalizing c with
  | nil => exact fun chunk hchunk => absurd hchunk List.not_mem_nil
  | cons chunk chunks ih =>
    obtain ⟨⟨status, bytes⟩, c₁, hread, hrest⟩ := bind_eq_some.mp h
    dsimp only at hrest
    split at hrest
    · cases hrest
    · rename_i hstatus
      split at hrest
      · cases hrest
      · rename_i hall
        rw [not_ne_iff] at hstatus
        subst hstatus
        obtain ⟨rfl, hcells⟩ := W25q64.read_ok hread
        intro k hk i hi hi'
        rcases List.mem_cons.mp hk with rfl | hk
        · by_contra hne
          exact hall (List.any_eq_true.mpr ⟨_, mem_slice.mpr ⟨i, hi, hi', rfl⟩,
            decide_eq_true hne⟩)
        · rw [← hcells]
          exact ih hrest k hk i hi hi'

/-- A sector that was read back as erased is. -/
theorem verifyErased_ok {address : ℕ} {c c' : Chip}
    (h : verifyErased address c = (some .ok, c')) : ∀ i, address ≤ i → i < address + sectorSize →
      c.cells i = 0xFF := by
  intro i hi hi'
  have hchunk : (i - address) / verifyChunkSize ∈
      List.range (sectorSize / verifyChunkSize) := by
    simp only [List.mem_range, sectorSize, verifyChunkSize] at *
    omega
  refine verifyChunks_ok h _ hchunk i ?_ ?_
  · simp only [verifyChunkSize]
    omega
  · simp only [verifyChunkSize]
    omega

theorem driven_eraseSectors (sectors : List ℕ) :
    Driven (sectorCells sectors) (eraseSectors sectors) := by
  induction sectors with
  | nil => exact .pure _
  | cons a sectors ih =>
    have hhead : Set.Ico a (a + sectorSize) ⊆ sectorCells (a :: sectors) := fun i hi =>
      ⟨a, List.mem_cons_self, hi⟩
    have htail : sectorCells sectors ⊆ sectorCells (a :: sectors) := fun i ⟨b, hb, hi⟩ =>
      ⟨b, List.mem_cons_of_mem a hb, hi⟩
    refine ((driven_eraseSector a).mono hhead).bind fun status => ?_
    split
    · exact .pure _
    · refine (driven_verifyChunks _ a _).bind fun status => ?_
      split
      · exact .pure _
      · exact ih.mono htail

/-- Sectors that were erased and read back are erased. -/
theorem eraseSectors_ok {sectors : List ℕ} (hnodup : sectors.Nodup)
    (haligned : ∀ a ∈ sectors, a % sectorSize = 0) {c c' : Chip}
    (h : eraseSectors sectors c = (some .ok, c')) :
    ∀ a ∈ sectors, ∀ i, a ≤ i → i < a + sectorSize → c'.cells i = 0xFF := by
  induction sectors generalizing c with
  | nil => exact fun a ha => absurd ha List.not_mem_nil
  | cons a sectors ih =>
    obtain ⟨hnot, hnodup⟩ := List.nodup_cons.mp hnodup
    obtain ⟨status, c₁, -, h₁⟩ := bind_eq_some.mp h
    split at h₁
    · cases h₁
    · obtain ⟨status', c₂, hverify, h₂⟩ := bind_eq_some.mp h₁
      split at h₂
      · cases h₂
      · rename_i hstatus
        rw [not_ne_iff] at hstatus
        subst hstatus
        intro b hb i hi hi'
        rcases List.mem_cons.mp hb with rfl | hb
        · -- the others are erased elsewhere
          have hout : i ∉ sectorCells sectors := fun ⟨d, hd, hdi⟩ => hnot
            (sector_unique (haligned b hb) (haligned d (List.mem_cons_of_mem b hd)) ⟨hi, hi'⟩ hdi ▸
              hd)
          have hkept := ((driven_eraseSectors sectors).steps c₂).outside i hout
          rw [h₂] at hkept
          have hverified : c₂.cells = c₁.cells := by
            have := (verifyChunks_log b (List.range (sectorSize / verifyChunkSize)) c₁).2
            rw [← verifyErased, hverify] at this
            exact this
          rw [hkept, hverified]
          exact verifyErased_ok hverify i hi hi'
        · exact ih hnodup (fun d hd => haligned d (List.mem_cons_of_mem a hd)) h₂ b hb i hi hi'

/-- The commands are erases of these sectors. -/
theorem eraseSectors_log {sectors : List ℕ}
    (haligned : ∀ a ∈ sectors, a % sectorSize = 0 ∧ a < capacityBytes) (c : Chip) :
    ∀ command ∈ (eraseSectors sectors c).2.log, command ∈ c.log ∨
      ∃ a ∈ sectors, ∃ n before, command = .erase a n before := by
  induction sectors generalizing c with
  | nil => exact fun command h => .inl h
  | cons a sectors ih =>
    obtain ⟨ha, hbelow⟩ := haligned a List.mem_cons_self
    have hfirst : ∀ command ∈ (eraseSector a c).2.log, command ∈ c.log ∨
        ∃ b ∈ a :: sectors, ∃ n before, command = .erase b n before := by
      intro command hcommand
      rw [eraseSector_log ha hbelow] at hcommand
      rcases List.mem_cons.mp hcommand with rfl | hold
      · exact .inr ⟨a, List.mem_cons_self, _, _, rfl⟩
      · exact .inl hold
    intro command hcommand
    rcases herase : eraseSector a c with ⟨_ | status, c₁⟩
    · rw [eraseSectors, bind_of_none herase] at hcommand
      exact hfirst command (by rwa [herase])
    rw [herase] at hfirst
    rw [eraseSectors, bind_of_some herase] at hcommand
    split at hcommand
    · exact hfirst command hcommand
    have hverify := (verifyChunks_log a (List.range (sectorSize / verifyChunkSize)) c₁).1
    rw [← verifyErased] at hverify
    rcases hrun : verifyErased a c₁ with ⟨_ | status, c₂⟩
    · rw [bind_of_none hrun] at hcommand
      rw [hrun] at hverify
      exact hfirst command (hverify ▸ hcommand)
    rw [bind_of_some hrun] at hcommand
    rw [hrun] at hverify
    have hverify : c₂.log = c₁.log := hverify
    split at hcommand
    · have hcommand : command ∈ c₂.log := hcommand
      exact hfirst command (hverify ▸ hcommand)
    rcases ih (fun b hb => haligned b (List.mem_cons_of_mem a hb)) c₂ command hcommand with
      hold | ⟨b, hb, n, before, hcase⟩
    · exact hfirst command (hverify ▸ hold)
    · exact .inr ⟨b, List.mem_cons_of_mem a hb, n, before, hcase⟩

theorem eraseSectors_append (sectors sectors' : List ℕ) :
    eraseSectors (sectors ++ sectors') = eraseSectors sectors >>= fun status =>
      if status ≠ .ok then pure .error else eraseSectors sectors' := by
  induction sectors with
  | nil => rfl
  | cons a sectors ih =>
    rw [List.cons_append, eraseSectors, eraseSectors]
    simp only [bind_assoc]
    refine bind_congr fun status => ?_
    split_ifs
    · rfl
    · simp only [bind_assoc]
      refine bind_congr fun status' => ?_
      split_ifs
      · rfl
      · exact ih

theorem erasePersistentData_eq : erasePersistentData = eraseSectors ownedSectors >>= fun status =>
    if status ≠ .ok then pure .error else eraseSector factoryResetMarkerSector := by
  rw [ownedSectors, eraseSectors_append, erasePersistentData]
  simp only [bind_assoc]
  refine bind_congr fun status => ?_
  split_ifs <;> rfl

/-! ## The marker goes last -/

theorem AllErased.congr {m m' : Cells} (h : ∀ i ∉ markerRegion, m' i = m i) (hm : AllErased m) :
    AllErased m' := by
  intro a ha i hi hi'
  rw [h i fun hmarker => ?_]
  · exact hm a ha i hi hi'
  · have hsame : a = factoryResetMarkerSector :=
      sector_unique (aligned_ownedSectors a ha).1 (by decide) ⟨hi, hi'⟩ hmarker
    exact marker_not_owned (hsame ▸ ha)

theorem Untouched.congr {m m' : Cells} (h : ∀ i ∉ markerRegion, m' i = m i) : Untouched m m' := by
  intro a ha i hi hi'
  refine h i fun hmarker => ?_
  have hsame : a = factoryResetMarkerSector :=
    sector_unique (aligned_ownedSectors a ha).1 (by decide) ⟨hi, hi'⟩ hmarker
  exact marker_not_owned (hsame ▸ ha)

/-- The sectors of the reset leave the marker alone. -/
theorem marked_of_steps {c c' : Chip} (h : Steps (sectorCells ownedSectors) c c') :
    Marked c'.cells ↔ Marked c.cells := by
  refine Marked.congr fun i hi => h.outside i fun ⟨a, ha, hai⟩ => ?_
  have hsame : a = factoryResetMarkerSector :=
    sector_unique (aligned_ownedSectors a ha).1 (by decide) hai hi
  exact marker_not_owned (hsame ▸ ha)

theorem markerLast_of_owned {a n : ℕ} {before : Cells} (h : a ∈ ownedSectors) :
    MarkerLast (.erase a n before) := fun hmarker => absurd (hmarker ▸ h) marker_not_owned

/-- `factoryReset_ErasePersistentData` behind a marker, whatever its calls do: the marker stays
until all sectors are erased. -/
theorem erasePersistentData_cases {c : Chip} (h : Marked c.cells) :
    (Marked (erasePersistentData c).2.cells ∨ AllErased (erasePersistentData c).2.cells) ∧
    ((erasePersistentData c).1 = some .ok → AllErased (erasePersistentData c).2.cells) ∧
    ∀ command ∈ (erasePersistentData c).2.log, command ∈ c.log ∨ MarkerLast command := by
  have hsteps := (driven_eraseSectors ownedSectors).steps c
  have hlog : ∀ command ∈ (eraseSectors ownedSectors c).2.log,
      command ∈ c.log ∨ MarkerLast command := by
    intro command hcommand
    rcases eraseSectors_log aligned_ownedSectors c command hcommand with
      hold | ⟨a, ha, n, before, rfl⟩
    · exact .inl hold
    · exact .inr (markerLast_of_owned ha)
  rw [erasePersistentData_eq]
  rcases herase : eraseSectors ownedSectors c with ⟨_ | status, c₁⟩
  · rw [herase] at hsteps hlog
    rw [bind_of_none herase]
    exact ⟨.inl ((marked_of_steps hsteps).mpr h), nofun, hlog⟩
  rw [herase] at hsteps hlog
  rw [bind_of_some herase]
  have hmarked : Marked c₁.cells := (marked_of_steps hsteps).mpr h
  split
  · exact ⟨.inl hmarked, nofun, hlog⟩
  · rename_i hstatus
    rw [not_ne_iff] at hstatus
    subst hstatus
    have hall : AllErased c₁.cells :=
      eraseSectors_ok nodup_ownedSectors (fun a ha => (aligned_ownedSectors a ha).1) herase
    have hdone : AllErased (eraseSector factoryResetMarkerSector c₁).2.cells :=
      hall.congr ((driven_eraseSector factoryResetMarkerSector).steps c₁).outside
    refine ⟨.inr hdone, fun _ => hdone, fun command hcommand => ?_⟩
    rw [eraseSector_log (by decide) (by decide)] at hcommand
    rcases List.mem_cons.mp hcommand with rfl | hold
    · exact .inr fun _ _ => hall
    · exact hlog command hold

/-- A boot whose reads do not fail goes on with the reset if there is a marker, and else leaves
the chip alone. -/
theorem recover_cases {c : Chip} (hreads : c.fates.ReadsSucceed) :
    (Marked c.cells → (Marked (recover c).2.cells ∨ AllErased (recover c).2.cells) ∧
      ((recover c).1 = some .ok → AllErased (recover c).2.cells)) ∧
    (¬Marked c.cells → (recover c).2.cells = c.cells) ∧
    ∀ command ∈ (recover c).2.log, command ∈ c.log ∨ MarkerLast command := by
  by_cases h : Marked c.cells
  · have hobserves : Observes markerValid c.cells true := by
      have hfound := (observes_read inRange_marker c.cells).bind (f := fun r =>
        pure (decide (r.1 = .ok) && decide (markerLayout.decode r.2 = marker)))
        (.pure _ c.cells)
      have hvalid : decide (markerLayout.decode
          (c.cells.slice factoryResetMarkerSector markerSize) = marker) = true := decide_eq_true h
      rw [hvalid] at hfound
      exact hfound
    obtain ⟨c₁, hcells, hlog, -, hfound | hlost⟩ := hobserves c rfl hreads
    · rw [recover, bind_of_some hfound, if_pos rfl]
      obtain ⟨hone, hok, hcommands⟩ := erasePersistentData_cases (c := c₁) (hcells.symm ▸ h)
      refine ⟨fun _ => ⟨hone, hok⟩, fun hnot => absurd h hnot, fun command hcommand => ?_⟩
      rw [← hlog]
      exact hcommands command hcommand
    · rw [recover, bind_of_none hlost]
      refine ⟨fun _ => ⟨.inl (hcells.symm ▸ h), nofun⟩, fun hnot => absurd h hnot, ?_⟩
      intro command hcommand
      rw [← hlog]
      exact .inl hcommand
  · obtain ⟨-, hcells, hlog⟩ := recover_of_not_marked h
    exact ⟨fun hmarked => absurd hmarked h, fun _ => hcells, fun command hcommand =>
      .inl (hlog ▸ hcommand)⟩

/-! ## Arming -/

theorem driven_arm : Driven markerRegion arm := by
  have hdata : (markerLayout.encode marker).length ≤ sectorSize := by
    rw [length_encode_marker]
    decide
  refine (driven_eraseSector factoryResetMarkerSector).bind fun status => ?_
  split
  · exact .pure _
  · refine ((driven_program _ _).mono
      (Set.Ico_subset_Ico_right (Nat.add_le_add_left hdata _))).bind fun status => ?_
    split
    · exact .pure _
    · refine (driven_markerValid.mono (Set.empty_subset _)).bind fun found => ?_
      split <;> exact .pure _

/-- A marker that was read back is there. -/
theorem marked_of_arm {c c' : Chip} (h : arm c = (some .ok, c')) : Marked c'.cells := by
  obtain ⟨status, c₁, -, h₁⟩ := bind_eq_some.mp h
  split at h₁
  · cases h₁
  obtain ⟨status', c₂, -, h₂⟩ := bind_eq_some.mp h₁
  split at h₂
  · cases h₂
  obtain ⟨found, c₃, hfound, h₃⟩ := bind_eq_some.mp h₂
  split at h₃
  · rename_i htrue
    subst htrue
    by_contra hnot
    have hsame : c₃ = c' := (Prod.mk.inj h₃).2
    have hcells : c₃.cells = c₂.cells := funext fun i => by
      have := (driven_markerValid.steps c₂).outside i (Set.notMem_empty i)
      rwa [hfound] at this
    rw [← hsame, hcells] at hnot
    exact absurd (markerValid_of_not_marked hnot hfound) (by decide)
  · cases h₃

theorem markerValid_log (c : Chip) : (markerValid c).2.log = c.log := by
  unfold markerValid
  rcases hread : read factoryResetMarkerSector markerSize c with ⟨_ | r, c'⟩
  · rw [bind_of_none hread]
    exact read_log hread
  · rw [bind_of_some hread]
    exact read_log hread

/-- Without a marker nothing that `factoryReset_Arm` does erases one. -/
theorem arm_log {c : Chip} (h : ¬Marked c.cells) :
    ∀ command ∈ (arm c).2.log, command ∈ c.log ∨ MarkerLast command := by
  have herases : ∀ command ∈ (eraseSector factoryResetMarkerSector c).2.log,
      command ∈ c.log ∨ MarkerLast command := by
    intro command hcommand
    rw [eraseSector_log (by decide) (by decide)] at hcommand
    rcases List.mem_cons.mp hcommand with rfl | hold
    · exact .inr fun _ hmarked => absurd hmarked h
    · exact .inl hold
  unfold arm
  rcases herase : eraseSector factoryResetMarkerSector c with ⟨_ | status, c₁⟩
  · rw [bind_of_none herase]
    rwa [herase] at herases
  rw [bind_of_some herase]
  rw [herase] at herases
  split
  · exact herases
  have hprograms : ∀ command ∈
      (program factoryResetMarkerSector (markerLayout.encode marker) c₁).2.log,
      command ∈ c.log ∨ MarkerLast command := by
    intro command hcommand
    rw [program_marker, pageProgram_log] at hcommand
    rcases List.mem_cons.mp hcommand with rfl | hold
    · exact .inr trivial
    · exact herases command hold
  rcases hprogram : program factoryResetMarkerSector (markerLayout.encode marker) c₁ with
    ⟨_ | status, c₂⟩
  · rw [bind_of_none hprogram]
    rwa [hprogram] at hprograms
  rw [bind_of_some hprogram]
  rw [hprogram] at hprograms
  split
  · exact hprograms
  have hlog := markerValid_log c₂
  rcases hvalid : markerValid c₂ with ⟨_ | found, c₃⟩
  · rw [bind_of_none hvalid]
    rw [hvalid] at hlog
    exact fun command hcommand => hprograms command (hlog ▸ hcommand)
  · rw [bind_of_some hvalid]
    rw [hvalid] at hlog
    have hlog : c₃.log = c₂.log := hlog
    split <;> exact fun command hcommand => hprograms command (hlog ▸ hcommand)

/-! ## Runs -/

/-- Where a reset that started on `m` is: there is a marker, or nothing was erased, or
everything. -/
def Stage (m m' : Cells) : Prop := Marked m' ∨ Untouched m m' ∨ AllErased m'

/-- However `factoryReset_Execute` ends. -/
theorem stage_execute {m : Cells} (hm : ¬Marked m) (locked : Bool) (fates : Fates) :
    Stage m (execute locked ⟨m, fates, []⟩).2.cells ∧
      ∀ command ∈ (execute locked ⟨m, fates, []⟩).2.log, MarkerLast command := by
  cases locked with
  | false => exact ⟨.inr (.inl fun _ _ _ _ _ => rfl), fun _ h => absurd h List.not_mem_nil⟩
  | true =>
    have huntouched : Untouched m (arm ⟨m, fates, []⟩).2.cells :=
      Untouched.congr (driven_arm.steps ⟨m, fates, []⟩).outside
    have hlog : ∀ command ∈ (arm ⟨m, fates, []⟩).2.log, MarkerLast command :=
      fun command hcommand => (arm_log (c := ⟨m, fates, []⟩) hm command hcommand).resolve_left
        List.not_mem_nil
    rw [execute_locked]
    rcases harm : arm ⟨m, fates, []⟩ with ⟨_ | status, c₁⟩
    · rw [harm] at huntouched hlog
      rw [bind_of_none harm]
      exact ⟨.inr (.inl huntouched), hlog⟩
    rw [harm] at huntouched hlog
    rw [bind_of_some harm]
    split
    · exact ⟨.inr (.inl huntouched), hlog⟩
    · rename_i hstatus
      rw [not_ne_iff] at hstatus
      subst hstatus
      obtain ⟨hone, -, hcommands⟩ := erasePersistentData_cases (marked_of_arm harm)
      have hend : ((erasePersistentData >>= fun _ => pure Outcome.reset) c₁).2 =
          (erasePersistentData c₁).2 := by
        rcases herase : erasePersistentData c₁ with ⟨_ | status, c₂⟩
        · rw [bind_of_none herase]
        · rw [bind_of_some herase]
          rfl
      rw [hend]
      refine ⟨hone.imp_right .inr, fun command hcommand => ?_⟩
      rcases hcommands command hcommand with hold | hlast
      · exact hlog command hold
      · exact hlast

/-- The cells behind a boot. -/
def boot (m : Cells) (fates : Fates) : Cells := (recover ⟨m, fates, []⟩).2.cells

/-- A boot, however it ends. -/
theorem stage_boot {m m' : Cells} (h : Stage m m') {fates : Fates}
    (hreads : fates.ReadsSucceed) : Stage m (boot m' fates) := by
  obtain ⟨hmarked, hnot, -⟩ := recover_cases (c := ⟨m', fates, []⟩) hreads
  by_cases hm : Marked m'
  · exact (hmarked hm).1.imp_right .inr
  · have hsame : boot m' fates = m' := hnot hm
    rw [hsame]
    exact h

/-- A boot that goes on to the stores. -/
theorem stage_recovered {m m' : Cells} (h : Stage m m') {fates : Fates}
    (hreads : fates.ReadsSucceed) {c : Chip} (hc : recover ⟨m', fates, []⟩ = (some .ok, c)) :
    Untouched m c.cells ∨ AllErased c.cells := by
  obtain ⟨hmarked, hnot, -⟩ := recover_cases (c := ⟨m', fates, []⟩) hreads
  rw [hc] at hmarked hnot
  by_cases hm : Marked m'
  · exact .inr ((hmarked hm).2 rfl)
  · have hsame : c.cells = m' := hnot hm
    rw [hsame]
    exact h.resolve_left hm

/-- Any boots whose reads do not fail. -/
theorem stage_run {m m' : Cells} (h : Stage m m') {boots : List Fates}
    (hboots : ∀ fates ∈ boots, fates.ReadsSucceed) : Stage m (run boot m' boots) := by
  induction boots generalizing m' with
  | nil => exact h
  | cons fates boots ih =>
    exact ih (stage_boot h (hboots fates List.mem_cons_self)) fun f hf =>
      hboots f (List.mem_cons_of_mem _ hf)

/-! ## The stores come up -/

/-- The variables of the stores. -/
structure Stores where
  trust : TlsTrustStore.Ram
  callback : CallbackConfig.Ram
  health : HealthCheckConfig.Ram
  log : HealthCheckLog.Ram
  credentials : TlsServerCredentials.Ram
  users : UserStore.Ram

/-- What `rtos_StartupTask` opens behind `FactoryResetService_Recover`, and with `ApiService_Init`
the users. Without a result it ends in `Error_Handler`. -/
def openStores : FlashM (Option Stores) := do
  let (status, trust) ← TlsTrustStore.init
  if status ≠ .ok then pure none
  else
    let (status, callback) ← CallbackConfig.init
    if status ≠ .ok then pure none
    else
      let (status, health) ← HealthCheckConfig.init
      if status ≠ .ok then pure none
      else
        let (status, log) ← HealthCheckLog.init
        if status ≠ .ok then pure none
        else
          let (status, credentials) ← TlsServerCredentials.init
          if status ≠ .ok then pure none
          else
            let (status, users) ← UserStore.init
            if status ≠ .ok then pure none
            else pure (some ⟨trust, callback, health, log, credentials, users⟩)

/-- On erased cells from `lo` up to `hi` start-up code `x` succeeds, if it returns, with variables
that `P` holds of, and changes nothing else. -/
def ComesUp {α : Type} (lo hi : ℕ) (x : FlashM (Status × α)) (P : α → Cells → Prop) : Prop :=
  ∀ c : Chip, c.fates.Steady → (∀ i, lo ≤ i → i < hi → c.cells i = 0xFF) → ∀ s a c',
    x c = (some (s, a), c') → s = .ok ∧ P a c'.cells ∧ c'.fates.Steady ∧
      ∀ i, (i < lo ∨ hi ≤ i) → c'.cells i = c.cells i

/-- A two-bank store comes up with its factory image. -/
theorem comesUp_store {S : TwoBank.Store} (hS : S.Lawful) {lo hi : ℕ}
    (hregion : S.region .a ∪ S.region .b ⊆ Set.Ico lo hi)
    (hfresh : ∀ m : Cells, (∀ i, lo ≤ i → i < hi → m i = 0xFF) → S.Fresh m) :
    ComesUp lo hi S.init fun ram _ => S.snapshot ram = S.factory := by
  intro c hsteady hblank s ram c' h
  have hsteps := hS.init_driven.steps c
  rw [h] at hsteps
  have hout : ∀ i, (i < lo ∨ hi ≤ i) → c'.cells i = c.cells i := fun i hi =>
    hsteps.outside i fun hmem => by
      have := hregion hmem
      simp only [Set.mem_Ico] at this
      omega
  have hf := hfresh c.cells hblank
  cases hlazy : S.lazy with
  | true =>
    obtain ⟨hok, hsnapshot, -⟩ := (hS.loads_factory hlazy hf hsteady.reads h).2 s ram rfl
    exact ⟨hok, hsnapshot, hsteady.after hsteps.fates, hout⟩
  | false =>
    obtain ⟨-, -, hdone, hok⟩ := hS.seeds hlazy hf hsteady.reads _ _ h
    have hstatus := hok hsteady s ram rfl
    subst hstatus
    exact ⟨rfl, (hdone ram rfl).2.2.2.1, hsteady.after hsteps.fates, hout⟩

theorem comesUp_trust : ComesUp (sector 15) (sector 9) TlsTrustStore.init
    fun ram _ => ram.snapshot = TlsTrustStore.stamp TlsTrustStore.default := by
  refine comesUp_store TlsTrustStore.lawful ?_ fun m hm => ⟨?_, ?_⟩
  · refine Set.union_subset ?_ ?_ <;> refine Set.Ico_subset_Ico (by decide) (by decide)
  · exact TlsTrustStore.isSnapshotValid_of_blank fun i hi =>
      hm i (Nat.le_trans (by decide) hi.1) (Nat.lt_of_lt_of_le hi.2 (by decide))
  · exact fun i hi => hm i (Nat.le_trans (by decide) hi.1) (Nat.lt_of_lt_of_le hi.2 (by decide))

/-- The banks of a store with banks of one sector, one behind the other. -/
theorem region_subset {σ : Type} (S : SectorStore σ) {lo hi : ℕ} (ha : lo ≤ S.sectorA)
    (hab : S.sectorA + sectorSize = S.sectorB) (hb : S.sectorB + sectorSize ≤ hi)
    (x : TwoBank.Bank) : S.region x ⊆ Set.Ico lo hi := by
  intro i hi'
  cases x <;> simp only [SectorStore.region, SectorStore.address, Set.mem_Ico] at * <;> omega

theorem comesUp_callback : ComesUp (sector 18) (sector 16) CallbackConfig.init
    fun ram _ => ram.snapshot = CallbackConfig.stamp CallbackConfig.default := by
  have hregion : ∀ x, CallbackConfig.sectorStore.region x ⊆ Set.Ico (sector 18) (sector 16) :=
    region_subset _ (by decide) (by decide) (by decide)
  refine comesUp_store CallbackConfig.lawful
    (Set.union_subset (hregion .a) (hregion .b)) fun m hm x => ⟨?_, trivial⟩
  have hblank : ∀ i ∈ CallbackConfig.sectorStore.region x, m i = 0xFF := fun i hi =>
    hm i (hregion x hi).1 (hregion x hi).2
  have hload : CallbackConfig.sectorStore.load m x =
      CallbackConfig.sectorStore.load (fun _ => 0xFF) x :=
    SectorStore.load_congr CallbackConfig.sound hblank
  exact (congrArg CallbackConfig.sectorStore.isValid hload).trans (CallbackConfig.valid_erased x)

theorem comesUp_health : ComesUp (sector 4) (sector 2) HealthCheckConfig.init
    fun ram _ => ram.snapshot = HealthCheckConfig.stamp HealthCheckConfig.default := by
  have hregion : ∀ x, HealthCheckConfig.sectorStore.region x ⊆ Set.Ico (sector 4) (sector 2) :=
    region_subset _ (by decide) (by decide) (by decide)
  refine comesUp_store HealthCheckConfig.lawful
    (Set.union_subset (hregion .a) (hregion .b)) fun m hm x => ?_
  have hblank : ∀ i ∈ HealthCheckConfig.sectorStore.region x, m i = 0xFF := fun i hi =>
    hm i (hregion x hi).1 (hregion x hi).2
  have hload : HealthCheckConfig.sectorStore.load m x =
      HealthCheckConfig.sectorStore.load (fun _ => 0xFF) x :=
    SectorStore.load_congr HealthCheckConfig.sound hblank
  refine ⟨(congrArg HealthCheckConfig.sectorStore.isValid hload).trans
    (HealthCheckConfig.isValid_erased x), ?_⟩
  exact HealthCheckConfig.unmigratable_congr (m := fun _ => 0xFF) hblank
    (HealthCheckConfig.lawful.fresh_erased x).2

theorem comesUp_users : ComesUp (sector 2) capacityBytes UserStore.init
    fun ram _ => ram.snapshot = UserStore.empty := by
  have hregion : ∀ x, UserStore.sectorStore.region x ⊆ Set.Ico (sector 2) capacityBytes :=
    region_subset _ (by decide) (by decide) (by decide)
  refine comesUp_store UserStore.lawful
    (Set.union_subset (hregion .a) (hregion .b)) fun m hm x => ⟨?_, trivial⟩
  have hblank : ∀ i ∈ UserStore.sectorStore.region x, m i = 0xFF := fun i hi =>
    hm i (hregion x hi).1 (hregion x hi).2
  have hload : UserStore.sectorStore.load m x = UserStore.sectorStore.load (fun _ => 0xFF) x :=
    SectorStore.load_congr UserStore.sound hblank
  exact (congrArg UserStore.sectorStore.isValid hload).trans (UserStore.isValid_erased x)

/-- The variables of the server credentials when nothing was ever uploaded. -/
def noCredentials : TlsServerCredentials.Ram :=
  ⟨⟨TlsServerCredentials.zero, tlsServerCredentialsSectorB⟩, false, none, none⟩

theorem comesUp_credentials : ComesUp (sector 6) (sector 4) TlsServerCredentials.init
    fun ram _ => ram = noCredentials := by
  have hregion : ∀ x, TlsServerCredentials.sectorStore.region x ⊆ Set.Ico (sector 6) (sector 4) :=
    region_subset _ (by decide) (by decide) (by decide)
  intro c hsteady hblank s ram c' h
  have hinvalid : ∀ x, TlsServerCredentials.sectorStore.isValid
      (TlsServerCredentials.sectorStore.load c.cells x) = false := fun x => by
    have hload : TlsServerCredentials.sectorStore.load c.cells x =
        TlsServerCredentials.sectorStore.load (fun _ => 0xFF) x :=
      SectorStore.load_congr TlsServerCredentials.sound fun i hi =>
        hblank i (hregion x hi).1 (hregion x hi).2
    rw [hload]
    exact TlsServerCredentials.isValid_erased x
  have hsteps := TlsServerCredentials.lawful.init_driven.steps c
  have hinit : TlsServerCredentials.store.init c = (some (s, ram), c') := h
  rw [hinit] at hsteps
  rw [TlsServerCredentials.init_eq] at h
  obtain ⟨hcells, hram⟩ := SectorStore.found_eq TlsServerCredentials.sound hsteady.reads
    (SectorStore.newestRam_of_fresh hinvalid) (rfl : _ = pure (Status.ok, noCredentials)) h
  obtain ⟨hok, hram⟩ := hram s ram rfl
  exact ⟨hok, hram, hsteady.after hsteps.fates, fun i _ => congrFun hcells i⟩

theorem erased_of_blank {m : Cells} (h : ∀ i, sector 8 ≤ i → i < sector 6 → m i = 0xFF) :
    HealthCheckLog.Sys.Erased m := by
  intro x i hi hi'
  refine h i (Nat.le_trans ?_ hi) (Nat.lt_of_lt_of_le hi' ?_) <;> cases x <;> decide

/-- An empty log, about to write its first record. -/
theorem on_of_erased {m : Cells} (h : HealthCheckLog.Sys.Erased m) :
    HealthCheckLog.On m [] ⟨.a, 0, 1⟩ := by
  have hused : ∀ x, HealthCheckLog.Used m x 0 := fun x => HealthCheckLog.used_zero (h x)
  have hfill : HealthCheckLog.fill m .a = 0 := (hused .a).fill_eq
  have hrecords := HealthCheckLog.Sys.records_of_erased h
  have hretained : HealthCheckLog.retained m .a = [] := by
    rw [HealthCheckLog.retained, hrecords, hrecords]
    rfl
  refine ⟨?_, ?_, Nat.zero_le _, HealthCheckLog.dense_of_empty (hrecords _), ?_, ?_, ?_, ?_,
    by decide, .inr (.inl (hrecords _))⟩
  · show HealthCheckLog.Used m .a (HealthCheckLog.fill m .a)
    rw [hfill]
    exact hused .a
  · show HealthCheckLog.fill m .a ≤ 0
    rw [hfill]
  · show (HealthCheckLog.retained m .a).reverse <+: []
    rw [hretained]
    exact List.prefix_rfl
  · show (HealthCheckLog.retained m .a).Pairwise _
    rw [hretained]
    exact .nil
  · show ∀ r ∈ HealthCheckLog.retained m .a, _
    rw [hretained]
    exact fun _ hr => (List.not_mem_nil hr).elim
  · show ∀ r ∈ HealthCheckLog.retained m .a, _
    rw [hretained]
    exact fun _ hr => (List.not_mem_nil hr).elim

theorem comesUp_log : ComesUp (sector 8) (sector 6) HealthCheckLog.init
    fun ram m => ram = ⟨.a, 0, 1⟩ ∧ HealthCheckLog.Sys.Erased m := by
  intro c hsteady hblank s ram c' h
  have herased := erased_of_blank hblank
  obtain ⟨hr, -⟩ | ⟨c₁, hcells₁, -, hf₁, h₁⟩ :=
    (HealthCheckLog.observes_scanSector c.cells .a).cases rfl hsteady.reads h
  · cases hr
  obtain ⟨hr, -⟩ | ⟨c₂, hcells₂, -, hf₂, h₂⟩ :=
    (HealthCheckLog.observes_scanSector c.cells .b).cases hcells₁ (hsteady.after hf₁).reads h₁
  · cases hr
  have hf₂ := hf₁.trans hf₂
  rw [HealthCheckLog.resume_of_empty (HealthCheckLog.Sys.records_of_erased herased)] at h₂
  obtain ⟨c₃, -, hf₃, hlost | ⟨hcells₃, hrolled⟩, -⟩ :=
    HealthCheckLog.rollToSector_cases .a ⟨.a, 0, 1⟩ (hsteady.after hf₂).erases
  · rw [HealthCheckLog.initRoll, bind_of_none hlost] at h₂
    cases h₂
  · rw [HealthCheckLog.initRoll, bind_of_some hrolled] at h₂
    have hret : (some (Status.ok, (⟨.a, 0, 1⟩ : HealthCheckLog.Ram)), c₃) =
        (some (s, ram), c') := h₂
    simp only [Prod.mk.injEq, Option.some.injEq] at hret
    obtain ⟨⟨rfl, rfl⟩, rfl⟩ := hret
    have hsame : ∀ i, c₃.cells i = c.cells i := fun i => by
      rw [hcells₃, hcells₂]
      by_cases hi : HealthCheckLog.sectorBase .a ≤ i ∧
          i < HealthCheckLog.sectorBase .a + sectorSize
      · rw [blank_apply hi.1 hi.2, herased .a i hi.1 hi.2]
      · exact overwrite_outside hi
    refine ⟨rfl, ⟨rfl, fun x i hi hi' => ?_⟩, hsteady.after (hf₂.trans hf₃), fun i _ => hsame i⟩
    rw [hsame]
    exact herased x i hi hi'

/-- The compiled defaults: the default anchor, the disabled callback, the default resource, an
empty log, no uploaded credentials and no users. -/
structure Stores.Default (s : Stores) (m : Cells) : Prop where
  trust : s.trust.snapshot = TlsTrustStore.stamp TlsTrustStore.default
  callback : s.callback.snapshot = CallbackConfig.stamp CallbackConfig.default
  health : s.health.snapshot = HealthCheckConfig.stamp HealthCheckConfig.default
  log : ∀ n, Observes (HealthCheckLog.getRecent n s.log) m []
  credentials : s.credentials = noCredentials
  users : s.users.snapshot = UserStore.empty

theorem blank_of_allErased {m : Cells} (h : AllErased m) {i : ℕ}
    (hi : sector 15 ≤ i ∧ i < capacityBytes ∨ sector 18 ≤ i ∧ i < sector 16) : m i = 0xFF := by
  rcases hi with hi | hi
  · -- the sector of the cell, counted from the top
    let n := (capacityBytes - 1 - i) / sectorSize
    have hn : n < factoryResetDataSectors := by
      simp only [n, sector, capacityBytes, sectorSize, factoryResetDataSectors] at *
      omega
    refine h (sector (n + 1)) ?_ i ?_ ?_
    · exact List.mem_append_left _ (List.mem_map.mpr ⟨n, List.mem_range.mpr hn, rfl⟩)
    · simp only [n, sector, capacityBytes, sectorSize] at *
      omega
    · simp only [n, sector, capacityBytes, sectorSize] at *
      omega
  · by_cases hfirst : i < sector 17
    · exact h callbackConfigSectorA (by decide) i hi.1 hfirst
    · exact h callbackConfigSectorB (by decide) i (Nat.le_of_not_lt hfirst) hi.2

theorem sectors_lt : sector 18 < sector 16 ∧ sector 16 < sector 15 ∧ sector 15 < sector 9 ∧
    sector 9 < sector 8 ∧ sector 8 < sector 6 ∧ sector 6 < sector 4 ∧ sector 4 < sector 2 ∧
    sector 2 < capacityBytes := by decide

/-- Behind a completed reset every store comes up in its default. -/
theorem openStores_default {c c' : Chip} (h : AllErased c.cells) (hsteady : c.fates.Steady)
    {r : Option Stores} (hc : openStores c = (some r, c')) :
    ∃ stores, r = some stores ∧ stores.Default c'.cells := by
  have hblank : ∀ i, (sector 15 ≤ i ∧ i < capacityBytes ∨ sector 18 ≤ i ∧ i < sector 16) →
      c.cells i = 0xFF := fun i hi => blank_of_allErased h hi
  have hsectors := sectors_lt
  obtain ⟨⟨s₁, trust⟩, c₁, h₁, hc⟩ := bind_eq_some.mp hc
  obtain ⟨rfl, htrust, hs₁, ho₁⟩ := comesUp_trust c hsteady
    (fun i hi hi' => hblank i (by omega)) _ _ _ h₁
  have hb₁ : ∀ i, (sector 9 ≤ i ∧ i < capacityBytes ∨ sector 18 ≤ i ∧ i < sector 16) →
      c₁.cells i = 0xFF := fun i hi => (ho₁ i (by omega)).trans (hblank i (by omega))
  dsimp only at hc
  rw [if_neg (not_not_intro rfl)] at hc
  obtain ⟨⟨s₂, callback⟩, c₂, h₂, hc⟩ := bind_eq_some.mp hc
  obtain ⟨rfl, hcallback, hs₂, ho₂⟩ := comesUp_callback c₁ hs₁
    (fun i hi hi' => hb₁ i (by omega)) _ _ _ h₂
  have hb₂ : ∀ i, sector 9 ≤ i → i < capacityBytes → c₂.cells i = 0xFF := fun i hi hi' =>
    (ho₂ i (by omega)).trans (hb₁ i (by omega))
  dsimp only at hc
  rw [if_neg (not_not_intro rfl)] at hc
  obtain ⟨⟨s₃, health⟩, c₃, h₃, hc⟩ := bind_eq_some.mp hc
  obtain ⟨rfl, hhealth, hs₃, ho₃⟩ := comesUp_health c₂ hs₂
    (fun i hi hi' => hb₂ i (by omega) (by omega)) _ _ _ h₃
  have hb₃ : ∀ i, (sector 9 ≤ i ∧ i < sector 4 ∨ sector 2 ≤ i ∧ i < capacityBytes) →
      c₃.cells i = 0xFF := fun i hi => (ho₃ i (by omega)).trans (hb₂ i (by omega) (by omega))
  dsimp only at hc
  rw [if_neg (not_not_intro rfl)] at hc
  obtain ⟨⟨s₄, log⟩, c₄, h₄, hc⟩ := bind_eq_some.mp hc
  obtain ⟨rfl, ⟨hlog, herased⟩, hs₄, ho₄⟩ := comesUp_log c₃ hs₃
    (fun i hi hi' => hb₃ i (by omega)) _ _ _ h₄
  have hb₄ : ∀ i, (sector 6 ≤ i ∧ i < sector 4 ∨ sector 2 ≤ i ∧ i < capacityBytes) →
      c₄.cells i = 0xFF := fun i hi => (ho₄ i (by omega)).trans (hb₃ i (by omega))
  dsimp only at hc
  rw [if_neg (not_not_intro rfl)] at hc
  obtain ⟨⟨s₅, credentials⟩, c₅, h₅, hc⟩ := bind_eq_some.mp hc
  obtain ⟨rfl, hcredentials, hs₅, ho₅⟩ := comesUp_credentials c₄ hs₄
    (fun i hi hi' => hb₄ i (by omega)) _ _ _ h₅
  have hb₅ : ∀ i, sector 2 ≤ i → i < capacityBytes → c₅.cells i = 0xFF := fun i hi hi' =>
    (ho₅ i (by omega)).trans (hb₄ i (by omega))
  dsimp only at hc
  rw [if_neg (not_not_intro rfl)] at hc
  obtain ⟨⟨s₆, users⟩, c₆, h₆, hc⟩ := bind_eq_some.mp hc
  obtain ⟨rfl, husers, -, ho₆⟩ := comesUp_users c₅ hs₅ hb₅ _ _ _ h₆
  have hret : (some (some (⟨trust, callback, health, log, credentials, users⟩ : Stores)), c₆) =
      (some r, c') := hc
  simp only [Prod.mk.injEq, Option.some.injEq] at hret
  obtain ⟨rfl, rfl⟩ := hret
  refine ⟨_, rfl, htrust, hcallback, hhealth, fun n => ?_, hcredentials, husers⟩
  have hkept : HealthCheckLog.Sys.Erased c₆.cells := fun x i hi hi' => by
    have hbelow : i < sector 6 := Nat.lt_of_lt_of_le hi' (by cases x <;> decide)
    rw [ho₆ i (by omega), ho₅ i (by omega)]
    exact herased x i hi hi'
  have hrecent := (on_of_erased hkept).getRecent n
  rw [HealthCheckLog.retained, HealthCheckLog.Sys.records_of_erased hkept,
    HealthCheckLog.Sys.records_of_erased hkept] at hrecent
  rw [hlog]
  simpa using hrecent

/-- **All or nothing.** After a reset that starts without a marker, whatever interrupts it, and
after any boots whose reads do not fail: a boot that goes on to the stores finds the 17 sectors as
they were, or all erased, and then every store comes up in its default. A command that erases the
marker finds all 17 sectors erased. -/
theorem reset_all_or_nothing {m : Cells} (hm : ¬Marked m) (locked : Bool) (fates : Fates)
    {boots : List Fates} (hboots : ∀ fates ∈ boots, fates.ReadsSucceed) :
    (∀ command ∈ (execute locked ⟨m, fates, []⟩).2.log, MarkerLast command) ∧
    ∀ fates' : Fates, fates'.ReadsSucceed →
      (∀ command ∈ (recover ⟨run boot (execute locked ⟨m, fates, []⟩).2.cells boots,
        fates', []⟩).2.log, MarkerLast command) ∧
      ∀ c, recover ⟨run boot (execute locked ⟨m, fates, []⟩).2.cells boots, fates', []⟩ =
        (some .ok, c) → Untouched m c.cells ∨ AllErased c.cells ∧
          (c.fates.Steady → ∀ r c', openStores c = (some r, c') →
            ∃ stores, r = some stores ∧ stores.Default c'.cells) := by
  obtain ⟨hstage, hlog⟩ := stage_execute hm locked fates
  refine ⟨hlog, fun fates' hreads => ?_⟩
  have hrun := stage_run hstage hboots
  constructor
  · intro command hcommand
    rcases (recover_cases hreads).2.2 command hcommand with hold | hlast
    · exact absurd hold List.not_mem_nil
    · exact hlast
  · intro c hc
    refine (stage_recovered hrun hreads hc).imp_right fun hall => ⟨hall, ?_⟩
    exact fun hsteady r c' hopen => openStores_default hall hsteady hopen

/-- Power is lost in the erase of the first data sector of an armed reset, and again in the first
read of the next boot. -/
theorem reset_all_or_nothing_cut : ¬Marked (fun _ => 0xFF) ∧ ∀ c,
    recover ⟨run boot (execute true ⟨fun _ => 0xFF,
      { erases := [.completes, .powerLost fun _ => 0] }, []⟩).2.cells [{ reads := [.powerLost] }],
      {}, []⟩ = (some .ok, c) → Untouched (fun _ => 0xFF) c.cells ∨ AllErased c.cells := by
  have hboots : ∀ fates ∈ [({ reads := [.powerLost] } : Fates)], fates.ReadsSucceed := by
    simp [Fates.ReadsSucceed]
  refine ⟨not_marked_erased, fun c hc => ?_⟩
  exact ((reset_all_or_nothing not_marked_erased true _ hboots).2 {} Fates.steady_nil.reads).2 c hc
    |>.imp_right And.left

end HealthCheck.FactoryReset
