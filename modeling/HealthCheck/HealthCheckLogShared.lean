import HealthCheck.HealthCheckLogRuns

/-!
# The result log on a flash it shares

The log has two sectors of a flash that other components write to as well. What is known of it
depends on these two sectors only, and its own code works in no others.

* `driven_init`, `driven_append` — where the log writes.
* `Sys.Inv.elsewhere` — its invariant does not notice writes of the others.
* `init_calm`, `append_calm` — start-up and an append that nothing interrupts.
-/

namespace HealthCheck.HealthCheckLog

open Nor hiding read driven_read read_ok read_cases observes_read uncut_read
open Crc32 Memory TwoBank W25q64

/-- The two sectors of the log. -/
def region : Set ℕ := Set.Ico (sectorBase .a) (sectorBase .b + sectorSize)

theorem mem_region {x : Bank} {i : ℕ} (h : sectorBase x ≤ i) (h' : i < sectorBase x + sectorSize) :
    i ∈ region := by
  simp only [region, Set.mem_Ico, sectorBase_eq, sectorSize] at *
  cases x <;> simp only [reduceCtorEq, if_true, if_false] at * <;> omega

/-! ## Where the log writes -/

theorem driven_roll (x : Bank) (ram : Ram) : Driven region (rollToSector x ram) :=
  (driven_rollToSector x ram).mono fun _ hi => mem_region hi.1 hi.2

theorem driven_initRoll (x : Bank) (ram : Ram) : Driven region (initRoll x ram) :=
  (driven_roll x ram).bind fun _ => .pure _

theorem driven_init : Driven region init := by
  refine (driven_scanSector region .a).bind fun first => ?_
  refine (driven_scanSector region .b).bind fun second => ?_
  unfold resume
  dsimp only
  split
  · exact driven_initRoll _ _
  · split <;> split
    · exact .pure _
    · exact driven_initRoll _ _
    · exact .pure _
    · exact driven_initRoll _ _

theorem driven_appendRecord (resourceIndex : UInt8) (result : Result) (timestamp : UInt32)
    {ram : Ram} (h : ram.nextSlot < slotsPerSector) :
    Driven region (appendRecord resourceIndex result timestamp ram) := by
  rw [slotsPerSector_eq] at h
  unfold appendRecord
  refine ((driven_program _ _).mono fun i hi => ?_).bind fun status => ?_
  · obtain ⟨hle, hlt⟩ := hi
    rw [length_encode] at hlt
    change i < slotAddress ram.activeSector ram.nextSlot + 24 at hlt
    rw [slotAddress, recordSize] at hle hlt
    exact mem_region (x := ram.activeSector) (by omega) (by rw [sectorSize]; omega)
  · split
    · exact .pure _
    · refine (driven_read region _ _).bind ?_
      rintro ⟨status, bytes⟩
      dsimp only
      split <;> exact .pure _

theorem driven_append (resourceIndex : UInt8) (result : Result) (timestamp : UInt32) (ram : Ram) :
    Driven region (append resourceIndex result timestamp ram) := by
  unfold append
  split
  · simp only [rollToSector, bind_assoc]
    have herase : Driven region (eraseSector (sectorBase ram.activeSector.other)) :=
      (driven_eraseSector _).mono fun _ hi => mem_region hi.1 hi.2
    refine herase.bind fun erased => ?_
    split
    · rw [pure_bind]
      exact .pure _
    · rw [pure_bind]
      exact driven_appendRecord resourceIndex result timestamp (by decide : 0 < slotsPerSector)
  · exact driven_appendRecord resourceIndex result timestamp (Nat.lt_of_not_le ‹_›)

/-! ## What is known of the log -/

section Elsewhere

variable {m m' : Cells} {hist : List Record} {ram : Ram} {x : Bank}
  (h : ∀ i ∈ region, m' i = m i)
include h

theorem agree_sector (x : Bank) : ∀ i, sectorBase x ≤ i → i < sectorBase x + sectorSize →
    m' i = m i := fun i hi hi' => h i (mem_region hi hi')

theorem records_elsewhere (x : Bank) : records m' x = records m x :=
  records_congr (agree_sector h x)

theorem retained_elsewhere (x : Bank) : retained m' x = retained m x := by
  rw [retained, retained, records_elsewhere h, records_elsewhere h]

theorem fill_elsewhere (x : Bank) : fill m' x = fill m x := fill_congr (agree_sector h x)

theorem On.elsewhere (hon : On m hist ram) : On m' hist ram where
  used := by
    rw [fill_elsewhere h]
    exact hon.used.congr (agree_sector h _)
  fill_le := by
    rw [fill_elsewhere h]
    exact hon.fill_le
  nextSlot_le := hon.nextSlot_le
  dense := (dense_congr (agree_sector h _)).2 hon.dense
  kept := by
    rw [retained_elsewhere h]
    exact hon.kept
  sorted := by
    rw [retained_elsewhere h]
    exact hon.sorted
  below := by
    rw [retained_elsewhere h]
    exact hon.below
  positive := by
    rw [retained_elsewhere h]
    exact hon.positive
  started := hon.started
  resumable := by
    rw [records_elsewhere h, records_elsewhere h, fill_elsewhere h]
    exact hon.resumable.imp_right (Or.imp_right fun hused => hused.congr (agree_sector h _))

theorem Current.elsewhere (hc : Current m hist x) : Current m' hist x where
  used := by
    rw [fill_elsewhere h]
    exact hc.used.congr (agree_sector h _)
  nonempty := by
    rw [records_elsewhere h]
    exact hc.nonempty
  kept := by
    rw [records_elsewhere h]
    exact hc.kept
  sorted := by
    rw [records_elsewhere h]
    exact hc.sorted
  older := by
    rw [records_elsewhere h, records_elsewhere h]
    exact hc.older
  positive := by
    rw [retained_elsewhere h]
    exact hc.positive
  clean := by
    rw [fill_elsewhere h, records_elsewhere h, retained_elsewhere h,
      dense_congr (agree_sector h _)]
    exact hc.clean

theorem Idle.elsewhere (hidle : Idle m hist) : Idle m' hist where
  off := hidle.off.imp (fun hempty x => (records_elsewhere h x).trans (hempty x))
    fun ⟨x, hx⟩ => ⟨x, hx.elsewhere h⟩
  covers hempty := hidle.covers fun x => (records_elsewhere h x).symm.trans (hempty x)

theorem Running.elsewhere (hr : Running m hist ram) : Running m' hist ram where
  on := hr.on.elsewhere h
  tight := by
    rw [Tight, fill_elsewhere h, records_elsewhere h]
    exact hr.tight
  next := hr.next
  covers hempty := hr.covers fun x => (records_elsewhere h x).symm.trans (hempty x)

end Elsewhere

/-! ## Nothing goes wrong -/

section Calm

variable {hist : List Record} {ram : Ram} {c : Chip}

/-- **Start-up.** -/
theorem init_calm (hidle : Idle c.cells hist) (hnumbered : Numbered hist)
    (hfew : hist.length < 2 ^ 32 - 1) (hc : c.fates = {}) :
    ∃ ram c', init c = (some (.ok, ram), c') ∧ Running c'.cells hist ram := by
  have hwrap : ∀ x, ∀ r ∈ records c.cells x, r.number + 1 < 2 ^ 32 := fun x r hr => by
    have hle := hidle.off.number_le hnumbered.le x r hr
    omega
  have hsteady : c.fates.Steady := hc ▸ Fates.steady_nil
  have hstarts := init_starts hidle.off hwrap rfl hsteady.reads hsteady.erases
  have huncut : (init c).1 ≠ none := uncut_init c (hc ▸ Fates.noLoss_nil)
  generalize hout : init c = out at hstarts huncut
  cases hstarts with
  | cut hcells hlog => exact absurd rfl huncut
  | cutErase holder hlog hoff => exact absurd rfl huncut
  | resumed hcells hlog hbooted =>
    exact ⟨_, _, rfl, by rw [hcells]; exact hbooted.running hnumbered hidle.covers⟩
  | erased holder hlog hbooted => exact ⟨_, _, rfl, hbooted.running hnumbered hidle.covers⟩

variable {resourceIndex : UInt8} {result : Result} {timestamp : UInt32}

/-- What an append hands out is the record it has stored. -/
theorem appendRecord_entry {entry : Option Entry} {ram' : Ram} {c' : Chip}
    (h : appendRecord resourceIndex result timestamp ram c = (some (.ok, entry, ram'), c')) :
    entry = some (newRecord resourceIndex result timestamp ram.nextSequence).entry := by
  obtain ⟨status, c₁, -, h⟩ := bind_eq_some.1 h
  split at h
  · simp only [pure_apply, Prod.mk.injEq, Option.some.injEq] at h
    exact absurd h.1.1 ‹_›
  · obtain ⟨⟨status', bytes⟩, c₂, -, h⟩ := bind_eq_some.1 h
    dsimp only at h
    split at h
    · simp only [pure_apply, Prod.mk.injEq, Option.some.injEq, reduceCtorEq, false_and] at h
    · rename_i hread
      simp only [not_or, not_not] at hread
      simp only [pure_apply, Prod.mk.injEq, Option.some.injEq] at h
      rw [← h.1.2.1, hread.2, layout.decode_encode]

theorem append_entry {entry : Option Entry} {ram' : Ram} {c' : Chip}
    (h : append resourceIndex result timestamp ram c = (some (.ok, entry, ram'), c')) :
    entry = some (newRecord resourceIndex result timestamp ram.nextSequence).entry := by
  unfold append at h
  split at h
  · obtain ⟨⟨rolled, ram₁⟩, c₁, hroll, h⟩ := bind_eq_some.1 h
    dsimp only at h
    split at h
    · simp only [pure_apply, Prod.mk.injEq, Option.some.injEq, reduceCtorEq, false_and] at h
    · obtain ⟨erased, c₂, -, hroll⟩ := bind_eq_some.1 hroll
      have hsequence : ram₁.nextSequence = ram.nextSequence := by
        split at hroll
        · simp only [pure_apply, Prod.mk.injEq, Option.some.injEq] at hroll
          rw [← hroll.1.2]
        · simp only [pure_apply, Prod.mk.injEq, Option.some.injEq] at hroll
          rw [← hroll.1.2]
      rw [appendRecord_entry h, hsequence]
  · exact appendRecord_entry h

theorem appendRecord_refused {status : Status} {entry : Option Entry} {ram' : Ram} {c' : Chip}
    (hstatus : status ≠ .ok)
    (h : appendRecord resourceIndex result timestamp ram c = (some (status, entry, ram'), c')) :
    entry = none := by
  obtain ⟨status₁, c₁, -, h⟩ := bind_eq_some.1 h
  split at h
  · simp only [pure_apply, Prod.mk.injEq, Option.some.injEq] at h
    exact h.1.2.1.symm
  · obtain ⟨⟨status₂, bytes⟩, c₂, -, h⟩ := bind_eq_some.1 h
    dsimp only at h
    split at h
    · simp only [pure_apply, Prod.mk.injEq, Option.some.injEq] at h
      exact h.1.2.1.symm
    · simp only [pure_apply, Prod.mk.injEq, Option.some.injEq] at h
      exact absurd h.1.1.symm hstatus

/-- And one that fails hands out nothing. -/
theorem append_refused {status : Status} {entry : Option Entry} {ram' : Ram} {c' : Chip}
    (hstatus : status ≠ .ok)
    (h : append resourceIndex result timestamp ram c = (some (status, entry, ram'), c')) :
    entry = none := by
  unfold append at h
  split at h
  · obtain ⟨⟨rolled, ram₁⟩, c₁, -, h⟩ := bind_eq_some.1 h
    dsimp only at h
    split at h
    · simp only [pure_apply, Prod.mk.injEq, Option.some.injEq] at h
      exact h.1.2.1.symm
    · exact appendRecord_refused hstatus h
  · exact appendRecord_refused hstatus h

variable (resourceIndex result timestamp)

/-- **An append** succeeds, whatever number the record gets. -/
theorem append_ok (h : On c.cells hist ram) (hc : c.fates = {}) :
    ∃ ram' c', append resourceIndex result timestamp ram c =
      (some (.ok, some (newRecord resourceIndex result timestamp ram.nextSequence).entry, ram'),
        c') := by
  have hsteady : c.fates.Steady := hc ▸ Fates.steady_nil
  have happends := append_appends resourceIndex result timestamp h hsteady.reads hsteady.erases
  obtain ⟨⟨status, entry, ram'⟩, c', hout⟩ := (driven_append resourceIndex result timestamp
    ram).returns c hc
  rw [hout] at happends
  cases happends with
  | writes hready hon hwrites =>
    have hstatus := hwrites.steady (hsteady.after hready.fates) (Option.some_ne_none _)
    simp only [Option.map_some, Option.some.injEq] at hstatus
    subst hstatus
    rw [append_entry hout] at hout
    exact ⟨ram', c', hout⟩

/-- And as long as the numbers last, the log goes on behind it. -/
theorem append_calm (h : Running c.cells hist ram) (hc : c.fates = {})
    (hwrap : ram.nextSequence.toNat + 1 < 2 ^ 32) :
    ∃ ram' c', append resourceIndex result timestamp ram c =
        (some (.ok, some (newRecord resourceIndex result timestamp ram.nextSequence).entry, ram'),
          c') ∧
      Running c'.cells (newRecord resourceIndex result timestamp ram.nextSequence :: hist) ram' := by
  have hsteady : c.fates.Steady := hc ▸ Fates.steady_nil
  have happends := append_appends resourceIndex result timestamp h.on hsteady.reads hsteady.erases
  obtain ⟨ram', c', hout⟩ := append_ok resourceIndex result timestamp h.on hc
  refine ⟨ram', c', hout, ?_⟩
  rw [hout] at happends
  cases happends with
  | writes hready hon hwrites =>
    obtain ⟨hok, -, hruns⟩ := h.writes hready hon hwrites hsteady
      (newRecord_valid resourceIndex result timestamp (ne_erased hwrap)) rfl hwrap nofun
    have hrunning := hruns _ rfl
    rwa [if_pos (hok (Option.some_ne_none _)).2] at hrunning

end Calm

end HealthCheck.HealthCheckLog
