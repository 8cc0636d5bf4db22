import HealthCheck.HealthCheckLogShared

/-!
# How much the result log keeps

As long as no write is cut short, every slot that was used holds a record, and a sector is erased
only when the other one is full of them. So the latest 170 records are always there.

* `Kept` — the sectors of such a log.
* `Kept.init`, `Kept.append` — start-up and an append.
* `Kept.recent` — what `HealthCheckLog_GetRecent` has to take from.
-/

namespace HealthCheck.HealthCheckLog

open Nor hiding read driven_read read_ok read_cases observes_read uncut_read
open Crc32 Memory TwoBank W25q64

/-- Every used slot holds a record, and either all records are left or a sector is full of
them. -/
structure Kept (m : Cells) (hist : List Record) : Prop where
  valid : ∀ x, (records m x).length = fill m x
  enough : hist.length = (records m .a).length + (records m .b).length ∨
    ∃ x, fill m x = slotsPerSector

section Sectors

variable {m m' : Cells} {hist : List Record} {x : Bank}

theorem kept_erased (h : ∀ x, Used m x 0) : Kept m [] where
  valid x := by rw [(h x).records_zero, (h x).fill_eq, List.length_nil]
  enough := .inl (by rw [(h .a).records_zero, (h .b).records_zero]; rfl)

theorem Kept.elsewhere (h : Kept m hist) (hm : ∀ i ∈ region, m' i = m i) : Kept m' hist where
  valid x := by rw [records_elsewhere hm, fill_elsewhere hm, h.valid]
  enough := by
    rw [records_elsewhere hm, records_elsewhere hm]
    exact h.enough.imp_right fun ⟨x, hx⟩ => ⟨x, (fill_elsewhere hm x).trans hx⟩

theorem length_retained (m : Cells) (x : Bank) :
    (retained m x).length = (records m .a).length + (records m .b).length := by
  rw [(retained_perm m x).length_eq, List.length_append]

/-- **The latest records are all there.** -/
theorem Kept.recent {ram : Ram} (h : Kept m hist) (hon : On m hist ram) {n : ℕ}
    (hn : n ≤ slotsPerSector) :
    (retained m ram.activeSector).reverse.take n = hist.take n := by
  have hstarts := List.prefix_iff_eq_take.1 hon.kept
  rw [List.length_reverse, length_retained] at hstarts
  rcases h.enough with hall | ⟨x, hfull⟩
  · rw [hstarts, ← hall, List.take_length]
  · have hlength : slotsPerSector ≤ (records m .a).length + (records m .b).length := by
      rw [← hfull, ← h.valid x]
      cases x
      · exact Nat.le_add_right _ _
      · exact Nat.le_add_left _ _
    rw [hstarts, List.take_take, Nat.min_eq_left (hn.trans hlength)]

/-- The other sector is erased, and this one is full. -/
theorem Kept.roll (h : Kept m hist) (hfull : fill m x = slotsPerSector)
    (hm : m' = blank (sectorBase x.other) sectorSize m) : Kept m' hist where
  valid y := by
    rcases Bank.eq_or_other y x with rfl | rfl
    · rw [records_congr (blank_outside hm), fill_congr (blank_outside hm), h.valid]
    · rw [(used_blank hm).records_zero, (used_blank hm).fill_eq, List.length_nil]
  enough := .inr ⟨x, (fill_congr (blank_outside hm)).trans hfull⟩

/-- A record is written behind the others. -/
theorem Kept.write (h : Kept m hist) {record : Record} (hslot : fill m x < slotsPerSector)
    (hused : Used m x (fill m x))
    (hm : m' = programmed (slotAddress x (fill m x)) (layout.encode record) m)
    (hvalid : record.isValid = true) : Kept m' (record :: hist) := by
  have hcells : ∀ i, i < slotAddress x (fill m x) ∨ slotAddress x (fill m x) + recordSize ≤ i →
      m' i = m i := by
    intro i hi
    rw [hm, ← List.take_length (l := layout.encode record)]
    exact programmed_outside_slot hi
  have hwritten : recordAt m' x (fill m x) = record := by
    rw [hm]
    exact recordAt_programmed (hused.blank _ le_rfl hslot)
  have hnew : (recordAt m' x (fill m x)).looksErased = false := by
    rw [hwritten, Bool.eq_false_iff]
    exact fun herased => absurd (not_isValid_of_looksErased herased) (by simp [hvalid])
  obtain ⟨hused', hrecords⟩ := hused.succ hslot hcells hnew
  rw [hwritten, List.filter_cons_of_pos hvalid, List.filter_nil] at hrecords
  have hcount : (records m' x).length = (records m x).length + 1 := by
    rw [hrecords, List.length_append, List.length_singleton]
  have hkeep : ∀ i, sectorBase x.other ≤ i → i < sectorBase x.other + sectorSize →
      m' i = m i := fun i hi hi' => hcells i (outside_slot hslot hi hi')
  refine ⟨fun y => ?_, h.enough.imp (fun hall => ?_) fun ⟨y, hy⟩ => ⟨y, ?_⟩⟩
  · rcases Bank.eq_or_other y x with rfl | rfl
    · rw [hcount, hused'.fill_eq, h.valid]
    · rw [records_congr hkeep, fill_congr hkeep, h.valid]
  · have hother : (records m' x.other).length = (records m x.other).length := by
      rw [records_congr hkeep]
    rw [List.length_cons, hall]
    cases x
    · change (records m' .b).length = (records m .b).length at hother
      omega
    · change (records m' .a).length = (records m .a).length at hother
      omega
  · rcases Bank.eq_or_other y x with rfl | rfl
    · exact absurd hy hslot.ne
    · rw [fill_congr hkeep, hy]

end Sectors

/-! ## The log at work -/

section Calm

variable {hist : List Record} {ram ram' : Ram} {c c' : Chip} {status : Status}

/-- A sector is taken into use. -/
theorem cells_initRoll {x : Bank} (hc : c.fates = {})
    (h : initRoll x ram c = (some (status, ram'), c')) :
    c'.cells = blank (sectorBase x) sectorSize c.cells := by
  have hsteady : c.fates.Steady := hc ▸ Fates.steady_nil
  obtain ⟨⟨rolled, ram₁⟩, c₁, hroll, hret⟩ := bind_eq_some.1 h
  simp only [pure_apply, Prod.mk.injEq] at hret
  obtain ⟨c₂, -, -, hnone | ⟨hcells, hsome⟩, -⟩ := rollToSector_cases x ram hsteady.erases
  · rw [hnone] at hroll
    cases hroll
  · rw [hsome] at hroll
    obtain rfl : c₂ = c₁ := (Prod.mk.inj hroll).2
    rwa [← hret.2]

/-- **Start-up** erases a sector only when the other one is full, or when there is no record. -/
theorem Kept.init (h : Kept c.cells hist) (hidle : Idle c.cells hist) (hc : c.fates = {})
    (hinit : init c = (some (status, ram), c')) : Kept c'.cells hist := by
  obtain ⟨m, fates, log⟩ := c
  obtain rfl : fates = {} := hc
  have hscan (x : Bank) : scanSector x ⟨m, {}, log⟩ = (some (scanOf m x), ⟨m, {}, log⟩) :=
    (observes_scanSector m x).calm (driven_scanSector Set.univ x) log
  rw [HealthCheckLog.init, bind_of_some (hscan .a), bind_of_some (hscan .b)] at hinit
  rcases hidle.off with hempty | ⟨x, hcurrent⟩
  · rw [resume_of_empty hempty] at hinit
    have hcells := cells_initRoll rfl hinit
    obtain rfl := hidle.covers hempty
    have hunused (y : Bank) : (records c'.cells y).length = fill c'.cells y ∧
        (records c'.cells y).length = 0 := by
      rcases Bank.eq_or_other y .a with rfl | rfl
      · rw [(used_blank hcells).records_zero, (used_blank hcells).fill_eq]
        exact ⟨rfl, rfl⟩
      · have hkeep := blank_outside (x := .b) hcells
        have hb : fill m .b = 0 := by
          rw [← h.valid, hempty]
          rfl
        change (records c'.cells .b).length = fill c'.cells .b ∧ (records c'.cells .b).length = 0
        rw [records_congr hkeep, fill_congr hkeep, hempty, hb]
        exact ⟨rfl, rfl⟩
    refine ⟨fun y => (hunused y).1, .inl ?_⟩
    rw [(hunused .a).2, (hunused .b).2]
    rfl
  · rw [resume_of_current hcurrent] at hinit
    split at hinit
    · obtain rfl : ⟨m, {}, log⟩ = c' := (Prod.mk.inj hinit).2
      exact h
    · rename_i hfree
      exact h.roll ((fill_le_slots _ _).antisymm (Nat.le_of_not_lt hfree))
        (cells_initRoll rfl hinit)

/-- **An append** as well. -/
theorem Kept.append {resourceIndex : UInt8} {result : Result} {timestamp : UInt32}
    {entry : Option Entry} (h : Kept c.cells hist) (hrunning : Running c.cells hist ram)
    (hc : c.fates = {}) (hwrap : ram.nextSequence.toNat + 1 < 2 ^ 32)
    (happend : append resourceIndex result timestamp ram c = (some (.ok, entry, ram'), c')) :
    Kept c'.cells (newRecord resourceIndex result timestamp ram.nextSequence :: hist) := by
  have hsteady : c.fates.Steady := hc ▸ Fates.steady_nil
  have happends := append_appends resourceIndex result timestamp hrunning.on hsteady.reads
    hsteady.erases
  rw [happend] at happends
  cases happends with
  | @writes c₁ ram₁ _ hready hon hwrites =>
    have hcells := hwrites.ok rfl
    have hfill : fill c₁.cells ram₁.activeSector = ram₁.nextSlot := by
      rcases hready.same with ⟨hsame, rfl⟩ | ⟨-, rfl, hrolled⟩
      · rw [hsame]
        exact hrunning.tight.1
      · exact (tight_rolled hrolled).1
    have hkept : Kept c₁.cells hist := by
      rcases hready.same with ⟨hsame, -⟩ | ⟨hfull, -, hrolled⟩
      · rwa [hsame]
      · exact h.roll (hrunning.tight.1.trans hfull) hrolled
    refine hkept.write (x := ram₁.activeSector) (hfill ▸ hready.slot) hon.used ?_
      (newRecord_valid resourceIndex result timestamp (ne_erased hwrap))
    rw [hfill]
    exact hcells

end Calm

end HealthCheck.HealthCheckLog
