import HealthCheck.HealthCheckLogProof

/-!
# The state of the result log

`On` describes the sectors and the variables of a running log against the list of all records
that were ever appended, `Off` the sectors when the power is off. Appends and start-ups move
between the two:

* `On.write`, `On.roll` — what an append does to a running log;
* `On.off`, `On.off_of_mixed`, `Off.mixed` — losing power, also in the middle of an erase;
* `init_cases` — a start-up;
* `On.getRecent` — `HealthCheckLog_GetRecent` returns the newest records that are left.
-/

namespace HealthCheck.HealthCheckLog

open Nor hiding read driven_read read_ok read_cases observes_read uncut_read
open Crc32 Memory TwoBank W25q64

/-! ## Running and powered off -/

/-- The sequence of a record as a number. -/
def Record.number (r : Record) : ℕ := r.sequence.toNat

/-- How many slots of a sector are used. -/
def fill (m : Cells) (x : Bank) : ℕ := (usedSlots m x).length

/-- The records that are left when `x` is the active sector, oldest first. -/
def retained (m : Cells) (x : Bank) : List Record := records m x.other ++ records m x

/-- A running log. `hist` is what was appended so far, latest first. -/
structure On (m : Cells) (hist : List Record) (ram : Ram) : Prop where
  used : Used m ram.activeSector (fill m ram.activeSector)
  fill_le : fill m ram.activeSector ≤ ram.nextSlot
  nextSlot_le : ram.nextSlot ≤ slotsPerSector
  dense : Dense m ram.activeSector.other
  kept : (retained m ram.activeSector).reverse <+: hist
  sorted : (retained m ram.activeSector).Pairwise fun r r' => r.number < r'.number
  below : ∀ r ∈ retained m ram.activeSector, r.number < ram.nextSequence.toNat
  positive : ∀ r ∈ retained m ram.activeSector, 0 < r.number
  started : 0 < ram.nextSequence.toNat
  /-- The other sector can be resumed if this one holds no record. -/
  resumable : records m ram.activeSector ≠ [] ∨ records m ram.activeSector.other = [] ∨
    Used m ram.activeSector.other (fill m ram.activeSector.other)

/-- Sector `x` is the one a start-up resumes. -/
structure Current (m : Cells) (hist : List Record) (x : Bank) : Prop where
  used : Used m x (fill m x)
  nonempty : records m x ≠ []
  kept : (records m x).reverse <+: hist
  sorted : (records m x).Pairwise fun r r' => r.number < r'.number
  older : ∀ r ∈ records m x.other, ∀ r' ∈ records m x, r.number < r'.number
  positive : ∀ r ∈ retained m x, 0 < r.number
  /-- The other sector is about to be erased, or it is in order. -/
  clean : fill m x = slotsPerSector ∨ Dense m x.other ∧
    ((records m x.other).Pairwise fun r r' => r.number < r'.number) ∧
    (retained m x).reverse <+: hist

/-- A log without power. -/
def Off (m : Cells) (hist : List Record) : Prop :=
  (∀ x, records m x = []) ∨ ∃ x, Current m hist x

/-- The slots the active sector has used are those before the next one, and a sector that was
taken into use got a record first. -/
def Tight (m : Cells) (ram : Ram) : Prop :=
  fill m ram.activeSector = ram.nextSlot ∧
    (ram.nextSlot = 0 ∨ records m ram.activeSector ≠ [])

/-- An erase that was cut short: garbage that is no record, and records that were there. -/
def Mixed (m m' : Cells) (x : Bank) : Prop :=
  ∀ slot < slotsPerSector, recordAt m' x slot = recordAt m x slot ∨
    (recordAt m' x slot).isValid = false

theorem mem_records {m : Cells} {x : Bank} {r : Record} :
    r ∈ records m x ↔ ∃ slot < slotsPerSector, recordAt m x slot = r ∧ r.isValid = true := by
  rw [records, List.mem_filter, slots, List.mem_map]
  constructor
  · rintro ⟨⟨slot, hslot, rfl⟩, hvalid⟩
    exact ⟨slot, List.mem_range.1 hslot, rfl, hvalid⟩
  · rintro ⟨slot, hslot, rfl, hvalid⟩
    exact ⟨⟨slot, List.mem_range.2 hslot, rfl⟩, hvalid⟩

theorem Mixed.records_subset {m m' : Cells} {x : Bank} (h : Mixed m m' x) :
    records m' x ⊆ records m x := by
  intro r hr
  obtain ⟨slot, hslot, rfl, hvalid⟩ := mem_records.1 hr
  rcases h slot hslot with heq | hinvalid
  · exact mem_records.2 ⟨slot, hslot, heq.symm, hvalid⟩
  · rw [hinvalid] at hvalid
    cases hvalid

theorem Used.fill_eq {m : Cells} {x : Bank} {n : ℕ} (h : Used m x n) : fill m x = n :=
  h.length_usedSlots

theorem fill_congr {m m' : Cells} {x : Bank}
    (h : ∀ i, sectorBase x ≤ i → i < sectorBase x + sectorSize → m' i = m i) :
    fill m' x = fill m x := by
  rw [fill, fill, usedSlots, usedSlots, slots_congr h]

theorem On.current {m : Cells} {hist : List Record} {ram : Ram} (h : On m hist ram)
    (hne : records m ram.activeSector ≠ []) : Current m hist ram.activeSector := by
  have hsorted := List.pairwise_append.1 h.sorted
  refine ⟨h.used, hne, ?_, hsorted.2.1, hsorted.2.2, h.positive,
    .inr ⟨h.dense, hsorted.1, h.kept⟩⟩
  refine IsTrans.trans _ _ _ ?_ h.kept
  rw [retained, List.reverse_append]
  exact List.prefix_append ..

/-- **Power off.** -/
theorem On.off {m : Cells} {hist : List Record} {ram : Ram} (h : On m hist ram) : Off m hist := by
  have hsorted := List.pairwise_append.1 h.sorted
  by_cases hactive : records m ram.activeSector = []
  · by_cases hother : records m ram.activeSector.other = []
    · refine .inl fun x => ?_
      rcases Bank.eq_or_other x ram.activeSector with hx | hx
      · rw [hx]
        exact hactive
      · rw [hx]
        exact hother
    · have hused := (h.resumable.resolve_left (not_not_intro hactive)).resolve_left hother
      have hretained : retained m ram.activeSector.other = retained m ram.activeSector := by
        rw [retained, retained, Bank.other_other, hactive, List.nil_append, List.append_nil]
      have hall : retained m ram.activeSector = records m ram.activeSector.other := by
        rw [retained, hactive, List.append_nil]
      refine .inr ⟨ram.activeSector.other, hused, hother, hall ▸ h.kept, hsorted.1,
        fun r hr => ?_, hretained ▸ h.positive, .inr ⟨?_, ?_, hretained ▸ h.kept⟩⟩
      · rw [Bank.other_other, hactive] at hr
        cases hr
      · rw [Bank.other_other]
        exact h.used.dense
      · rw [Bank.other_other, hactive]
        exact .nil
  · exact .inr ⟨ram.activeSector, h.current hactive⟩

/-! ## Erasing a sector -/

section Erase

variable {m m' : Cells} {hist : List Record} {x : Bank}

theorem blank_outside (h : m' = blank (sectorBase x.other) sectorSize m) :
    ∀ i, sectorBase x ≤ i → i < sectorBase x + sectorSize → m' i = m i := by
  intro i hi hi'
  rw [h]
  refine overwrite_outside (outside_sector ?_ ?_) <;> rwa [Bank.other_other]

theorem used_blank (h : m' = blank (sectorBase x) sectorSize m) : Used m' x 0 :=
  used_zero fun i hi hi' => by
    rw [h]
    exact blank_apply hi hi'

/-- **The other sector is taken into use.** -/
theorem On.roll {ram : Ram} (h : On m hist ram)
    (hm : m' = blank (sectorBase ram.activeSector.other) sectorSize m) : On m' hist ram.rolled := by
  have hkeep := blank_outside hm
  have hempty := used_blank hm
  have hused : Used m' ram.activeSector (fill m' ram.activeSector) := by
    rw [fill_congr hkeep]
    exact h.used.congr hkeep
  have hretained : retained m' ram.activeSector.other = records m ram.activeSector := by
    rw [retained, Bank.other_other, records_congr hkeep, hempty.records_zero, List.append_nil]
  have hsub : records m ram.activeSector ⊆ retained m ram.activeSector :=
    List.subset_append_right ..
  have hprefix : (records m ram.activeSector).reverse <+: hist := by
    refine IsTrans.trans _ _ _ ?_ h.kept
    rw [retained, List.reverse_append]
    exact List.prefix_append ..
  refine ⟨?_, ?_, Nat.zero_le _, ?_, ?_, ?_, ?_, ?_, h.started, .inr (.inr ?_)⟩ <;>
    simp only [Ram.rolled, Bank.other_other]
  · rw [hempty.fill_eq]
    exact hempty
  · exact hempty.fill_eq.le
  · exact hused.dense
  · rw [hretained]
    exact hprefix
  · rw [hretained]
    exact (List.pairwise_append.1 h.sorted).2.1
  · rw [hretained]
    exact fun r hr => h.below r (hsub hr)
  · rw [hretained]
    exact fun r hr => h.positive r (hsub hr)
  · exact hused

theorem tight_rolled {ram : Ram}
    (hm : m' = blank (sectorBase ram.activeSector.other) sectorSize m) : Tight m' ram.rolled :=
  ⟨(used_blank hm).fill_eq, .inl rfl⟩

/-- An erase of the other sector that is cut short while the active one is full. -/
theorem Current.mixed (h : Current m hist x) (hfull : fill m x = slotsPerSector)
    (hkeep : ∀ i, sectorBase x ≤ i → i < sectorBase x + sectorSize → m' i = m i)
    (hmixed : Mixed m m' x.other) : Current m' hist x := by
  have hrecords := records_congr hkeep
  have hsub := hmixed.records_subset
  refine ⟨?_, ?_, ?_, ?_, ?_, ?_, .inl ((fill_congr hkeep).trans hfull)⟩
  · rw [fill_congr hkeep]
    exact h.used.congr hkeep
  · rw [hrecords]
    exact h.nonempty
  · rw [hrecords]
    exact h.kept
  · rw [hrecords]
    exact h.sorted
  · rw [hrecords]
    exact fun r hr => h.older r (hsub hr)
  · intro r hr
    rw [retained, hrecords] at hr
    refine h.positive r ?_
    rcases List.mem_append.1 hr with hr | hr
    · exact List.mem_append_left _ (hsub hr)
    · exact List.mem_append_right _ hr

/-- The erase of an append is cut short. -/
theorem On.off_of_mixed {ram : Ram} (h : On m hist ram) (htight : Tight m ram)
    (hfull : ram.nextSlot = slotsPerSector)
    (hkeep : ∀ i, sectorBase ram.activeSector ≤ i → i < sectorBase ram.activeSector + sectorSize →
      m' i = m i) (hmixed : Mixed m m' ram.activeSector.other) : Off m' hist := by
  have hne : records m ram.activeSector ≠ [] := by
    refine htight.2.resolve_left ?_
    rw [hfull, slotsPerSector_eq]
    decide
  exact .inr ⟨_, (h.current hne).mixed (htight.1.trans hfull) hkeep hmixed⟩

end Erase

/-! ## Writing a record -/

theorem not_eq_of_not_valid {r s : Record} (hs : s.isValid = true) (h : r.isValid = false) :
    r ≠ s := fun heq => by
  rw [heq, hs] at h
  cases h

theorem Record.isValid_iff {r : Record} :
    r.isValid = true ↔ r.sequence ≠ erasedSequence ∧ r.crc = crcOf r := by
  simp [Record.isValid]

section Write

variable {m m' : Cells} {hist : List Record} {ram : Ram}

/-- The active sector gets one more record at its end, or none. -/
theorem On.extend (h : On m hist ram) (hslot : ram.nextSlot < slotsPerSector)
    (hkeep : ∀ i, sectorBase ram.activeSector.other ≤ i →
      i < sectorBase ram.activeSector.other + sectorSize → m' i = m i) {n : ℕ}
    (hused : Used m' ram.activeSector n) (hn : n ≤ ram.nextSlot + 1) {news : List Record}
    (hrecords : records m' ram.activeSector = records m ram.activeSector ++ news)
    (hnews : ∀ r ∈ news, r.number = ram.nextSequence.toNat)
    (hsorted : news.Pairwise fun r r' => r.number < r'.number)
    (hwrap : ram.nextSequence.toNat + 1 < 2 ^ 32) : On m' (news.reverse ++ hist) ram.advanced := by
  have hretained : retained m' ram.activeSector = retained m ram.activeSector ++ news := by
    rw [retained, retained, records_congr hkeep, hrecords, List.append_assoc]
  have hnext : (ram.nextSequence + 1).toNat = ram.nextSequence.toNat + 1 := by
    rw [UInt32.toNat_add]
    exact Nat.mod_eq_of_lt hwrap
  have hstarted := h.started
  refine ⟨?_, ?_, ?_, ?_, ?_, ?_, ?_, ?_, ?_, ?_⟩ <;> simp only [Ram.advanced]
  · rw [hused.fill_eq]
    exact hused
  · rw [hused.fill_eq]
    exact hn
  · omega
  · exact (dense_congr hkeep).2 h.dense
  · rw [hretained, List.reverse_append]
    exact (List.prefix_append_right_inj _).2 h.kept
  · rw [hretained]
    refine List.pairwise_append.2 ⟨h.sorted, hsorted, fun r hr r' hr' => ?_⟩
    rw [hnews r' hr']
    exact h.below r hr
  · intro r hr
    rw [hretained] at hr
    rw [hnext]
    rcases List.mem_append.1 hr with hr | hr
    · exact (h.below r hr).trans (Nat.lt_succ_self _)
    · rw [hnews r hr]
      exact Nat.lt_succ_self _
  · intro r hr
    rw [hretained] at hr
    rcases List.mem_append.1 hr with hr | hr
    · exact h.positive r hr
    · rw [hnews r hr]
      exact hstarted
  · rw [hnext]
    exact Nat.succ_pos _
  · rw [hrecords, records_congr hkeep, fill_congr hkeep]
    rcases h.resumable with hne | hempty | hresume
    · exact .inl fun heq => hne (List.append_eq_nil_iff.1 heq).1
    · exact .inr (.inl hempty)
    · exact .inr (.inr (hresume.congr hkeep))

/-- **A record is written**, or a first part of it. -/
theorem On.write (h : On m hist ram) (hslot : ram.nextSlot < slotsPerSector) {r : Record} {k : ℕ}
    (hm : m' = programmed (slotAddress ram.activeSector ram.nextSlot)
      ((layout.encode r).take k) m) (hvalid : r.isValid = true)
    (hsequence : r.sequence = ram.nextSequence) (hwrap : ram.nextSequence.toNat + 1 < 2 ^ 32)
    (htorn : (recordAt m' ram.activeSector ram.nextSlot).isValid = true →
      recordAt m' ram.activeSector ram.nextSlot = r)
    (hgapless : (recordAt m' ram.activeSector ram.nextSlot).looksErased = true ∨
      fill m ram.activeSector = ram.nextSlot) :
    On m' (if recordAt m' ram.activeSector ram.nextSlot = r then r :: hist else hist)
      ram.advanced := by
  have hcells : ∀ i, i < slotAddress ram.activeSector ram.nextSlot ∨
      slotAddress ram.activeSector ram.nextSlot + recordSize ≤ i → m' i = m i := fun i hi => by
    rw [hm]
    exact programmed_outside_slot hi
  have hkeep : ∀ i, sectorBase ram.activeSector.other ≤ i →
      i < sectorBase ram.activeSector.other + sectorSize → m' i = m i := fun i hi hi' =>
    hcells i (outside_slot hslot hi hi')
  have hblank := h.used.blank ram.nextSlot h.fill_le hslot
  by_cases herased : (recordAt m' ram.activeSector ram.nextSlot).looksErased = true
  · have hstill : Blank m' ram.activeSector ram.nextSlot := by
      rw [hm] at herased ⊢
      exact blank_of_looksErased hblank (Record.isValid_iff.1 hvalid).1 herased
    obtain ⟨hused, hrecords⟩ := h.used.keep h.fill_le hcells hstill
    rw [if_neg (not_eq_of_not_valid hvalid (not_isValid_of_looksErased herased))]
    exact h.extend hslot hkeep hused (h.fill_le.trans (Nat.le_succ _))
      (hrecords.trans (List.append_nil _).symm) (fun _ hr => (List.not_mem_nil hr).elim) .nil hwrap
  · have hfill := hgapless.resolve_left herased
    have hfilled : Used m ram.activeSector ram.nextSlot := hfill ▸ h.used
    obtain ⟨hused, hrecords⟩ := hfilled.succ hslot hcells (Bool.eq_false_iff.2 herased)
    by_cases hwhole : recordAt m' ram.activeSector ram.nextSlot = r
    · rw [if_pos hwhole]
      rw [hwhole, List.filter_cons_of_pos hvalid, List.filter_nil] at hrecords
      refine h.extend hslot hkeep hused le_rfl hrecords (fun r' hr' => ?_)
        (List.pairwise_singleton _ _) hwrap
      rw [List.mem_singleton.1 hr', Record.number, hsequence]
    · rw [if_neg hwhole]
      rw [List.filter_cons_of_neg fun hv => hwhole (htorn hv), List.filter_nil] at hrecords
      exact h.extend hslot hkeep hused le_rfl hrecords (fun _ hr => (List.not_mem_nil hr).elim) .nil
        hwrap

end Write

/-! ## The newest records -/

section Recent

variable {m : Cells} {x : Bank}

/-- Slots behind the used ones hold no records. -/
theorem Used.records_upto {n p : ℕ} (h : Used m x n) (hn : n ≤ p) (hp : p ≤ slotsPerSector) :
    ((List.range p).map (recordAt m x)).filter Record.isValid = records m x := by
  rw [records, slots_split m x hp, List.filter_append, eq_comm, List.append_right_eq_self,
    List.filter_eq_nil_iff]
  intro r hr
  obtain ⟨i, hi, rfl⟩ := List.mem_map.1 hr
  obtain ⟨hle, hlt⟩ := List.mem_range'_1.1 hi
  rw [not_isValid_of_looksErased (looksErased_of_blank (h.blank i (hn.trans hle) (by omega)))]
  decide

theorem fill_le_slots (m : Cells) (x : Bank) : fill m x ≤ slotsPerSector := by
  rw [fill, ← length_slots m x]
  exact (List.takeWhile_prefix _).length_le

/-- The slots before the first that looks erased, by their numbers. -/
theorem usedSlots_eq (m : Cells) (x : Bank) :
    (List.range (fill m x)).map (recordAt m x) = usedSlots m x := by
  have htake : usedSlots m x = (slots m x).take (fill m x) :=
    List.prefix_iff_eq_take.1 (List.takeWhile_prefix _)
  rw [htake, slots, ← List.map_take, List.take_range, Nat.min_eq_left (fill_le_slots m x)]

/-- **The newest records**: those of the active sector below the next slot, then those before the
first erased slot of the other one. -/
theorem observes_getRecent (m : Cells) {ram : Ram} (h : ram.nextSlot ≤ slotsPerSector) (n : ℕ) :
    Observes (getRecent n ram) m ((((usedSlots m ram.activeSector.other).filter Record.isValid ++
      ((List.range ram.nextSlot).map (recordAt m ram.activeSector)).filter
        Record.isValid).reverse.take n).map Record.entry) := by
  have hactive := observes_recentFrom m ram.activeSector ram.nextSlot n h
  generalize hnewer : ((List.range ram.nextSlot).map (recordAt m ram.activeSector)).filter
    Record.isValid = newer at hactive ⊢
  have hother := observes_recentFrom m ram.activeSector.other (fill m ram.activeSector.other)
    (n - ((newer.reverse.take n).map Record.entry).length)
    (fill_le_slots m ram.activeSector.other)
  rw [usedSlots_eq] at hother
  generalize (usedSlots m ram.activeSector.other).filter Record.isValid = older at hother ⊢
  have htake : ((older ++ newer).reverse.take n).map Record.entry =
      (newer.reverse.take n).map Record.entry ++ (older.reverse.take (n -
        ((newer.reverse.take n).map Record.entry).length)).map Record.entry := by
    rw [List.reverse_append, List.take_append, List.map_append, List.length_map, List.length_take]
    congr 3
    omega
  rw [htake]
  exact (observes_scanSector m ram.activeSector.other).bind
    (hactive.bind (hother.bind (.pure _ _)))

/-- **The newest records that are left**, newest first. -/
theorem On.getRecent {hist : List Record} {ram : Ram} (h : On m hist ram) (n : ℕ) :
    Observes (getRecent n ram) m
      (((retained m ram.activeSector).reverse.take n).map Record.entry) := by
  have hrecent := observes_getRecent m h.nextSlot_le n
  have hdense := h.dense
  rw [Dense] at hdense
  rw [h.used.records_upto h.fill_le h.nextSlot_le, hdense] at hrecent
  exact hrecent

end Recent

/-! ## Start-up -/

/-- A log that was started: the variables follow the last record that was appended, if any is
left. -/
structure Booted (m : Cells) (hist : List Record) (m' : Cells) (ram : Ram) : Prop where
  on : On m' hist ram
  tight : Tight m' ram
  next : (∀ x, records m x = []) ∧ ram.nextSequence = 1 ∨
    retained m' ram.activeSector ≠ [] ∧ ∃ r x, hist.head? = some r ∧ r ∈ records m x ∧
      ram.nextSequence.toNat = r.number + 1

/-- Every record of a sector is older than every one of the other. -/
def Older (m : Cells) (x : Bank) : Prop :=
  ∀ r ∈ records m x, ∀ r' ∈ records m x.other, r.number < r'.number

/-- How an erase of sector `x` ends. -/
theorem rollToSector_cases (x : Bank) (ram : Ram) {c : Chip}
    (herases : ∀ t left, .fails t left ∉ c.fates.erases) :
    ∃ c', c'.log = .erase (sectorBase x) sectorSize c.cells :: c.log ∧ c.fates.After c'.fates ∧
      (rollToSector x ram c = (none, c') ∨
        c'.cells = blank (sectorBase x) sectorSize c.cells ∧
        rollToSector x ram c = (some (true, { ram with activeSector := x, nextSlot := 0 }), c')) ∧
      ∀ i, sectorBase x.other ≤ i → i < sectorBase x.other + sectorSize →
        c'.cells i = c.cells i := by
  have hlog := eraseSector_log (sectorBase_aligned x) (sectorBase_below x) c
  have hsteps := (driven_eraseSector (sectorBase x)).steps c
  rcases herase : eraseSector (sectorBase x) c with ⟨_ | status, c'⟩
  · rw [herase] at hlog hsteps
    refine ⟨c', hlog, hsteps.fates, .inl (bind_of_none herase), fun i hi hi' => ?_⟩
    exact hsteps.outside i (outside_sector hi hi')
  · rw [herase] at hlog hsteps
    have hok := eraseSector_steady (sectorBase_aligned x) (sectorBase_below x) herases herase
    subst hok
    refine ⟨c', hlog, hsteps.fates, .inr ⟨eraseSector_ok herase, bind_of_some herase⟩,
      fun i hi hi' => hsteps.outside i (outside_sector hi hi')⟩

section Resume

variable {m : Cells} {hist : List Record} {x : Bank}

theorem count_eq_zero (h : records m x = []) : (scanOf m x).count = 0 := by
  have hdense : (usedSlots m x).filter Record.isValid = records m x := dense_of_empty h
  rw [scanOf]
  exact List.length_eq_zero_iff.2 (hdense.trans h)

theorem resume_of_empty (h : ∀ x, records m x = []) :
    resume (scanOf m .a) (scanOf m .b) = initRoll .a ⟨.a, 0, 1⟩ := by
  rw [resume, if_pos ⟨count_eq_zero (h .a), count_eq_zero (h .b)⟩]

/-- The last record of the sector a start-up resumes. -/
theorem Current.last (h : Current m hist x) : ∃ r ∈ records m x, hist.head? = some r ∧
    (scanOf m x).lastSequence = r.sequence ∧ ∀ r' ∈ records m x, r'.number ≤ r.number := by
  have hdense : (usedSlots m x).filter Record.isValid = records m x := h.used.dense
  obtain ⟨rs, r, hrs⟩ := (List.eq_nil_or_concat' _).resolve_left h.nonempty
  obtain ⟨later, hhist⟩ := h.kept
  have hsorted := h.sorted
  rw [hrs, List.reverse_append] at hhist
  rw [hrs] at hsorted
  have hmem : r ∈ records m x := by
    rw [hrs]
    exact List.mem_append_right _ List.mem_cons_self
  refine ⟨r, hmem, by rw [← hhist]; rfl, ?_, fun r' hr' => ?_⟩
  · rw [scanOf]
    show lastSequence ((usedSlots m x).filter Record.isValid) = _
    rw [hdense, hrs, lastSequence, List.getLast?_append]
    rfl
  · rw [hrs] at hr'
    rcases List.mem_append.1 hr' with hr' | hr'
    · exact ((List.pairwise_append.1 hsorted).2.2 r' hr' r List.mem_cons_self).le
    · rw [List.mem_singleton.1 hr']

/-- What the scan of the other sector reports is older. -/
theorem Current.lastSequence_other (h : Current m hist x) :
    (scanOf m x.other).lastSequence < (scanOf m x).lastSequence := by
  obtain ⟨r, hr, -, hlast, -⟩ := h.last
  rw [hlast, UInt32.lt_iff_toNat_lt]
  show (lastSequence ((usedSlots m x.other).filter Record.isValid)).toNat < r.number
  rw [lastSequence]
  cases hother : ((usedSlots m x.other).filter Record.isValid).getLast? with
  | none => exact h.positive r (List.mem_append_right _ hr)
  | some r' =>
    refine h.older r' ?_ r hr
    obtain ⟨hused, hvalid⟩ := List.mem_filter.1 (List.mem_of_getLast? hother)
    exact List.mem_filter.2 ⟨(List.takeWhile_prefix _).subset hused, hvalid⟩

theorem resume_of_current (h : Current m hist x) : resume (scanOf m .a) (scanOf m .b) =
    if fill m x < slotsPerSector then
      pure (.ok, ⟨x, fill m x, (scanOf m x).lastSequence + 1⟩)
    else initRoll x.other ⟨.a, 0, (scanOf m x).lastSequence + 1⟩ := by
  have hcount : (scanOf m x).count ≠ 0 := by
    have hdense : (usedSlots m x).filter Record.isValid = records m x := h.used.dense
    rw [scanOf]
    exact fun h0 => h.nonempty (hdense.symm.trans (List.length_eq_zero_iff.1 h0))
  have hlast := h.lastSequence_other
  rw [resume]
  cases x with
  | a =>
    rw [if_neg fun h0 => hcount h0.1]
    simp only [if_pos (show (scanOf m .a).lastSequence ≥ (scanOf m .b).lastSequence from
      UInt32.le_of_lt hlast)]
    rfl
  | b =>
    rw [if_neg fun h0 => hcount h0.2]
    simp only [if_neg (show ¬ (scanOf m .a).lastSequence ≥ (scanOf m .b).lastSequence from
      UInt32.not_le.2 hlast)]
    rfl

end Resume

/-- The ways a start-up ends on a flash `m`. -/
inductive Starts (m : Cells) (hist : List Record) (log : List Command) :
    Option (Status × Ram) × Chip → Prop
  /-- Power is lost while the sectors are read. -/
  | cut {c : Chip} : c.cells = m → c.log = log → Starts m hist log (none, c)
  | resumed {c : Chip} {ram : Ram} : c.cells = m → c.log = log → Booted m hist m ram →
      Starts m hist log (some (.ok, ram), c)
  /-- Power is lost while a sector is erased. -/
  | cutErase {c : Chip} {x : Bank} : Older m x →
      c.log = .erase (sectorBase x) sectorSize m :: log →
      (Mixed m c.cells x → Off c.cells hist ∧
        ((∀ y, records c.cells y = []) → ∀ y, records m y = [])) → Starts m hist log (none, c)
  | erased {c : Chip} {x : Bank} {ram : Ram} : Older m x →
      c.log = .erase (sectorBase x) sectorSize m :: log → Booted m hist c.cells ram →
      Starts m hist log (some (.ok, ram), c)

section Init

variable {m : Cells} {hist : List Record} {c : Chip}

/-- A start-up without any record. -/
theorem starts_empty (h : ∀ x, records m x = []) (hc : c.cells = m)
    (herases : ∀ t left, .fails t left ∉ c.fates.erases) :
    Starts m hist c.log (initRoll .a ⟨.a, 0, 1⟩ c) := by
  subst hc
  have holder : Older c.cells .a := fun r hr => by
    rw [h .a] at hr
    cases hr
  obtain ⟨c', hlog, -, hroll | ⟨hcells, hroll⟩, hkeep⟩ :=
    rollToSector_cases .a ⟨.a, 0, 1⟩ herases
  · rw [initRoll, bind_of_none hroll]
    refine .cutErase holder hlog fun hmixed => ⟨.inl fun x => ?_, fun _ => h⟩
    cases x with
    | a => exact List.eq_nil_of_subset_nil ((h .a) ▸ hmixed.records_subset)
    | b => exact (records_congr hkeep).trans (h .b)
  · have hempty : Used c'.cells .a 0 := used_blank hcells
    have hretained : retained c'.cells .a = [] := by
      rw [retained, hempty.records_zero, List.append_nil]
      exact (records_congr hkeep).trans (h .b)
    rw [initRoll, bind_of_some hroll]
    refine .erased holder hlog ⟨⟨?_, ?_, Nat.zero_le _, ?_, ?_, ?_, ?_, ?_, by decide, ?_⟩,
      ⟨hempty.fill_eq, .inl rfl⟩, .inl ⟨h, rfl⟩⟩
    · show Used c'.cells .a (fill c'.cells .a)
      rw [hempty.fill_eq]
      exact hempty
    · exact hempty.fill_eq.le
    · exact dense_of_empty ((records_congr hkeep).trans (h .b))
    · show (retained c'.cells .a).reverse <+: hist
      rw [hretained]
      exact List.nil_prefix
    · show (retained c'.cells .a).Pairwise _
      rw [hretained]
      exact .nil
    · show ∀ r ∈ retained c'.cells .a, _
      rw [hretained]
      exact fun _ hr => (List.not_mem_nil hr).elim
    · show ∀ r ∈ retained c'.cells .a, _
      rw [hretained]
      exact fun _ hr => (List.not_mem_nil hr).elim
    · exact .inr (.inl ((records_congr hkeep).trans (h .b)))

/-- The records go on after the last one of the sector that is resumed. -/
theorem Current.next {x : Bank} (h : Current m hist x)
    (hwrap : ∀ r ∈ records m x, r.number + 1 < 2 ^ 32) : ∃ r ∈ records m x,
      hist.head? = some r ∧ ((scanOf m x).lastSequence + 1).toNat = r.number + 1 ∧
      ∀ r' ∈ retained m x, r'.number < r.number + 1 := by
  obtain ⟨r, hr, hhead, hlast, hmax⟩ := h.last
  refine ⟨r, hr, hhead, ?_, fun r' hr' => ?_⟩
  · rw [hlast, UInt32.toNat_add]
    exact Nat.mod_eq_of_lt (hwrap r hr)
  · rcases List.mem_append.1 hr' with hr' | hr'
    · exact (h.older r' hr' r hr).trans (Nat.lt_succ_self _)
    · exact Nat.lt_succ_of_le (hmax r' hr')

/-- The sector of the newest records still has slots. -/
theorem Current.booted {x : Bank} (h : Current m hist x) (hfree : fill m x < slotsPerSector)
    (hwrap : ∀ r ∈ records m x, r.number + 1 < 2 ^ 32) :
    Booted m hist m ⟨x, fill m x, (scanOf m x).lastSequence + 1⟩ := by
  obtain ⟨r, hr, hhead, hnext, hmax⟩ := h.next hwrap
  obtain ⟨hdense, hsorted, hkept⟩ := h.clean.resolve_left hfree.ne
  refine ⟨⟨h.used, le_rfl, hfree.le, hdense, hkept, ?_, ?_, h.positive, ?_, .inl h.nonempty⟩,
    ⟨rfl, .inr h.nonempty⟩, .inr ⟨?_, r, x, hhead, hr, hnext⟩⟩
  · exact List.pairwise_append.2 ⟨hsorted, h.sorted, h.older⟩
  · intro r' hr'
    rw [hnext]
    exact hmax r' hr'
  · rw [hnext]
    exact Nat.succ_pos _
  · exact fun hnil => h.nonempty (List.append_eq_nil_iff.1 hnil).2

/-- That sector is full: the other one is erased. -/
theorem Current.booted_rolled {m' : Cells} {x : Bank} (h : Current m hist x)
    (hwrap : ∀ r ∈ records m x, r.number + 1 < 2 ^ 32)
    (hm : m' = blank (sectorBase x.other) sectorSize m) :
    Booted m hist m' ⟨x.other, 0, (scanOf m x).lastSequence + 1⟩ := by
  obtain ⟨r, hr, hhead, hnext, hmax⟩ := h.next hwrap
  have hkeep := blank_outside hm
  have hempty := used_blank hm
  have hretained : retained m' x.other = records m x := by
    rw [retained, Bank.other_other, records_congr hkeep, hempty.records_zero, List.append_nil]
  have hused : Used m' x (fill m' x) := by
    rw [fill_congr hkeep]
    exact h.used.congr hkeep
  have hsub : records m x ⊆ retained m x := List.subset_append_right ..
  refine ⟨⟨?_, hempty.fill_eq.le, Nat.zero_le _, ?_, ?_, ?_, ?_, ?_, ?_, ?_⟩,
    ⟨hempty.fill_eq, .inl rfl⟩, .inr ⟨?_, r, x, hhead, hr, hnext⟩⟩ <;>
    simp only [hretained, Bank.other_other]
  · rw [hempty.fill_eq]
    exact hempty
  · exact hused.dense
  · exact h.kept
  · exact h.sorted
  · rw [hnext]
    exact fun r' hr' => hmax r' (hsub hr')
  · exact fun r' hr' => h.positive r' (hsub hr')
  · rw [hnext]
    exact Nat.succ_pos _
  · exact .inr (.inr hused)
  · exact h.nonempty

/-- A start-up with records. -/
theorem starts_current {x : Bank} (h : Current m hist x)
    (hwrap : ∀ r ∈ records m x, r.number + 1 < 2 ^ 32) (hc : c.cells = m)
    (herases : ∀ t left, .fails t left ∉ c.fates.erases) :
    Starts m hist c.log (resume (scanOf m .a) (scanOf m .b) c) := by
  subst hc
  rw [resume_of_current h]
  by_cases hfree : fill c.cells x < slotsPerSector
  · rw [if_pos hfree]
    exact .resumed rfl rfl (h.booted hfree hwrap)
  · have hfull : fill c.cells x = slotsPerSector :=
      (fill_le_slots _ _).antisymm (Nat.le_of_not_lt hfree)
    have holder : Older c.cells x.other := fun r hr r' hr' =>
      h.older r hr r' ((Bank.other_other x) ▸ hr')
    rw [if_neg hfree]
    obtain ⟨c', hlog, -, hroll | ⟨hcells, hroll⟩, hkeep⟩ := rollToSector_cases x.other
      ⟨.a, 0, (scanOf c.cells x).lastSequence + 1⟩ herases
    · rw [initRoll, bind_of_none hroll]
      rw [Bank.other_other] at hkeep
      refine .cutErase holder hlog fun hmixed => ?_
      have hkept := h.mixed hfull hkeep hmixed
      exact ⟨.inr ⟨x, hkept⟩, fun hempty => absurd (hempty x) hkept.nonempty⟩
    · rw [initRoll, bind_of_some hroll]
      exact .erased holder hlog (h.booted_rolled hwrap hcells)

/-- **Start-up.** -/
theorem init_starts (h : Off m hist) (hwrap : ∀ x, ∀ r ∈ records m x, r.number + 1 < 2 ^ 32)
    (hc : c.cells = m) (hreads : c.fates.ReadsSucceed)
    (herases : ∀ t left, .fails t left ∉ c.fates.erases) :
    Starts m hist c.log (init c) := by
  rcases hrun : init c with ⟨r, c'⟩
  obtain ⟨rfl, hcells, hlog⟩ | ⟨c₁, hcells₁, hlog₁, hafter₁, hrun₁⟩ :=
    (observes_scanSector m .a).cases hc hreads hrun
  · exact .cut hcells hlog
  obtain ⟨rfl, hcells, hlog⟩ | ⟨c₂, hcells₂, hlog₂, hafter₂, hrun₂⟩ :=
    (observes_scanSector m .b).cases hcells₁ (hreads.after hafter₁) hrun₁
  · exact .cut hcells (hlog.trans hlog₁)
  have herases₂ : ∀ t left, .fails t left ∉ c₂.fates.erases := fun t left hmem =>
    herases t left ((hafter₁.trans hafter₂).erases.subset hmem)
  rw [← hrun₂, ← hlog₁, ← hlog₂]
  rcases h with hempty | ⟨x, hcurrent⟩
  · rw [resume_of_empty hempty]
    exact starts_empty hempty hcells₂ herases₂
  · exact starts_current hcurrent (hwrap x) hcells₂ herases₂

end Init

/-! ## What a write keeps -/

section Kept

variable {m m' : Cells} {ram : Ram}

/-- No record is lost when one is written to an erased slot. -/
theorem records_subset_of_write {x : Bank} {slot : ℕ} (hslot : slot < slotsPerSector)
    (hcells : ∀ i, i < slotAddress x slot ∨ slotAddress x slot + recordSize ≤ i → m' i = m i)
    (hblank : Blank m x slot) (y : Bank) : records m y ⊆ records m' y := by
  intro r hr
  obtain ⟨i, hi, rfl, hvalid⟩ := mem_records.1 hr
  refine mem_records.2 ⟨i, hi, ?_, hvalid⟩
  rcases Bank.eq_or_other y x with rfl | rfl
  · by_cases heq : i = slot
    · rw [heq, not_isValid_of_looksErased (looksErased_of_blank hblank)] at hvalid
      cases hvalid
    · exact recordAt_outside_slot hcells heq
  · exact recordAt_congr_sector (fun j hj hj' => hcells j (outside_slot hslot hj hj')) hi

/-- After a record was written the log is tight. -/
theorem On.tight_of_stored {hist : List Record} (h : On m hist ram.advanced)
    (hslot : ram.nextSlot < slotsPerSector)
    (hvalid : (recordAt m ram.activeSector ram.nextSlot).isValid = true) :
    Tight m ram.advanced := by
  have hne : records m ram.activeSector ≠ [] :=
    List.ne_nil_of_mem (mem_records.2 ⟨_, hslot, rfl, hvalid⟩)
  refine ⟨?_, .inr hne⟩
  by_contra hfill
  have hlt : fill m ram.activeSector < ram.nextSlot + 1 := lt_of_le_of_ne h.fill_le hfill
  have herased := looksErased_of_blank (h.used.blank ram.nextSlot (Nat.le_of_lt_succ hlt) hslot)
  exact absurd (hvalid.symm.trans (not_isValid_of_looksErased herased)) (by decide)

/-- The records a resting log holds are among those appended, or older. -/
theorem Off.number_le {hist : List Record} {n : ℕ} (h : Off m hist)
    (hn : ∀ r ∈ hist, r.number ≤ n) (x : Bank) : ∀ r ∈ records m x, r.number ≤ n := by
  intro r hr
  rcases h with hempty | ⟨y, hy⟩
  · rw [hempty x] at hr
    cases hr
  · have hkept : ∀ r' ∈ records m y, r'.number ≤ n := fun r' hr' =>
      hn r' (hy.kept.subset (List.mem_reverse.2 hr'))
    rcases Bank.eq_or_other x y with rfl | rfl
    · exact hkept r hr
    · obtain ⟨r', hr'⟩ := List.exists_mem_of_ne_nil _ hy.nonempty
      exact (hy.older r hr r' hr').le.trans (hkept r' hr')

end Kept

/-! ## Appending -/

/-- The slot the next record goes to. -/
def place (ram : Ram) : Bank × ℕ :=
  if ram.nextSlot ≥ slotsPerSector then (ram.activeSector.other, 0)
  else (ram.activeSector, ram.nextSlot)

/-- The sector an append finds its slot in: the active one, or the other one after an erase. -/
structure Ready (c : Chip) (ram : Ram) (c' : Chip) (ram' : Ram) : Prop where
  slot : ram'.nextSlot < slotsPerSector
  place : place ram = (ram'.activeSector, ram'.nextSlot)
  sequence : ram'.nextSequence = ram.nextSequence
  fates : c.fates.After c'.fates
  log : ∃ commands, c'.log = commands ++ c.log ∧ ∀ command ∈ commands,
    command = .erase (sectorBase ram.activeSector.other) sectorSize c.cells
  same : c'.cells = c.cells ∧ ram' = ram ∨ ram.nextSlot = slotsPerSector ∧ ram' = ram.rolled ∧
    c'.cells = blank (sectorBase ram.activeSector.other) sectorSize c.cells

/-- The ways an append ends. -/
inductive Appends (record : Record) (c : Chip) (hist : List Record) (ram : Ram) :
    Option (Status × Option Entry × Ram) × Chip → Prop
  /-- Power is lost while the other sector is erased. -/
  | cutErase {c' : Chip} : ram.nextSlot = slotsPerSector →
      c'.log = .erase (sectorBase ram.activeSector.other) sectorSize c.cells :: c.log →
      (∀ i, sectorBase ram.activeSector ≤ i → i < sectorBase ram.activeSector + sectorSize →
        c'.cells i = c.cells i) → Appends record c hist ram (none, c')
  | writes {c₁ : Chip} {ram₁ : Ram} {out : Option (Status × Option Entry × Ram) × Chip} :
      Ready c ram c₁ ram₁ → On c₁.cells hist ram₁ →
      Writes (slotAddress ram₁.activeSector ram₁.nextSlot) (layout.encode record) c₁ out
        ram₁.advanced → Appends record c hist ram out

/-- **An append.** -/
theorem append_appends (resourceIndex : UInt8) (result : Result) (timestamp : UInt32)
    {hist : List Record} {ram : Ram} {c : Chip} (h : On c.cells hist ram)
    (hreads : c.fates.ReadsSucceed) (herases : ∀ t left, .fails t left ∉ c.fates.erases) :
    Appends (newRecord resourceIndex result timestamp ram.nextSequence) c hist ram
      (append resourceIndex result timestamp ram c) := by
  rw [append]
  by_cases hslot : ram.nextSlot ≥ slotsPerSector
  · have hfull := h.nextSlot_le.antisymm hslot
    rw [if_pos hslot]
    obtain ⟨c₁, hlog, hafter, hroll | ⟨hcells, hroll⟩, hkeep⟩ :=
      rollToSector_cases ram.activeSector.other ram herases
    · rw [bind_of_none hroll]
      rw [Bank.other_other] at hkeep
      exact .cutErase hfull hlog hkeep
    · have hon := h.roll hcells
      have hzero : (0 : ℕ) < slotsPerSector := by decide
      have hready : Ready c ram c₁ ram.rolled :=
        ⟨hzero, if_pos hslot, rfl, hafter,
          ⟨[_], hlog, fun _ hmem => List.mem_singleton.1 hmem⟩, .inr ⟨hfull, rfl, hcells⟩⟩
      rw [bind_of_some hroll]
      exact .writes hready hon (@appendRecord_writes _ _ _ ram.rolled _ hzero
        (hon.used.blank 0 hon.fill_le hzero) (hreads.after hafter))
  · have hfree : ram.nextSlot < slotsPerSector := Nat.lt_of_not_ge hslot
    rw [if_neg hslot]
    exact .writes ⟨hfree, if_neg hslot, rfl, .refl _,
      ⟨[], rfl, fun _ hmem => (List.not_mem_nil hmem).elim⟩, .inl ⟨rfl, rfl⟩⟩ h
      (appendRecord_writes hfree (h.used.blank _ h.fill_le hfree) hreads)

end HealthCheck.HealthCheckLog
