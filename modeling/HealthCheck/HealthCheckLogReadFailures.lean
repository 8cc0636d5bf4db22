import HealthCheck.HealthCheckLogState
import HealthCheck.StoreReadFailures

/-!
# Log records that are not read at start-up

`HealthCheckLog_Init` passes over a slot it cannot read as it does over a torn record. It may then
see no record at all, or no free slot, and erase a sector with records in it.

* `scanSector_pattern` — a scan, by the outcomes of its reads.
* `recalls_iff` — what a reboot with working reads still finds.
* `recalls_boot_iff` — what it finds behind a start-up that fails to read.
-/

namespace HealthCheck.HealthCheckLog

open Nor hiding read driven_read read_ok read_cases observes_read uncut_read read_pattern
open Crc32 Memory TwoBank W25q64

/-! ## Scans -/

/-- A record whose checksum is wrong. -/
def Record.spoiled (r : Record) : Record := { r with crc := crcOf r + 1 }

theorem Record.spoiled_crc (r : Record) : r.spoiled.crc ≠ crcOf r.spoiled := fun h => by
  have hsame : (crcOf r + 1).toNat = (crcOf r).toNat := congrArg UInt32.toNat h
  have hlt := (crcOf r).toNat_lt
  rw [UInt32.toNat_add, UInt32.toNat_one] at hsame
  omega

/-- What a start-up makes of a slot that it cannot read: one that is used, by no record. -/
def torn : Record := Record.spoiled ⟨0, 0, 0, 0, 0, 0, 0, 0⟩

theorem torn_crc : torn.crc ≠ crcOf torn := Record.spoiled_crc _

/-- Records as they are read. -/
def asRead (p : Pattern) : List Record → List Record
  | [] => []
  | r :: rs => (if p.fails 0 then torn else r) :: asRead (p.after 1) rs

/-- The slots that a scan goes through before it sees an erased one. -/
def scanned (rs : List Record) : List Record := rs.takeWhile (!·.looksErased)

/-- What a scan sees of a sector. -/
def seen (m : Cells) (p : Pattern) (x : Bank) : List Record := scanned (asRead p (slots m x))

/-- What it reports. -/
def scanSeen (m : Cells) (p : Pattern) (x : Bank) : Scan :=
  let valid := (seen m p x).filter Record.isValid
  ⟨valid.length, (seen m p x).length, lastSequence valid⟩

/-- The reads that it takes. -/
def readCount (p : Pattern) (rs : List Record) : ℕ :=
  min ((scanned (asRead p rs)).length + 1) rs.length

theorem scanned_cons {r : Record} (h : r.looksErased = false) (rs : List Record) :
    scanned (r :: rs) = r :: scanned rs :=
  List.takeWhile_cons_of_pos (by rw [h]; rfl)

theorem scanned_cons_erased {r : Record} (h : r.looksErased = true) (rs : List Record) :
    scanned (r :: rs) = [] :=
  List.takeWhile_cons_of_neg (by rw [h]; decide)

theorem readCount_cons {p : Pattern} {r : Record} {rs : List Record}
    (h : (if p.fails 0 then torn else r).looksErased = false) :
    readCount p (r :: rs) = 1 + readCount (p.after 1) rs := by
  rw [readCount, readCount, asRead, scanned_cons h, List.length_cons, List.length_cons,
    Nat.add_min_add_right, Nat.add_comm]

theorem readCount_cons_erased {p : Pattern} {r : Record} {rs : List Record}
    (h : (if p.fails 0 then torn else r).looksErased = true) : readCount p (r :: rs) = 1 := by
  rw [readCount, asRead, scanned_cons_erased h, List.length_nil, List.length_cons]
  omega

theorem scanSlots_pattern (m : Cells) (p : Pattern) (x : Bank) (first n : ℕ) (scan : Scan)
    (log : List Command) (h : first + n ≤ slotsPerSector) :
    scanSlots x (List.range' first n) scan ⟨m, p.fates, log⟩ =
      (some (scanRecords first (asRead p ((List.range' first n).map (recordAt m x))) scan),
        ⟨m, (p.after (readCount p ((List.range' first n).map (recordAt m x)))).fates, log⟩) := by
  induction n generalizing p first scan with
  | zero => rw [readCount, List.range'_zero, List.map_nil, List.length_nil, Nat.min_zero]; rfl
  | succ n ih =>
    have hread := read_pattern (inRange_slot (x := x) (by omega : first < slotsPerSector)) m p log
    have hrest (scan : Scan) := ih (p.after 1) (first + 1) scan (by omega)
    simp only [Pattern.after_after] at hrest
    simp only [List.range'_succ, List.map_cons, scanSlots]
    rw [bind_of_some hread]
    cases hfails : p.fails 0 with
    | true =>
      have hne : (p.answer 0 (m.slice (slotAddress x first) recordSize)).1 ≠ .ok := fun hok => by
        rw [Pattern.answer_ok_iff, hfails] at hok
        cases hok
      have hused : (if p.fails 0 then torn else recordAt m x first).looksErased = false := by
        rw [hfails, if_pos rfl]
        decide
      rw [readCount_cons hused, asRead, scanRecords, hfails, if_pos rfl,
        if_neg (of_decide_eq_false (by decide : torn.looksErased = false)), if_pos torn_crc,
        if_pos hne]
      exact hrest _
    | false =>
      rw [Pattern.answer_of_succeeds hfails]
      dsimp only
      rw [if_neg (not_not_intro rfl)]
      change (if (recordAt m x first).sequence = erasedSequence then _
        else if (recordAt m x first).crc ≠ crcOf (recordAt m x first) then _
        else _ : FlashM _) _ = _
      have hsame : (if p.fails 0 then torn else recordAt m x first) = recordAt m x first :=
        if_neg (by rw [hfails]; decide)
      rw [asRead, hsame, scanRecords]
      by_cases herased : (recordAt m x first).sequence = erasedSequence
      · rw [if_pos herased, if_pos herased, readCount_cons_erased]
        · rfl
        · rw [hsame]
          exact decide_eq_true herased
      · rw [if_neg herased, if_neg herased, readCount_cons]
        · split_ifs with hcrc
          · exact hrest _
          · exact hrest _
        · rw [hsame]
          exact decide_eq_false herased

/-- **A scan**, by the outcomes of its reads. -/
theorem scanSector_pattern (m : Cells) (p : Pattern) (x : Bank) (log : List Command) :
    scanSector x ⟨m, p.fates, log⟩ =
      (some (scanSeen m p x), ⟨m, (p.after (readCount p (slots m x))).fates, log⟩) := by
  have h := scanSlots_pattern m p x 0 slotsPerSector ⟨0, slotsPerSector, 0⟩ log (by omega)
  have hne : asRead p ((List.range slotsPerSector).map (recordAt m x)) ≠ [] := by
    rw [slotsPerSector_eq, List.range_succ_eq_map, List.map_cons, asRead]
    exact List.cons_ne_nil _ _
  rw [← List.range_eq_range', scanRecords_eq] at h
  simp only [if_neg hne, Nat.zero_add] at h
  exact h

/-! ## Which sector is erased -/

/-- The sector that `HealthCheckLog_Init` erases. -/
def rolled (first second : Scan) : Option Bank :=
  if first.count = 0 ∧ second.count = 0 then some .a
  else if first.lastSequence ≥ second.lastSequence then
    if first.nextAvailableSlot < slotsPerSector then none else some .b
  else if second.nextAvailableSlot < slotsPerSector then none else some .a

/-- The cells behind that. -/
def wiped (erased : Option Bank) (m : Cells) : Cells :=
  match erased with
  | some x => blank (sectorBase x) sectorSize m
  | none => m

/-- The variables. -/
def resumed (first second : Scan) : Ram :=
  if first.count = 0 ∧ second.count = 0 then ⟨.a, 0, 1⟩
  else if first.lastSequence ≥ second.lastSequence then
    if first.nextAvailableSlot < slotsPerSector then
      ⟨.a, first.nextAvailableSlot, first.lastSequence + 1⟩
    else ⟨.b, 0, first.lastSequence + 1⟩
  else if second.nextAvailableSlot < slotsPerSector then
    ⟨.b, second.nextAvailableSlot, second.lastSequence + 1⟩
  else ⟨.a, 0, second.lastSequence + 1⟩

theorem initRoll_pattern (x : Bank) (ram : Ram) (m : Cells) (p : Pattern) (log : List Command) :
    ∃ log', initRoll x ram ⟨m, p.fates, log⟩ =
      (some (.ok, { ram with activeSector := x, nextSlot := 0 }),
        ⟨wiped (some x) m, p.fates, log'⟩) := by
  have herase := eraseSector_calm m log (p.map Pattern.fate) (sectorBase_aligned x)
    (sectorBase_below x)
  refine ⟨.erase (sectorBase x) sectorSize m :: log, ?_⟩
  rw [initRoll, rollToSector, bind_assoc, Pattern.fates, bind_of_some herase]
  rfl

theorem resume_pattern (first second : Scan) (m : Cells) (p : Pattern) (log : List Command) :
    ∃ log', resume first second ⟨m, p.fates, log⟩ = (some (.ok, resumed first second),
      ⟨wiped (rolled first second) m, p.fates, log'⟩) := by
  unfold resume rolled resumed
  dsimp only
  split_ifs
  · exact initRoll_pattern _ _ m p log
  · exact ⟨log, rfl⟩
  · exact initRoll_pattern _ _ m p log
  · exact ⟨log, rfl⟩
  · exact initRoll_pattern _ _ m p log

/-- What the two scans of a start-up report. -/
def scans (m : Cells) (p : Pattern) : Scan × Scan :=
  (scanSeen m p .a, scanSeen m (p.after (readCount p (slots m .a))) .b)

/-- **A start-up**, by the outcomes of its reads. -/
theorem init_pattern (m : Cells) (p : Pattern) : ∃ c,
    init ⟨m, p.fates, []⟩ = (some (.ok, resumed (scans m p).1 (scans m p).2), c) ∧
      c.cells = wiped (rolled (scans m p).1 (scans m p).2) m := by
  obtain ⟨log, hresume⟩ := resume_pattern (scans m p).1 (scans m p).2 m
    ((p.after (readCount p (slots m .a))).after
      (readCount (p.after (readCount p (slots m .a))) (slots m .b))) []
  rw [init, bind_of_some (scanSector_pattern m p .a []),
    bind_of_some (scanSector_pattern m _ .b [])]
  exact ⟨_, hresume, rfl⟩

/-- Without failures the scans see what is there. -/
theorem scans_nil (m : Cells) : scans m [] = (scanOf m .a, scanOf m .b) := by
  have hread (rs : List Record) : asRead [] rs = rs := by
    induction rs with
    | nil => rfl
    | cons r rs ih => exact congrArg (r :: ·) ih
  have hscan (x : Bank) : scanSeen m [] x = scanOf m x := by
    rw [scanSeen, seen, hread, scanOf]
    rfl
  have hafter : Pattern.after [] (readCount [] (slots m .a)) = [] := List.drop_nil
  rw [scans, hafter, hscan, hscan]

/-! ## What is found -/

/-- The records that a start-up finds in a sector when no read fails. -/
def found (m : Cells) (x : Bank) : List Record := (usedSlots m x).filter Record.isValid

theorem found_wiped (m : Cells) (x : Bank) : found (wiped (some x) m) x = [] :=
  (used_blank (m := m) rfl).dense.trans (used_blank (m := m) rfl).records_zero

theorem found_wiped_other (m : Cells) (x : Bank) :
    found (wiped (some x.other) m) x = found m x := by
  have hwiped : wiped (some x.other) m = blank (sectorBase x.other) sectorSize m := rfl
  have hslots := slots_congr (blank_outside hwiped)
  rw [found, usedSlots, hslots, found, usedSlots]

/-- A valid record is known by its entry. -/
theorem Record.entry_injective {r r' : Record} (hr : r.isValid = true) (hr' : r'.isValid = true)
    (h : r.entry = r'.entry) : r = r' := by
  simp only [Record.isValid, Bool.and_eq_true, decide_eq_true_eq] at hr hr'
  have hbody : r.body = r'.body := by
    simp only [Record.entry, Entry.mk.injEq] at h
    simp only [Record.body, h]
  have hcrc : r.crc = r'.crc := by
    rw [hr.2, hr'.2, crcOf, crcOf, hbody]
  simp only [Record.entry, Entry.mk.injEq] at h
  cases r
  cases r'
  simp only [Record.mk.injEq]
  exact ⟨h.1, h.2.1, h.2.2.1, h.2.2.2.1, h.2.2.2.2.1, h.2.2.2.2.2.1, h.2.2.2.2.2.2, hcrc⟩

theorem mem_entries {r : Record} {rs : List Record} (hr : r.isValid = true)
    (hrs : ∀ r' ∈ rs, r'.isValid = true) : r.entry ∈ rs.map Record.entry ↔ r ∈ rs := by
  refine ⟨fun h => ?_, List.mem_map_of_mem⟩
  obtain ⟨r', hr', heq⟩ := List.mem_map.1 h
  exact Record.entry_injective (hrs r' hr') hr heq ▸ hr'

theorem isValid_of_mem_found {m : Cells} {x : Bank} {r : Record} (h : r ∈ found m x) :
    r.isValid = true := (List.mem_filter.1 h).2

/-- The active sector of a start-up has its records below the next slot. -/
theorem resumed_slots (m : Cells) :
    (resumed (scanOf m .a) (scanOf m .b)).nextSlot ≤ slotsPerSector ∧
    ((List.range (resumed (scanOf m .a) (scanOf m .b)).nextSlot).map
      (recordAt (wiped (rolled (scanOf m .a) (scanOf m .b)) m)
        (resumed (scanOf m .a) (scanOf m .b)).activeSector)).filter Record.isValid =
      found (wiped (rolled (scanOf m .a) (scanOf m .b)) m)
        (resumed (scanOf m .a) (scanOf m .b)).activeSector := by
  have hrolled (x : Bank) : ((List.range 0).map (recordAt (wiped (some x) m) x)).filter
      Record.isValid = found (wiped (some x) m) x := (found_wiped m x).symm
  have hkept (x : Bank) : ((List.range (scanOf m x).nextAvailableSlot).map (recordAt m x)).filter
      Record.isValid = found m x := congrArg (List.filter Record.isValid) (usedSlots_eq m x)
  unfold resumed rolled
  split_ifs with hnone hfirst hfree hfree
  · exact ⟨Nat.zero_le _, hrolled .a⟩
  · exact ⟨hfree.le, hkept .a⟩
  · exact ⟨Nat.zero_le _, hrolled .b⟩
  · exact ⟨hfree.le, hkept .b⟩
  · exact ⟨Nat.zero_le _, hrolled .a⟩

/-- A reboot with working reads hands out the record. -/
def Recalls (m : Cells) (r : Record) : Prop :=
  ∃ ram c, init ⟨m, {}, []⟩ = (some (.ok, ram), c) ∧ ∃ entries c',
    getRecent (2 * slotsPerSector) ram ⟨c.cells, {}, []⟩ = (some entries, c') ∧ r.entry ∈ entries

theorem length_found_le (m : Cells) (x : Bank) : (found m x).length ≤ slotsPerSector :=
  (List.length_filter_le _ _).trans (fill_le_slots m x)

/-- The entries that a reboot with working reads hands out. -/
theorem recent_found (m : Cells) : ∃ ram c x,
    init ⟨m, {}, []⟩ = (some (.ok, ram), c) ∧
    c.cells = wiped (rolled (scanOf m .a) (scanOf m .b)) m ∧
    getRecent (2 * slotsPerSector) ram ⟨c.cells, {}, []⟩ =
      (some ((found c.cells (Bank.other x) ++ found c.cells x).reverse.map Record.entry),
        ⟨c.cells, {}, []⟩) := by
  obtain ⟨c, hinit, hcells⟩ := init_pattern m []
  rw [scans_nil] at hinit hcells
  obtain ⟨hle, hslots⟩ := resumed_slots m
  rw [← hcells] at hslots
  have hrecent := observes_getRecent c.cells hle (2 * slotsPerSector)
  rw [hslots, List.take_of_length_le] at hrecent
  · exact ⟨_, c, _, hinit, hcells, hrecent.calm (driven_getRecent Set.univ _ _) []⟩
  · have hother := length_found_le c.cells (resumed (scanOf m .a) (scanOf m .b)).activeSector.other
    have hactive := length_found_le c.cells (resumed (scanOf m .a) (scanOf m .b)).activeSector
    rw [List.length_reverse, List.length_append]
    change (found _ _).length + _ ≤ _
    omega

/-- **What a reboot still finds**: the records of the sectors that it does not erase. -/
theorem recalls_iff {m : Cells} {r : Record} (hr : r.isValid = true) : Recalls m r ↔
    ∃ x, r ∈ found (wiped (rolled (scanOf m .a) (scanOf m .b)) m) x := by
  obtain ⟨ram, c, x, hinit, hcells, hrecent⟩ := recent_found m
  have hmem : r.entry ∈ (found c.cells x.other ++ found c.cells x).reverse.map Record.entry ↔
      ∃ x, r ∈ found c.cells x := by
    rw [mem_entries hr, List.mem_reverse, List.mem_append]
    · refine ⟨fun h => h.elim (fun h => ⟨_, h⟩) fun h => ⟨_, h⟩, fun ⟨y, hy⟩ => ?_⟩
      rcases y.eq_or_other x with rfl | rfl
      · exact .inr hy
      · exact .inl hy
    · intro r' hr'
      rcases List.mem_append.1 (List.mem_reverse.1 hr') with h | h <;> exact isValid_of_mem_found h
  rw [← hcells, ← hmem]
  constructor
  · rintro ⟨ram', c', hinit', entries, c'', hrecent', hentry⟩
    rw [hinit] at hinit'
    cases hinit'
    rw [hrecent] at hrecent'
    cases hrecent'
    exact hentry
  · intro hentry
    exact ⟨ram, c, hinit, _, _, hrecent, hentry⟩

/-! ## What a failing start-up loses -/

/-- The sector that a start-up erases, or else a reboot with working reads. -/
def erasedSector (m : Cells) (p : Pattern) : Option Bank :=
  (rolled (scans m p).1 (scans m p).2).or (rolled (scanOf m .a) (scanOf m .b))

theorem mem_found_wiped {m : Cells} {erased : Option Bank} {x : Bank} {r : Record} :
    r ∈ found (wiped erased m) x ↔ r ∈ found m x ∧ erased ≠ some x := by
  cases erased with
  | none => exact (and_iff_left (Option.some_ne_none x).symm).symm
  | some y =>
    rcases x.eq_or_other y with rfl | rfl
    · rw [found_wiped]
      exact iff_of_false List.not_mem_nil fun h => h.2 rfl
    · have hother := found_wiped_other m y.other
      rw [Bank.other_other] at hother
      rw [hother]
      exact (and_iff_left fun h => y.other_ne (Option.some.inj h).symm).symm

theorem scanOf_wiped (m : Cells) (x : Bank) : scanOf (wiped (some x) m) x = ⟨0, 0, 0⟩ := by
  have hwiped : wiped (some x) m = blank (sectorBase x) sectorSize m := rfl
  have hused := used_blank hwiped
  have hfound := found_wiped m x
  rw [found] at hfound
  rw [scanOf, hfound, hused.length_usedSlots]
  rfl

/-- Next to an erased sector, one with records stays. -/
theorem rolled_ne_other {scan : Bank → Scan} {x : Bank} (hx : scan x = ⟨0, 0, 0⟩)
    (hother : (scan x.other).count ≠ 0) : rolled (scan .a) (scan .b) ≠ some x.other := by
  cases x with
  | a =>
    rw [rolled, if_neg (fun h => hother h.2), hx]
    split_ifs with hfirst hfree hfree
    · nofun
    · exact absurd (by decide) hfree
    · nofun
    · nofun
  | b =>
    have hlast : (scan .a).lastSequence ≥ 0 := UInt32.zero_le
    rw [rolled, if_neg (fun h => hother h.1), hx, if_pos hlast]
    split_ifs <;> nofun

/-- A reboot never erases records behind a start-up that has erased a sector. -/
theorem found_reboot (m : Cells) (x y : Bank) (r : Record) :
    r ∈ found (wiped (rolled (scanOf (wiped (some x) m) .a) (scanOf (wiped (some x) m) .b))
      (wiped (some x) m)) y ↔ r ∈ found (wiped (some x) m) y := by
  rw [mem_found_wiped]
  refine and_iff_left_of_imp fun hr => ?_
  rcases y.eq_or_other x with rfl | rfl
  · rw [found_wiped] at hr
    cases hr
  · have hcount : (scanOf (wiped (some x) m) x.other).count ≠ 0 :=
      Nat.ne_of_gt (List.length_pos_of_mem hr)
    exact rolled_ne_other (scanOf_wiped m x) hcount

/-- **What is left** of the records behind a start-up. -/
theorem recalls_boot_iff {m : Cells} {p : Pattern} {r : Record} (hr : r.isValid = true) :
    Recalls (bootCells init m p) r ↔ ∃ x, r ∈ found m x ∧ erasedSector m p ≠ some x := by
  obtain ⟨c, hinit, hcells⟩ := init_pattern m p
  rw [recalls_iff hr, bootCells, hinit, hcells, erasedSector]
  cases rolled (scans m p).1 (scans m p).2 with
  | none => exact exists_congr fun x => mem_found_wiped
  | some y => exact exists_congr fun x => (found_reboot m y x r).trans mem_found_wiped

end HealthCheck.HealthCheckLog
