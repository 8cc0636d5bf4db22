import HealthCheck.HealthCheckLog
import Mathlib.Algebra.Order.Ring.Nat
import Mathlib.Data.List.TakeWhile

/-!
# What the result log reads and writes

The two sectors as lists of records, and the operations of the log on these lists: what a scan
reports (`observes_scanSector`), what `HealthCheckLog_GetRecent` reads (`observes_recentFrom`), what
a write leaves in its slot (`recordAt_programmed`, `blank_of_looksErased`) and what an append
does (`appendRecord_writes`).
-/

namespace HealthCheck.HealthCheckLog

open Nor hiding read driven_read read_ok read_cases observes_read uncut_read
open Crc32 Memory TwoBank W25q64

/-! ## The sectors as lists -/

/-- The record in a slot, whatever bytes are there. -/
def recordAt (m : Cells) (x : Bank) (slot : ℕ) : Record :=
  layout.decode (m.slice (slotAddress x slot) recordSize)

/-- The slots of a sector. -/
def slots (m : Cells) (x : Bank) : List Record := (List.range slotsPerSector).map (recordAt m x)

/-- A record the log takes for one. -/
def Record.isValid (r : Record) : Bool := r.sequence ≠ erasedSequence && r.crc = crcOf r

/-- A slot the scan takes for an erased one. -/
def Record.looksErased (r : Record) : Bool := r.sequence = erasedSequence

/-- The records of a sector, oldest first. -/
def records (m : Cells) (x : Bank) : List Record := (slots m x).filter Record.isValid

/-- The slots before the first that looks erased. -/
def usedSlots (m : Cells) (x : Bank) : List Record := (slots m x).takeWhile (!·.looksErased)

/-- The sequence of the last of these records, or 0. -/
def lastSequence (records : List Record) : UInt32 :=
  (records.getLast?.map Record.sequence).getD 0

/-- What a scan reports of a sector. -/
def scanOf (m : Cells) (x : Bank) : Scan :=
  let valid := (usedSlots m x).filter Record.isValid
  ⟨valid.length, (usedSlots m x).length, lastSequence valid⟩

@[simp] theorem length_slots (m : Cells) (x : Bank) : (slots m x).length = slotsPerSector := by
  simp [slots]

theorem slotsPerSector_eq : slotsPerSector = 170 := by decide

/-- Where a slot lies. -/
theorem slotAddress_eq (x : Bank) (slot : ℕ) :
    slotAddress x slot = (if x = .a then 8355840 else 8359936) + slot * 24 := by
  cases x <;> rfl

theorem sectorBase_eq (x : Bank) : sectorBase x = if x = .a then 8355840 else 8359936 := by
  cases x <;> rfl

theorem inRange_slot {x : Bank} {slot : ℕ} (h : slot < slotsPerSector) :
    inRange (slotAddress x slot) recordSize = true := by
  rw [slotsPerSector_eq] at h
  refine inRange_of_le (by decide) ?_
  rw [slotAddress_eq, recordSize, capacityBytes]
  split <;> omega

/-! ## The scan -/

/-- A scan of a list of records, from slot `slot` on. -/
def scanRecords : ℕ → List Record → Scan → Scan
  | _, [], scan => scan
  | slot, r :: rs, scan =>
    if r.sequence = erasedSequence then { scan with nextAvailableSlot := slot }
    else if r.crc ≠ crcOf r then scanRecords (slot + 1) rs { scan with nextAvailableSlot := slot + 1 }
    else scanRecords (slot + 1) rs ⟨scan.count + 1, slot + 1, r.sequence⟩

theorem observes_scanSlots (m : Cells) (x : Bank) (first n : ℕ) (scan : Scan)
    (h : first + n ≤ slotsPerSector) :
    Observes (scanSlots x (List.range' first n) scan) m
      (scanRecords first ((List.range' first n).map (recordAt m x)) scan) := by
  induction n generalizing first scan with
  | zero => exact .pure _ _
  | succ n ih =>
    have hread := observes_read (inRange_slot (x := x) (by omega : first < slotsPerSector)) m
    simp only [List.range'_succ, List.map_cons, scanSlots, scanRecords]
    refine hread.bind ?_
    simp only [ne_eq, not_true_eq_false, if_false]
    show Observes (if (recordAt m x first).sequence = erasedSequence then _
      else if ¬ (recordAt m x first).crc = crcOf (recordAt m x first) then _ else _) m _
    split
    · exact .pure _ _
    · split
      · exact ih (first + 1) _ (by omega)
      · exact ih (first + 1) _ (by omega)

theorem scanRecords_eq (slot : ℕ) (rs : List Record) (scan : Scan) :
    scanRecords slot rs scan =
      let used := rs.takeWhile (!·.looksErased)
      let valid := used.filter Record.isValid
      ⟨scan.count + valid.length, if rs = [] then scan.nextAvailableSlot else slot + used.length,
        (valid.getLast?.map Record.sequence).getD scan.lastSequence⟩ := by
  induction rs generalizing slot scan with
  | nil => rfl
  | cons r rs ih =>
    rw [scanRecords]
    by_cases herased : r.sequence = erasedSequence
    · have hhead : r.looksErased = true := decide_eq_true herased
      simp [herased, hhead]
    · have hhead : (!r.looksErased) = true := by simp [Record.looksErased, herased]
      have hempty : (if rs = [] then slot + 1 else slot + 1 +
          (rs.takeWhile (!·.looksErased)).length) =
          slot + ((rs.takeWhile (!·.looksErased)).length + 1) := by
        by_cases hrs : rs = []
        · simp [hrs]
        · rw [if_neg hrs]
          omega
      have hused : (r :: rs).takeWhile (!·.looksErased) = r :: rs.takeWhile (!·.looksErased) :=
        List.takeWhile_cons_of_pos hhead
      rw [if_neg herased, hused]
      by_cases hcrc : r.crc = crcOf r
      · have hvalid : r.isValid = true := by simp [Record.isValid, herased, hcrc]
        rw [if_neg (not_not_intro hcrc), ih]
        simp only [List.filter_cons_of_pos hvalid, List.length_cons, reduceCtorEq, if_false,
          hempty, List.getLast?_cons, Scan.mk.injEq, true_and]
        refine ⟨by omega, ?_⟩
        cases ((rs.takeWhile (!·.looksErased)).filter Record.isValid).getLast? <;> rfl
      · have hvalid : ¬ r.isValid = true := by simp [Record.isValid, hcrc]
        rw [if_pos hcrc, ih]
        simp only [List.filter_cons_of_neg hvalid, List.length_cons, reduceCtorEq, if_false,
          hempty]

/-- **A scan** counts the records before the first slot that looks erased. -/
theorem observes_scanSector (m : Cells) (x : Bank) : Observes (scanSector x) m (scanOf m x) := by
  have h := observes_scanSlots m x 0 slotsPerSector ⟨0, slotsPerSector, 0⟩ (by omega)
  rw [← List.range_eq_range', scanRecords_eq] at h
  have hne : (List.range slotsPerSector).map (recordAt m x) ≠ [] := by
    simp [slotsPerSector_eq]
  simp only [if_neg hne, Nat.zero_add] at h
  exact h

theorem driven_scanSlots (R : Set ℕ) (x : Bank) (list : List ℕ) (scan : Scan) :
    Driven R (scanSlots x list scan) := by
  induction list generalizing scan with
  | nil => exact .pure _
  | cons slot list ih =>
    refine (driven_read _ _ _).bind fun ⟨status, bytes⟩ => ?_
    dsimp only
    split
    · exact ih _
    · split
      · exact .pure _
      · split <;> exact ih _

theorem driven_scanSector (R : Set ℕ) (x : Bank) : Driven R (scanSector x) :=
  driven_scanSlots R x _ _

/-! ## The newest records -/

theorem observes_recentFrom (m : Cells) (x : Bank) (n room : ℕ) (h : n ≤ slotsPerSector) :
    Observes (recentFrom x n room) m
      (((((List.range n).map (recordAt m x)).filter Record.isValid).reverse.take room).map
        Record.entry) := by
  induction n generalizing room with
  | zero =>
    rw [List.range_zero, List.map_nil, List.filter_nil, List.reverse_nil, List.take_nil]
    exact .pure _ _
  | succ n ih =>
    cases room with
    | zero => exact .pure _ _
    | succ room =>
      have hread := observes_read (inRange_slot (x := x) (by omega : n < slotsPerSector)) m
      simp only [recentFrom, List.range_succ, List.map_append, List.map_cons, List.map_nil,
        List.filter_append, List.reverse_append]
      refine hread.bind ?_
      simp only [ne_eq, not_true_eq_false, if_false]
      show Observes (if (recordAt m x n).sequence = erasedSequence ∨
        ¬ (recordAt m x n).crc = crcOf (recordAt m x n) then _ else _) m _
      split
      · rename_i hinvalid
        have hfilter : [recordAt m x n].filter Record.isValid = [] := by
          refine List.filter_eq_nil_iff.2 fun r hr => ?_
          rw [List.mem_singleton.1 hr, Record.isValid]
          rcases hinvalid with hi | hi <;> simp [hi]
        rw [hfilter, List.reverse_nil, List.nil_append]
        exact ih (room + 1) (by omega)
      · rename_i hvalid
        have hfilter : [recordAt m x n].filter Record.isValid = [recordAt m x n] := by
          refine List.filter_eq_self.2 fun r hr => ?_
          rw [List.mem_singleton.1 hr, Record.isValid]
          simpa [not_or] using hvalid
        rw [hfilter, List.reverse_singleton, List.singleton_append, List.take_succ_cons,
          List.map_cons]
        exact (ih room (by omega)).bind (.pure _ _)

theorem driven_recentFrom (R : Set ℕ) (x : Bank) (n room : ℕ) : Driven R (recentFrom x n room) := by
  induction n generalizing room with
  | zero => exact .pure _
  | succ n ih =>
    cases room with
    | zero => exact .pure _
    | succ room =>
      refine (driven_read _ _ _).bind fun ⟨status, bytes⟩ => ?_
      dsimp only
      split
      · exact .pure _
      · split
        · exact ih _
        · exact (ih _).bind fun _ => .pure _

theorem driven_getRecent (R : Set ℕ) (capacity : ℕ) (ram : Ram) :
    Driven R (getRecent capacity ram) :=
  (driven_scanSector R _).bind fun _ => (driven_recentFrom R ..).bind fun _ =>
    (driven_recentFrom R ..).bind fun _ => .pure _

/-! ## Sectors that are used from the front -/

/-- A fully erased slot. -/
def Blank (m : Cells) (x : Bank) (slot : ℕ) : Prop :=
  ∀ i, slotAddress x slot ≤ i → i < slotAddress x slot + recordSize → m i = 0xFF

/-- The first `n` slots of a sector are used and the others are erased. -/
structure Used (m : Cells) (x : Bank) (n : ℕ) : Prop where
  le : n ≤ slotsPerSector
  used : ∀ i < n, (recordAt m x i).looksErased = false
  blank : ∀ i, n ≤ i → i < slotsPerSector → Blank m x i

/-- Every record of the sector is before the first slot that looks erased. -/
def Dense (m : Cells) (x : Bank) : Prop := (usedSlots m x).filter Record.isValid = records m x

theorem slice_eq_replicate {m : Cells} {a n : ℕ} (h : ∀ i, a ≤ i → i < a + n → m i = 0xFF) :
    m.slice a n = List.replicate n 0xFF := by
  rw [← slice_const 0xFF a n]
  exact slice_congr h

theorem looksErased_of_blank {m : Cells} {x : Bank} {slot : ℕ} (h : Blank m x slot) :
    (recordAt m x slot).looksErased = true := by
  rw [recordAt, slice_eq_replicate h]
  decide

theorem not_isValid_of_looksErased {r : Record} (h : r.looksErased = true) :
    r.isValid = false := by
  simp only [Record.looksErased, decide_eq_true_eq] at h
  simp [Record.isValid, h]

section Used

variable {m m' : Cells} {x : Bank} {n : ℕ}

theorem slots_split (m : Cells) (x : Bank) (h : n ≤ slotsPerSector) :
    slots m x = (List.range n).map (recordAt m x) ++
      (List.range' n (slotsPerSector - n)).map (recordAt m x) := by
  rw [slots, ← List.map_append, List.range_eq_range', List.range_eq_range']
  congr 1
  have := List.range'_append_1 (s := 0) (m := n) (n := slotsPerSector - n)
  rw [Nat.zero_add, Nat.add_sub_cancel' h] at this
  exact this.symm

theorem Used.rest (h : Used m x n) :
    ∀ r ∈ (List.range' n (slotsPerSector - n)).map (recordAt m x), r.looksErased = true := by
  intro r hr
  obtain ⟨i, hi, rfl⟩ := List.mem_map.1 hr
  obtain ⟨hle, hlt⟩ := List.mem_range'_1.1 hi
  exact looksErased_of_blank (h.blank i hle (by omega))

theorem Used.usedSlots_eq (h : Used m x n) :
    usedSlots m x = (List.range n).map (recordAt m x) := by
  rw [usedSlots, slots_split m x h.le, List.takeWhile_append_of_pos]
  · rw [List.append_right_eq_self]
    cases hrest : (List.range' n (slotsPerSector - n)).map (recordAt m x) with
    | nil => rfl
    | cons r rs =>
      have hr := h.rest r (hrest ▸ List.mem_cons_self)
      rw [List.takeWhile_cons_of_neg (by simp [hr])]
  · intro r hr
    obtain ⟨i, hi, rfl⟩ := List.mem_map.1 hr
    rw [h.used i (List.mem_range.1 hi)]
    rfl

theorem Used.records_eq (h : Used m x n) :
    records m x = ((List.range n).map (recordAt m x)).filter Record.isValid := by
  rw [records, slots_split m x h.le, List.filter_append, List.append_right_eq_self,
    List.filter_eq_nil_iff]
  intro r hr
  rw [not_isValid_of_looksErased (h.rest r hr)]
  decide

theorem Used.dense (h : Used m x n) : Dense m x := by
  rw [Dense, h.usedSlots_eq, h.records_eq]

theorem Used.length_usedSlots (h : Used m x n) : (usedSlots m x).length = n := by
  rw [h.usedSlots_eq, List.length_map, List.length_range]

theorem dense_of_empty (h : records m x = []) : Dense m x := by
  rw [Dense, h]
  refine List.filter_eq_nil_iff.2 fun r hr => ?_
  exact List.filter_eq_nil_iff.1 h r ((List.takeWhile_prefix _).subset hr)

theorem recordAt_congr {slot : ℕ} (h : ∀ i, slotAddress x slot ≤ i →
    i < slotAddress x slot + recordSize → m' i = m i) : recordAt m' x slot = recordAt m x slot := by
  rw [recordAt, recordAt, slice_congr h]

/-- Cells that agree on a sector hold the same slots there. -/
theorem recordAt_congr_sector (h : ∀ i, sectorBase x ≤ i → i < sectorBase x + sectorSize →
    m' i = m i) {slot : ℕ} (hslot : slot < slotsPerSector) :
    recordAt m' x slot = recordAt m x slot := by
  rw [slotsPerSector_eq] at hslot
  refine recordAt_congr fun i hi hi' => h i ?_ ?_
  · rw [slotAddress] at hi
    omega
  · rw [slotAddress, recordSize] at hi'
    rw [sectorSize]
    omega

theorem slots_congr (h : ∀ i, sectorBase x ≤ i → i < sectorBase x + sectorSize → m' i = m i) :
    slots m' x = slots m x :=
  List.map_congr_left fun _ hslot => recordAt_congr_sector h (List.mem_range.1 hslot)

theorem blank_congr_sector (h : ∀ i, sectorBase x ≤ i → i < sectorBase x + sectorSize →
    m' i = m i) {slot : ℕ} (hslot : slot < slotsPerSector) (hb : Blank m x slot) :
    Blank m' x slot := by
  rw [slotsPerSector_eq] at hslot
  intro i hi hi'
  rw [h i ?_ ?_, hb i hi hi']
  · rw [slotAddress] at hi
    omega
  · rw [slotAddress, recordSize] at hi'
    rw [sectorSize]
    omega

theorem Used.congr (h : Used m x n) (hcells : ∀ i, sectorBase x ≤ i →
    i < sectorBase x + sectorSize → m' i = m i) : Used m' x n where
  le := h.le
  used i hi := by
    rw [recordAt_congr_sector hcells (hi.trans_le h.le)]
    exact h.used i hi
  blank i hi hi' := blank_congr_sector hcells hi' (h.blank i hi hi')

theorem records_congr (h : ∀ i, sectorBase x ≤ i → i < sectorBase x + sectorSize → m' i = m i) :
    records m' x = records m x := by
  rw [records, records, slots_congr h]

theorem dense_congr (h : ∀ i, sectorBase x ≤ i → i < sectorBase x + sectorSize → m' i = m i) :
    Dense m' x ↔ Dense m x := by
  rw [Dense, Dense, usedSlots, usedSlots, records, records, slots_congr h]

/-- A write to the first unused slot keeps the others. -/
theorem recordAt_outside_slot (h : ∀ i, i < slotAddress x n ∨ slotAddress x n + recordSize ≤ i →
    m' i = m i) {slot : ℕ} (hne : slot ≠ n) : recordAt m' x slot = recordAt m x slot := by
  refine recordAt_congr fun i hi hi' => h i ?_
  simp only [slotAddress, recordSize] at *
  omega

/-- **One more slot is used**, by a record or by something that is none. -/
theorem Used.succ (h : Used m x n) (hn : n < slotsPerSector)
    (hcells : ∀ i, i < slotAddress x n ∨ slotAddress x n + recordSize ≤ i → m' i = m i)
    (hused : (recordAt m' x n).looksErased = false) : Used m' x (n + 1) ∧
      records m' x = records m x ++ [recordAt m' x n].filter Record.isValid := by
  have hsucc : Used m' x (n + 1) := by
    refine ⟨hn, fun i hi => ?_, fun i hi hi' j hj hj' => ?_⟩
    · rcases Nat.lt_succ_iff_lt_or_eq.1 hi with hlt | rfl
      · rw [recordAt_outside_slot hcells hlt.ne]
        exact h.used i hlt
      · exact hused
    · rw [hcells j (.inr ?_)]
      · exact h.blank i (by omega) hi' j hj hj'
      · simp only [slotAddress, recordSize] at *
        omega
  refine ⟨hsucc, ?_⟩
  rw [hsucc.records_eq, h.records_eq, List.range_succ, List.map_append, List.filter_append]
  congr 2
  refine List.map_congr_left fun i hi => ?_
  exact recordAt_outside_slot hcells (List.mem_range.1 hi).ne

/-- An unused slot that is written and still erased is unused. -/
theorem Used.keep {p : ℕ} (h : Used m x n) (hp : n ≤ p)
    (hcells : ∀ i, i < slotAddress x p ∨ slotAddress x p + recordSize ≤ i → m' i = m i)
    (hblank : Blank m' x p) : Used m' x n ∧ records m' x = records m x := by
  have hused : Used m' x n := by
    refine ⟨h.le, fun i hi => ?_, fun i hi hi' => ?_⟩
    · rw [recordAt_outside_slot hcells (hi.trans_le hp).ne]
      exact h.used i hi
    · by_cases heq : i = p
      · rw [heq]
        exact hblank
      · intro j hj hj'
        rw [hcells j ?_]
        · exact h.blank i hi hi' j hj hj'
        · simp only [slotAddress, recordSize] at *
          omega
  refine ⟨hused, ?_⟩
  rw [hused.records_eq, h.records_eq]
  congr 1
  refine List.map_congr_left fun i hi => ?_
  exact recordAt_outside_slot hcells ((List.mem_range.1 hi).trans_le hp).ne

theorem used_zero (hcells : ∀ i, sectorBase x ≤ i → i < sectorBase x + sectorSize → m i = 0xFF) :
    Used m x 0 := by
  refine ⟨Nat.zero_le _, fun i hi => absurd hi (Nat.not_lt_zero i), fun i _ hi j hj hj' => ?_⟩
  rw [slotsPerSector_eq] at hi
  refine hcells j ?_ ?_
  · rw [slotAddress] at hj
    omega
  · rw [slotAddress, recordSize] at hj'
    rw [sectorSize]
    omega

theorem Used.records_zero (h : Used m x 0) : records m x = [] := by
  rw [h.records_eq]
  rfl

end Used

/-! ## What a write leaves in its slot -/

theorem sequence_decode (bytes : List UInt8) :
    (layout.decode bytes).sequence = UInt32.ofNat (wordValue (bytes.take 4)) := by
  have h : (layout.decode bytes).sequence = UInt32.ofNat (wordValue ((bytes.take 20).take 4)) := rfl
  rw [h, List.take_take, Nat.min_eq_left (by decide)]

theorem length_encode (r : Record) : (layout.encode r).length = recordSize :=
  layout.length_encode r

theorem newRecord_valid (resourceIndex : UInt8) (result : Result) (timestamp : UInt32)
    {sequence : UInt32} (h : sequence ≠ erasedSequence) :
    (newRecord resourceIndex result timestamp sequence).isValid = true := by
  have hcrc : (newRecord resourceIndex result timestamp sequence).crc =
      crcOf (newRecord resourceIndex result timestamp sequence) := rfl
  have hsequence : (newRecord resourceIndex result timestamp sequence).sequence = sequence := rfl
  simp [Record.isValid, hcrc, hsequence, h]

section Slot

variable {m : Cells} {x : Bank} {n : ℕ} {r : Record}

/-- Only the slot changes. -/
theorem programmed_outside_slot {k : ℕ} {i : ℕ}
    (hi : i < slotAddress x n ∨ slotAddress x n + recordSize ≤ i) :
    programmed (slotAddress x n) ((layout.encode r).take k) m i = m i := by
  refine programmed_outside fun hmem => ?_
  rw [Set.mem_Ico, List.length_take, length_encode] at hmem
  omega

/-- The whole record is stored. -/
theorem recordAt_programmed (hblank : Blank m x n) :
    recordAt (programmed (slotAddress x n) (layout.encode r) m) x n = r := by
  have hslice := @slice_programmed (slotAddress x n) (layout.encode r) m
    fun i hi hi' => hblank i hi (by rwa [length_encode] at hi')
  rw [length_encode] at hslice
  rw [recordAt, hslice, layout.decode_encode]

/-- A first part of a record that leaves the slot looking erased leaves it erased. -/
theorem blank_of_looksErased {k : ℕ} (hblank : Blank m x n) (hr : r.sequence ≠ erasedSequence)
    (h : (recordAt (programmed (slotAddress x n) ((layout.encode r).take k) m) x n).looksErased =
      true) : Blank (programmed (slotAddress x n) ((layout.encode r).take k) m) x n := by
  have hsequence := of_decide_eq_true h
  rw [recordAt, sequence_decode, take_slice _ _ (by decide : 4 ≤ recordSize)] at hsequence
  by_cases hk : 4 ≤ k
  · have hslice : (programmed (slotAddress x n) ((layout.encode r).take k) m).slice
        (slotAddress x n) 4 = (layout.encode r).take 4 := by
      have hfour : ((layout.encode r).take 4).length = 4 := by
        rw [List.length_take, length_encode]
        rfl
      have hstored := @slice_programmed (slotAddress x n) ((layout.encode r).take 4) m
        fun i hi hi' => hblank i hi (by
          rw [hfour] at hi'
          rw [recordSize]
          omega)
      rw [hfour] at hstored
      rw [← hstored]
      refine slice_congr fun i hi hi' => ?_
      simp only [programmed, List.length_take, length_encode, recordSize]
      rw [if_pos (by omega), if_pos (by omega), List.getD_eq_getElem?_getD,
        List.getD_eq_getElem?_getD, List.getElem?_take_of_lt (by omega),
        List.getElem?_take_of_lt (by omega)]
    rw [hslice, ← sequence_decode, layout.decode_encode] at hsequence
    exact absurd hsequence hr
  · have hlen : ((programmed (slotAddress x n) ((layout.encode r).take k) m).slice
        (slotAddress x n) 4).length = 4 := length_slice ..
    have hmax : ∀ b ∈ (programmed (slotAddress x n) ((layout.encode r).take k) m).slice
        (slotAddress x n) 4, b = 0xFF := by
      refine eq_of_wordValue_max ?_
      have hlt := wordValue_lt ((programmed (slotAddress x n) ((layout.encode r).take k) m).slice
        (slotAddress x n) 4)
      have hnat := congrArg UInt32.toNat hsequence
      rw [UInt32.toNat_ofNat'] at hnat
      have herased : erasedSequence.toNat = 2 ^ 32 - 1 := rfl
      rw [hlen] at hlt ⊢
      omega
    intro i hi hi'
    by_cases hfour : i < slotAddress x n + 4
    · refine hmax _ (mem_slice.2 ⟨i, hi, hfour, rfl⟩)
    · rw [programmed_outside, hblank i hi hi']
      rw [Set.mem_Ico, List.length_take]
      omega

end Slot

/-! ## The operations -/

theorem sectorBase_aligned (x : Bank) : sectorBase x % sectorSize = 0 := by cases x <;> decide

theorem sectorBase_below (x : Bank) : sectorBase x < capacityBytes := by cases x <;> decide

/-- The sectors do not overlap. -/
theorem outside_sector {x : Bank} {i : ℕ} (hi : sectorBase x.other ≤ i)
    (hi' : i < sectorBase x.other + sectorSize) :
    i ∉ Set.Ico (sectorBase x) (sectorBase x + sectorSize) := by
  simp only [sectorBase_eq, sectorSize] at hi hi'
  rw [Set.mem_Ico, sectorBase_eq, sectorSize]
  cases x <;> simp only [Bank.other, reduceCtorEq, if_true, if_false] at * <;> omega

/-- A slot lies in its sector. -/
theorem outside_slot {x : Bank} {n i : ℕ} (hn : n < slotsPerSector) (hi : sectorBase x.other ≤ i)
    (hi' : i < sectorBase x.other + sectorSize) :
    i < slotAddress x n ∨ slotAddress x n + recordSize ≤ i := by
  rw [slotsPerSector_eq] at hn
  have hout := outside_sector hi hi'
  rw [Set.mem_Ico, sectorSize] at hout
  rw [slotAddress, recordSize]
  omega

theorem driven_rollToSector (x : Bank) (ram : Ram) :
    Driven (Set.Ico (sectorBase x) (sectorBase x + sectorSize)) (rollToSector x ram) := by
  refine (driven_eraseSector _).bind fun erased => ?_
  split <;> exact .pure _

theorem uncut_rollToSector (x : Bank) (ram : Ram) : Uncut (rollToSector x ram) := by
  refine .bind (driven_eraseSector _) (uncut_eraseSector _) fun erased => ?_
  split <;> exact .pure _

theorem uncut_scanSlots (x : Bank) (list : List ℕ) (scan : Scan) :
    Uncut (scanSlots x list scan) := by
  induction list generalizing scan with
  | nil => exact .pure _
  | cons slot list ih =>
    refine .bind (driven_read Set.univ _ _) (uncut_read _ _) fun ⟨status, bytes⟩ => ?_
    dsimp only
    split
    · exact ih _
    · split
      · exact .pure _
      · split <;> exact ih _

theorem uncut_initRoll (x : Bank) (ram : Ram) : Uncut (initRoll x ram) :=
  .bind (driven_rollToSector x ram) (uncut_rollToSector x ram) fun _ => .pure _

theorem uncut_init : Uncut init := by
  refine .bind (driven_scanSector Set.univ .a) (uncut_scanSlots _ _ _) fun first => ?_
  refine .bind (driven_scanSector Set.univ .b) (uncut_scanSlots _ _ _) fun second => ?_
  unfold resume
  dsimp only
  split
  · exact uncut_initRoll _ _
  · split
    · split
      · exact .pure _
      · exact uncut_initRoll _ _
    · split
      · exact .pure _
      · exact uncut_initRoll _ _

theorem uncut_appendRecord (resourceIndex : UInt8) (result : Result) (timestamp : UInt32)
    (ram : Ram) : Uncut (appendRecord resourceIndex result timestamp ram) := by
  refine .bind (driven_program _ _) (uncut_program _ _) fun status => ?_
  dsimp only
  split
  · exact .pure _
  · refine .bind (driven_read Set.univ _ _) (uncut_read _ _) fun ⟨status, bytes⟩ => ?_
    dsimp only
    split <;> exact .pure _

theorem uncut_append (resourceIndex : UInt8) (result : Result) (timestamp : UInt32) (ram : Ram) :
    Uncut (append resourceIndex result timestamp ram) := by
  unfold append
  split
  · refine .bind (driven_rollToSector _ _) (uncut_rollToSector _ _) fun ⟨rolled, ram⟩ => ?_
    dsimp only
    split
    · exact .pure _
    · exact uncut_appendRecord _ _ _ _
  · exact uncut_appendRecord _ _ _ _

/-! ## What an append does -/

/-- The variables after a record was written to a slot, or tried to be. -/
def Ram.advanced (ram : Ram) : Ram :=
  { ram with nextSlot := ram.nextSlot + 1, nextSequence := ram.nextSequence + 1 }

/-- The variables after a sector was taken into use. -/
def Ram.rolled (ram : Ram) : Ram := { ram with activeSector := ram.activeSector.other, nextSlot := 0 }

section Append

variable {resourceIndex : UInt8} {result : Result} {timestamp : UInt32} {ram : Ram} {c : Chip}

/-- What `HealthCheckLog_Append` does in its slot. -/
structure Writes (address : ℕ) (data : List UInt8) (c : Chip)
    (out : Option (Status × Option Entry × Ram) × Chip) (ram : Ram) : Prop where
  log : ∃ commands, out.2.log = commands ++ c.log ∧ commands ≠ [] ∧
    ∀ command ∈ commands, PartOf address data c.cells command
  /-- However it ends, a first part of the record is stored. -/
  stored : (out.1.map Prod.fst ≠ some .ok → Prefixed out.2) →
    ∃ k, out.2.cells = programmed address (data.take k) c.cells
  ram : ∀ returned, out.1 = some returned → returned.2.2 = ram
  ok : out.1.map Prod.fst = some .ok → out.2.cells = programmed address data c.cells
  steady : c.fates.Steady → out.1 ≠ none → out.1.map Prod.fst = some .ok

theorem appendRecord_writes (hslot : ram.nextSlot < slotsPerSector)
    (hblank : Blank c.cells ram.activeSector ram.nextSlot) (hreads : c.fates.ReadsSucceed) :
    Writes (slotAddress ram.activeSector ram.nextSlot)
      (layout.encode (newRecord resourceIndex result timestamp ram.nextSequence)) c
      (appendRecord resourceIndex result timestamp ram c) ram.advanced := by
  have hrange : inRange (slotAddress ram.activeSector ram.nextSlot)
      (layout.encode (newRecord resourceIndex result timestamp ram.nextSequence)).length = true := by
    rw [length_encode]
    exact inRange_slot hslot
  generalize hrecord : newRecord resourceIndex result timestamp ram.nextSequence = record
    at hrange ⊢
  obtain ⟨commands, hlog, hsome, hparts, hprefix⟩ := program_commands hrange c
  replace hsome : commands ≠ [] := hsome fun hnil => by
    have hlength := length_encode record
    rw [hnil] at hlength
    exact absurd hlength (by decide)
  have hsteps := (driven_program (slotAddress ram.activeSector ram.nextSlot)
    (layout.encode record)).steps c
  rw [appendRecord, hrecord]
  rcases hprogram : program (slotAddress ram.activeSector ram.nextSlot) (layout.encode record) c
    with ⟨_ | status, c₁⟩
  · rw [hprogram] at hlog hprefix
    rw [bind_of_none hprogram]
    exact ⟨⟨commands, hlog, hsome, hparts⟩, fun h => hprefix nofun (h nofun), nofun, nofun,
      fun _ h => absurd rfl h⟩
  rw [hprogram] at hlog hprefix hsteps
  rw [bind_of_some hprogram]
  by_cases hok : status = .ok
  · subst hok
    have hcells : c₁.cells =
        programmed (slotAddress ram.activeSector ram.nextSlot) (layout.encode record) c.cells :=
      program_ok hprogram
    have hslice := @slice_programmed (slotAddress ram.activeSector ram.nextSlot)
      (layout.encode record) c.cells fun i hi hi' => hblank i hi (by rwa [length_encode] at hi')
    rw [length_encode, ← hcells] at hslice
    rw [if_neg (not_not_intro rfl)]
    obtain ⟨c₂, hcells₂, hlog₂, -, hread | hread⟩ :=
      read_cases (inRange_slot hslot) (hreads.after hsteps.fates)
    · rw [bind_of_some hread]
      simp only [hslice, ne_eq, not_true_eq_false, or_self, if_false, pure_apply]
      exact ⟨⟨commands, hlog₂.trans hlog, hsome, hparts⟩,
        fun _ => ⟨recordSize, by rw [hcells₂, hcells, List.take_of_length_le
          (length_encode record).le]⟩,
        fun _ h => (Option.some.inj h) ▸ rfl, fun _ => hcells₂.trans hcells, fun _ _ => rfl⟩
    · rw [bind_of_none hread]
      exact ⟨⟨commands, hlog₂.trans hlog, hsome, hparts⟩,
        fun _ => ⟨recordSize, by rw [hcells₂, hcells, List.take_of_length_le
          (length_encode record).le]⟩, nofun, nofun, fun _ h => absurd rfl h⟩
  · have hne : some status ≠ some Status.ok := fun h => hok (Option.some.inj h)
    rw [if_pos hok]
    exact ⟨⟨commands, hlog, hsome, hparts⟩, fun h => hprefix hne (h hne),
      fun _ h => (Option.some.inj h) ▸ rfl, fun h => absurd h hne,
      fun hs _ => absurd (program_steady hrange hs hprogram) hok⟩

end Append

end HealthCheck.HealthCheckLog
