import HealthCheck.Ds18b20
import HealthCheck.OneWireSearch

/-!
# Sensors that do not exist

The CRC of zeros is zero. A line that reads low in every slot looks like a presence pulse, a ROM
code and a scratchpad.

* `no_phantom_iff` — which samples of the line keep the all-zero ROM code out of the search, and
  an all-zero scratchpad out of the results.
-/

namespace HealthCheck.Ds18b20

open OneWire

/-! ## Samples of the line -/

/-- The all-zero ROM code. -/
def zeroRom : Rom := .replicate 8 0

variable (samples : ℕ → Bool)

theorem writeBits_sampled (n : ℕ) (value : UInt8) (p : ℕ) :
    writeBits (sampledBus samples) n value p = p := by
  induction n generalizing value with
  | zero => rfl
  | succ n ih => exact ih _

theorem writeByte_sampled (value : UInt8) (p : ℕ) : writeByte (sampledBus samples) value p = p :=
  writeBits_sampled samples 8 value p

/-! ## One pass of the search -/

/-- The direction at a conflict: as in the pass before up to the last discrepancy, and to 1
there. -/
def conflictDirection (lastDiscrepancy : ℕ) (rom : Rom) (romBit : ℕ) : Bool :=
  if romBit < lastDiscrepancy then rom.test romBit else decide (romBit = lastDiscrepancy)

/-- Both slots of a bit are low or its first one is, and no conflict is resolved to 1: what makes
the 64 bits of a pass from a position on all 0. -/
def ReadsZero (lastDiscrepancy : ℕ) (rom : Rom) (p : ℕ) : Prop :=
  ∀ i < 64, samples (p + 2 * i) = false ∧
    (samples (p + 2 * i + 1) = true ∨ conflictDirection lastDiscrepancy rom (i + 1) = false)

theorem test_zeroRom (romBit : ℕ) : zeroRom.test romBit = false := by
  have hbyte : zeroRom.toList.getD ((romBit - 1) / 8) 0 = 0 := by
    rw [zeroRom, Vector.toList_replicate, List.getD_eq_getElem?_getD, List.getElem?_replicate]
    split <;> rfl
  rw [Rom.test, hbyte, UInt8.zero_and]
  rfl

/-- The bit of the ROM code after two samples. -/
def sampledDirection (lastDiscrepancy : ℕ) (rom : Rom) (romBit p : ℕ) : Bool :=
  if samples p ≠ samples (p + 1) then samples p
  else conflictDirection lastDiscrepancy rom romBit

theorem conflictDirection_assign {lastDiscrepancy romBit j : ℕ} {rom : Rom} (direction : Bool)
    (hpos : 0 < romBit) (hlt : romBit < j) (hle : j < 65) :
    conflictDirection lastDiscrepancy (rom.assign romBit direction) j =
      conflictDirection lastDiscrepancy rom j := by
  have hother := test_assign rom (Nat.lt_trans hlt hle) hpos (Nat.lt_trans hpos hlt) direction
  rw [if_neg (Nat.ne_of_gt hlt)] at hother
  rw [conflictDirection, conflictDirection, hother]

section Pass

variable {samples} {lastDiscrepancy n romBit : ℕ} {rom rom' : Rom}
  {discrepancy discrepancy' p p' : ℕ}

/-- One bit of a pass. -/
theorem searchBits_succ (hpair : (samples p && samples (p + 1)) = false) :
    searchBits (sampledBus samples) lastDiscrepancy (n + 1) romBit rom discrepancy p =
      searchBits (sampledBus samples) lastDiscrepancy n (romBit + 1)
        (rom.assign romBit (sampledDirection samples lastDiscrepancy rom romBit p))
        (if samples p = samples (p + 1) ∧
          sampledDirection samples lastDiscrepancy rom romBit p = false then romBit
          else discrepancy) (p + 2) :=
  if_neg (Bool.eq_false_iff.1 hpair)

/-- A pass that reads all bits has them in the ROM code. -/
theorem searchBits_sampled (hpos : 0 < romBit) (hle : romBit + n ≤ 65)
    (h : searchBits (sampledBus samples) lastDiscrepancy n romBit rom discrepancy p =
      (true, rom', discrepancy', p')) :
    p' = p + 2 * n ∧ (∀ j, 0 < j → j < romBit → rom'.test j = rom.test j) ∧
      ∀ i < n, (samples (p + 2 * i) && samples (p + 2 * i + 1)) = false ∧
        rom'.test (romBit + i) =
          sampledDirection samples lastDiscrepancy rom (romBit + i) (p + 2 * i) := by
  induction n generalizing romBit rom discrepancy p with
  | zero =>
    cases h
    exact ⟨rfl, fun _ _ _ => rfl, nofun⟩
  | succ n ih =>
    cases hpair : samples p && samples (p + 1) with
    | true =>
      have hstop : searchBits (sampledBus samples) lastDiscrepancy (n + 1) romBit rom discrepancy
          p = (false, rom, discrepancy, p + 2) := if_pos hpair
      rw [hstop] at h
      cases h
    | false =>
      rw [searchBits_succ hpair] at h
      obtain ⟨hp, hbefore, hbits⟩ := ih (Nat.succ_pos _) (by omega) h
      have hassign := fun j hj => @test_assign rom romBit j (by omega) hpos hj
        (sampledDirection samples lastDiscrepancy rom romBit p)
      refine ⟨by omega, fun j hj hlt => ?_, fun i hi => ?_⟩
      · rw [hbefore j hj (by omega), hassign j hj, if_neg (by omega)]
      · cases i with
        | zero =>
          refine ⟨hpair, (hbefore romBit hpos (Nat.lt_succ_self _)).trans ?_⟩
          rw [hassign romBit hpos, if_pos rfl]
          rfl
        | succ i =>
          obtain ⟨hpair', hbit⟩ := hbits i (by omega)
          have hindex : romBit + 1 + i = romBit + (i + 1) := by omega
          have hposition : p + 2 + 2 * i = p + 2 * (i + 1) := by omega
          rw [hposition] at hpair' hbit
          rw [hindex, sampledDirection, conflictDirection_assign _ hpos (by omega) (by omega)] at hbit
          exact ⟨hpair', hbit⟩

/-- A pass whose bits all read 0 comes to its end. -/
theorem searchBits_zero (hpos : 0 < romBit) (hle : romBit + n ≤ 65)
    (h : ∀ i < n, samples (p + 2 * i) = false) :
    ∃ rom' discrepancy' p', searchBits (sampledBus samples) lastDiscrepancy n romBit rom
      discrepancy p = (true, rom', discrepancy', p') := by
  induction n generalizing romBit rom discrepancy p with
  | zero => exact ⟨rom, discrepancy, p, rfl⟩
  | succ n ih =>
    have hlow : samples p = false := h 0 (Nat.succ_pos n)
    rw [searchBits_succ (by rw [hlow, Bool.false_and])]
    refine ih (Nat.succ_pos _) (by omega) fun i hi => ?_
    have hposition : p + 2 + 2 * i = p + 2 * (i + 1) := by omega
    rw [hposition]
    exact h (i + 1) (Nat.succ_lt_succ hi)

/-- The search reads the all-zero ROM code in a pass exactly when its bits read 0. -/
theorem pass_zero_iff :
    (∃ discrepancy' p', searchBits (sampledBus samples) lastDiscrepancy 64 1 rom 0 p =
      (true, zeroRom, discrepancy', p')) ↔ ReadsZero samples lastDiscrepancy rom p := by
  have hdirection (i : ℕ) (hpair : (samples (p + 2 * i) && samples (p + 2 * i + 1)) = false) :
      sampledDirection samples lastDiscrepancy rom (1 + i) (p + 2 * i) = false ↔
        samples (p + 2 * i) = false ∧ (samples (p + 2 * i + 1) = true ∨
          conflictDirection lastDiscrepancy rom (i + 1) = false) := by
    rw [Nat.add_comm 1 i, sampledDirection]
    cases hfirst : samples (p + 2 * i) <;> cases hsecond : samples (p + 2 * i + 1) <;> simp_all
  constructor
  · rintro ⟨discrepancy', p', h⟩ i hi
    obtain ⟨hpair, hbit⟩ := (searchBits_sampled Nat.one_pos (by omega) h).2.2 i hi
    rw [test_zeroRom] at hbit
    exact (hdirection i hpair).1 hbit.symm
  · intro h
    obtain ⟨rom', discrepancy', p', hpass⟩ :=
      @searchBits_zero samples lastDiscrepancy 64 1 rom 0 p Nat.one_pos (by omega)
        fun i hi => (h i hi).1
    have hzero : rom' = zeroRom := by
      refine rom_ext fun i hi => ?_
      obtain ⟨hpair, hbit⟩ := (searchBits_sampled Nat.one_pos (by omega) hpass).2.2 i hi
      rw [Nat.add_comm 1 i] at hbit
      rw [test_zeroRom, hbit, Nat.add_comm i 1]
      exact (hdirection i hpair).2 (h i hi)
    exact ⟨discrepancy', p', hzero ▸ hpass⟩

end Pass

/-! ## The search -/

/-- Where the passes of a search begin: with which ROM code and last discrepancy of the pass
before, and at which position. -/
def passes : ℕ → Rom → ℕ → ℕ → List (Rom × ℕ × ℕ)
  | 0, _, _, _ => []
  | room + 1, rom, lastDiscrepancy, p =>
    (rom, lastDiscrepancy, p) ::
      if samples p then []
      else
        let (completed, rom, discrepancy, p) :=
          searchBits (sampledBus samples) lastDiscrepancy 64 1 rom 0 (p + 1)
        if completed = false ∨ rom.crc ≠ 0 ∨ discrepancy = 0 then []
        else passes room rom discrepancy p

/-- A pass with a presence pulse whose bits read 0. -/
def ZeroPass (pass : Rom × ℕ × ℕ) : Prop :=
  samples pass.2.2 = false ∧ ReadsZero samples pass.2.1 pass.1 (pass.2.2 + 1)

variable {samples}

theorem zeroPass_iff {rom : Rom} {lastDiscrepancy p : ℕ} {completed : Bool} {rom' : Rom}
    {discrepancy p' : ℕ} (hpresence : samples p = false)
    (h : searchBits (sampledBus samples) lastDiscrepancy 64 1 rom 0 (p + 1) =
      (completed, rom', discrepancy, p')) :
    ZeroPass samples (rom, lastDiscrepancy, p) ↔ completed = true ∧ rom' = zeroRom := by
  rw [ZeroPass, and_iff_right hpresence, ← pass_zero_iff, h]
  constructor
  · rintro ⟨discrepancy', p'', heq⟩
    cases heq
    exact ⟨rfl, rfl⟩
  · rintro ⟨rfl, rfl⟩
    exact ⟨discrepancy, p', rfl⟩

theorem crc_zeroRom : zeroRom.crc = 0 := by decide +kernel

theorem reset_sampled (p : ℕ) : (sampledBus samples).reset p = (samples p, p + 1) := rfl

/-- The search records the all-zero ROM code in the passes that read it. -/
theorem zeroRom_mem_searchLoop (room : ℕ) (rom : Rom) (lastDiscrepancy : ℕ) (devices : List Rom)
    (p : ℕ) :
    zeroRom ∈ (searchLoop (sampledBus samples) room rom lastDiscrepancy devices p).1 ↔
      zeroRom ∈ devices ∨ ∃ pass ∈ passes samples room rom lastDiscrepancy p,
        ZeroPass samples pass := by
  induction room generalizing rom lastDiscrepancy devices p with
  | zero =>
    refine (or_iff_left ?_).symm
    rintro ⟨pass, hpass, -⟩
    cases hpass
  | succ room ih =>
    cases hpresence : samples p with
    | true =>
      have hloop : searchLoop (sampledBus samples) (room + 1) rom lastDiscrepancy devices p =
          (devices, p + 1) := by
        simp only [searchLoop, reset_sampled, hpresence, if_true]
      rw [hloop]
      refine (or_iff_left ?_).symm
      rintro ⟨pass, hpass, hzero, -⟩
      rw [passes, hpresence, if_pos rfl, List.mem_singleton] at hpass
      rw [hpass, hpresence] at hzero
      cases hzero
    | false =>
      rcases hbits : searchBits (sampledBus samples) lastDiscrepancy 64 1 rom 0 (p + 1) with
        ⟨completed, rom', discrepancy, p'⟩
      have hzero := zeroPass_iff hpresence hbits
      have hloop : searchLoop (sampledBus samples) (room + 1) rom lastDiscrepancy devices p =
          if completed = false then (devices, p')
          else if rom'.crc ≠ 0 then (devices, p')
          else if discrepancy = 0 then (devices ++ [rom'], p')
          else searchLoop (sampledBus samples) room rom' discrepancy (devices ++ [rom']) p' := by
        simp only [searchLoop, reset_sampled, hpresence, writeByte_sampled, hbits,
          Bool.false_eq_true, if_false]
      have hpasses : passes samples (room + 1) rom lastDiscrepancy p = (rom, lastDiscrepancy, p) ::
          if completed = false ∨ rom'.crc ≠ 0 ∨ discrepancy = 0 then []
          else passes samples room rom' discrepancy p' := by
        rw [passes, hpresence, if_neg Bool.false_ne_true, hbits]
      rw [hloop, hpasses]
      by_cases hcompleted : completed = false
      · rw [if_pos hcompleted, if_pos (.inl hcompleted)]
        simp [hzero, hcompleted]
      rw [if_neg hcompleted]
      have hcompleted : completed = true := Bool.not_eq_false _ ▸ hcompleted
      by_cases hcrc : rom'.crc ≠ 0
      · have hne : rom' ≠ zeroRom := by
          rintro rfl
          exact hcrc crc_zeroRom
        rw [if_pos hcrc, if_pos (.inr (.inl hcrc))]
        simp [hzero, hne]
      rw [if_neg hcrc]
      by_cases hlast : discrepancy = 0
      · rw [if_pos hlast, if_pos (.inr (.inr hlast))]
        simp [hzero, hcompleted, eq_comm]
      · rw [if_neg hlast, if_neg (by simp [hcompleted, hcrc, hlast]), ih]
        simp [hzero, hcompleted, eq_comm, or_assoc]

/-! ## The scratchpad -/

theorem or_eq_zero {x y : UInt8} : x ||| y = 0 ↔ x = 0 ∧ y = 0 := by
  rw [← UInt8.toNat_inj, ← UInt8.toNat_inj, ← UInt8.toNat_inj, UInt8.toNat_or]
  exact Nat.or_eq_zero_iff

/-- Samples are the bits of a byte. -/
theorem readBits_sampled {n bit : ℕ} (hle : bit + n ≤ 8) (value : UInt8) (p : ℕ) :
    (readBits (sampledBus samples) n bit value p).2 = p + n ∧
      ((readBits (sampledBus samples) n bit value p).1 = 0 ↔
        value = 0 ∧ ∀ i < n, samples (p + i) = false) := by
  induction n generalizing bit value p with
  | zero => exact ⟨rfl, (and_iff_left nofun).symm⟩
  | succ n ih =>
    obtain ⟨hposition, hzero⟩ := @ih (bit + 1) (by omega)
      (value ||| UInt8.ofNat ((if samples p then 1 else 0) <<< bit)) (p + 1)
    have hbit : UInt8.ofNat ((if samples p then 1 else 0) <<< bit) = 0 ↔ samples p = false := by
      have hall : ∀ b < 8, UInt8.ofNat (1 <<< b) ≠ 0 := by decide
      cases samples p
      · simp
      · simpa using hall bit (by omega)
    refine ⟨hposition.trans (by omega), hzero.trans ?_⟩
    rw [or_eq_zero, hbit, and_assoc]
    refine and_congr_right fun _ => ⟨fun ⟨hfirst, hrest⟩ i hi => ?_, fun h => ⟨h 0 (by omega), ?_⟩⟩
    · cases i with
      | zero => exact hfirst
      | succ i =>
        have hindex : p + (i + 1) = p + 1 + i := by omega
        exact hindex ▸ hrest i (by omega)
    · intro i hi
      have hindex : p + 1 + i = p + (i + 1) := by omega
      exact hindex ▸ h (i + 1) (by omega)

theorem readBytes_sampled (n p : ℕ) :
    (readBytes (sampledBus samples) n p).2 = p + 8 * n ∧
      ((readBytes (sampledBus samples) n p).1 = List.replicate n 0 ↔
        ∀ i < 8 * n, samples (p + i) = false) := by
  induction n generalizing p with
  | zero => exact ⟨rfl, iff_of_true rfl nofun⟩
  | succ n ih =>
    obtain ⟨hbyte, hzero⟩ := @readBits_sampled samples 8 0 (by omega) 0 p
    obtain ⟨hposition, hrest⟩ := ih (p + 8)
    have hread : readByte (sampledBus samples) p =
        ((readBits (sampledBus samples) 8 0 0 p).1, p + 8) := Prod.ext rfl hbyte
    have hbytes : readBytes (sampledBus samples) (n + 1) p =
        ((readBits (sampledBus samples) 8 0 0 p).1 :: (readBytes (sampledBus samples) n (p + 8)).1,
          (readBytes (sampledBus samples) n (p + 8)).2) := by
      simp only [readBytes, hread]
    rw [hbytes]
    refine ⟨hposition.trans (by omega), ?_⟩
    rw [List.replicate_succ, List.cons.injEq, hzero, hrest, and_iff_right rfl]
    constructor
    · rintro ⟨hfirst, hlater⟩ i hi
      by_cases hlt : i < 8
      · exact hfirst i hlt
      · have hindex : p + i = p + 8 + (i - 8) := by omega
        exact hindex ▸ hlater (i - 8) (by omega)
    · refine fun h => ⟨fun i hi => h i (by omega), fun i hi => ?_⟩
      have hindex : p + 8 + i = p + (8 + i) := by omega
      exact hindex ▸ h (8 + i) (by omega)

/-- Where the scratchpad of a device is read, if it is. -/
def scratchpadRead (samples : ℕ → Bool) (rom : Rom) (polls p : ℕ) : Option ℕ :=
  match convert (sampledBus samples) rom polls p with
  | (.ok _, q) => some q
  | (.error _, _) => none

/-- Where the scratchpads of the devices are read. -/
def scratchpadReads (samples : ℕ → Bool) (polls : ℕ → ℕ) : ℕ → List Rom → ℕ → List ℕ
  | _, [], _ => []
  | index, rom :: devices, p =>
    (scratchpadRead samples rom (polls index) p).toList ++ scratchpadReads samples polls (index + 1)
      devices (measureDevice (sampledBus samples) rom (polls index) p).2.2

/-- A device is reported with status ok and an all-zero scratchpad. -/
def Phantom (status : Ds18b20Status) (scratchpad : List UInt8) : Prop :=
  status = .ok ∧ scratchpad = List.replicate 9 0

theorem measureDevice_phantom (rom : Rom) (polls p : ℕ) :
    Phantom (measureDevice (sampledBus samples) rom polls p).1
        (measureDevice (sampledBus samples) rom polls p).2.1 ↔
      ∃ q ∈ scratchpadRead samples rom polls p, ∀ i < 72, samples (q + i) = false := by
  rcases hconvert : convert (sampledBus samples) rom polls p with ⟨status | _, q⟩
  · have hread : scratchpadRead samples rom polls p = none := by
      rw [scratchpadRead, hconvert]
    simp only [measureDevice, hconvert, hread, Phantom]
    simp
  · have hread : scratchpadRead samples rom polls p = some q := by
      rw [scratchpadRead, hconvert]
    obtain ⟨-, hzero⟩ := @readBytes_sampled samples 9 q
    simp only [measureDevice, hconvert, hread, Phantom, Option.mem_some_iff, exists_eq_left']
    rw [hzero]
    refine and_iff_right_of_imp fun h => ?_
    have hcrc : (List.replicate 9 (0 : UInt8)).foldl crc8 0 = 0 := by decide +kernel
    rw [hzero.2 h, hcrc, if_pos rfl]

theorem measureDevices_phantom (polls : ℕ → ℕ) (index : ℕ) (devices : List Rom) (p : ℕ) :
    (∃ x ∈ (measureDevices (sampledBus samples) polls index devices p).1, Phantom x.1.status x.2) ↔
      ∃ q ∈ scratchpadReads samples polls index devices p, ∀ i < 72, samples (q + i) = false := by
  induction devices generalizing index p with
  | nil => exact iff_of_false (fun ⟨_, h, _⟩ => nomatch h) fun ⟨_, h, _⟩ => nomatch h
  | cons rom devices ih =>
    simp only [measureDevices, scratchpadReads, List.mem_cons, List.mem_append,
      Option.mem_toList, or_and_right, exists_or, exists_eq_left]
    rw [ih, measureDevice_phantom]
    rfl

/-- **When there are no phantom sensors**: for every sequence of samples and from every position
of it, a search never records the all-zero ROM code exactly when none of its passes has a
presence pulse and reads 0 in all bits, and a measurement reports no device with status ok and an
all-zero scratchpad exactly when no scratchpad is read while the line is low. -/
theorem no_phantom_iff (samples : ℕ → Bool) (p : ℕ) :
    (zeroRom ∉ (searchUnlocked (sampledBus samples) p).2.1 ↔
      ∀ pass ∈ passes samples maxDevices (.replicate 8 0) 0 p, ¬ZeroPass samples pass) ∧
    ∀ (capacity : ℕ) (devices : List Rom) (polls : ℕ → ℕ),
      (∀ x ∈ (measureDevices (sampledBus samples) polls 0 (devices.take capacity) p).1,
        ¬Phantom x.1.status x.2) ↔
      ∀ q ∈ scratchpadReads samples polls 0 (devices.take capacity) p,
        ∃ i < 72, samples (q + i) = true := by
  constructor
  · have hsearch : zeroRom ∈ (searchUnlocked (sampledBus samples) p).2.1 ↔
        ∃ pass ∈ passes samples maxDevices (.replicate 8 0) 0 p, ZeroPass samples pass := by
      refine (zeroRom_mem_searchLoop maxDevices _ 0 [] p).trans ?_
      exact or_iff_right List.not_mem_nil
    rw [hsearch, not_exists]
    exact forall_congr' fun pass => not_and
  · intro capacity devices polls
    have hmeasure := @measureDevices_phantom samples polls 0 (devices.take capacity) p
    constructor
    · intro h q hq
      by_contra hlow
      simp only [not_exists, not_and, Bool.not_eq_true] at hlow
      obtain ⟨x, hx, hphantom⟩ := hmeasure.2 ⟨q, hq, hlow⟩
      exact h x hx hphantom
    · intro h x hx hphantom
      obtain ⟨q, hq, hlow⟩ := hmeasure.1 ⟨x, hx, hphantom⟩
      obtain ⟨i, hi, hhigh⟩ := h q hq
      exact Bool.false_ne_true ((hlow i hi).symm.trans hhigh)

/-- A line that is held low is a sensor at 0 °C. -/
theorem held_low_phantom :
    ¬(∀ (samples : ℕ → Bool) (p : ℕ), zeroRom ∉ (searchUnlocked (sampledBus samples) p).2.1) ∧
    ¬∀ (samples : ℕ → Bool) (p capacity : ℕ) (devices : List Rom) (polls : ℕ → ℕ),
      ∀ x ∈ (measureDevices (sampledBus samples) polls 0 (devices.take capacity) p).1,
        ¬Phantom x.1.status x.2 := by
  constructor
  · intro h
    refine h (fun _ => false) 0 ?_
    decide +kernel
  · intro h
    refine h (fun _ => false) 0 6 [zeroRom] (fun _ => 0) (⟨zeroRom, 0, .ok⟩, .replicate 9 0) ?_
      ⟨rfl, rfl⟩
    decide +kernel

end HealthCheck.Ds18b20
