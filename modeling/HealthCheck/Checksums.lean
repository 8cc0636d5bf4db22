import HealthCheck.CallbackConfig
import HealthCheck.Ds18b20
import HealthCheck.HealthCheckConfig
import HealthCheck.HealthCheckLog
import HealthCheck.TlsServerCredentials
import HealthCheck.TlsTrustStore
import HealthCheck.UserStore

/-!
# What the checksums detect

Every store has its copy of one CRC-32 loop, which guards its snapshots or its records, and the
1-Wire driver has a CRC-8, which guards ROM codes and scratchpads. Both are reflected CRCs with a
polynomial that has its top bit, and what they detect is a matter of the width of the register.

* `copies_detect` — the copies agree, and tell apart messages that differ in a window of four bytes.
* `Guarded.eq_of_valid` — so a snapshot with such a window damaged is invalid.
* `crc8_exact` — a frame passes with the checksum of its other bytes and no other.
* `recorded_apart` — so no two devices are recorded whose ROM codes differ in one byte.
-/

namespace HealthCheck

open CString Memory
open Crc (AgreeOutside shift)
open Crc32 (crc32 eq_of_crc32)

/-! ## The copies of the loop -/

/-- `userStore_Crc`. -/
def UserStore.crc (data : Bytes) : UInt32 := crc32 data

/-- `healthCheckConfig_Crc`. -/
def HealthCheckConfig.crc (data : Bytes) : UInt32 := crc32 data

/-- `healthCheckLog_Crc`. -/
def HealthCheckLog.crc (data : Bytes) : UInt32 := crc32 data

/-- `callbackConfig_Crc`. -/
def CallbackConfig.crc (data : Bytes) : UInt32 := crc32 data

/-- `tlsTrustStore_Crc`. -/
def TlsTrustStore.crc (data : Bytes) : UInt32 := crc32 data

/-- `tlsServerCredentials_Crc`. -/
def TlsServerCredentials.crc (data : Bytes) : UInt32 := crc32 data

/-- All of them. -/
def crcCopies : List (Bytes → UInt32) :=
  [UserStore.crc, HealthCheckConfig.crc, HealthCheckLog.crc, CallbackConfig.crc,
    TlsTrustStore.crc, TlsServerCredentials.crc]

theorem eq_crc32_of_mem {f : Bytes → UInt32} (h : f ∈ crcCopies) : f = crc32 := by
  simp only [crcCopies, List.mem_cons, List.not_mem_nil, or_false] at h
  rcases h with rfl | rfl | rfl | rfl | rfl | rfl <;> rfl

/-- **The copies detect every local corruption**: messages of one length that differ, but only
inside some four consecutive bytes, have different checksums, and the copies give the same. -/
theorem copies_detect {f : Bytes → UInt32} (hf : f ∈ crcCopies) :
    (∀ g ∈ crcCopies, ∀ data, f data = g data) ∧
      ∀ a b : Bytes, a.length = b.length → a ≠ b → (∃ p, AgreeOutside p 4 a b) → f a ≠ f b := by
  obtain rfl := eq_crc32_of_mem hf
  refine ⟨fun g hg data => ?_, fun a b hlen hne ⟨p, hlocal⟩ heq => ?_⟩
  · rw [eq_crc32_of_mem hg]
  · exact hne (eq_of_crc32 hlen hlocal heq)

/-- Two messages of six bytes, with a window of four. -/
theorem copies_detect_six :
    UserStore.crc [1, 2, 3, 4, 5, 6] ≠ UserStore.crc [1, 9, 9, 9, 9, 6] :=
  (copies_detect (by simp [crcCopies])).2 _ _ rfl (by decide) ⟨1, fun i hi => by
    rcases i with _ | _ | _ | _ | _ | i
    · rfl
    all_goals first | omega | rfl⟩

/-! ## What is guarded by them -/

/-- Images with a checksum over their body. -/
structure Guarded (σ : Type) where
  {Body : Type}
  layout : Layout Body
  body : σ → Body
  crc : σ → UInt32
  valid : σ → Prop
  checked : ∀ s, valid s → crc s = crc32 (layout.encode (body s))

/-- **A damaged body is invalid**: of two valid images with the same checksum, the bodies cannot
differ in a window of four bytes only. -/
theorem Guarded.eq_of_valid {σ : Type} (G : Guarded σ) {s s' : σ} (hs : G.valid s)
    (hs' : G.valid s') (hcrc : G.crc s = G.crc s') {p : ℕ}
    (h : AgreeOutside p 4 (G.layout.encode (G.body s)) (G.layout.encode (G.body s'))) :
    G.body s = G.body s' := by
  have hlen : (G.layout.encode (G.body s)).length = (G.layout.encode (G.body s')).length := by
    rw [G.layout.length_encode, G.layout.length_encode]
  have hsame : crc32 (G.layout.encode (G.body s)) = crc32 (G.layout.encode (G.body s')) := by
    rw [← G.checked s hs, ← G.checked s' hs', hcrc]
  rw [← G.layout.decode_encode (G.body s), eq_of_crc32 hlen h hsame, G.layout.decode_encode]

/-- The last conjunct of a validity check. -/
theorem crc_of_and {b : Bool} {crc crc' : UInt32} (h : (b && decide (crc = crc')) = true) :
    crc = crc' := of_decide_eq_true (Bool.and_eq_true_iff.1 h).2

def UserStore.guarded : Guarded Snapshot where
  layout := bodyLayout
  body := Snapshot.body
  crc := Snapshot.crc
  valid s := isValid s = true
  checked _ h := crc_of_and h

def HealthCheckConfig.guarded : Guarded Snapshot where
  layout := bodyLayout
  body := Snapshot.body
  crc := Snapshot.crc
  valid s := isValid s = true
  checked _ h := crc_of_and h

def HealthCheckConfig.guardedLegacy : Guarded LegacySnapshot where
  layout := legacyBodyLayout
  body := LegacySnapshot.body
  crc := LegacySnapshot.crc
  valid s := isLegacyValid s = true
  checked _ h := crc_of_and h

def HealthCheckLog.guarded : Guarded Record where
  layout := bodyLayout
  body := Record.body
  crc := Record.crc
  valid r := r.crc = crcOf r
  checked _ h := h

def CallbackConfig.guarded : Guarded Snapshot where
  layout := bodyLayout
  body := Snapshot.body
  crc := Snapshot.crc
  valid s := CallbackConfig.valid s = true
  checked _ h := crc_of_and h

def TlsTrustStore.guarded : Guarded Snapshot where
  layout := bodyLayout maxAnchors
  body := Snapshot.body
  crc := Snapshot.crc
  valid s := isSnapshotValid s = true
  checked _ h := crc_of_and (Bool.and_eq_true_iff.1 h).1

def TlsTrustStore.guardedLegacy : Guarded LegacySnapshot where
  layout := bodyLayout 3
  body := LegacySnapshot.body
  crc := LegacySnapshot.crc
  valid s := isLegacySnapshotValid s = true
  checked _ h := crc_of_and h

def TlsServerCredentials.guarded : Guarded Snapshot where
  layout := bodyLayout
  body := Snapshot.body
  crc := Snapshot.crc
  valid s := isValid s = true
  checked _ h := crc_of_and h

/-! ## Frames on the 1-Wire bus -/

namespace OneWire

theorem and_one_ne_zero {c : UInt8} : c &&& 1 ≠ 0 ↔ c.toBitVec.getLsbD 0 = true := by
  rw [Ne, ← UInt8.toBitVec_inj, UInt8.toBitVec_and]
  change ¬(c.toBitVec &&& 1#8 = 0#8) ↔ _
  rw [BitVec.and_one_eq_setWidth_ofBool_getLsbD]
  cases c.toBitVec.getLsbD 0 <;> decide

/-- What the loop has left of the byte is still to be fed in. -/
theorem toBitVec_crc8Bits (n : ℕ) (crc value : UInt8) :
    (crc8Bits n crc value).toBitVec ^^^ (value.toBitVec >>> n) =
      (shift 0x8C#8)^[n] (crc.toBitVec ^^^ value.toBitVec) := by
  induction n generalizing crc value with
  | zero =>
    rw [crc8Bits, BitVec.ushiftRight_zero]
    rfl
  | succ n ih =>
    have hdown : (value >>> 1).toBitVec = value.toBitVec >>> 1 := rfl
    have hshift : shift 0x8C#8 (crc.toBitVec ^^^ value.toBitVec) =
        (if (crc ^^^ value) &&& 1 ≠ 0 then crc >>> 1 ^^^ 0x8C else crc >>> 1).toBitVec ^^^
          (value >>> 1).toBitVec := by
      rw [shift, BitVec.ushiftRight_xor_distrib]
      by_cases hmix : (crc ^^^ value) &&& 1 ≠ 0
      · have hlow : (crc.toBitVec ^^^ value.toBitVec).getLsbD 0 = true := and_one_ne_zero.1 hmix
        rw [if_pos hmix, if_pos hlow, hdown]
        change crc.toBitVec >>> 1 ^^^ value.toBitVec >>> 1 ^^^ 0x8C#8 =
          crc.toBitVec >>> 1 ^^^ 0x8C#8 ^^^ value.toBitVec >>> 1
        ac_rfl
      · have hlow : ¬(crc.toBitVec ^^^ value.toBitVec).getLsbD 0 = true :=
          mt and_one_ne_zero.2 hmix
        rw [if_neg hmix, if_neg hlow, hdown]
        exact BitVec.xor_zero
    rw [Function.iterate_succ_apply, hshift, ← ih, hdown, ← BitVec.shiftRight_add,
      Nat.add_comm 1 n]
    rfl

theorem toBitVec_crc8 (crc value : UInt8) :
    (crc8 crc value).toBitVec = Crc.absorb 0x8C#8 crc.toBitVec value := by
  have hgone : value.toBitVec >>> 8 = 0 := BitVec.ushiftRight_eq_zero (Nat.le_refl 8)
  have hbits := toBitVec_crc8Bits 8 crc value
  rw [hgone] at hbits
  rw [Crc.absorb, BitVec.setWidth_eq, ← hbits]
  exact BitVec.xor_zero.symm

theorem toBitVec_foldl_crc8 (frame : Bytes) (s : UInt8) :
    (frame.foldl crc8 s).toBitVec = frame.foldl (Crc.absorb 0x8C#8) s.toBitVec := by
  induction frame generalizing s with
  | nil => rfl
  | cons byte frame ih => rw [List.foldl_cons, ih, toBitVec_crc8, List.foldl_cons]

/-- Frames of one length that differ in exactly one byte. -/
def OneByteApart (a b : Bytes) : Prop :=
  a.length = b.length ∧ ∃ i : ℕ, a[i]? ≠ b[i]? ∧ ∀ j : ℕ, j ≠ i → a[j]? = b[j]?

/-- A byte behind a frame leaves zero when it is the frame's checksum. -/
theorem foldl_crc8_eq_zero_iff (m : Bytes) (c : UInt8) :
    (m ++ [c]).foldl crc8 0 = 0 ↔ c = m.foldl crc8 0 := by
  have hword : Crc.word 8 [c] = c.toBitVec := by
    change c.toBitVec.setWidth 8 ^^^ 0#8 <<< 8 = _
    rw [BitVec.setWidth_eq, BitVec.zero_shiftLeft, BitVec.xor_zero]
  have hpoly : (0x8C#8).msb = true := by decide
  have haccepted := Crc.foldl_append_eq_zero_iff hpoly 0 m (c := [c]) (Nat.le_refl 8)
  rw [hword] at haccepted
  rw [← UInt8.toBitVec_inj, toBitVec_foldl_crc8, ← UInt8.toBitVec_inj, toBitVec_foldl_crc8]
  exact haccepted

/-- Frames that pass cannot be one byte apart. -/
theorem not_oneByteApart {a b : Bytes} (ha : a.foldl crc8 0 = 0) (hb : b.foldl crc8 0 = 0) :
    ¬OneByteApart a b := by
  rintro ⟨hlen, i, hne, hsame⟩
  have hlocal : AgreeOutside i 1 a b := fun j hj => hsame j (by omega)
  obtain ⟨before, x, y, after, rfl, rfl, hxy, hone⟩ := hlocal.split hlen
  have hregister := congrArg UInt8.toBitVec (ha.trans hb.symm)
  rw [toBitVec_foldl_crc8, toBitVec_foldl_crc8] at hregister
  rw [Crc.detects (by decide) _ hxy (by omega) hregister] at hne
  exact hne rfl

/-- **The acceptance test is exact**: a byte behind a frame is accepted if and only if it is the
checksum of the frame, so frames that pass never differ in exactly one byte. -/
theorem crc8_exact :
    (∀ (m : Bytes) (c : UInt8), (m ++ [c]).foldl crc8 0 = 0 ↔ c = m.foldl crc8 0) ∧
      ∀ a b : Bytes, a.foldl crc8 0 = 0 ∧ b.foldl crc8 0 = 0 → ¬OneByteApart a b :=
  ⟨foldl_crc8_eq_zero_iff, fun _ _ h => not_oneByteApart h.1 h.2⟩

section Search

variable {σ : Type} (bus : Bus σ)

/-- The search only records what passes. -/
theorem crc_searchLoop {room : ℕ} {rom : Rom} {lastDiscrepancy : ℕ} {devices : List Rom} {s : σ}
    (h : ∀ r ∈ devices, r.crc = 0) :
    ∀ r ∈ (searchLoop bus room rom lastDiscrepancy devices s).1, r.crc = 0 := by
  induction room generalizing rom lastDiscrepancy devices s with
  | zero => exact h
  | succ room ih =>
    rw [searchLoop]
    dsimp only
    split
    · exact h
    split
    · exact h
    split
    · exact h
    have hnext : ∀ r ∈ devices ++ [(searchBits bus lastDiscrepancy 64 1 rom 0
        (writeByte bus commandSearchRom (bus.reset s).2)).2.1], r.crc = 0 := by
      intro r hr
      rcases List.mem_append.1 hr with hr | hr
      · exact h r hr
      · rw [List.mem_singleton.1 hr]
        exact not_not.1 ‹_›
    split
    · exact hnext
    · exact ih hnext

/-- **No two devices are recorded** whose ROM codes differ in exactly one byte. -/
theorem recorded_apart (s : σ) {r r' : Rom} (hr : r ∈ (searchUnlocked bus s).2.1)
    (hr' : r' ∈ (searchUnlocked bus s).2.1) : ¬OneByteApart r.toList r'.toList := by
  have hpasses : ∀ r ∈ (searchUnlocked bus s).2.1, r.crc = 0 := by
    unfold searchUnlocked
    exact crc_searchLoop bus fun _ h => absurd h List.not_mem_nil
  exact not_oneByteApart (hpasses r hr) (hpasses r' hr')

/-- Neither do two scratchpads that were accepted, on any buses and for any devices. -/
theorem measured_apart {τ : Type} (bus' : Bus τ) {rom rom' : Rom} {polls polls' : ℕ} {s s' : σ}
    {t t' : τ} {scratchpad scratchpad' : Bytes}
    (h : Ds18b20.measureDevice bus rom polls s = (.ok, scratchpad, s'))
    (h' : Ds18b20.measureDevice bus' rom' polls' t = (.ok, scratchpad', t')) :
    ¬OneByteApart scratchpad scratchpad' := by
  have hpasses {σ : Type} {bus : Bus σ} {rom : Rom} {polls : ℕ} {s s' : σ} {scratchpad : Bytes}
      (h : Ds18b20.measureDevice bus rom polls s = (.ok, scratchpad, s')) :
      scratchpad.foldl crc8 0 = 0 := by
    unfold Ds18b20.measureDevice at h
    split at h
    · obtain rfl : [] = scratchpad := (Prod.mk.inj (Prod.mk.inj h).2).1
      rfl
    · obtain ⟨hstatus, hrest⟩ := Prod.mk.inj h
      obtain rfl := (Prod.mk.inj hrest).1
      by_contra hcrc
      rw [if_neg hcrc] at hstatus
      cases hstatus
  exact not_oneByteApart (hpasses h) (hpasses h')

end Search

end OneWire

end HealthCheck
