import HealthCheck.TlsTrustStore

/-!
# The trust-anchor store follows the two-bank scheme

`commitCandidate` is the write of the scheme: `commit_ok` and `commit_failed` are what it leaves
in RAM and in the banks, `commit_calm` its run without a failure. `lawful` puts them together
with start-up.
-/

namespace HealthCheck.TlsTrustStore

open Nor hiding read driven_read read_ok read_cases
open CString FlashLayout Memory TwoBank W25q64

/-! ## Banks -/

theorem aligned (x : Bank) : address x % sectorSize = 0 := by cases x <;> decide

theorem address_le (x : Bank) : address x + bankSize ≤ capacityBytes := by cases x <;> decide

theorem disjoint_region : Disjoint (region .a) (region .b) := by
  refine Set.disjoint_left.2 fun i hi hi' => ?_
  have hnext : address .b = address .a + bankSize := by decide
  simp only [region, Set.mem_Ico] at hi hi'
  omega

theorem disjoint_other (x : Bank) : Disjoint (region x) (region x.other) := by
  cases x with
  | a => exact disjoint_region
  | b => exact disjoint_region.symm

theorem size_le : layout.size ≤ bankSize := by decide

theorem inRange_address (x : Bank) : inRange (address x) layout.size = true :=
  inRange_of_le (by decide) ((Nat.add_le_add_left size_le _).trans (address_le x))

theorem load_congr {m m' : Cells} {x : Bank} (h : ∀ i ∈ region x, m' i = m i) :
    load m' x = load m x := by
  have hfits := size_le
  rw [load, load, slice_congr fun i hi hi' => h i ⟨hi, by omega⟩]

theorem slice_programmed_bank (x : Bank) (s : Snapshot) (m : Cells) :
    (programmed (address x) (layout.encode s) (blank (address x) bankSize m)).slice (address x)
      layout.size = layout.encode s := by
  rw [← layout.length_encode s]
  exact slice_programmed_blank _ ((layout.length_encode s).trans_le size_le)

theorem driven_eraseSectors (a n : ℕ) :
    Driven (Set.Ico a (a + n * sectorSize)) (eraseSectors a n) := by
  induction n generalizing a with
  | zero => exact .pure _
  | succ n ih =>
    have hsucc : (n + 1) * sectorSize = n * sectorSize + sectorSize := Nat.succ_mul ..
    have hfirst : Set.Ico a (a + sectorSize) ⊆ Set.Ico a (a + (n + 1) * sectorSize) :=
      Set.Ico_subset_Ico_right (by omega)
    have hrest : Set.Ico (a + sectorSize) (a + sectorSize + n * sectorSize) ⊆
        Set.Ico a (a + (n + 1) * sectorSize) := Set.Ico_subset_Ico (by omega) (by omega)
    refine ((driven_eraseSector a).mono hfirst).bind fun erased => ?_
    split
    · exact .pure _
    · exact (ih _).mono hrest

theorem eraseSectors_ok {a n : ℕ} {c c' : Chip} (h : eraseSectors a n c = (some .ok, c')) :
    c'.cells = blank a (n * sectorSize) c.cells := by
  induction n generalizing a c with
  | zero =>
    obtain rfl : c = c' := by simpa [eraseSectors] using h
    rw [Nat.zero_mul, blank_zero]
  | succ n ih =>
    obtain ⟨erased, c₁, h₁, h⟩ := bind_eq_some.1 h
    split at h
    · simp at h
    · rename_i he
      obtain rfl := not_ne_iff.1 he
      rw [ih h, eraseSector_ok h₁, blank_blank, Nat.succ_mul, Nat.add_comm]

theorem eraseSectors_calm {a n : ℕ} (ha : a % sectorSize = 0)
    (hn : a + n * sectorSize ≤ capacityBytes) (m : Cells) (log : List Command)
    (reads : List ReadFate) : ∃ log', eraseSectors a n ⟨m, { reads }, log⟩ =
      (some .ok, ⟨blank a (n * sectorSize) m, { reads }, log'⟩) := by
  induction n generalizing a m log with
  | zero => exact ⟨log, by rw [Nat.zero_mul, blank_zero]; rfl⟩
  | succ n ih =>
    have hpos : 0 < sectorSize := by decide
    have hbelow : a < capacityBytes := by rw [Nat.succ_mul] at hn; omega
    obtain ⟨log', h⟩ := ih (a := a + sectorSize) (by rw [Nat.add_mod_right, ha])
      (by rw [Nat.succ_mul] at hn; omega) (blank a sectorSize m) (.erase a sectorSize m :: log)
    refine ⟨log', ?_⟩
    rw [eraseSectors, bind_of_some (eraseSector_calm m log reads ha hbelow), if_neg (by simp), h,
      blank_blank, Nat.succ_mul, Nat.add_comm]

theorem erased_eraseSectors {a n : ℕ} (ha : a % sectorSize = 0) (hbelow : a < capacityBytes)
    (c : Chip) : Erased (eraseSectors a (n + 1) c).2.log := by
  have hrest : ∀ erased : Status, Driven (Set.Ico (a + sectorSize) (a + sectorSize + n * sectorSize))
      (if erased ≠ .ok then pure .error else eraseSectors (a + sectorSize) n) := fun erased => by
    split
    · exact .pure _
    · exact driven_eraseSectors _ _
  exact ⟨_, _, _, (log_bind hrest).subset (eraseSector_logged ha hbelow c)⟩

/-! ## Reading a snapshot -/

theorem driven_readSnapshot (R : Set ℕ) (a : ℕ) : Driven R (readSnapshot a) := by
  refine (driven_read _ _ _).bind fun ⟨status, bytes⟩ => ?_
  dsimp only
  split <;> exact .pure _

/-- The status of a snapshot that was read. -/
def verdict (s : Snapshot) : Status := if isSnapshotValid s then .ok else .error

theorem verdict_eq_ok {s : Snapshot} : verdict s = .ok ↔ isSnapshotValid s = true := by
  unfold verdict
  split <;> simp [*]

theorem readSnapshot_of_read {a : ℕ} {c c' : Chip} {bytes : List UInt8}
    (h : read a layout.size c = (some (.ok, bytes), c')) :
    readSnapshot a c = (some (verdict (layout.decode bytes), layout.decode bytes), c') := by
  rw [readSnapshot, bind_of_some h]
  rfl

/-- A read that does not fail finds what is in the bank, or is cut off. -/
theorem readSnapshot_cases (x : Bank) {c : Chip} (hreads : c.fates.ReadsSucceed) :
    ∃ c', c'.cells = c.cells ∧ c'.log = c.log ∧ c.fates.After c'.fates ∧
      (readSnapshot (address x) c = (some (verdict (load c.cells x), load c.cells x), c') ∨
        readSnapshot (address x) c = (none, c')) := by
  obtain ⟨c', hcells, hlog, hfates, h | h⟩ := read_cases (inRange_address x) hreads
  · exact ⟨c', hcells, hlog, hfates, .inl (readSnapshot_of_read h)⟩
  · exact ⟨c', hcells, hlog, hfates, .inr (by rw [readSnapshot, bind_of_none h])⟩

theorem readSnapshot_ok {a : ℕ} {c c' : Chip} {s : Snapshot}
    (h : readSnapshot a c = (some (.ok, s), c')) :
    s = layout.decode (c.cells.slice a layout.size) ∧ isSnapshotValid s = true ∧
      c'.cells = c.cells := by
  obtain ⟨⟨status, bytes⟩, c₁, h₁, h⟩ := bind_eq_some.1 h
  dsimp only at h
  split at h
  · simp at h
  · rename_i hs
    obtain rfl := not_ne_iff.1 hs
    have hread : bytes = c.cells.slice a layout.size ∧ c₁.cells = c.cells := read_ok h₁
    obtain ⟨hbytes, hcells⟩ := hread
    simp only [pure_apply, Prod.mk.injEq, Option.some.injEq] at h
    obtain ⟨⟨hv, rfl⟩, rfl⟩ := h
    exact ⟨congrArg layout.decode hbytes, verdict_eq_ok.1 hv, hcells⟩

theorem readSnapshot_calm (x : Bank) (m : Cells) (log : List Command) :
    readSnapshot (address x) ⟨m, {}, log⟩ =
      (some (verdict (load m x), load m x), ⟨m, {}, log⟩) :=
  readSnapshot_of_read (read_calm m log (inRange_address x))

/-! ## Committing a candidate -/

theorem driven_programVerified (ram : Ram) :
    Driven (region ram.active.other) (programVerified ram) := by
  have hfits : (layout.encode ram.snapshot).length ≤ bankSize := by
    rw [layout.length_encode]
    exact size_le
  refine ((driven_program _ _).mono (Set.Ico_subset_Ico_right (by omega))).bind fun _ => ?_
  split
  · exact .pure _
  · exact (driven_readSnapshot _ _).bind fun _ => .pure _

theorem driven_save_rest (ram : Ram) (erased : Status) : Driven (region ram.active.other)
    (if erased ≠ .ok then pure (.error, ram) else programVerified ram) := by
  split
  · exact .pure _
  · exact driven_programVerified ram

theorem driven_save (ram : Ram) : Driven (region ram.active.other) (save ram) :=
  (driven_eraseSectors _ _).bind (driven_save_rest ram)

theorem driven_commit_rest (R : Set ℕ) (r : Status × Ram) : Driven R
    (if r.1 = .ok then pure (TrustStatus.ok, r.2) else do
      let (_, snapshot) ← readSnapshot (address r.2.active)
      pure (.storageError, { r.2 with snapshot := snapshot })) := by
  split
  · exact .pure _
  · exact (driven_readSnapshot _ _).bind fun _ => .pure _

theorem driven_commit (ram : Ram) : Driven (region ram.active.other) (commitCandidate ram) :=
  (driven_save { ram with snapshot := stamp ram.snapshot }).bind (driven_commit_rest _)

theorem erased_commit (ram : Ram) (c : Chip) : Erased (commitCandidate ram c).2.log := by
  have hbelow : address ram.active.other < capacityBytes := by
    have := address_le ram.active.other
    have hpos : 0 < bankSize := by decide
    omega
  obtain ⟨a, n, before, hm⟩ :=
    erased_eraseSectors (n := 2) (aligned ram.active.other) hbelow c
  have hsave : Command.erase a n before ∈
      (save { ram with snapshot := stamp ram.snapshot } c).2.log :=
    (log_bind (driven_save_rest { ram with snapshot := stamp ram.snapshot })).subset hm
  exact ⟨a, n, before, (log_bind (driven_commit_rest Set.univ)).subset hsave⟩

/-- What `save` returns: success with the snapshot stored, or a failure in the same bank. -/
theorem save_cases {ram ram' : Ram} {c c' : Chip} {s : Status}
    (h : save ram c = (some (s, ram'), c')) :
    (s = .ok ∧ ram' = ⟨ram.snapshot, ram.active.other⟩ ∧ isSnapshotValid ram.snapshot = true ∧
      load c'.cells ram.active.other = ram.snapshot) ∨ (s ≠ .ok ∧ ram'.active = ram.active) := by
  have hfail : ∀ {d : Chip}, (pure (.error, ram) : FlashM _) d = (some (s, ram'), c') →
      s ≠ .ok ∧ ram'.active = ram.active := fun h => by
    simp only [pure_apply, Prod.mk.injEq, Option.some.injEq] at h
    obtain ⟨⟨rfl, rfl⟩, -⟩ := h
    exact ⟨by decide, rfl⟩
  obtain ⟨erased, c₁, h₁, h⟩ := bind_eq_some.1 h
  split at h
  · exact .inr (hfail h)
  rename_i he
  obtain rfl := not_ne_iff.1 he
  obtain ⟨programmed, c₂, h₂, h⟩ := bind_eq_some.1 h
  split at h
  · exact .inr (hfail h)
  rename_i hp
  obtain rfl := not_ne_iff.1 hp
  obtain ⟨⟨status, snapshot⟩, c₃, h₃, h⟩ := bind_eq_some.1 h
  simp only [pure_apply, Prod.mk.injEq, Option.some.injEq] at h
  obtain ⟨⟨rfl, rfl⟩, rfl⟩ := h
  by_cases hs : status = .ok
  · subst hs
    obtain ⟨hsnapshot, hvalid, hcells⟩ := readSnapshot_ok h₃
    have hslice : c₂.cells.slice (address ram.active.other) layout.size =
        layout.encode ram.snapshot := by
      rw [program_ok h₂, eraseSectors_ok h₁]
      exact slice_programmed_bank _ _ _
    rw [hslice, layout.decode_encode] at hsnapshot
    refine .inl ⟨rfl, by rw [hsnapshot]; rfl, hsnapshot ▸ hvalid, ?_⟩
    rw [load, hcells, hslice, layout.decode_encode]
  · exact .inr ⟨hs, if_neg hs⟩

/-- `save` when every command completes: the snapshot is in the bank, and in use unless it is no
valid one. -/
theorem save_calm (ram : Ram) (m : Cells) (log : List Command) :
    ∃ log', save ram ⟨m, {}, log⟩ =
      (some (verdict ram.snapshot, ⟨ram.snapshot,
        if verdict ram.snapshot = .ok then ram.active.other else ram.active⟩),
      ⟨programmed (address ram.active.other) (layout.encode ram.snapshot)
        (blank (address ram.active.other) bankSize m), {}, log'⟩) := by
  obtain ⟨log₁, herase⟩ := eraseSectors_calm (n := tlsTrustStoreBankSectors)
    (aligned ram.active.other) (address_le ram.active.other) m log []
  have hrange : inRange (address ram.active.other) (layout.encode ram.snapshot).length = true := by
    rw [layout.length_encode]
    exact inRange_address _
  obtain ⟨log₂, hprogram⟩ :=
    program_calm (blank (address ram.active.other) bankSize m) log₁ [] hrange
  have hread := readSnapshot_calm ram.active.other (programmed (address ram.active.other)
    (layout.encode ram.snapshot) (blank (address ram.active.other) bankSize m)) log₂
  rw [load, slice_programmed_bank, layout.decode_encode] at hread
  refine ⟨log₂, ?_⟩
  rw [save, bind_of_some herase, if_neg (by simp), programVerified]
  dsimp only
  rw [← bankSize, bind_of_some hprogram, if_neg (by simp), bind_of_some hread]
  rfl

/-- What `commitCandidate` returns: success with the stamped candidate stored and in use, or a
failure with the old snapshot read back. -/
theorem commit_cases {ram ram' : Ram} {c c' : Chip} {s : TrustStatus}
    (h : commitCandidate ram c = (some (s, ram'), c')) :
    (s = .ok ∧ ram' = ⟨stamp ram.snapshot, ram.active.other⟩ ∧
      isSnapshotValid (stamp ram.snapshot) = true ∧
      load c'.cells ram.active.other = stamp ram.snapshot) ∨
    (s ≠ .ok ∧ ram'.active = ram.active ∧
      (c.fates.ReadsSucceed → ram'.snapshot = load c.cells ram.active)) := by
  obtain ⟨⟨status, saved⟩, c₁, h₁, h⟩ := bind_eq_some.1 h
  dsimp only at h
  rcases save_cases h₁ with ⟨rfl, rfl, hvalid, hload⟩ | ⟨hne, hactive⟩
  · rw [if_pos rfl] at h
    simp only [pure_apply, Prod.mk.injEq, Option.some.injEq] at h
    obtain ⟨⟨rfl, rfl⟩, rfl⟩ := h
    exact .inl ⟨rfl, rfl, hvalid, hload⟩
  · rw [if_neg hne] at h
    obtain ⟨⟨status', snapshot⟩, c₂, h₂, h⟩ := bind_eq_some.1 h
    simp only [pure_apply, Prod.mk.injEq, Option.some.injEq] at h
    obtain ⟨⟨rfl, rfl⟩, rfl⟩ := h
    refine .inr ⟨by decide, hactive, fun hreads => ?_⟩
    -- The read back finds the bank in use as it was.
    have hsteps := driven_save { ram with snapshot := stamp ram.snapshot } |>.steps c
    rw [h₁] at hsteps
    obtain ⟨d, -, -, -, hd⟩ := readSnapshot_cases ram.active (hreads.after hsteps.fates)
    rw [hactive] at h₂
    rcases hd with hd | hd
    · rw [h₂] at hd
      simp only [Prod.mk.injEq, Option.some.injEq] at hd
      rw [hd.1.2]
      exact load_congr fun i hi => hsteps.outside i
        (Set.disjoint_left.1 (disjoint_other ram.active) hi)
    · rw [h₂] at hd
      simp at hd

/-- `commitCandidate` when every command completes. -/
theorem commit_calm (ram : Ram) (m : Cells) (log : List Command) :
    ∃ s ram' c', commitCandidate ram ⟨m, {}, log⟩ = (some (s, ram'), c') ∧
      load c'.cells ram.active.other = stamp ram.snapshot ∧
      (s = .ok ↔ isSnapshotValid (stamp ram.snapshot) = true) := by
  obtain ⟨log', hsave⟩ := save_calm { ram with snapshot := stamp ram.snapshot } m log
  have hload : load (programmed (address ram.active.other) (layout.encode (stamp ram.snapshot))
      (blank (address ram.active.other) bankSize m)) ram.active.other = stamp ram.snapshot := by
    rw [load, slice_programmed_bank, layout.decode_encode]
  rw [commitCandidate, bind_of_some hsave]
  dsimp only
  by_cases hv : isSnapshotValid (stamp ram.snapshot) = true
  · rw [if_pos (verdict_eq_ok.2 hv)]
    exact ⟨_, _, _, rfl, hload, by simp [hv]⟩
  · have hne : verdict (stamp ram.snapshot) ≠ .ok := fun h => hv (verdict_eq_ok.1 h)
    rw [if_neg hne, if_neg hne, bind_of_some (readSnapshot_calm ram.active _ _)]
    exact ⟨_, _, _, rfl, hload, by simp [hv]⟩

/-! ## Operations -/

/-- A commit of what an operation has made of the snapshot. -/
theorem commits_candidate {ram candidate : Ram} (hactive : candidate.active = ram.active)
    (hgen : candidate.snapshot.generation = ram.snapshot.generation) :
    store.Commits ram (stamp candidate.snapshot)
      (commitCandidate candidate >>= fun r => pure (decide (r.1 = .ok), r.2)) := by
  obtain ⟨snapshot, active⟩ := candidate
  obtain rfl : active = ram.active := hactive
  have hpure : ∀ r : TrustStatus × Ram, Driven (region ram.active.other)
      (pure (decide (r.1 = .ok), r.2)) := fun _ => .pure _
  -- What the commit returned, told from what the operation returns.
  have hret : ∀ {c c' : Chip} {ok : Bool} {ram' : Ram},
      (commitCandidate ⟨snapshot, ram.active⟩ >>= fun r => pure (decide (r.1 = .ok), r.2)) c =
        (some (ok, ram'), c') →
      ∃ s, commitCandidate ⟨snapshot, ram.active⟩ c = (some (s, ram'), c') ∧
        ok = decide (s = .ok) := fun h => by
    obtain ⟨⟨s, r⟩, c₁, h₁, h₂⟩ := bind_eq_some.1 h
    simp only [pure_apply, Prod.mk.injEq, Option.some.injEq] at h₂
    obtain ⟨⟨rfl, rfl⟩, rfl⟩ := h₂
    exact ⟨s, h₁, rfl⟩
  refine ⟨?_, ?_, fun c => ?_, fun c c' ram' h => ?_,
    fun c c' ram' hlive hreads h => ?_, fun c => ?_⟩
  · have hstamp : (stamp snapshot).generation = ram.snapshot.generation + 1 := by
      rw [← hgen]
      rfl
    change (stamp snapshot).generation.toNat = _
    rw [hstamp, UInt32.toNat_add]
    rfl
  · exact (driven_commit ⟨snapshot, ram.active⟩).bind hpure
  · obtain ⟨a, n, before, hm⟩ := erased_commit ⟨snapshot, ram.active⟩ c
    exact ⟨a, n, before, (log_bind hpure).subset hm⟩
  · obtain ⟨s, hs, hok⟩ := hret h
    rcases commit_cases hs with ⟨-, rfl, hvalid, hload⟩ | ⟨hne, -⟩
    · exact ⟨hvalid, hload, rfl, rfl⟩
    · simp [hne] at hok
  · obtain ⟨s, hs, hok⟩ := hret h
    rcases commit_cases hs with ⟨rfl, -⟩ | ⟨-, hactive', hsnap⟩
    · simp at hok
    · refine ⟨(hsnap hreads).trans ?_, hactive'⟩
      cases hlive with
      | stored _ hload => exact hload
      | fresh hlazy _ _ _ => cases hlazy
  · obtain ⟨s, ram', c', hs, hload, hiff⟩ := commit_calm ⟨snapshot, ram.active⟩ c.cells c.log
    refine ⟨_, _, _, bind_eq_some.2 ⟨_, _, hs, rfl⟩, hload, fun hfalse => ?_⟩
    rw [decide_eq_false_iff_not, hiff, Bool.not_eq_true] at hfalse
    exact hfalse

theorem shape_exec (op : Op) (ram : Ram) : store.Shape ram (exec op ram) := by
  have hidle : store.Shape ram (pure (false, ram)) := .idle false ram rfl rfl rfl
  have hrefused : ∀ status : TrustStatus,
      store.Shape ram (pure (decide (status = .ok), ram)) := fun status =>
    .idle _ ram rfl rfl rfl
  cases op with
  | add der mbed =>
    simp only [exec, apply, add]
    split
    · exact hidle
    · split
      · exact hrefused _
      · simp only [bind_assoc, pure_bind]
        exact .commits _ (commits_candidate rfl rfl)
  | replace id der mbed =>
    simp only [exec, apply, replace]
    split
    · exact hidle
    · split
      · exact hrefused _
      · exact .commits _ (commits_candidate rfl rfl)
  | delete id =>
    simp only [exec, apply, delete]
    split
    · exact hidle
    · exact .commits _ (commits_candidate rfl rfl)
  | reset => exact .commits _ (commits_candidate rfl rfl)

/-! ## Start-up -/

theorem magic_of_blank {m : Cells} {a : ℕ} (h : ∀ i, a ≤ i → i < a + 4 → m i = 0xFF) :
    u32.decode (m.slice a 4) = 0xFFFFFFFF := by
  have hslice : m.slice a 4 = Cells.slice (fun _ => 0xFF) a 4 := slice_congr h
  rw [hslice, slice_const]
  decide

/-- A bank without a header. -/
theorem isSnapshotValid_of_header {m : Cells} {x : Bank}
    (h : ∀ i, address x ≤ i → i < address x + 4 → m i = 0xFF) :
    isSnapshotValid (load m x) = false := by
  have hmagic : (load m x).magic =
      u32.decode ((((m.slice (address x) 8736).take 8732).take 4)) := rfl
  rw [take_slice _ _ (by decide), take_slice _ _ (by decide), magic_of_blank h] at hmagic
  simp [isSnapshotValid, hmagic, magic]

theorem isSnapshotValid_of_blank {m : Cells} {x : Bank} (h : ∀ i ∈ region x, m i = 0xFF) :
    isSnapshotValid (load m x) = false :=
  isSnapshotValid_of_header fun i hi hi' =>
    h i ⟨hi, hi'.trans (Nat.add_lt_add_left (by decide) _)⟩

/-- Power is lost in the second of the sectors that are erased. -/
def cutSecond : Fates := { erases := [.completes, .powerLost fun _ => 0] }

theorem steady_cutSecond : cutSecond.Steady := by
  constructor <;> simp [cutSecond, Fates.ReadsSucceed]

/-- What is then left of a bank: its first sector is blank. -/
def halfErased (x : Bank) (m : Cells) : Cells :=
  zeroed (address x + sectorSize) (blank (address x) sectorSize m)

theorem save_cut (ram : Ram) (m : Cells) : save ram ⟨m, cutSecond, []⟩ =
    (none, ⟨halfErased ram.active.other m, {},
      [.erase (address ram.active.other + sectorSize) sectorSize
        (blank (address ram.active.other) sectorSize m),
        .erase (address ram.active.other) sectorSize m]⟩) := by
  have hbound := address_le ram.active.other
  have haligned := aligned ram.active.other
  have hsize : bankSize = 3 * sectorSize := rfl
  have hpos : 0 < sectorSize := by decide
  have hfirst : eraseSector (address ram.active.other) ⟨m, cutSecond, []⟩ =
      (some .ok, ⟨blank (address ram.active.other) sectorSize m, cutErase,
        [.erase (address ram.active.other) sectorSize m]⟩) := by
    rw [eraseSector, if_neg (by omega)]
    rfl
  have hcut : ∀ m log, eraseSector (address ram.active.other + sectorSize) ⟨m, cutErase, log⟩ = _ :=
    eraseSector_cut (by rw [Nat.add_mod_right, haligned]) (by omega)
  refine bind_of_none ?_
  rw [tlsTrustStoreBankSectors, eraseSectors]
  refine (bind_of_some hfirst).trans ?_
  rw [if_neg (by simp), eraseSectors]
  exact bind_of_none (hcut _ _)

theorem isSnapshotValid_halfErased (x : Bank) (m : Cells) :
    isSnapshotValid (load (halfErased x m) x) = false := by
  have hsize : 4 ≤ sectorSize := by decide
  refine isSnapshotValid_of_header fun i hi hi' => ?_
  rw [halfErased, zeroed, overwrite_outside fun hmem => by have := hmem.1; omega]
  exact if_pos ⟨hi, by omega⟩

theorem halfErased_outside {x : Bank} (m : Cells) : ∀ i ∉ region x, halfErased x m i = m i := by
  intro i hi
  have hsize : bankSize = 3 * sectorSize := rfl
  rw [region, Set.mem_Ico] at hi
  rw [halfErased, zeroed, overwrite_outside fun h => by
    rw [Set.mem_Ico] at h
    omega]
  exact overwrite_outside fun h => by
    rw [Set.mem_Ico] at h
    omega

theorem isLegacySnapshotValid_of_blank {m : Cells} {a : ℕ}
    (h : ∀ i, a ≤ i → i < a + 4 → m i = 0xFF) :
    isLegacySnapshotValid (legacyLayout.decode (m.slice a legacyLayout.size)) = false := by
  have hmagic : (legacyLayout.decode (m.slice a legacyLayout.size)).magic =
      u32.decode ((((m.slice a 6556).take 6552).take 4)) := rfl
  rw [take_slice _ _ (by decide), take_slice _ _ (by decide), magic_of_blank h] at hmagic
  simp [isLegacySnapshotValid, hmagic, magic]

theorem length_defaultPemLines : defaultPemLines.map (fun line => (ascii line).length) =
    27 :: (List.replicate 29 64 ++ [40, 25]) := by
  iterate 32 apply List.cons_eq_cons.2 (And.intro (length_ascii_ofList _) ?_)
  rfl

theorem length_defaultPem : defaultPem.length = 1981 := by
  have hlines : defaultPem.length =
      ((defaultPemLines.map fun line => (ascii line).length).map (· + 1)).sum + 1 := by
    simp [defaultPem, List.length_flatMap, Function.comp_def]
  rw [hlines, length_defaultPemLines]
  decide

theorem wellFormed_default : defaultAnchor.wellFormed = true := by
  have hlength : defaultAnchor.derLength = 1981 := by
    rw [defaultAnchor, length_defaultPem]
    rfl
  have hsubject : defaultAnchor.subject.toList.contains 0 = true := by
    have h : defaultAnchor.subject = charArray subjectSize defaultSubject := rfl
    rw [h]
    decide +kernel
  rw [Anchor.wellFormed, hlength, hsubject]
  decide

theorem wellFormed_zero : zeroAnchor.wellFormed = true := by
  have h : zeroAnchor.occupied = 0 := rfl
  simp [Anchor.wellFormed, h]

theorem isSnapshotValid_stamp (s : Snapshot) :
    isSnapshotValid (stamp s) = s.anchors.toList.all Anchor.wellFormed := by
  have hcrc : (stamp s).crc = crcOf (stamp s) := rfl
  have hanchors : (stamp s).anchors = s.anchors := rfl
  simp only [isSnapshotValid, hcrc, hanchors, decide_true, Bool.and_true]
  simp [stamp]

/-- The compiled default is a valid snapshot. -/
theorem isSnapshotValid_default : isSnapshotValid (stamp default) = true := by
  have hanchors : default.anchors.toList =
      [defaultAnchor, zeroAnchor, zeroAnchor, zeroAnchor] := by
    rw [default, zero, Vector.toList_set, Vector.toList_replicate]
    rfl
  rw [isSnapshotValid_stamp, hanchors]
  simp [wellFormed_default, wellFormed_zero]

/-! ### A fresh store saves the default -/

theorem seeds_readSnapshot {x : Bank} {f : Status × Snapshot → FlashM (Status × Ram)} {c : Chip}
    (hreads : c.fates.ReadsSucceed)
    (hf : ∀ c', c'.cells = c.cells → c'.fates.ReadsSucceed →
      store.Seeds (f (verdict (load c.cells x), load c.cells x)) c') :
    store.Seeds (readSnapshot (address x) >>= f) c := by
  obtain ⟨d, hcells, hlog, hfates, hd⟩ := readSnapshot_cases x hreads
  refine Store.Seeds.after_reading (fun r c' h => ?_) fun r c' h => ?_
  · rcases hd with hd | hd <;> obtain ⟨-, rfl⟩ := Prod.mk.inj (hd.symm.trans h) <;>
      exact ⟨hcells, hlog, hfates⟩
  · rcases hd with hd | hd
    · obtain ⟨hr, rfl⟩ := Prod.mk.inj (hd.symm.trans h)
      obtain rfl := Option.some.inj hr
      exact hf _ hcells (hreads.after hfates)
    · cases hd.symm.trans h

/-- Committing a valid snapshot from the second bank on writes it to the first. -/
theorem commit_report {d : Snapshot} (hvalid : isSnapshotValid (stamp d) = true) {c c' : Chip}
    {r : Option (Status × Ram)}
    (h : (commitCandidate ⟨d, .b⟩ >>= fun r =>
      pure (if r.1 = .ok then .ok else .error, r.2)) c = (r, c')) :
    Steps (region .a) c c' ∧ Erased c'.log ∧
      (∀ ram, r = some (.ok, ram) → load c'.cells .a = stamp d ∧ ram = ⟨stamp d, .a⟩) ∧
      (c.fates.Steady → ∀ s ram, r = some (s, ram) → s = .ok) := by
  have hpure : ∀ (R : Set ℕ) (r : TrustStatus × Ram), Driven R
      (pure (if r.1 = .ok then Status.ok else .error, r.2)) := fun _ _ => .pure _
  have hdriven : Driven (region .a) (commitCandidate ⟨d, .b⟩ >>= fun r =>
      pure (if r.1 = .ok then Status.ok else .error, r.2)) :=
    (driven_commit ⟨d, .b⟩).bind (hpure _)
  have hsteps := hdriven.steps c
  rw [h] at hsteps
  refine ⟨hsteps, ?_, ?_, ?_⟩
  · obtain ⟨a, n, before, hm⟩ := erased_commit ⟨d, .b⟩ c
    have hlog := (log_bind (hpure Set.univ)).subset hm
    rw [h] at hlog
    exact ⟨a, n, before, hlog⟩
  · rintro ram rfl
    obtain ⟨⟨s, r⟩, c₁, hs, hret⟩ := bind_eq_some.1 h
    simp only [pure_apply, Prod.mk.injEq, Option.some.injEq] at hret
    obtain ⟨⟨hok, rfl⟩, rfl⟩ := hret
    rcases commit_cases hs with ⟨-, rfl, -, hload⟩ | ⟨hne, -⟩
    · exact ⟨hload, rfl⟩
    · rw [if_neg hne] at hok
      cases hok
  · rintro hsteady s ram rfl
    -- Nothing failed, so this is the run in which every command completes.
    have hcalm := hdriven.reliable c hsteady _ _ h
    obtain ⟨s', ram', c'', hs, -, hiff⟩ := commit_calm ⟨d, .b⟩ c.cells c.log
    have hrun : (commitCandidate ⟨d, .b⟩ >>= fun r =>
        pure (if r.1 = .ok then Status.ok else .error, r.2)) c.calm =
        (some (if s' = .ok then .ok else .error, ram'), c'') := bind_of_some hs
    rw [hcalm, hiff.2 hvalid, if_pos rfl] at hrun
    simp only [Prod.mk.injEq, Option.some.injEq] at hrun
    exact hrun.1.1

theorem seeds_commit (c : Chip) : store.Seeds (commitCandidate ⟨default, .b⟩ >>= fun r =>
    pure (if r.1 = .ok then .ok else .error, r.2)) c := by
  intro r c' h
  obtain ⟨hsteps, herased, hok, hsteady⟩ := commit_report isSnapshotValid_default h
  refine ⟨hsteps, .inr herased, fun ram hr => ?_, hsteady⟩
  obtain ⟨hload, rfl⟩ := hok ram hr
  have hvalid : store.valid store.factory = true := by
    have hv : store.valid = isSnapshotValid := rfl
    have hf : store.factory = stamp default := rfl
    rw [hv, hf]
    exact isSnapshotValid_default
  exact ⟨herased, hvalid, hload, rfl, rfl⟩

/-- Start-up of a fresh store finds no version-1 image to migrate. -/
theorem seeds_initLegacy {c : Chip} (hreads : c.fates.ReadsSucceed)
    (hblank : ∀ i ∈ region .b, c.cells i = 0xFF) : store.Seeds initLegacy c := by
  have hsize : legacyLayout.size = 6556 := by decide
  have hrange : ∀ {a}, a + 6556 ≤ capacityBytes → inRange a legacyLayout.size = true := fun h =>
    by rw [hsize]; exact inRange_of_le (by decide) h
  have hinvalid : ∀ {a : ℕ} {m : Cells}, m = c.cells → address .b ≤ a →
      a + 4 ≤ address .b + bankSize →
      isLegacySnapshotValid (legacyLayout.decode (m.slice a legacyLayout.size)) = false :=
    fun hm h h' => isLegacySnapshotValid_of_blank fun i hi hi' =>
      hm ▸ hblank i ⟨by omega, by omega⟩
  unfold initLegacy readDefault readLegacy
  simp only [bind_assoc, pure_bind]
  refine SectorStore.seeds_read (hrange (by decide)) hreads fun c₁ hcells₁ hreads₁ => ?_
  refine SectorStore.seeds_read (hrange (by decide)) hreads₁ fun c₂ hcells₂ hreads₂ => ?_
  have hfirst := hinvalid (a := tlsTrustStoreLegacyBankA) rfl (by decide) (by decide)
  have hsecond := hinvalid (a := tlsTrustStoreLegacyBankB) hcells₁ (by decide) (by decide)
  simp only [hfirst, hsecond, Bool.and_false, Bool.or_self, Bool.false_eq_true, if_false]
  exact seeds_commit c₂

/-! ### The newest snapshot -/

/-- The choice `init` makes is the newest bank. -/
theorem newest_eq (m : Cells) : store.newest m =
    if verdict (load m .a) = .ok ∧
        (verdict (load m .b) ≠ .ok ∨ (load m .a).generation ≥ (load m .b).generation) then
      some .a
    else if verdict (load m .b) = .ok then some .b
    else none := by
  have h : store.newest m =
      newest isSnapshotValid (fun s : Snapshot => s.generation.toNat) (load m) := rfl
  rw [h, newest]
  simp [verdict_eq_ok, UInt32.le_iff_toNat_le]

theorem driven_readLegacy (R : Set ℕ) (a : ℕ) : Driven R (readLegacy a) :=
  (driven_read _ _ _).bind fun _ => .pure _

theorem driven_initLegacy : Driven (region .a) initLegacy := by
  refine Driven.bind ?_ fun snapshot => (driven_commit ⟨snapshot, .b⟩).bind fun _ => .pure _
  refine (driven_readLegacy _ _).bind fun ⟨firstValid, first⟩ => ?_
  refine (driven_readLegacy _ _).bind fun ⟨secondValid, second⟩ => ?_
  dsimp only
  split
  · split
    · exact (driven_read _ _ _).bind fun _ => .pure _
    · exact .pure _
  · exact .pure _

theorem driven_init : Driven (region .a ∪ region .b) init := by
  refine (driven_readSnapshot _ _).bind fun ⟨firstStatus, first⟩ => ?_
  refine (driven_readSnapshot _ _).bind fun ⟨secondStatus, second⟩ => ?_
  dsimp only
  split
  · exact (driven_readSnapshot _ _).bind fun _ => .pure _
  · split
    · exact .pure _
    · exact driven_initLegacy.mono Set.subset_union_left

/-- Start-up takes the newest snapshot and writes nothing. -/
theorem init_loads {c c' : Chip} {x : Bank} {r : Option (Status × Ram)}
    (hnewest : store.newest c.cells = some x) (hreads : c.fates.ReadsSucceed)
    (h : init c = (r, c')) : c'.cells = c.cells ∧ ∀ s ram, r = some (s, ram) →
      s = .ok ∧ ram = ⟨load c.cells x, x⟩ := by
  rw [newest_eq] at hnewest
  have hlost : ∀ {d : Chip}, d.cells = c.cells → (none, d) = (r, c') →
      c'.cells = c.cells ∧ ∀ s ram, r = some (s, ram) →
        s = .ok ∧ ram = ⟨load c.cells x, x⟩ := fun hd h => by
    obtain ⟨rfl, rfl⟩ := Prod.mk.inj h
    exact ⟨hd, by simp⟩
  have hfound : ∀ {d : Chip}, d.cells = c.cells →
      (some (.ok, ⟨load c.cells x, x⟩), d) = (r, c') →
      c'.cells = c.cells ∧ ∀ s ram, r = some (s, ram) →
        s = .ok ∧ ram = ⟨load c.cells x, x⟩ := fun hd h => by
    obtain ⟨rfl, rfl⟩ := Prod.mk.inj h
    refine ⟨hd, fun s ram hr => ?_⟩
    obtain ⟨rfl, rfl⟩ := Prod.mk.inj (Option.some.inj hr)
    exact ⟨rfl, rfl⟩
  obtain ⟨c₁, hcells₁, -, hf₁, h₁ | h₁⟩ := readSnapshot_cases .a hreads
  swap
  · exact hlost hcells₁ ((bind_of_none h₁).symm.trans h)
  have hreads₁ := hreads.after hf₁
  obtain ⟨c₂, hcells₂, -, hf₂, h₂ | h₂⟩ := readSnapshot_cases .b hreads₁
  swap
  · exact hlost (hcells₂.trans hcells₁)
      (((bind_of_some h₁).trans (bind_of_none h₂)).symm.trans h)
  rw [hcells₁] at h₂ hcells₂
  have hrest := ((bind_of_some h₁).trans (bind_of_some h₂)).symm.trans h
  dsimp only at hrest
  split at hnewest
  · rename_i hchoice
    obtain rfl : Bank.a = x := Option.some.inj hnewest
    rw [if_pos hchoice] at hrest
    obtain ⟨c₃, hcells₃, -, -, h₃ | h₃⟩ := readSnapshot_cases .a (hreads₁.after hf₂)
    · rw [hcells₂, hchoice.1] at h₃
      exact hfound (hcells₃.trans hcells₂) ((bind_of_some h₃).symm.trans hrest)
    · exact hlost (hcells₃.trans hcells₂) ((bind_of_none h₃).symm.trans hrest)
  · rename_i hchoice
    rw [if_neg hchoice] at hrest
    split at hnewest
    · rename_i hsecond
      obtain rfl : Bank.b = x := Option.some.inj hnewest
      rw [if_pos hsecond] at hrest
      exact hfound hcells₂ hrest
    · cases hnewest

theorem seeds_init {c : Chip} (hinvalid : isSnapshotValid (load c.cells .a) = false)
    (hblank : ∀ i ∈ region .b, c.cells i = 0xFF) (hreads : c.fates.ReadsSucceed) :
    store.Seeds init c := by
  have hne : ∀ {s : Snapshot}, isSnapshotValid s = false → verdict s ≠ .ok := fun hs h => by
    rw [verdict_eq_ok, hs] at h
    cases h
  refine seeds_readSnapshot (x := .a) hreads fun c₁ hcells₁ hreads₁ => ?_
  refine seeds_readSnapshot (x := .b) hreads₁ fun c₂ hcells₂ hreads₂ => ?_
  have hb : isSnapshotValid (load c₁.cells .b) = false :=
    isSnapshotValid_of_blank (hcells₁ ▸ hblank)
  dsimp only
  rw [if_neg fun h => hne hinvalid h.1, if_neg (hne hb)]
  exact seeds_initLegacy hreads₂ (hcells₂ ▸ hcells₁ ▸ hblank)

/-- **The trust store follows the two-bank scheme.** -/
theorem lawful : store.Lawful where
  disjoint := disjoint_region
  load_congr := load_congr
  fresh_erased := ⟨isSnapshotValid_of_blank fun _ _ => rfl, fun _ _ => rfl⟩
  fresh_valid h x := by
    cases x with
    | a => exact h.1
    | b => exact isSnapshotValid_of_blank h.2
  factory_generation := rfl
  init_driven := driven_init
  loads {c c' x r} hnewest hreads h := by
    obtain ⟨hcells, hram⟩ := init_loads hnewest hreads h
    refine ⟨hcells, fun s ram hr => ?_⟩
    obtain ⟨rfl, rfl⟩ := hram s ram hr
    exact ⟨rfl, rfl, rfl⟩
  loads_factory h := nomatch h
  seeds _ hfresh hreads := seeds_init hfresh.1 hfresh.2 hreads
  shape := shape_exec

end HealthCheck.TlsTrustStore
