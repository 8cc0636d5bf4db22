import HealthCheck.Lib.Run
import HealthCheck.TlsTrustStoreProof

/-!
# The migration of version-1 trust anchors

`TlsTrustStore_Init` reads a version-1 image into the start of `trustStoreSnapshot` and expands
it there, moving the anchors up by one slot from the last to the first. The old banks lie inside
the new second bank, the new image goes to the first.

* `initInPlace_eq`: the work in place comes to `init`, whatever was in the buffer;
* `migration_safe`: however often power cuts the migration, the old banks stay as they were, and
  the first start-up that returns has the new default and the old anchors.
-/

namespace HealthCheck.TlsTrustStore

open Nor hiding read driven_read read_ok read_cases
open CString FlashLayout Memory Run TwoBank W25q64

/-! ## In place -/

/-- Bytes that were read to the start of a buffer. -/
def readInto (bytes : Bytes) (buffer : Cells) : Cells := fun i => bytes.getD i (buffer i)

/-- The assignment of `n` bytes at `source` to those at `target`. -/
def assign (target source n : ℕ) (buffer : Cells) : Cells := fun i =>
  if target ≤ i ∧ i < target + n then buffer (i - target + source) else buffer i

/-- Where an anchor lies in a snapshot of either version. -/
def anchorOffset (index : ℕ) : ℕ := 12 + index * anchorLayout.size

/-- `trustStoreSnapshot`, its bytes being `buffer`. -/
def snapshotOf (buffer : Cells) : Snapshot := layout.decode (buffer.slice 0 layout.size)

/-- `*legacy`, which points to the same bytes. -/
def legacyOf (buffer : Cells) : LegacySnapshot :=
  legacyLayout.decode (buffer.slice 0 legacyLayout.size)

/-- A round of the loop in `TlsTrustStore_Init`:
`trustStoreSnapshot.anchors[index] = legacy->anchors[index - 1U]`. -/
def moveAnchor (index : ℕ) : Cells → Cells :=
  assign (anchorOffset index) (anchorOffset (index - 1)) anchorLayout.size

/-- The loop. -/
def moveAnchors (buffer : Cells) : Cells := moveAnchor 1 (moveAnchor 2 (moveAnchor 3 buffer))

theorem maxAnchors_pos : 0 < maxAnchors := by decide

/-- `TlsTrustStore_Init` without a version-2 image, up to the commit. `buffer` is what the reads of
the two banks left in `trustStoreSnapshot`. -/
def readDefaultInPlace (buffer : Cells) : FlashM Snapshot := do
  let (firstStatus, bytes) ← read tlsTrustStoreLegacyBankA legacyLayout.size
  let buffer := readInto bytes buffer
  let firstValid := firstStatus = .ok && isLegacySnapshotValid (legacyOf buffer)
  let firstGeneration := (legacyOf buffer).generation
  let (secondStatus, bytes) ← read tlsTrustStoreLegacyBankB legacyLayout.size
  let buffer := readInto bytes buffer
  let secondValid := secondStatus = .ok && isLegacySnapshotValid (legacyOf buffer)
  let secondGeneration := (legacyOf buffer).generation
  let snapshot ←
    if firstValid || secondValid then do
      let buffer ←
        if firstValid && (!secondValid || firstGeneration ≥ secondGeneration) then do
          let (_, bytes) ← read tlsTrustStoreLegacyBankA legacyLayout.size
          pure (readInto bytes buffer)
        else pure buffer
      pure { snapshotOf (moveAnchors buffer) with generation := (legacyOf buffer).generation }
    else pure zero
  pure { snapshot with anchors := snapshot.anchors.set 0 defaultAnchor maxAnchors_pos }

/-- `TlsTrustStore_Init` with all its work in `trustStoreSnapshot`. -/
def initInPlace : FlashM (Status × Ram) := do
  let (firstStatus, first) ← readSnapshot tlsTrustStoreBankA
  let (secondStatus, second) ← readSnapshot tlsTrustStoreBankB
  if firstStatus = .ok ∧ (secondStatus ≠ .ok ∨ first.generation ≥ second.generation) then do
    let (status, snapshot) ← readSnapshot tlsTrustStoreBankA
    pure (status, ⟨snapshot, .a⟩)
  else if secondStatus = .ok then pure (.ok, ⟨second, .b⟩)
  else do
    let snapshot ← readDefaultInPlace fun i => (layout.encode second).getD i 0
    let (status, ram) ← commitCandidate ⟨snapshot, .b⟩
    pure (if status = .ok then .ok else .error, ram)

theorem slice_readInto {bytes : Bytes} {n : ℕ} (h : bytes.length = n) (buffer : Cells) :
    (readInto bytes buffer).slice 0 n = bytes := by
  subst h
  have hcells : ∀ i, 0 ≤ i → i < 0 + bytes.length →
      readInto bytes buffer i = programmed 0 bytes (blank 0 bytes.length buffer) i := by
    intro i hi hi'
    have hblank : blank 0 bytes.length buffer i = 0xFF := blank_apply hi hi'
    simp only [Nat.zero_add] at hi'
    simp only [readInto, programmed, hblank, Nat.zero_add, hi', hi, and_self, if_true, Nat.sub_zero]
    rw [List.getD_eq_getElem _ _ hi', List.getD_eq_getElem _ _ hi']
    exact UInt8.neg_one_and.symm
  rw [slice_congr hcells]
  exact slice_programmed_blank buffer (Nat.le_refl _)

theorem legacyOf_readInto {bytes : Bytes} (h : bytes.length = legacyLayout.size)
    (buffer : Cells) : legacyOf (readInto bytes buffer) = legacyLayout.decode bytes := by
  rw [legacyOf, slice_readInto h]

theorem slice_assign (target source n : ℕ) (buffer : Cells) :
    (assign target source n buffer).slice target n = buffer.slice source n := by
  refine List.ext_getElem (by simp) fun i hi hi' => ?_
  rw [getElem_slice, getElem_slice]
  rw [length_slice] at hi
  have hinside : target ≤ target + i ∧ target + i < target + n := by omega
  rw [assign, if_pos hinside, Nat.add_sub_cancel_left, Nat.add_comm]

/-- An assignment leaves the bytes in front of it and behind it alone. -/
theorem slice_assign_outside {target source n a k : ℕ} (buffer : Cells)
    (h : a + k ≤ target ∨ target + n ≤ a) :
    (assign target source n buffer).slice a k = buffer.slice a k :=
  slice_congr fun i hi hi' => if_neg (by omega)

/-- An element of an array that lies in a buffer. -/
theorem getElem_elements {α : Type} (A : Layout α) (buffer : Cells) (a : ℕ) {n i : ℕ}
    (h : i < (elements A n (buffer.slice a (n * A.size))).length) :
    (elements A n (buffer.slice a (n * A.size)))[i] =
      A.decode (buffer.slice (a + i * A.size) A.size) := by
  induction n generalizing a i with
  | zero => exact absurd h (Nat.not_lt_zero i)
  | succ n ih =>
    have hsize : (n + 1) * A.size - A.size = n * A.size := by
      rw [Nat.add_mul, Nat.one_mul, Nat.add_sub_cancel]
    have hle : A.size ≤ (n + 1) * A.size := Nat.le_mul_of_pos_left _ n.succ_pos
    simp only [elements, take_slice _ _ hle, drop_slice, hsize]
    cases i with
    | zero => simp
    | succ i =>
      rw [List.getElem_cons_succ, ih, Nat.add_mul, Nat.one_mul, Nat.add_assoc,
        Nat.add_comm A.size]

theorem getElem_snapshotOf (buffer : Cells) {i : ℕ} (h : i < maxAnchors) :
    (snapshotOf buffer).anchors[i] =
      anchorLayout.decode (buffer.slice (anchorOffset i) anchorLayout.size) := by
  have hbody : (snapshotOf buffer).anchors = (array anchorLayout maxAnchors).decode
      (((((buffer.slice 0 8736).take 8732).drop 4).drop 2).drop 2 |>.drop 4) := rfl
  rw [take_slice _ _ (by decide)] at hbody
  simp only [drop_slice] at hbody
  simp only [hbody, array, Vector.getElem_mk, List.getElem_toArray]
  exact getElem_elements anchorLayout buffer 12 _

theorem getElem_legacyOf (buffer : Cells) {i : ℕ} (h : i < 3) :
    (legacyOf buffer).anchors[i] =
      anchorLayout.decode (buffer.slice (anchorOffset i) anchorLayout.size) := by
  have hbody : (legacyOf buffer).anchors = (array anchorLayout 3).decode
      (((((buffer.slice 0 6556).take 6552).drop 4).drop 2).drop 2 |>.drop 4) := rfl
  rw [take_slice _ _ (by decide)] at hbody
  simp only [drop_slice] at hbody
  simp only [hbody, array, Vector.getElem_mk, List.getElem_toArray]
  exact getElem_elements anchorLayout buffer 12 _

theorem anchorOffset_succ (i : ℕ) : anchorOffset (i + 1) = anchorOffset i + anchorLayout.size := by
  rw [anchorOffset, anchorOffset, Nat.add_mul, Nat.one_mul, Nat.add_assoc]

/-- No anchor is overwritten before it has been moved. -/
theorem slice_moveAnchors (buffer : Cells) {i : ℕ} (h : i < 3) :
    (moveAnchors buffer).slice (anchorOffset (i + 1)) anchorLayout.size =
      buffer.slice (anchorOffset i) anchorLayout.size := by
  have hmoved : ∀ (index : ℕ) (buffer : Cells),
      (moveAnchor (index + 1) buffer).slice (anchorOffset (index + 1)) anchorLayout.size =
        buffer.slice (anchorOffset index) anchorLayout.size := fun _ _ => slice_assign ..
  have hkept : ∀ {index k : ℕ} (buffer : Cells), k ≠ index + 1 →
      (moveAnchor (index + 1) buffer).slice (anchorOffset k) anchorLayout.size =
        buffer.slice (anchorOffset k) anchorLayout.size := by
    intro index k buffer hne
    refine slice_assign_outside _ ?_
    rcases Nat.lt_or_gt_of_ne hne with hlt | hgt
    · refine .inl ?_
      rw [← anchorOffset_succ]
      exact Nat.add_le_add_left (Nat.mul_le_mul_right _ hlt) _
    · refine .inr ?_
      rw [← anchorOffset_succ]
      exact Nat.add_le_add_left (Nat.mul_le_mul_right _ hgt) _
  unfold moveAnchors
  obtain rfl | rfl | rfl : i = 0 ∨ i = 1 ∨ i = 2 := by omega
  · rw [hmoved, hkept _ (by decide), hkept _ (by decide)]
  · rw [hkept _ (by decide), hmoved, hkept _ (by decide)]
  · rw [hkept _ (by decide), hkept _ (by decide), hmoved]

/-- What `TlsTrustStore_Init` makes of a version-1 image in the buffer. -/
def expandInPlace (buffer : Cells) : Snapshot :=
  { snapshotOf (moveAnchors buffer) with
    generation := (legacyOf buffer).generation
    anchors := (snapshotOf (moveAnchors buffer)).anchors.set 0 defaultAnchor maxAnchors_pos }

theorem anchors_expandInPlace (buffer : Cells) :
    (expandInPlace buffer).anchors = (expandLegacy (legacyOf buffer)).anchors := by
  have hmoved : ∀ i (h : i < 3) (h' : i + 1 < maxAnchors),
      (snapshotOf (moveAnchors buffer)).anchors[i + 1] = (legacyOf buffer).anchors[i] := by
    intro i h h'
    rw [getElem_snapshotOf _ h', getElem_legacyOf _ h, slice_moveAnchors _ h]
  refine Vector.ext fun i hi => ?_
  have hset : (expandInPlace buffer).anchors[i] =
      if 0 = i then defaultAnchor else (snapshotOf (moveAnchors buffer)).anchors[i] :=
    Vector.getElem_set (by decide) hi
  rw [hset]
  obtain rfl | rfl | rfl | rfl : i = 0 ∨ i = 1 ∨ i = 2 ∨ i = 3 := by
    have hle : i < 4 := hi
    omega
  · rfl
  · exact hmoved 0 (by decide) (by decide)
  · exact hmoved 1 (by decide) (by decide)
  · exact hmoved 2 (by decide) (by decide)

/-- A commit writes its own header. -/
theorem stamp_congr {s t : Snapshot} (hgeneration : s.generation = t.generation)
    (hanchors : s.anchors = t.anchors) : stamp s = stamp t := by
  simp only [stamp, hgeneration, hanchors, crcOf, Snapshot.body]

theorem commitCandidate_congr {s t : Snapshot} (h : stamp s = stamp t) (x : Bank) :
    commitCandidate ⟨s, x⟩ = commitCandidate ⟨t, x⟩ := by
  simp only [commitCandidate, h]

theorem bind_congr_of_returns {α β : Type} {x : FlashM α} {f g : α → FlashM β}
    (h : ∀ c a c', x c = (some a, c') → f a = g a) : x >>= f = x >>= g := by
  funext c
  rcases hx : x c with ⟨_ | a, c'⟩
  · rw [bind_of_none hx, bind_of_none hx]
  · rw [bind_of_some hx, bind_of_some hx, h c a c' hx]

/-- A read of a version-1 bank that returns has filled its part of the buffer. -/
theorem length_of_read {a : ℕ} (h : inRange a legacyLayout.size = true) {c c' : Chip}
    {status : Status} {bytes : Bytes}
    (hc : read a legacyLayout.size c = (some (status, bytes), c')) :
    bytes.length = legacyLayout.size := by
  obtain ⟨-, ⟨-, -, rfl⟩ | ⟨-, -, _, _, -, rfl⟩⟩ := read_returns h hc <;> exact length_slice ..

theorem inRange_legacyBankA : inRange tlsTrustStoreLegacyBankA legacyLayout.size = true := by
  decide

theorem inRange_legacyBankB : inRange tlsTrustStoreLegacyBankB legacyLayout.size = true := by
  decide

/-- The migration in place commits what `initLegacy` commits, whatever was in the buffer. -/
theorem readDefaultInPlace_commit {β : Type} (buffer : Cells)
    (finish : TrustStatus × Ram → FlashM β) :
    (readDefaultInPlace buffer >>= fun snapshot => commitCandidate ⟨snapshot, .b⟩ >>= finish) =
      readDefault >>= fun snapshot => commitCandidate ⟨snapshot, .b⟩ >>= finish := by
  unfold readDefaultInPlace readDefault readLegacy
  simp only [bind_assoc, pure_bind]
  refine bind_congr_of_returns fun c ⟨firstStatus, first⟩ c' hfirst => ?_
  refine bind_congr_of_returns fun c ⟨secondStatus, second⟩ c' hsecond => ?_
  simp only [legacyOf_readInto (length_of_read inRange_legacyBankA hfirst),
    legacyOf_readInto (length_of_read inRange_legacyBankB hsecond)]
  split_ifs
  · simp only [bind_assoc, pure_bind]
    refine bind_congr_of_returns fun c ⟨status, third⟩ c' hthird => ?_
    have hanchors := anchors_expandInPlace (readInto third (readInto second (readInto first buffer)))
    have hthird' := length_of_read inRange_legacyBankA hthird
    rw [legacyOf_readInto hthird'] at hanchors ⊢
    refine congrArg (· >>= finish) (commitCandidate_congr ?_ .b)
    exact stamp_congr rfl hanchors
  · simp only [pure_bind]
    have hanchors := anchors_expandInPlace (readInto second (readInto first buffer))
    rw [legacyOf_readInto (length_of_read inRange_legacyBankB hsecond)] at hanchors
    refine congrArg (· >>= finish) (commitCandidate_congr ?_ .b)
    exact stamp_congr rfl hanchors
  · rfl

/-- Start-up in place is `init`. -/
theorem initInPlace_eq : initInPlace = init := by
  unfold initInPlace init initLegacy
  simp only [readDefaultInPlace_commit]

/-! ## What is migrated -/

/-- The address of a version-1 bank. -/
def legacyAddress : Bank → ℕ
  | .a => tlsTrustStoreLegacyBankA
  | .b => tlsTrustStoreLegacyBankB

/-- The cells of a version-1 bank, which is two sectors long. -/
def legacyRegion (x : Bank) : Set ℕ :=
  Set.Ico (legacyAddress x) (legacyAddress x + 2 * sectorSize)

/-- The image in a version-1 bank. -/
def legacyLoad (m : Cells) (x : Bank) : LegacySnapshot :=
  legacyLayout.decode (m.slice (legacyAddress x) legacyLayout.size)

/-- The newest valid version-1 image. -/
def newestLegacy (m : Cells) : Option LegacySnapshot :=
  (newest isLegacySnapshotValid (fun s => s.generation.toNat) (legacyLoad m)).map (legacyLoad m)

/-- The new default anchor and the three old slots, one generation on. -/
structure Migrated (legacy : LegacySnapshot) (s : Snapshot) : Prop where
  default : s.anchors[0] = defaultAnchor
  first : s.anchors[1] = legacy.anchors.get 0
  second : s.anchors[2] = legacy.anchors.get 1
  third : s.anchors[3] = legacy.anchors.get 2
  generation : s.generation = legacy.generation + 1

theorem migrated_stamp (legacy : LegacySnapshot) :
    Migrated legacy (stamp (expandLegacy legacy)) :=
  ⟨rfl, rfl, rfl, rfl, rfl⟩

theorem legacyRegion_outside {x : Bank} {i : ℕ} (h : i ∈ legacyRegion x) : i ∉ region .a := by
  have hend : address .a + bankSize = tlsTrustStoreBankB := by decide
  have hbegin : tlsTrustStoreBankB ≤ legacyAddress x := by cases x <;> decide
  intro hi
  simp only [legacyRegion, region, Set.mem_Ico, hend] at h hi
  omega

theorem legacyLoad_congr {m m' : Cells} {x : Bank} (h : ∀ i ∈ legacyRegion x, m' i = m i) :
    legacyLoad m' x = legacyLoad m x := by
  have hfits : legacyLayout.size ≤ 2 * sectorSize := by decide
  rw [legacyLoad, legacyLoad, slice_congr fun i hi hi' => h i ⟨hi, by omega⟩]

theorem newestLegacy_congr {m m' : Cells} (h : ∀ i ∉ region .a, m' i = m i) :
    newestLegacy m' = newestLegacy m := by
  have hload : legacyLoad m' = legacyLoad m := funext fun x =>
    legacyLoad_congr fun i hi => h i (legacyRegion_outside hi)
  rw [newestLegacy, newestLegacy, hload]

theorem inRange_legacyAddress (x : Bank) :
    inRange (legacyAddress x) legacyLayout.size = true := by cases x <;> decide

theorem observes_readLegacy (m : Cells) (x : Bank) : Observes (readLegacy (legacyAddress x)) m
    (isLegacySnapshotValid (legacyLoad m x), legacyLoad m x) := by
  refine (observes_read (inRange_legacyAddress x) m).bind ?_
  simp only [decide_true, Bool.true_and]
  exact .pure _ m

/-- Which bank has the newest version-1 image, by the test of `readDefault`. -/
theorem newestLegacy_cases {m : Cells} {legacy : LegacySnapshot} (h : newestLegacy m = some legacy) :
    ((isLegacySnapshotValid (legacyLoad m .a) && (!isLegacySnapshotValid (legacyLoad m .b) ||
        decide ((legacyLoad m .a).generation ≥ (legacyLoad m .b).generation))) = true ∧
      isLegacySnapshotValid (legacyLoad m .a) = true ∧ legacy = legacyLoad m .a) ∨
    (¬(isLegacySnapshotValid (legacyLoad m .a) && (!isLegacySnapshotValid (legacyLoad m .b) ||
        decide ((legacyLoad m .a).generation ≥ (legacyLoad m .b).generation))) = true ∧
      isLegacySnapshotValid (legacyLoad m .b) = true ∧ legacy = legacyLoad m .b) := by
  simp only [newestLegacy, newest, ← UInt32.le_iff_toNat_le] at h
  split_ifs at h with hfirst hsecond
  · exact .inl ⟨hfirst, (Bool.and_eq_true_iff.mp hfirst).1, (Option.some.inj h).symm⟩
  · exact .inr ⟨hfirst, hsecond, (Option.some.inj h).symm⟩
  · cases h

/-- What `readDefault` finds is the newest version-1 image. -/
theorem observes_readDefault {m : Cells} {legacy : LegacySnapshot}
    (h : newestLegacy m = some legacy) : Observes readDefault m (expandLegacy legacy) := by
  refine (observes_readLegacy m .a).bind ((observes_readLegacy m .b).bind ?_)
  dsimp only
  have hcases := newestLegacy_cases h
  cases hcases with
  | inl hfirst =>
    -- the first bank is read again
    rw [if_pos (by simp [hfirst.2.1]), if_pos hfirst.1, hfirst.2.2]
    exact (observes_read inRange_legacyBankA m).bind (.pure _ m)
  | inr hsecond =>
    rw [if_pos (by simp [hsecond.2.1]), if_neg hsecond.1, hsecond.2.2]
    exact .pure _ m

theorem observes_readSnapshot (m : Cells) (x : Bank) :
    Observes (readSnapshot (address x)) m (verdict (load m x), load m x) := by
  rintro c rfl hreads
  exact readSnapshot_cases x hreads

/-! ## Cut by power losses -/

/-- The end of `initLegacy` for what it commits. -/
def commitDefault (s : Snapshot) : FlashM (Status × Ram) :=
  commitCandidate ⟨s, .b⟩ >>= fun r => pure (if r.1 = .ok then .ok else .error, r.2)

/-- Without a version-2 image start-up is cut off reading, or comes to commit the expanded
version-1 image. -/
theorem init_migrates {c c' : Chip} {r : Option (Status × Ram)} {legacy : LegacySnapshot}
    (hinvalid : ∀ x, isSnapshotValid (load c.cells x) = false)
    (hlegacy : newestLegacy c.cells = some legacy) (hreads : c.fates.ReadsSucceed)
    (h : init c = (r, c')) : (r = none ∧ c'.cells = c.cells) ∨
      ∃ c₁, c₁.cells = c.cells ∧ c.fates.After c₁.fates ∧
        commitDefault (expandLegacy legacy) c₁ = (r, c') := by
  have hne : ∀ x, verdict (load c.cells x) ≠ .ok := fun x hx => by
    rw [verdict_eq_ok, hinvalid x] at hx
    cases hx
  rcases (observes_readSnapshot c.cells .a).cases rfl hreads h with
    ⟨hr, hcells, -⟩ | ⟨c₁, hcells₁, -, hf₁, h₁⟩
  · exact .inl ⟨hr, hcells⟩
  rcases (observes_readSnapshot c.cells .b).cases hcells₁ (hreads.after hf₁) h₁ with
    ⟨hr, hcells, -⟩ | ⟨c₂, hcells₂, -, hf₂, h₂⟩
  · exact .inl ⟨hr, hcells⟩
  have hf₂ := hf₁.trans hf₂
  dsimp only at h₂
  rw [if_neg fun hfirst => hne .a hfirst.1, if_neg (hne .b)] at h₂
  rcases (observes_readDefault hlegacy).cases hcells₂ (hreads.after hf₂) h₂ with
    ⟨hr, hcells, -⟩ | ⟨c₃, hcells₃, -, hf₃, h₃⟩
  · exact .inl ⟨hr, hcells⟩
  exact .inr ⟨c₃, hcells₃, hf₂.trans hf₃, h₃⟩

/-- The cells behind a start-up. -/
def boot (m : Cells) (fates : Fates) : Cells := (initInPlace ⟨m, fates, []⟩).2.cells

/-- Power is lost during `TlsTrustStore_Init`, and a torn bank fails validation. -/
def Cut (m : Cells) (fates : Fates) : Prop :=
  fates.Steady ∧ (initInPlace ⟨m, fates, []⟩).1 = none ∧
    Torn (S := store) m (boot m fates) (boot m {})

/-- The migration of `legacy` on its way from `m`: only the first bank has changed, and it holds
the complete new image or nothing valid. -/
structure Migrating (m : Cells) (legacy : LegacySnapshot) (m' : Cells) : Prop where
  outside : ∀ i ∉ region .a, m' i = m i
  complete : isSnapshotValid (load m' .a) = true → load m' .a = stamp (expandLegacy legacy)

section Migration

variable {m : Cells} {legacy : LegacySnapshot}
  (hinvalid : ∀ x, isSnapshotValid (load m x) = false)
  (hlegacy : newestLegacy m = some legacy)
  (hanchors : ∀ a ∈ legacy.anchors.toList, a.wellFormed = true)
include hinvalid hlegacy hanchors

omit hinvalid hlegacy in
theorem isSnapshotValid_expandLegacy : isSnapshotValid (stamp (expandLegacy legacy)) = true := by
  have hlist : (expandLegacy legacy).anchors.toList =
      [defaultAnchor, legacy.anchors[0], legacy.anchors[1], legacy.anchors[2]] := rfl
  have hmem : ∀ i (h : i < 3), legacy.anchors[i].wellFormed = true := fun i h =>
    hanchors _ (Vector.mem_toList_iff.mpr (Vector.getElem_mem h))
  rw [isSnapshotValid_stamp, hlist]
  simp only [List.all_cons, List.all_nil, wellFormed_default, hmem, Bool.and_self]

omit hlegacy hanchors in
theorem Migrating.second_invalid {m' : Cells} (h : Migrating m legacy m') :
    isSnapshotValid (load m' .b) = false := by
  rw [load_congr fun i hi => h.outside i fun hi' =>
    Set.disjoint_left.mp disjoint_region hi' hi]
  exact hinvalid .b

/-- A start-up on the way, however it ends. -/
theorem Migrating.init_cases {m' : Cells} (h : Migrating m legacy m') {fates : Fates}
    (hsteady : fates.Steady) {log : List Command} {r : Option (Status × Ram)} {c : Chip}
    (hinit : init ⟨m', fates, log⟩ = (r, c)) :
    (∀ i ∉ region .a, c.cells i = m i) ∧
      ∀ status ram, r = some (status, ram) → status = .ok ∧
        ram = ⟨stamp (expandLegacy legacy), .a⟩ ∧
        load c.cells .a = stamp (expandLegacy legacy) := by
  have hsecond := h.second_invalid hinvalid
  by_cases hfirst : isSnapshotValid (load m' .a) = true
  · -- the new image is complete
    have hnewest : store.newest m' = some .a := by
      have hother : verdict (load m' .b) ≠ .ok := fun hb => by
        rw [verdict_eq_ok, hsecond] at hb
        cases hb
      rw [newest_eq, if_pos ⟨verdict_eq_ok.mpr hfirst, .inl hother⟩]
    obtain ⟨hcells, hram⟩ := init_loads (c := ⟨m', fates, log⟩) hnewest hsteady.reads hinit
    refine ⟨fun i hi => (congrFun hcells i).trans (h.outside i hi), fun status ram hr => ?_⟩
    obtain ⟨hok, rfl⟩ := hram status ram hr
    have hload : load m' .a = stamp (expandLegacy legacy) := h.complete hfirst
    rw [hcells]
    exact ⟨hok, congrArg (Ram.mk · .a) hload, hload⟩
  · have hinvalid' : ∀ x, isSnapshotValid (load m' x) = false := fun x => by
      cases x with
      | a => exact Bool.eq_false_iff.mpr hfirst
      | b => exact hsecond
    rcases init_migrates (c := ⟨m', fates, log⟩) hinvalid'
      ((newestLegacy_congr h.outside).trans hlegacy) hsteady.reads hinit with
      ⟨rfl, hcells⟩ | ⟨c₁, hcells₁, hf₁, hcommit⟩
    · exact ⟨fun i hi => (congrFun hcells i).trans (h.outside i hi), nofun⟩
    · obtain ⟨hsteps, -, hdone, hok⟩ :=
        commit_report (isSnapshotValid_expandLegacy hanchors) hcommit
      refine ⟨fun i hi => ?_, fun status ram hr => ?_⟩
      · exact (hsteps.outside i hi).trans ((congrFun hcells₁ i).trans (h.outside i hi))
      · have hstatus := hok (hsteady.after hf₁) status ram hr
        obtain ⟨hload, hram⟩ := hdone ram (hstatus ▸ hr)
        exact ⟨hstatus, hram, hload⟩

/-- A start-up that is cut off leaves the migration on its way. -/
theorem Migrating.cut {m' : Cells} (h : Migrating m legacy m') {fates : Fates}
    (hcut : Cut m' fates) : Migrating m legacy (boot m' fates) := by
  obtain ⟨hsteady, -, htorn⟩ := hcut
  have hboot : ∀ fates, init ⟨m', fates, []⟩ =
      ((initInPlace ⟨m', fates, []⟩).1, (initInPlace ⟨m', fates, []⟩).2) := fun fates => by
    rw [initInPlace_eq]
  refine ⟨(h.init_cases hinvalid hlegacy hanchors hsteady (hboot fates)).1, fun hvalid => ?_⟩
  rcases htorn .a hvalid with hold | hdone
  · have hold : load (boot m' fates) .a = load m' .a := hold
    rw [hold] at hvalid ⊢
    exact h.complete hvalid
  · obtain ⟨⟨status, ram⟩, c, hreturns⟩ := driven_init.returns ⟨m', {}, []⟩ rfl
    have hload := ((h.init_cases hinvalid hlegacy hanchors Fates.steady_nil hreturns).2
      status ram rfl).2.2
    have hcells : boot m' {} = c.cells := by
      rw [boot, initInPlace_eq, hreturns]
    exact hdone.trans (hcells ▸ hload)

end Migration

/-! A start-up that loses power while it erases the first bank. -/

section Cuts

variable {m : Cells} {legacy : LegacySnapshot}
  (hinvalid : ∀ x, isSnapshotValid (load m x) = false) (hlegacy : newestLegacy m = some legacy)
include hinvalid hlegacy

omit hinvalid in
/-- While no read fails. -/
theorem readDefault_of_reads_nil {c : Chip} (hcells : c.cells = m) (hreads : c.fates.reads = []) :
    readDefault c = (some (expandLegacy legacy), c) := by
  subst hcells
  have hread : ∀ x, read (legacyAddress x) legacyLayout.size c = _ := fun x =>
    read_of_reads_nil (inRange_legacyAddress x) hreads
  have hfirst : readLegacy tlsTrustStoreLegacyBankA c =
      (some (isLegacySnapshotValid (legacyLoad c.cells .a), legacyLoad c.cells .a), c) :=
    bind_of_some (hread .a)
  have hsecond : readLegacy tlsTrustStoreLegacyBankB c =
      (some (isLegacySnapshotValid (legacyLoad c.cells .b), legacyLoad c.cells .b), c) :=
    bind_of_some (hread .b)
  rw [readDefault, bind_of_some hfirst]
  dsimp only
  rw [bind_of_some hsecond]
  dsimp only
  have hcases := newestLegacy_cases hlegacy
  cases hcases with
  | inl hnewest =>
    rw [if_pos (by simp [hnewest.2.1]), if_pos hnewest.1, hnewest.2.2]
    exact bind_of_some (hread .a)
  | inr hnewest =>
    rw [if_pos (by simp [hnewest.2.1]), if_neg hnewest.1, hnewest.2.2]
    rfl

theorem init_cut : ∃ log, init ⟨m, cutSecond, []⟩ = (none, ⟨halfErased .a m, {}, log⟩) := by
  have hread : ∀ x, readSnapshot (address x) ⟨m, cutSecond, []⟩ =
      (some (verdict (load m x), load m x), ⟨m, cutSecond, []⟩) := fun x =>
    readSnapshot_of_read (read_of_reads_nil (inRange_address x) rfl)
  have hne : ∀ x, verdict (load m x) ≠ .ok := fun x hx => by
    rw [verdict_eq_ok, hinvalid x] at hx
    cases hx
  have hsave : ∃ log, commitCandidate ⟨expandLegacy legacy, .b⟩ ⟨m, cutSecond, []⟩ =
      (none, ⟨halfErased .a m, {}, log⟩) := ⟨_, bind_of_none (save_cut _ m)⟩
  obtain ⟨log, hsave⟩ := hsave
  refine ⟨log, (bind_of_some (hread .a)).trans ((bind_of_some (hread .b)).trans ?_)⟩
  dsimp only
  rw [if_neg fun h => hne .a h.1, if_neg (hne .b), initLegacy,
    bind_of_some (readDefault_of_reads_nil hlegacy rfl rfl)]
  exact bind_of_none hsave

theorem boot_cut : boot m cutSecond = halfErased .a m := by
  obtain ⟨log, hinit⟩ := init_cut hinvalid hlegacy
  rw [boot, initInPlace_eq, hinit]

theorem cut_migration : Cut m cutSecond := by
  obtain ⟨log, hinit⟩ := init_cut hinvalid hlegacy
  refine ⟨steady_cutSecond, by rw [initInPlace_eq, hinit], ?_⟩
  rw [boot_cut hinvalid hlegacy]
  rintro (_ | _) hx
  · exact absurd hx (ne_true_of_eq_false (isSnapshotValid_halfErased .a m))
  · exact .inl (load_congr fun i hi => halfErased_outside m i
      (Set.disjoint_right.mp disjoint_region hi))

/-- What is left is to be migrated again. -/
theorem migratable_cut : (∀ x, isSnapshotValid (load (boot m cutSecond) x) = false) ∧
    newestLegacy (boot m cutSecond) = some legacy := by
  rw [boot_cut hinvalid hlegacy]
  refine ⟨fun x => ?_, (newestLegacy_congr (halfErased_outside m)).trans hlegacy⟩
  cases x with
  | a => exact isSnapshotValid_halfErased .a m
  | b =>
    rw [load_congr fun i hi => halfErased_outside m i (Set.disjoint_right.mp disjoint_region hi)]
    exact hinvalid .b

end Cuts

/-- **Migration in overlapping flash.** From any flash with a valid version-1 image, whose occupied
anchors are well formed, and no version-2 one, and however often power is lost in
`TlsTrustStore_Init`: the version-1 banks are never modified, and the first start-up that returns
succeeds, with the default anchor in slot 0 and the three slots of the newest version-1 image
behind it. -/
theorem migration_safe {m : Cells} {legacy : LegacySnapshot}
    (hinvalid : ∀ x, isSnapshotValid (load m x) = false)
    (hlegacy : newestLegacy m = some legacy)
    (hanchors : ∀ a ∈ legacy.anchors.toList, a.wellFormed = true) {cuts : List Fates}
    (hcuts : Along boot Cut m cuts) :
    (∀ x, ∀ i ∈ legacyRegion x, run boot m cuts i = m i) ∧
    ∀ fates, fates.Steady → ∀ status ram c,
      initInPlace ⟨run boot m cuts, fates, []⟩ = (some (status, ram), c) →
        status = .ok ∧ Migrated legacy ram.snapshot ∧ load c.cells ram.active = ram.snapshot ∧
        ∀ x, ∀ i ∈ legacyRegion x, c.cells i = m i := by
  have hstart : Migrating m legacy m := ⟨fun _ _ => rfl, fun hvalid => by
    rw [hinvalid .a] at hvalid
    cases hvalid⟩
  have hrun : Migrating m legacy (run boot m cuts) :=
    keeps (fun _ _ h hcut => h.cut hinvalid hlegacy hanchors hcut) hstart hcuts
  refine ⟨fun x i hi => hrun.outside i (legacyRegion_outside hi), ?_⟩
  intro fates hsteady status ram c hinit
  rw [initInPlace_eq] at hinit
  obtain ⟨houtside, hreturns⟩ := hrun.init_cases hinvalid hlegacy hanchors hsteady hinit
  obtain ⟨hok, rfl, hload⟩ := hreturns status ram rfl
  exact ⟨hok, migrated_stamp legacy, hload, fun x i hi => houtside i (legacyRegion_outside hi)⟩

/-- An anchor of one byte without a subject. -/
def oneByteAnchor : Anchor := { zeroAnchor with occupied := 1, derLength := 1 }

/-- A version-1 image with one anchor. -/
def legacyImage : LegacySnapshot :=
  let s : LegacySnapshot :=
    { magic := magic
      version := legacyVersion
      reserved := 0
      generation := 7
      anchors := #v[zeroAnchor, oneByteAnchor, zeroAnchor]
      crc := 0 }
  { s with crc := legacyCrcOf s }

/-- A chip with nothing else on it. -/
def legacyFlash : Cells :=
  programmed tlsTrustStoreLegacyBankA (legacyLayout.encode legacyImage)
    (blank tlsTrustStoreLegacyBankA (2 * sectorSize) fun _ => 0xFF)

theorem isLegacySnapshotValid_legacyImage : isLegacySnapshotValid legacyImage = true := by
  simp only [isLegacySnapshotValid, legacyImage, legacyCrcOf, LegacySnapshot.body, decide_true,
    Bool.and_self]

theorem wellFormed_legacyImage : ∀ a ∈ legacyImage.anchors.toList, a.wellFormed = true := by
  have hlist : legacyImage.anchors.toList = [zeroAnchor, oneByteAnchor, zeroAnchor] := rfl
  have hsubject : oneByteAnchor.subject.toList = List.replicate subjectSize 0 :=
    Vector.toList_replicate
  have hone : oneByteAnchor.wellFormed = true := by
    rw [Anchor.wellFormed, hsubject]
    decide
  rw [hlist]
  intro a ha
  simp only [List.mem_cons, List.not_mem_nil, or_false] at ha
  rcases ha with rfl | rfl | rfl
  · exact wellFormed_zero
  · exact hone
  · exact wellFormed_zero

theorem legacyFlash_outside {i : ℕ}
    (h : i < tlsTrustStoreLegacyBankA ∨ tlsTrustStoreLegacyBankB ≤ i) :
    legacyFlash i = 0xFF := by
  have hlength : (legacyLayout.encode legacyImage).length = 6556 := legacyLayout.length_encode _
  have hgap : tlsTrustStoreLegacyBankA + 8192 = tlsTrustStoreLegacyBankB := by decide
  have hout : i ∉ Set.Ico tlsTrustStoreLegacyBankA
      (tlsTrustStoreLegacyBankA + (legacyLayout.encode legacyImage).length) := by
    rw [hlength, Set.mem_Ico]
    omega
  rw [legacyFlash, programmed_outside hout]
  exact overwrite_outside fun hi => by
    simp only [Set.mem_Ico, sectorSize] at hi
    omega

theorem legacyLoad_legacyFlash : legacyLoad legacyFlash .a = legacyImage := by
  have hfits : (legacyLayout.encode legacyImage).length ≤ 2 * sectorSize := by
    rw [legacyLayout.length_encode]
    decide
  have hslice := slice_programmed_blank (a := tlsTrustStoreLegacyBankA) (fun _ => 0xFF) hfits
  rw [legacyLayout.length_encode] at hslice
  rw [legacyLoad, legacyAddress, legacyFlash, hslice, legacyLayout.decode_encode]

theorem newestLegacy_legacyFlash : newestLegacy legacyFlash = some legacyImage := by
  have hother : isLegacySnapshotValid (legacyLoad legacyFlash .b) = false :=
    isLegacySnapshotValid_of_blank fun i hi _ => legacyFlash_outside (.inr hi)
  have hvalid : isLegacySnapshotValid (legacyLoad legacyFlash .a) = true := by
    rw [legacyLoad_legacyFlash]
    exact isLegacySnapshotValid_legacyImage
  have hnewest : newest isLegacySnapshotValid (fun s => s.generation.toNat)
      (legacyLoad legacyFlash) = some .a :=
    newest_of_outranks hvalid fun h => absurd h (by simp [Bank.other, hother])
  rw [newestLegacy, hnewest, Option.map_some, legacyLoad_legacyFlash]

/-- The old image at the start of the new second bank is not of version 2. -/
theorem isSnapshotValid_legacyFlash (x : Bank) :
    isSnapshotValid (load legacyFlash x) = false := by
  cases x with
  | a =>
    refine isSnapshotValid_of_blank fun i hi => legacyFlash_outside (.inl ?_)
    have hend : address .a + bankSize = tlsTrustStoreLegacyBankA := by decide
    rw [← hend]
    exact hi.2
  | b =>
    have hnew : (load legacyFlash .b).version = u16.decode
        (((((legacyFlash.slice tlsTrustStoreBankB 8736).take 8732).drop 4).take 2)) := rfl
    have hold : (legacyLoad legacyFlash .a).version = u16.decode
        (((((legacyFlash.slice tlsTrustStoreBankB 6556).take 6552).drop 4).take 2)) := rfl
    rw [take_slice _ _ (by decide), drop_slice, take_slice _ _ (by decide)] at hnew hold
    have hversion : (load legacyFlash .b).version = legacyVersion := by
      rw [hnew, ← hold, legacyLoad_legacyFlash]
      rfl
    simp [isSnapshotValid, hversion, version, legacyVersion]

/-- The first two start-ups lose power while they erase the first bank, and the third one
returns. -/
theorem migration_safe_cut : ∃ status ram c,
    initInPlace ⟨run boot legacyFlash [cutSecond, cutSecond], {}, []⟩ =
      (some (status, ram), c) ∧
    status = .ok ∧ Migrated legacyImage ram.snapshot ∧ ram.snapshot.anchors[2].occupied = 1 ∧
    legacyLoad c.cells .a = legacyImage := by
  obtain ⟨hinvalid, hlegacy⟩ := migratable_cut isSnapshotValid_legacyFlash newestLegacy_legacyFlash
  have hcuts : Along boot Cut legacyFlash [cutSecond, cutSecond] :=
    ⟨cut_migration isSnapshotValid_legacyFlash newestLegacy_legacyFlash,
      cut_migration hinvalid hlegacy, trivial⟩
  obtain ⟨⟨status, ram⟩, c, hinit⟩ := driven_init.returns
    ⟨run boot legacyFlash [cutSecond, cutSecond], {}, []⟩ rfl
  rw [← initInPlace_eq] at hinit
  obtain ⟨hok, hmigrated, -, hkept⟩ := (migration_safe isSnapshotValid_legacyFlash
    newestLegacy_legacyFlash wellFormed_legacyImage hcuts).2 {} Fates.steady_nil status ram c hinit
  refine ⟨status, ram, c, hinit, hok, hmigrated, ?_, ?_⟩
  · rw [hmigrated.second]
    rfl
  · rw [legacyLoad_congr (hkept .a), legacyLoad_legacyFlash]

end HealthCheck.TlsTrustStore
