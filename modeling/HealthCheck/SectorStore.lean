import HealthCheck.FlashLayout
import HealthCheck.Lib.Crc
import HealthCheck.Lib.Layout
import HealthCheck.Lib.TwoBank

/-!
# The one-sector A/B stores

`user_store.c`, `health_check_config.c`, `callback_config.c` and `tls_server_credentials.c` each
carry their own copy of one scheme: a snapshot with a magic, a version, a generation and a CRC
in either of two sectors. A `SectorStore` holds what the copies differ in; `save` is the
`_Save` function they share and `newestSnapshot` the part of their `_Init` functions that reads
both sectors and picks one.

`SectorStore.store` makes a two-bank store of a component built this way, and the lemmas below
it are the laws of the scheme for whatever the component adds around `save`.
-/

namespace HealthCheck

open Nor hiding read driven_read read_ok read_cases
open TwoBank W25q64

/-- What one store has of its own. -/
structure SectorStore (σ : Type) where
  sectorA : ℕ
  sectorB : ℕ
  layout : Memory.Layout σ
  /-- The header `_Save` puts on a candidate: magic, version, next generation, CRC. -/
  stamp : σ → σ
  isValid : σ → Bool
  generation : σ → UInt32

/-- The variables `snapshot` and `activeAddress`. -/
structure SectorRam (σ : Type) where
  snapshot : σ
  activeAddress : ℕ

namespace SectorStore

variable {σ : Type} (S : SectorStore σ)

/-- The inactive sector. -/
def target (ram : SectorRam σ) : ℕ :=
  if ram.activeAddress = S.sectorA then S.sectorB else S.sectorA

/-- `_Save` once the inactive sector is erased: program the stamped candidate, read it back,
publish it. -/
def programVerified (candidate : σ) (ram : SectorRam σ) :
    FlashM (Status × σ × SectorRam σ) := do
  let target := S.target ram
  let programmed ← program target (S.layout.encode candidate)
  if programmed ≠ .ok then pure (.error, candidate, ram)
  else do
    let (status, bytes) ← read target S.layout.size
    let verification := S.layout.decode bytes
    if status = .ok ∧ S.isValid verification ∧
        S.generation verification = S.generation candidate then
      pure (.ok, candidate, ⟨candidate, target⟩)
    else pure (.error, candidate, ram)

/-- `_Save`. The candidate is the caller's and comes back stamped. -/
def save (candidate : σ) (ram : SectorRam σ) : FlashM (Status × σ × SectorRam σ) := do
  let candidate := S.stamp candidate
  let erased ← eraseSector (S.target ram)
  if erased ≠ .ok then pure (.error, candidate, ram) else S.programVerified candidate ram

/-- The choice `_Init` makes between what it has read from the two sectors. -/
def choose (firstValid secondValid : Bool) (first second : σ) : Option (SectorRam σ) :=
  if firstValid && (!secondValid || S.generation first ≥ S.generation second) then
    some ⟨first, S.sectorA⟩
  else if secondValid then some ⟨second, S.sectorB⟩
  else none

/-- Both sectors read, and the newer of the valid snapshots with its address. -/
def newestSnapshot : FlashM (Option (SectorRam σ)) := do
  let (firstStatus, firstBytes) ← read S.sectorA S.layout.size
  let first := S.layout.decode firstBytes
  let firstValid := decide (firstStatus = .ok) && S.isValid first
  let (secondStatus, secondBytes) ← read S.sectorB S.layout.size
  let second := S.layout.decode secondBytes
  let secondValid := decide (secondStatus = .ok) && S.isValid second
  pure (S.choose firstValid secondValid first second)

/-! ## The banks of the store -/

/-- The address of a bank. -/
def address : Bank → ℕ
  | .a => S.sectorA
  | .b => S.sectorB

/-- The snapshot in a bank. -/
def load (m : Cells) (x : Bank) : σ := S.layout.decode (m.slice (S.address x) S.layout.size)

/-- The cells of a bank. -/
def region (x : Bank) : Set ℕ := Set.Ico (S.address x) (S.address x + sectorSize)

/-- The bank in use. -/
def activeBank (ram : SectorRam σ) : Bank :=
  if ram.activeAddress = S.sectorA then .a else .b

/-- What holds of the numbers a store is declared with. -/
structure Sound : Prop where
  aligned : ∀ x, S.address x % sectorSize = 0
  below : ∀ x, S.address x < capacityBytes
  ne : S.sectorA ≠ S.sectorB
  pos : 0 < S.layout.size
  fits : S.layout.size ≤ sectorSize
  generation_stamp : ∀ x, S.generation (S.stamp x) = S.generation x + 1

theorem target_eq_address (ram : SectorRam σ) :
    S.target ram = S.address (S.activeBank ram).other := by
  unfold target activeBank
  split <;> rfl

variable {S} (hS : S.Sound)
include hS

theorem inRange_address (x : Bank) : inRange (S.address x) S.layout.size = true :=
  inRange_of_sector hS.pos hS.fits (hS.aligned x) (hS.below x)

theorem length_encode_le (x : σ) : (S.layout.encode x).length ≤ sectorSize := by
  rw [S.layout.length_encode]
  exact hS.fits

/-- The chip after a complete save of `x` to the sector at `target`. -/
def stored (S : SectorStore σ) (target : ℕ) (x : σ) (m : Cells) : Cells :=
  programmed target (S.layout.encode x) (blank target sectorSize m)

theorem slice_stored (target : ℕ) (x : σ) (m : Cells) :
    (S.stored target x m).slice target S.layout.size = S.layout.encode x := by
  rw [← S.layout.length_encode x]
  exact slice_programmed_blank _ (length_encode_le hS x)

/-! ## `save` -/

theorem driven_programVerified (candidate : σ) (ram : SectorRam σ) :
    Driven (S.region (S.activeBank ram).other) (S.programVerified candidate ram) := by
  have hfits := length_encode_le hS candidate
  unfold programVerified region
  rw [target_eq_address]
  refine ((driven_program _ _).mono (Set.Ico_subset_Ico_right (by omega))).bind fun _ => ?_
  split
  · exact .pure _
  refine (driven_read _ _ _).bind fun ⟨status, bytes⟩ => ?_
  dsimp only
  split <;> exact .pure _

theorem driven_save_rest (candidate : σ) (ram : SectorRam σ) (erased : Status) :
    Driven (S.region (S.activeBank ram).other)
      (if erased ≠ .ok then pure (.error, candidate, ram) else S.programVerified candidate ram) := by
  split
  · exact .pure _
  · exact driven_programVerified hS candidate ram

theorem driven_save (candidate : σ) (ram : SectorRam σ) :
    Driven (S.region (S.activeBank ram).other) (S.save candidate ram) := by
  have herase := driven_eraseSector (S.target ram)
  rw [target_eq_address] at herase
  unfold save
  rw [target_eq_address]
  exact herase.bind (driven_save_rest hS _ ram)

theorem driven_save_both {α : Type} (candidate : σ) (ram : SectorRam σ)
    (finish : Status × σ × SectorRam σ → α) :
    Driven (S.region .a ∪ S.region .b)
      (S.save candidate ram >>= fun r => pure (finish r)) := by
  refine ((driven_save hS candidate ram).mono ?_).bind fun _ => .pure _
  cases (S.activeBank ram).other with
  | a => exact Set.subset_union_left
  | b => exact Set.subset_union_right

theorem erased_save (candidate : σ) (ram : SectorRam σ) (c : Chip) :
    Erased (S.save candidate ram c).2.log := by
  have hlogged := eraseSector_logged (hS.aligned (S.activeBank ram).other) (hS.below _) c
  rw [← target_eq_address] at hlogged
  exact ⟨_, _, _, (log_bind (driven_save_rest hS _ ram)).subset hlogged⟩

omit hS in
/-- The candidate comes back stamped, whatever becomes of the save. -/
theorem save_candidate {candidate x : σ} {ram ram' : SectorRam σ} {c c' : Chip} {s : Status}
    (h : S.save candidate ram c = (some (s, x, ram'), c')) : x = S.stamp candidate := by
  have hpure {s' : Status} {vars : SectorRam σ} {d : Chip}
      (h : (pure (s', S.stamp candidate, vars) : FlashM _) d = (some (s, x, ram'), c')) :
      x = S.stamp candidate := by
    simp only [pure_apply, Prod.mk.injEq, Option.some.injEq] at h
    exact h.1.2.1.symm
  obtain ⟨erased, c₁, -, h⟩ := bind_eq_some.1 h
  split at h
  · exact hpure h
  rw [programVerified] at h
  obtain ⟨programmed, c₂, -, h⟩ := bind_eq_some.1 h
  split at h
  · exact hpure h
  obtain ⟨⟨status, bytes⟩, c₃, -, h⟩ := bind_eq_some.1 h
  dsimp only at h
  split at h <;> exact hpure h

/-- What `save` returns: success with the stamped candidate stored and published, or a failure
with the variables as they were. -/
theorem save_eq_some {candidate x : σ} {ram ram' : SectorRam σ} {c c' : Chip} {s : Status}
    (h : S.save candidate ram c = (some (s, x, ram'), c')) :
    (s = .ok ∧ x = S.stamp candidate ∧ ram' = ⟨S.stamp candidate, S.target ram⟩ ∧
      S.isValid (S.stamp candidate) = true ∧
      S.load c'.cells (S.activeBank ram).other = S.stamp candidate) ∨
    (s ≠ .ok ∧ ram' = ram) := by
  have hfail : ∀ {d : Chip}, (pure (.error, S.stamp candidate, ram) : FlashM _) d =
      (some (s, x, ram'), c') → s ≠ .ok ∧ ram' = ram := fun h => by
    simp only [pure_apply, Prod.mk.injEq, Option.some.injEq] at h
    obtain ⟨⟨rfl, -, rfl⟩, -⟩ := h
    exact ⟨by decide, rfl⟩
  obtain ⟨erased, c₁, h₁, h⟩ := bind_eq_some.1 h
  split at h
  · exact .inr (hfail h)
  rename_i he
  rw [programVerified] at h
  obtain ⟨programmed, c₂, h₂, h⟩ := bind_eq_some.1 h
  split at h
  · exact .inr (hfail h)
  rename_i hp
  obtain ⟨⟨status, bytes⟩, c₃, h₃, h⟩ := bind_eq_some.1 h
  dsimp only at h
  split at h
  · rename_i hv
    obtain ⟨rfl, hvalid, -⟩ := hv
    obtain rfl := not_ne_iff.1 he
    obtain rfl := not_ne_iff.1 hp
    obtain ⟨rfl, hcells⟩ := read_ok h₃
    have hslice : c₂.cells.slice (S.target ram) S.layout.size =
        S.layout.encode (S.stamp candidate) := by
      rw [program_ok h₂, eraseSector_ok h₁]
      exact slice_stored hS _ _ _
    simp only [pure_apply, Prod.mk.injEq, Option.some.injEq] at h
    obtain ⟨⟨rfl, rfl, rfl⟩, rfl⟩ := h
    refine .inl ⟨rfl, rfl, rfl, ?_, ?_⟩
    · rwa [hslice, S.layout.decode_encode] at hvalid
    · rw [load, ← target_eq_address, hcells, hslice, S.layout.decode_encode]
  · exact .inr (hfail h)

/-- `save` when every command completes: the stamped candidate is in the sector, and it is
published unless it is no valid snapshot. -/
theorem save_calm (candidate : σ) (ram : SectorRam σ) (m : Cells) (log : List Command) :
    ∃ s ram' log', S.save candidate ram ⟨m, {}, log⟩ = (some (s, S.stamp candidate, ram'),
        ⟨S.stored (S.target ram) (S.stamp candidate) m, {}, log'⟩) ∧
      (s = .ok ↔ S.isValid (S.stamp candidate) = true) := by
  have hrange := inRange_address hS (S.activeBank ram).other
  have herase := eraseSector_calm m log [] (hS.aligned (S.activeBank ram).other) (hS.below _)
  rw [← target_eq_address] at hrange herase
  have hlen := S.layout.length_encode (S.stamp candidate)
  obtain ⟨log', hprogram⟩ := program_calm (blank (S.target ram) sectorSize m)
    (.erase (S.target ram) sectorSize m :: log) [] (hlen ▸ hrange)
  have hread := read_calm (S.stored (S.target ram) (S.stamp candidate) m) log' hrange
  rw [slice_stored hS] at hread
  have hrun : S.save candidate ram ⟨m, {}, log⟩ =
      (if S.isValid (S.stamp candidate) = true then
          pure (.ok, S.stamp candidate, ⟨S.stamp candidate, S.target ram⟩)
        else pure (.error, S.stamp candidate, ram) : FlashM _)
      ⟨S.stored (S.target ram) (S.stamp candidate) m, {}, log'⟩ := by
    rw [save, bind_of_some herase, if_neg (by simp), programVerified, bind_of_some hprogram,
      if_neg (by simp)]
    rw [stored] at hread ⊢
    rw [bind_of_some hread]
    simp only [S.layout.decode_encode, true_and, and_true]
  rw [hrun]
  split
  · exact ⟨_, _, _, rfl, by simp [*]⟩
  · exact ⟨_, _, _, rfl, by simp [*]⟩

/-- `save` when only the verification read fails: it reports an error, and the stamped candidate
is in the sector. -/
theorem save_unread (candidate : σ) (ram : SectorRam σ) (m : Cells) (t : Bool) (left : Cells) :
    ∃ log', S.save candidate ram ⟨m, { reads := [.fails t left] }, []⟩ =
      (some (.error, S.stamp candidate, ram),
        ⟨S.stored (S.target ram) (S.stamp candidate) m, {}, log'⟩) := by
  have hrange := inRange_address hS (S.activeBank ram).other
  have herase := eraseSector_calm m [] [.fails t left] (hS.aligned (S.activeBank ram).other)
    (hS.below _)
  rw [← target_eq_address] at hrange herase
  have hlen := S.layout.length_encode (S.stamp candidate)
  obtain ⟨log', hprogram⟩ := program_calm (blank (S.target ram) sectorSize m)
    [.erase (S.target ram) sectorSize m] [.fails t left] (hlen ▸ hrange)
  have hread : read (S.target ram) S.layout.size
      ⟨S.stored (S.target ram) (S.stamp candidate) m, { reads := [.fails t left] }, log'⟩ =
      (some (failure t, left.slice 0 S.layout.size),
        ⟨S.stored (S.target ram) (S.stamp candidate) m, {}, log'⟩) := by
    unfold W25q64.read
    rw [if_pos hrange]
    rfl
  refine ⟨log', ?_⟩
  rw [save, bind_of_some herase, if_neg (by simp), programVerified, bind_of_some hprogram,
    if_neg (by simp)]
  rw [stored] at hread ⊢
  rw [bind_of_some hread]
  simp only [failure_ne_ok, false_and, if_false]
  rfl

/-- `save` when the erase fails. -/
theorem save_unerased (candidate : σ) (ram : SectorRam σ) (m : Cells) (t : Bool) (left : Cells) :
    ∃ log', S.save candidate ram ⟨m, { erases := [.fails t left] }, []⟩ =
      (some (.error, S.stamp candidate, ram),
        ⟨overwrite (S.target ram) sectorSize left m, {}, log'⟩) := by
  have haligned := hS.aligned (S.activeBank ram).other
  have hbelow := hS.below (S.activeBank ram).other
  rw [← target_eq_address] at haligned hbelow
  have herase : eraseSector (S.target ram) ⟨m, { erases := [.fails t left] }, []⟩ =
      (some (failure t), ⟨overwrite (S.target ram) sectorSize left m, {},
        [.erase (S.target ram) sectorSize m]⟩) := by
    rw [eraseSector, if_neg (by omega)]
    rfl
  refine ⟨[.erase (S.target ram) sectorSize m], ?_⟩
  rw [save, bind_of_some herase, if_pos (failure_ne_ok t)]
  rfl

/-- `save` when power is lost in the erase. -/
theorem save_cut (candidate : σ) (ram : SectorRam σ) (m : Cells) (log : List Command) :
    S.save candidate ram ⟨m, cutErase, log⟩ =
      (none, ⟨zeroed (S.target ram) m, {}, .erase (S.target ram) sectorSize m :: log⟩) := by
  have haligned := hS.aligned (S.activeBank ram).other
  have hbelow := hS.below (S.activeBank ram).other
  rw [← target_eq_address] at haligned hbelow
  rw [save, bind_of_none (eraseSector_cut haligned hbelow m log)]

theorem load_zeroed (x : Bank) (m : Cells) :
    S.load (zeroed (S.address x) m) x = S.layout.decode (.replicate S.layout.size 0) := by
  have hfits := hS.fits
  have hslice : (zeroed (S.address x) m).slice (S.address x) S.layout.size =
      Cells.slice (fun _ => 0) (S.address x) S.layout.size :=
    slice_congr fun i hi hi' => if_pos ⟨hi, by omega⟩
  rw [load, hslice, slice_const]

theorem zeroed_other (x : Bank) (m : Cells) :
    ∀ i ∈ S.region x.other, zeroed (S.address x) m i = m i := by
  have ha := hS.aligned .a
  have hb := hS.aligned .b
  have hne := hS.ne
  refine fun i hi => overwrite_outside fun hmem => ?_
  cases x <;> simp only [region, Bank.other, address, Set.mem_Ico, sectorSize] at * <;> omega

theorem load_stored (x : Bank) (image : σ) (m : Cells) :
    S.load (S.stored (S.address x) image m) x = image := by
  rw [load, slice_stored hS, S.layout.decode_encode]

/-- A save leaves the other sector alone. -/
theorem stored_other (x : Bank) (image : σ) (m : Cells) :
    ∀ i ∈ S.region x.other, S.stored (S.address x) image m i = m i := by
  have hlength := length_encode_le hS image
  have ha := hS.aligned .a
  have hb := hS.aligned .b
  have hne := hS.ne
  intro i hi
  have hout : i ∉ Set.Ico (S.address x) (S.address x + sectorSize) := fun hmem => by
    cases x <;> simp only [region, Bank.other, address, Set.mem_Ico, sectorSize] at * <;> omega
  rw [stored, programmed_outside fun hmem => hout (Set.Ico_subset_Ico_right (by omega) hmem)]
  exact overwrite_outside hout

theorem load_stored_other (x : Bank) (image : σ) (m : Cells) :
    S.load (S.stored (S.address x) image m) x.other = S.load m x.other := by
  have hfits := hS.fits
  rw [load, load, slice_congr fun i hi hi' => stored_other hS x image m i ⟨hi, by omega⟩]

/-! ## `newestSnapshot` -/

omit hS in
theorem driven_newestSnapshot (R : Set ℕ) : Driven R S.newestSnapshot :=
  (driven_read _ _ _).bind fun _ => (driven_read _ _ _).bind fun _ => .pure _

/-- The newest bank of a chip, as the variables that hold it. -/
def newestRam (S : SectorStore σ) (m : Cells) : Option (SectorRam σ) :=
  (newest S.isValid (fun x => (S.generation x).toNat) (S.load m)).map
    fun x => ⟨S.load m x, S.address x⟩

omit hS in
theorem choose_eq (m : Cells) :
    S.choose (S.isValid (S.load m .a)) (S.isValid (S.load m .b)) (S.load m .a) (S.load m .b) =
      S.newestRam m := by
  simp only [choose, newestRam, newest, ge_iff_le, UInt32.le_iff_toNat_le]
  split_ifs <;> rfl

/-- Reading both sectors changes nothing and finds the newest bank. -/
theorem newestSnapshot_eq {c c' : Chip} {r : Option (Option (SectorRam σ))}
    (hreads : c.fates.ReadsSucceed) (h : S.newestSnapshot c = (r, c')) :
    c'.cells = c.cells ∧ c'.log = c.log ∧ c.fates.After c'.fates ∧
      ∀ found, r = some found → found = S.newestRam c.cells := by
  have ha : inRange S.sectorA S.layout.size = true := inRange_address hS .a
  have hb : inRange S.sectorB S.layout.size = true := inRange_address hS .b
  obtain ⟨c₁, hcells₁, hlog₁, hf₁, h₁ | h₁⟩ := read_cases ha hreads
  · obtain ⟨c₂, hcells₂, hlog₂, hf₂, h₂ | h₂⟩ := read_cases hb (hreads.after hf₁)
    · rw [newestSnapshot, bind_of_some h₁] at h
      dsimp only at h
      rw [bind_of_some h₂, hcells₁] at h
      simp only [decide_true, Bool.true_and, pure_apply, Prod.mk.injEq] at h
      obtain ⟨rfl, rfl⟩ := h
      exact ⟨hcells₂.trans hcells₁, hlog₂.trans hlog₁, hf₁.trans hf₂,
        fun found hfound => (Option.some.inj hfound).symm.trans (choose_eq c.cells)⟩
    · rw [newestSnapshot, bind_of_some h₁] at h
      dsimp only at h
      rw [bind_of_none h₂, Prod.mk.injEq] at h
      obtain ⟨rfl, rfl⟩ := h
      exact ⟨hcells₂.trans hcells₁, hlog₂.trans hlog₁, hf₁.trans hf₂, by simp⟩
  · rw [newestSnapshot, bind_of_none h₁, Prod.mk.injEq] at h
    obtain ⟨rfl, rfl⟩ := h
    exact ⟨hcells₁, hlog₁, hf₁, by simp⟩

theorem observes_newestSnapshot (m : Cells) : Observes S.newestSnapshot m (S.newestRam m) := by
  rintro c rfl hreads
  rcases hn : S.newestSnapshot c with ⟨_ | found, c'⟩
  · obtain ⟨hcells, hlog, hfates, -⟩ := newestSnapshot_eq hS hreads hn
    exact ⟨c', hcells, hlog, hfates, .inr rfl⟩
  · obtain ⟨hcells, hlog, hfates, hfound⟩ := newestSnapshot_eq hS hreads hn
    exact ⟨c', hcells, hlog, hfates, .inl (by rw [hfound found rfl])⟩

theorem newestSnapshot_of_reads_nil {c : Chip} (hc : c.fates.reads = []) :
    S.newestSnapshot c = (some (S.newestRam c.cells), c) := by
  have ha : inRange S.sectorA S.layout.size = true := inRange_address hS .a
  have hb : inRange S.sectorB S.layout.size = true := inRange_address hS .b
  rw [newestSnapshot, bind_of_some (read_of_reads_nil ha hc)]
  dsimp only
  rw [bind_of_some (read_of_reads_nil hb hc)]
  simp only [decide_true, Bool.true_and, pure_apply, Prod.mk.injEq, Option.some.injEq, and_true]
  exact choose_eq c.cells

theorem newestSnapshot_calm (m : Cells) (log : List Command) :
    S.newestSnapshot ⟨m, {}, log⟩ = (some (S.newestRam m), ⟨m, {}, log⟩) :=
  newestSnapshot_of_reads_nil hS rfl

/-- Whichever reads fail: the choice is between the banks that were read. -/
theorem newestSnapshot_returns {c c' : Chip} {found : Option (SectorRam σ)}
    (h : S.newestSnapshot c = (some found, c')) :
    c' = { c with fates := { c.fates with reads := c.fates.reads.tail.tail } } ∧
      found = S.choose
        (!isReadFailure (c.fates.reads.headD .completes) && S.isValid (S.load c.cells .a))
        (!isReadFailure (c.fates.reads.tail.headD .completes) && S.isValid (S.load c.cells .b))
        (S.load c.cells .a) (S.load c.cells .b) := by
  have ha : inRange S.sectorA S.layout.size = true := inRange_address hS .a
  have hb : inRange S.sectorB S.layout.size = true := inRange_address hS .b
  obtain ⟨⟨firstStatus, firstBytes⟩, c₁, h₁, h⟩ := bind_eq_some.1 h
  obtain ⟨⟨secondStatus, secondBytes⟩, c₂, h₂, h⟩ := bind_eq_some.1 h
  obtain ⟨rfl, hfirst⟩ := read_returns ha h₁
  obtain ⟨rfl, hsecond⟩ := read_returns hb h₂
  simp only [pure_apply, Prod.mk.injEq, Option.some.injEq] at h
  obtain ⟨rfl, rfl⟩ := h
  refine ⟨rfl, ?_⟩
  simp only at hfirst hsecond
  rcases hfirst with ⟨hf, rfl, rfl⟩ | ⟨hf, hf', -⟩ <;>
    rcases hsecond with ⟨hs, rfl, rfl⟩ | ⟨hs, hs', -⟩ <;>
    simp only [choose, decide_true, decide_false, Bool.true_and, Bool.false_and, Bool.and_true,
      Bool.true_or, Bool.not_false, Bool.not_true, Bool.false_eq_true, if_false, *] <;> rfl

omit hS in
theorem choose_eq_some {m : Cells} {first second : Bool} {ram : SectorRam σ}
    (h : S.choose (first && S.isValid (S.load m .a)) (second && S.isValid (S.load m .b))
      (S.load m .a) (S.load m .b) = some ram) :
    ∃ x, ram = ⟨S.load m x, S.address x⟩ ∧ S.isValid (S.load m x) = true := by
  unfold choose at h
  split_ifs at h with hfirst hsecond
  · cases h
    simp only [Bool.and_eq_true] at hfirst
    exact ⟨.a, rfl, hfirst.1.2⟩
  · cases h
    simp only [Bool.and_eq_true] at hsecond
    exact ⟨.b, rfl, hsecond.2⟩

omit hS in
theorem newestRam_of_fresh {m : Cells} (h : ∀ x, S.isValid (S.load m x) = false) :
    S.newestRam m = none := by
  rw [newestRam, newest_eq_none h]
  rfl

omit hS in
/-- The newest snapshot is the only valid one. -/
theorem newestRam_of_only {m : Cells} {x : Bank} (hx : S.isValid (S.load m x) = true)
    (hother : S.isValid (S.load m x.other) = false) :
    S.newestRam m = some ⟨S.load m x, S.address x⟩ := by
  rw [newestRam, newest_of_outranks hx fun h => absurd h (by simp [hother])]
  rfl

/-! ## The store -/

end SectorStore

/-- The two-bank store of a component whose variables hold a `SectorRam`. `clear` is what a
fresh bank is known to be like besides holding no valid snapshot. -/
def SectorStore.store {σ : Type} (S : SectorStore σ) (Ram Op : Type) (vars : Ram → SectorRam σ)
    (init : FlashM (Status × Ram)) (exec : Op → Ram → FlashM (Bool × Ram))
    (clear : Cells → Bank → Prop) (factory : σ) (lazy : Bool) : Store where
  Ram := Ram
  Op := Op
  Image := σ
  init := init
  exec := exec
  snapshot ram := (vars ram).snapshot
  active ram := S.activeBank (vars ram)
  region := S.region
  load := S.load
  valid := S.isValid
  generation x := (S.generation x).toNat
  Fresh m := ∀ x, S.isValid (S.load m x) = false ∧ clear m x
  factory := factory
  lazy := lazy

namespace SectorStore

section Store

variable {σ : Type} {S : SectorStore σ} (hS : S.Sound) {Ram Op : Type}
  {vars : Ram → SectorRam σ} {init : FlashM (Status × Ram)}
  {exec : Op → Ram → FlashM (Bool × Ram)} {clear : Cells → Bank → Prop} {factory : σ}
  {lazy : Bool}
include hS

theorem activeBank_address (x : Bank) (image : σ) : S.activeBank ⟨image, S.address x⟩ = x := by
  cases x with
  | a => exact if_pos rfl
  | b => exact if_neg hS.ne.symm

theorem disjoint_region : Disjoint (S.region .a) (S.region .b) := by
  have ha := hS.aligned .a
  have hb := hS.aligned .b
  have hne := hS.ne
  refine Set.disjoint_left.2 fun i hi hi' => ?_
  simp only [region, address, Set.mem_Ico, sectorSize] at *
  omega

theorem load_congr {m m' : Cells} {x : Bank} (h : ∀ i ∈ S.region x, m' i = m i) :
    S.load m' x = S.load m x := by
  have hfits := hS.fits
  rw [load, load, slice_congr fun i hi hi' => h i ⟨hi, by omega⟩]

/-- A sector of zeros is torn, if it holds no valid snapshot. -/
theorem torn_zeroed {x : Bank} (hzero : S.isValid (S.layout.decode (.replicate S.layout.size 0)) =
    false) (m done : Cells) : Torn (S := S.store Ram Op vars init exec clear factory lazy) m
      (zeroed (S.address x) m) done := by
  intro y hy
  rcases Bank.eq_or_other y x with rfl | rfl
  · have hy : S.isValid (S.load (zeroed (S.address y) m) y) = true := hy
    rw [load_zeroed hS, hzero] at hy
    cases hy
  · exact .inl (load_congr hS (zeroed_other hS x m))

omit hS in
/-- `finish` reports the status of a save and keeps its variables. -/
def Reports (vars : Ram → SectorRam σ) (finish : Status × σ × SectorRam σ → Bool × Ram) : Prop :=
  ∀ s x r, (finish (s, x, r)).1 = decide (s = .ok) ∧ vars (finish (s, x, r)).2 = r

theorem save_report {candidate : σ} {vars₀ : SectorRam σ}
    {finish : Status × σ × SectorRam σ → Bool × Ram} (hfinish : Reports vars finish)
    {c c' : Chip} {ok : Bool} {ram' : Ram}
    (h : (S.save candidate vars₀ >>= fun r => pure (finish r)) c = (some (ok, ram'), c')) :
    (ok = true ∧ vars ram' = ⟨S.stamp candidate, S.target vars₀⟩ ∧
      S.isValid (S.stamp candidate) = true ∧
      S.load c'.cells (S.activeBank vars₀).other = S.stamp candidate) ∨
    (ok = false ∧ vars ram' = vars₀) := by
  obtain ⟨⟨s, x, r⟩, c₁, hsave, hret⟩ := bind_eq_some.1 h
  simp only [pure_apply, Prod.mk.injEq, Option.some.injEq] at hret
  obtain ⟨hret, rfl⟩ := hret
  obtain ⟨hs, hr⟩ := hfinish s x r
  rw [hret] at hs hr
  simp only at hs hr
  rcases save_eq_some hS hsave with ⟨rfl, -, rfl, hvalid, hload⟩ | ⟨hne, rfl⟩
  · exact .inl ⟨by simpa using hs, hr, hvalid, hload⟩
  · exact .inr ⟨by simpa [hne] using hs, hr⟩

/-- An operation that saves a candidate and then only reports is a commit. -/
theorem commits_save {candidate : σ} {ram : Ram}
    (hgen : S.generation candidate = S.generation (vars ram).snapshot)
    {finish : Status × σ × SectorRam σ → Bool × Ram} (hfinish : Reports vars finish) :
    (S.store Ram Op vars init exec clear factory lazy).Commits ram (S.stamp candidate)
      (S.save candidate (vars ram) >>= fun r => pure (finish r)) where
  generation := by
    change (S.generation (S.stamp candidate)).toNat = _
    rw [hS.generation_stamp, hgen, UInt32.toNat_add]
    rfl
  driven := (driven_save hS candidate (vars ram)).bind fun r => .pure _
  erases c := by
    obtain ⟨a, n, before, hm⟩ := erased_save hS candidate (vars ram) c
    have hpure : ∀ r, Driven Set.univ (pure (finish r)) := fun _ => .pure _
    exact ⟨a, n, before, (log_bind hpure).subset hm⟩
  done c c' ram' h := by
    rcases save_report hS hfinish h with ⟨-, hvars, hvalid, hload⟩ | ⟨hne, -⟩
    · refine ⟨hvalid, hload, congrArg SectorRam.snapshot hvars, ?_⟩
      refine (congrArg S.activeBank hvars).trans ?_
      rw [target_eq_address]
      exact activeBank_address hS _ _
    · cases hne
  failed c c' ram' _ _ h := by
    rcases save_report hS hfinish h with ⟨hne, -⟩ | ⟨-, hvars⟩
    · cases hne
    · exact ⟨congrArg SectorRam.snapshot hvars, congrArg S.activeBank hvars⟩
  calm c := by
    obtain ⟨s, r, log', hsave, hiff⟩ := save_calm hS candidate (vars ram) c.cells c.log
    have hload := load_stored hS (S.activeBank (vars ram)).other (S.stamp candidate) c.cells
    rw [← target_eq_address] at hload
    refine ⟨_, _, _, bind_eq_some.2 ⟨_, _, hsave, rfl⟩, hload, fun hfalse => ?_⟩
    rw [(hfinish s _ r).1, decide_eq_false_iff_not, hiff, Bool.not_eq_true] at hfalse
    exact hfalse

variable (vars) in
/-- A start-up that saves a snapshot, from one sector on, writes it to the other. -/
theorem seed_report (y : Bank) {default : σ} (hvalid : S.isValid (S.stamp default) = true)
    {finish : Status × σ × SectorRam σ → Status × Ram} (hstatus : ∀ r, (finish r).1 = r.1)
    (hvars : ∀ x r, vars (finish (.ok, x, r)).2 = ⟨x, r.activeAddress⟩) {c c' : Chip}
    {r : Option (Status × Ram)}
    (h : (S.save default ⟨default, S.address y⟩ >>= fun r => pure (finish r)) c = (r, c')) :
    Steps (S.region y.other) c c' ∧ Erased c'.log ∧
      (∀ ram, r = some (.ok, ram) → S.load c'.cells y.other = S.stamp default ∧
        vars ram = ⟨S.stamp default, S.address y.other⟩) ∧
      (c.fates.Steady → ∀ s ram, r = some (s, ram) → s = .ok) := by
  have hbank : S.activeBank ⟨default, S.address y⟩ = y := activeBank_address hS y default
  have htarget : S.target ⟨default, S.address y⟩ = S.address y.other := by
    rw [target_eq_address, hbank]
  have hseed : Driven (S.region y.other)
      (S.save default ⟨default, S.address y⟩ >>= fun r => pure (finish r)) := by
    have hsave := driven_save hS default ⟨default, S.address y⟩
    rw [hbank] at hsave
    exact hsave.bind fun _ => .pure _
  have hsteps := hseed.steps c
  rw [h] at hsteps
  refine ⟨hsteps, ?_, ?_, ?_⟩
  · obtain ⟨a, n, before, hm⟩ := erased_save hS default ⟨default, S.address y⟩ c
    have hpure : ∀ r, Driven Set.univ (pure (finish r)) := fun _ => .pure _
    have hlog := (log_bind hpure).subset hm
    rw [h] at hlog
    exact ⟨a, n, before, hlog⟩
  · rintro ram rfl
    obtain ⟨⟨s, x, r⟩, c₁, hs, hret⟩ := bind_eq_some.1 h
    simp only [pure_apply, Prod.mk.injEq, Option.some.injEq] at hret
    obtain ⟨hret, rfl⟩ := hret
    have hok := hstatus (s, x, r)
    rw [hret] at hok
    obtain rfl : s = .ok := hok.symm
    rcases save_eq_some hS hs with ⟨-, rfl, rfl, -, hload⟩ | ⟨hne, -⟩
    · rw [hbank] at hload
      have hram := hvars (S.stamp default) ⟨S.stamp default, S.target ⟨default, S.address y⟩⟩
      rw [hret, htarget] at hram
      exact ⟨hload, hram⟩
    · exact absurd rfl hne
  · rintro hsteady s ram rfl
    -- Nothing failed, so this is the run in which every command completes.
    have hcalm := hseed.reliable c hsteady _ _ h
    obtain ⟨s', r, log', hs, hiff⟩ := save_calm hS default ⟨default, S.address y⟩ c.cells c.log
    have hrun : (S.save default ⟨default, S.address y⟩ >>= fun r => pure (finish r)) c.calm =
        (some (finish (s', S.stamp default, r)), _) := bind_of_some hs
    rw [hcalm, Prod.mk.injEq, Option.some.injEq] at hrun
    have hok := hstatus (s', S.stamp default, r)
    rw [← hrun.1] at hok
    exact hok.trans (hiff.2 hvalid)

omit hS in
/-- A start-up that reads before it goes on. -/
theorem seeds_read {T : Store} {a n : ℕ} {f : Status × List UInt8 → FlashM (Status × T.Ram)}
    {c : Chip} (hrange : inRange a n = true) (hreads : c.fates.ReadsSucceed)
    (hf : ∀ c', c'.cells = c.cells → c'.fates.ReadsSucceed →
      T.Seeds (f (.ok, c.cells.slice a n)) c') : T.Seeds (read a n >>= f) c := by
  obtain ⟨d, hcells, hlog, hfates, hd⟩ := read_cases hrange hreads
  refine Store.Seeds.after_reading (fun r c' h => ?_) fun r c' h => ?_
  · rcases hd with hd | hd <;> obtain ⟨-, rfl⟩ := Prod.mk.inj (hd.symm.trans h) <;>
      exact ⟨hcells, hlog, hfates⟩
  · rcases hd with hd | hd
    · obtain ⟨hr, rfl⟩ := Prod.mk.inj (hd.symm.trans h)
      obtain rfl := Option.some.inj hr
      exact hf _ hcells (hreads.after hfates)
    · cases hd.symm.trans h

/-- The same, as a law of the store. -/
theorem seeds_save {default : σ} (hvalid : S.isValid (S.stamp default) = true)
    {finish : Status × σ × SectorRam σ → Status × Ram} (hstatus : ∀ r, (finish r).1 = r.1)
    (hvars : ∀ x r, vars (finish (.ok, x, r)).2 = ⟨x, r.activeAddress⟩) (c : Chip) :
    (S.store Ram Op vars init exec clear (S.stamp default) false).Seeds
      (S.save default ⟨default, S.sectorB⟩ >>= fun r => pure (finish r)) c := by
  intro r c' h
  obtain ⟨hsteps, herased, hok, hsteady⟩ := seed_report hS vars .b hvalid hstatus hvars h
  exact ⟨hsteps, .inr herased, fun ram hr => ⟨herased, hvalid, (hok ram hr).1,
    congrArg SectorRam.snapshot (hok ram hr).2,
    (congrArg S.activeBank (hok ram hr).2).trans (activeBank_address hS .a _)⟩, hsteady⟩

/-- Start-up code that returns what it makes of the newest snapshot. -/
theorem found_eq {k : Option (SectorRam σ) → FlashM (Status × Ram)} {c c' : Chip}
    {o : Option (SectorRam σ)} {ram : Ram} {r : Option (Status × Ram)}
    (hreads : c.fates.ReadsSucceed) (ho : S.newestRam c.cells = o) (hk : k o = pure (.ok, ram))
    (h : (S.newestSnapshot >>= k) c = (r, c')) :
    c'.cells = c.cells ∧ ∀ s ram', r = some (s, ram') → s = .ok ∧ ram' = ram := by
  rcases hn : S.newestSnapshot c with ⟨_ | found, c₁⟩
  · obtain ⟨hcells, -⟩ := newestSnapshot_eq hS hreads hn
    rw [bind_of_none hn, Prod.mk.injEq] at h
    obtain ⟨rfl, rfl⟩ := h
    exact ⟨hcells, by simp⟩
  · obtain ⟨hcells, -, -, hfound⟩ := newestSnapshot_eq hS hreads hn
    rw [bind_of_some hn, (hfound found rfl).trans ho, hk, pure_apply, Prod.mk.injEq] at h
    obtain ⟨rfl, rfl⟩ := h
    refine ⟨hcells, fun s ram' hr => ?_⟩
    simp only [Option.some.injEq, Prod.mk.injEq] at hr
    exact ⟨hr.1.symm, hr.2.symm⟩

/-- **The laws of the two-bank scheme**, for a component whose start-up looks for the newest
snapshot and whose operations are idle or commit. -/
theorem lawful (k : Option (SectorRam σ) → FlashM (Status × Ram)) (mk : SectorRam σ → Ram)
    (hfound : ∀ r, k (some r) = pure (.ok, mk r)) (hmk : ∀ r, vars (mk r) = r)
    (hnone : lazy = true → ∃ ram, k none = pure (.ok, ram) ∧ vars ram = ⟨factory, S.sectorB⟩)
    (hseed : lazy = false → ∀ c : Chip, c.fates.ReadsSucceed →
      (S.store Ram Op vars (S.newestSnapshot >>= k) exec clear factory lazy).Fresh c.cells →
      (S.store Ram Op vars (S.newestSnapshot >>= k) exec clear factory lazy).Seeds (k none) c)
    (hdriven : Driven (S.region .a ∪ S.region .b) (k none))
    (herased : ∀ x, S.isValid (S.load (fun _ => 0xFF) x) = false ∧ clear (fun _ => 0xFF) x)
    (hfactory : (S.generation factory).toNat = if lazy then 0 else 1)
    (hshape : ∀ op ram, (S.store Ram Op vars (S.newestSnapshot >>= k) exec clear factory
      lazy).Shape ram (exec op ram)) :
    (S.store Ram Op vars (S.newestSnapshot >>= k) exec clear factory lazy).Lawful where
  disjoint := disjoint_region hS
  load_congr h := load_congr hS h
  fresh_erased := herased
  fresh_valid h x := (h x).1
  factory_generation := hfactory
  init_driven := (driven_newestSnapshot _).bind fun o => by
    cases o with
    | none => exact hdriven
    | some r => exact hfound r ▸ .pure _
  loads {c c' x r} hnewest hreads h := by
    have hsome : S.newestRam c.cells = some ⟨S.load c.cells x, S.address x⟩ :=
      congrArg (Option.map _) hnewest
    obtain ⟨hcells, hram⟩ := found_eq hS hreads hsome (hfound _) h
    refine ⟨hcells, fun s ram hr => ?_⟩
    obtain ⟨rfl, rfl⟩ := hram s ram hr
    exact ⟨rfl, congrArg SectorRam.snapshot (hmk _),
      (congrArg S.activeBank (hmk _)).trans (activeBank_address hS _ _)⟩
  loads_factory {c c' r} hlazy hfresh hreads h := by
    obtain ⟨ram₀, hk, hvars⟩ := hnone hlazy
    obtain ⟨hcells, hram⟩ := found_eq hS hreads (newestRam_of_fresh fun x =>
      (hfresh x).1) hk h
    refine ⟨hcells, fun s ram hr => ?_⟩
    obtain ⟨rfl, rfl⟩ := hram s ram hr
    exact ⟨rfl, congrArg SectorRam.snapshot hvars,
      (congrArg S.activeBank hvars).trans (activeBank_address hS .b _)⟩
  seeds {c} hlazy hfresh hreads := by
    have hread := fun r c' (h : S.newestSnapshot c = (r, c')) => newestSnapshot_eq hS hreads h
    refine Store.Seeds.after_reading (fun r c' h => ?_) fun o c' h => ?_
    · obtain ⟨hcells, hlog, hfates, -⟩ := hread r c' h
      exact ⟨hcells, hlog, hfates⟩
    · obtain ⟨hcells, -, hfates, ho⟩ := hread _ c' h
      obtain rfl : o = none := (ho o rfl).trans
        (newestRam_of_fresh fun x => (hfresh x).1)
      exact hseed hlazy c' (hreads.after hfates) (hcells.symm ▸ hfresh)
  shape := hshape

end Store

end SectorStore

end HealthCheck
