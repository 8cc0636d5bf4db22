import HealthCheck.Lib.Nor

/-!
# The W25Q64 driver

`W25Q64_Read`, `W25Q64_EraseSector` and `W25Q64_Program`: the range checks, and the split of a
write at page boundaries. A write enable, the SPI transfer of a command and the wait for the
busy bit are one command of the chip; any of them failing is the command failing.

For every caller the driver is linear memory: `program_ok` says that a successful write has
cleared exactly the bits its data asks for, whatever pages it crosses.
-/

namespace HealthCheck.W25q64

open Nor

/-- `W25Q64_CAPACITY_BYTES`. -/
def capacityBytes : ℕ := 8 * 1024 * 1024

/-- `W25Q64_SECTOR_SIZE`. -/
def sectorSize : ℕ := 4096

/-- `W25Q64_PAGE_SIZE`. -/
def pageSize : ℕ := 256

/-- `(length != 0U) && (address <= W25Q64_CAPACITY_BYTES - length)`, in 32-bit arithmetic. -/
def inRange (address length : ℕ) : Bool :=
  length ≠ 0 && address ≤ (capacityBytes + 2 ^ 32 - length) % 2 ^ 32

/-- `W25Q64_Read`: a status and what is then in the caller's buffer. A call that is refused
stores nothing. -/
def read (address length : ℕ) : FlashM (Status × List UInt8) :=
  if inRange address length then Nor.read address length else pure (.error, [])

/-- `W25Q64_EraseSector`. -/
def eraseSector (address : ℕ) : FlashM Status :=
  if address ≥ capacityBytes ∨ address % sectorSize ≠ 0 then pure .error
  else Nor.erase address sectorSize

/-- The bytes of the first of the page programs that store `data` from `address` on. -/
def chunkSize (address : ℕ) (data : List UInt8) : ℕ :=
  min (pageSize - address % pageSize) data.length

theorem chunkSize_pos {address : ℕ} {data : List UInt8} (h : data ≠ []) :
    0 < chunkSize address data := by
  have := Nat.mod_lt address (by decide : 0 < pageSize)
  have := List.length_pos_iff.2 h
  unfold chunkSize
  omega

/-- The loop of `W25Q64_Program`. -/
def programPages (address : ℕ) (data : List UInt8) : FlashM Status :=
  if data = [] then pure .ok
  else do
    let chunk := chunkSize address data
    let status ← Nor.pageProgram pageSize address (data.take chunk)
    if status = .ok then programPages (address + chunk) (data.drop chunk) else pure status
termination_by data.length
decreasing_by
  rw [List.length_drop]
  have : 0 < chunkSize address data := chunkSize_pos ‹data ≠ []›
  have := List.length_pos_iff.2 ‹data ≠ []›
  omega

/-- `W25Q64_Program`. -/
def program (address : ℕ) (data : List UInt8) : FlashM Status :=
  if inRange address data.length then programPages address data else pure .error

/-! ## The driver stays in the range it is given -/

theorem driven_read (region : Set ℕ) (address length : ℕ) :
    Driven region (read address length) := by
  unfold read
  split
  · exact Nor.driven_read region address length
  · exact .pure _

theorem driven_eraseSector (address : ℕ) :
    Driven (Set.Ico address (address + sectorSize)) (eraseSector address) := by
  unfold eraseSector
  split
  · exact .pure _
  · exact driven_erase address sectorSize

theorem chunkSize_inPage (address : ℕ) (data : List UInt8) :
    address % pageSize + (data.take (chunkSize address data)).length ≤ pageSize := by
  have := Nat.mod_lt address (by decide : 0 < pageSize)
  rw [List.length_take, chunkSize]
  omega

theorem driven_programPages {region : Set ℕ} (address : ℕ) (data : List UInt8)
    (h : Set.Ico address (address + data.length) ⊆ region) :
    Driven region (programPages address data) := by
  induction address, data using programPages.induct with
  | case1 address =>
    rw [programPages, if_pos rfl]
    exact .pure _
  | case2 address data hne chunk ih =>
    rw [programPages, if_neg hne]
    have hchunk : chunkSize address data ≤ data.length := Nat.min_le_right ..
    have htake : (data.take (chunkSize address data)).length = chunkSize address data :=
      List.length_take_of_le hchunk
    refine ((driven_pageProgram (chunkSize_inPage address data)).mono ?_).bind fun status => ?_
    · exact (Set.Ico_subset_Ico_right (by omega)).trans h
    · split
      · refine ih ((Set.Ico_subset_Ico (Nat.le_add_right ..) ?_).trans h)
        rw [List.length_drop]
        omega
      · exact .pure _

theorem driven_program (address : ℕ) (data : List UInt8) :
    Driven (Set.Ico address (address + data.length)) (program address data) := by
  unfold program
  split
  · exact driven_programPages address data subset_rfl
  · exact .pure _

/-! ## Calls that report success -/

theorem read_ok {address length : ℕ} {c c' : Chip} {bytes : List UInt8}
    (h : read address length c = (some (.ok, bytes), c')) :
    bytes = c.cells.slice address length ∧ c'.cells = c.cells := by
  unfold read at h
  split at h
  · exact Nor.read_ok h
  · simp at h

theorem eraseSector_ok {address : ℕ} {c c' : Chip}
    (h : eraseSector address c = (some .ok, c')) :
    c'.cells = blank address sectorSize c.cells := by
  unfold eraseSector at h
  split at h
  · simp at h
  · exact erase_ok h

theorem programPages_ok {address : ℕ} {data : List UInt8} {c c' : Chip}
    (h : programPages address data c = (some .ok, c')) :
    c'.cells = programmed address data c.cells := by
  induction address, data using programPages.induct generalizing c with
  | case1 address =>
    rw [programPages, if_pos rfl] at h
    obtain rfl : c = c' := by simpa using h
    exact (programmed_nil address _).symm
  | case2 address data hne chunk =>
    rename_i ih
    rw [programPages, if_neg hne] at h
    obtain ⟨status, c₁, h₁, h₂⟩ := bind_eq_some.1 h
    split at h₂
    · rename_i hok
      subst hok
      have hlen : (data.take (chunkSize address data)).length = chunkSize address data :=
        List.length_take_of_le (Nat.min_le_right ..)
      have happend := programmed_append address (data.take (chunkSize address data))
        (data.drop (chunkSize address data)) c.cells
      rw [hlen, List.take_append_drop] at happend
      rw [ih h₂, pageProgram_ok h₁, burn_eq_programmed _ _ (chunkSize_inPage address data),
        happend]
    · simp only [pure_apply, Prod.mk.injEq, Option.some.injEq] at h₂
      exact absurd h₂.1 ‹_›

theorem program_ok {address : ℕ} {data : List UInt8} {c c' : Chip}
    (h : program address data c = (some .ok, c')) :
    c'.cells = programmed address data c.cells := by
  unfold program at h
  split at h
  · exact programPages_ok h
  · simp at h

/-- A read is not logged. -/
theorem read_log {address length : ℕ} {c c' : Chip} {r : Option (Status × List UInt8)}
    (h : read address length c = (r, c')) : c'.log = c.log := by
  unfold read at h
  split at h
  · unfold Nor.read at h
    split at h <;> exact (congrArg (fun x => x.2.log) h).symm
  · exact (congrArg (fun x => x.2.log) h).symm

/-! ## Writes inside one page -/

/-- A program that stays in one page is one command. -/
theorem program_eq_pageProgram {address : ℕ} {data : List UInt8}
    (h : inRange address data.length = true) (hpage : address % pageSize + data.length ≤ pageSize) :
    program address data = Nor.pageProgram pageSize address data := by
  have hne : data ≠ [] := by
    rintro rfl
    cases h
  have hchunk : chunkSize address data = data.length := by
    unfold chunkSize
    omega
  rw [program, if_pos h, programPages, if_neg hne]
  simp only [hchunk, List.take_length, List.drop_length]
  funext c
  rcases hc : Nor.pageProgram pageSize address data c with ⟨_ | status, c'⟩
  · exact bind_of_none hc
  · rw [bind_of_some hc]
    split_ifs with hok
    · rw [programPages, if_pos rfl, hok]
      rfl
    · rfl

/-! ## When every command completes -/

theorem inRange_of_le {address length : ℕ} (hpos : 0 < length)
    (h : address + length ≤ capacityBytes) : inRange address length = true := by
  have hmod : (capacityBytes + 2 ^ 32 - length) % 2 ^ 32 = capacityBytes - length := by
    rw [capacityBytes] at *
    omega
  rw [inRange, hmod, Bool.and_eq_true, decide_eq_true_eq, decide_eq_true_eq]
  omega

/-- A range that starts at a sector and is no longer than it. -/
theorem inRange_of_sector {address length : ℕ} (hpos : 0 < length) (h : length ≤ sectorSize)
    (haligned : address % sectorSize = 0) (hbelow : address < capacityBytes) :
    inRange address length = true := by
  refine inRange_of_le hpos ?_
  simp only [sectorSize, capacityBytes] at *
  omega

theorem read_cases {address length : ℕ} (h : inRange address length = true) {c : Chip}
    (hreads : c.fates.ReadsSucceed) :
    ∃ c', c'.cells = c.cells ∧ c'.log = c.log ∧ c.fates.After c'.fates ∧
      (read address length c = (some (.ok, c.cells.slice address length), c') ∨
        read address length c = (none, c')) := by
  rw [read, if_pos h]
  exact Nor.read_cases hreads

theorem observes_read {address length : ℕ} (h : inRange address length = true) (m : Cells) :
    Observes (read address length) m (.ok, m.slice address length) := by
  rw [read, if_pos h]
  exact Nor.observes_read address length m

theorem read_of_reads_nil {address length : ℕ} (h : inRange address length = true) {c : Chip}
    (hc : c.fates.reads = []) :
    read address length c = (some (.ok, c.cells.slice address length), c) := by
  obtain ⟨m, ⟨erases, programs, reads⟩, log⟩ := c
  obtain rfl : reads = [] := hc
  rw [read, if_pos h]
  rfl

section Calm

variable (m : Cells) (log : List Command) (reads : List ReadFate)

theorem read_calm {address length : ℕ} (h : inRange address length = true) :
    read address length ⟨m, {}, log⟩ = (some (.ok, m.slice address length), ⟨m, {}, log⟩) :=
  read_of_reads_nil h rfl

theorem eraseSector_calm {address : ℕ} (haligned : address % sectorSize = 0)
    (hbelow : address < capacityBytes) : eraseSector address ⟨m, { reads }, log⟩ =
      (some .ok, ⟨blank address sectorSize m, { reads }, .erase address sectorSize m :: log⟩) := by
  rw [eraseSector, if_neg (by omega)]
  rfl

theorem programPages_calm (address : ℕ) (data : List UInt8) :
    ∃ log', programPages address data ⟨m, { reads }, log⟩ =
      (some .ok, ⟨programmed address data m, { reads }, log'⟩) := by
  induction address, data using programPages.induct generalizing m log with
  | case1 address =>
    rw [programPages, if_pos rfl, programmed_nil]
    exact ⟨log, rfl⟩
  | case2 address data hne chunk =>
    rename_i ih
    have hlen : (data.take (chunkSize address data)).length = chunkSize address data :=
      List.length_take_of_le (Nat.min_le_right ..)
    have happend := programmed_append address (data.take (chunkSize address data))
      (data.drop (chunkSize address data)) m
    rw [hlen, List.take_append_drop] at happend
    have hpage : pageProgram pageSize address (data.take (chunkSize address data))
        ⟨m, { reads }, log⟩ =
        (some .ok, ⟨programmed address (data.take (chunkSize address data)) m, { reads },
          .program address (data.take (chunkSize address data)) m :: log⟩) := by
      rw [← burn_eq_programmed _ _ (chunkSize_inPage address data)]
      rfl
    rw [programPages, if_neg hne, bind_of_some hpage, if_pos rfl, ← happend]
    exact ih _ _

theorem program_calm {address : ℕ} {data : List UInt8}
    (h : inRange address data.length = true) :
    ∃ log', program address data ⟨m, { reads }, log⟩ =
      (some .ok, ⟨programmed address data m, { reads }, log'⟩) := by
  rw [program, if_pos h]
  exact programPages_calm m log reads address data

end Calm

/-- Power is lost in the next erase, which leaves zeros. -/
def cutErase : Fates := { erases := [.powerLost fun _ => 0] }

theorem steady_cutErase : cutErase.Steady where
  erases _ _ h := by cases List.mem_singleton.1 h
  programs _ _ := List.not_mem_nil
  reads _ _ := List.not_mem_nil

/-- What it leaves of the sector at `address`. -/
def zeroed (address : ℕ) (m : Cells) : Cells := overwrite address sectorSize (fun _ => 0) m

theorem eraseSector_cut {address : ℕ} (haligned : address % sectorSize = 0)
    (hbelow : address < capacityBytes) (m : Cells) (log : List Command) :
    eraseSector address ⟨m, cutErase, log⟩ =
      (none, ⟨zeroed address m, {}, .erase address sectorSize m :: log⟩) := by
  rw [eraseSector, if_neg (by omega)]
  rfl

/-- However it ends, an erase of a sector is logged. -/
theorem eraseSector_logged {address : ℕ} (haligned : address % sectorSize = 0)
    (hbelow : address < capacityBytes) (c : Chip) :
    .erase address sectorSize c.cells ∈ (eraseSector address c).2.log := by
  rw [eraseSector, if_neg (by omega)]
  unfold erase conclude
  split <;> exact List.mem_cons_self

/-! ## Calls that power does not interrupt -/

theorem uncut_read (address length : ℕ) : Uncut (read address length) := by
  unfold read
  split
  · exact Nor.uncut_read address length
  · exact .pure _

theorem uncut_eraseSector (address : ℕ) : Uncut (eraseSector address) := by
  unfold eraseSector
  split
  · exact .pure _
  · exact uncut_erase address sectorSize

theorem uncut_programPages (address : ℕ) (data : List UInt8) :
    Uncut (programPages address data) := by
  induction address, data using programPages.induct with
  | case1 address =>
    rw [programPages, if_pos rfl]
    exact .pure _
  | case2 address data hne chunk ih =>
    rw [programPages, if_neg hne]
    refine .bind (driven_pageProgram (chunkSize_inPage address data)) (uncut_pageProgram _ _ _)
      fun status => ?_
    split
    · exact ih
    · exact .pure _

theorem uncut_program (address : ℕ) (data : List UInt8) : Uncut (program address data) := by
  unfold program
  split
  · exact uncut_programPages address data
  · exact .pure _

/-! ## Writes that are cut short -/

/-- The command a chip was working on last, if it was a page program, has stored a first part of
its data. -/
def Prefixed (c : Chip) : Prop :=
  ∀ a data before, c.log.head? = some (.program a data before) →
    ∃ k, c.cells = programmed a (data.take k) before

/-- A page program of the write of `data` at `address`: what stands before it is stored. -/
def PartOf (address : ℕ) (data : List UInt8) (m : Cells) (command : Command) : Prop :=
  ∃ j n, j + n ≤ data.length ∧ command =
    .program (address + j) ((data.drop j).take n) (programmed address (data.take j) m)

theorem pageProgram_eq_none {a : ℕ} {data : List UInt8} {c c' : Chip} {r : Option Status}
    (h : pageProgram pageSize a data c = (r, c')) (hr : r ≠ some .ok) :
    c'.log = .program a data c.cells :: c.log := by
  unfold pageProgram conclude at h
  split at h <;> cases h
  · exact absurd rfl hr
  · rfl
  · rfl

theorem pageProgram_log (a : ℕ) (data : List UInt8) (c : Chip) :
    (pageProgram pageSize a data c).2.log = .program a data c.cells :: c.log := by
  unfold pageProgram conclude
  split <;> rfl

/-- The commands of a write, and what is stored when it does not report success. -/
theorem programPages_commands (address : ℕ) (data : List UInt8) (c : Chip) :
    ∃ commands, (programPages address data c).2.log = commands ++ c.log ∧
      (data ≠ [] → commands ≠ []) ∧
      (∀ command ∈ commands, PartOf address data c.cells command) ∧
      ((programPages address data c).1 ≠ some .ok → Prefixed (programPages address data c).2 →
        ∃ k, (programPages address data c).2.cells =
          programmed address (data.take k) c.cells) := by
  induction address, data using programPages.induct generalizing c with
  | case1 address =>
    rw [programPages, if_pos rfl]
    exact ⟨[], rfl, fun h => absurd rfl h, fun _ h => (List.not_mem_nil h).elim,
      fun h => absurd rfl h⟩
  | case2 address data hne chunk =>
    rename_i ih
    have hchunk : chunkSize address data ≤ data.length := Nat.min_le_right ..
    have hlen : (data.take (chunkSize address data)).length = chunkSize address data :=
      List.length_take_of_le hchunk
    have hfirst : PartOf address data c.cells
        (.program address (data.take (chunkSize address data)) c.cells) :=
      ⟨0, chunkSize address data, by omega, by
        rw [Nat.add_zero, List.drop_zero, List.take_zero, programmed_nil]⟩
    have hcut : ∀ {r c'}, pageProgram pageSize address (data.take (chunkSize address data)) c =
        (r, c') → r ≠ some .ok → Prefixed c' →
        ∃ k, c'.cells = programmed address (data.take k) c.cells := by
      intro r c' h hr hprefixed
      obtain ⟨k, hk⟩ := hprefixed _ _ _ (by rw [pageProgram_eq_none h hr]; rfl)
      rw [List.take_take] at hk
      exact ⟨_, hk⟩
    have hlog := pageProgram_log address (data.take (chunkSize address data)) c
    rw [programPages, if_neg hne]
    rcases hpage : pageProgram pageSize address (data.take (chunkSize address data)) c with
      ⟨_ | status, c₁⟩
    · rw [bind_of_none hpage]
      rw [hpage] at hlog
      exact ⟨[_], hlog, fun _ => List.cons_ne_nil _ _,
        fun command h => List.mem_singleton.1 h ▸ hfirst, fun hr => hcut hpage hr⟩
    · rw [bind_of_some hpage]
      rw [hpage] at hlog
      split
      · rename_i hok
        subst hok
        obtain ⟨commands, hcommands, -, hparts, hprefix⟩ := ih c₁
        have happend : ∀ rest, programmed (address + chunkSize address data) rest c₁.cells =
            programmed address (data.take (chunkSize address data) ++ rest) c.cells := by
          intro rest
          rw [pageProgram_ok hpage, burn_eq_programmed _ _ (chunkSize_inPage address data),
            ← programmed_append, hlen]
        refine ⟨commands ++ [.program address (data.take (chunkSize address data)) c.cells],
          ?_, fun _ => by simp, ?_, fun hr hp => ?_⟩
        · rw [hcommands, hlog, List.append_assoc, List.singleton_append]
        · intro command h
          rcases List.mem_append.1 h with h | h
          · obtain ⟨j, n, hjn, rfl⟩ := hparts command h
            rw [List.length_drop] at hjn
            refine ⟨chunkSize address data + j, n, by omega, ?_⟩
            rw [happend, ← List.take_add, List.drop_drop, Nat.add_assoc]
          · exact List.mem_singleton.1 h ▸ hfirst
        · obtain ⟨k, hk⟩ := hprefix hr hp
          exact ⟨chunkSize address data + k, by rw [hk, happend, ← List.take_add]⟩
      · rename_i hfailed
        have hr : some status ≠ some Status.ok := fun h => hfailed (Option.some.inj h)
        exact ⟨[_], hlog, fun _ => List.cons_ne_nil _ _,
          fun command h => List.mem_singleton.1 h ▸ hfirst, fun _ => hcut hpage hr⟩

theorem program_commands {address : ℕ} {data : List UInt8}
    (h : inRange address data.length = true) (c : Chip) :
    ∃ commands, (program address data c).2.log = commands ++ c.log ∧
      (data ≠ [] → commands ≠ []) ∧
      (∀ command ∈ commands, PartOf address data c.cells command) ∧
      ((program address data c).1 ≠ some .ok → Prefixed (program address data c).2 →
        ∃ k, (program address data c).2.cells =
          programmed address (data.take k) c.cells) := by
  rw [program, if_pos h]
  exact programPages_commands address data c

/-- A write within a page that fails. -/
theorem program_fails (address : ℕ) (data : List UInt8) (h : inRange address data.length = true)
    (hne : data ≠ []) (hpage : chunkSize address data = data.length) (m : Cells) (timedOut : Bool)
    (left : Cells) (log : List Command) :
    program address data ⟨m, { programs := [.fails timedOut left] }, log⟩ =
      (some (failure timedOut),
        ⟨overwrite address data.length left m, {}, .program address data m :: log⟩) := by
  have hfails : pageProgram pageSize address data ⟨m, { programs := [.fails timedOut left] }, log⟩ =
      (some (failure timedOut),
        ⟨overwrite address data.length left m, {}, .program address data m :: log⟩) := rfl
  rw [program, if_pos h, programPages, if_neg hne]
  simp only [hpage, List.take_length]
  rw [bind_of_some hfails, if_neg (failure_ne_ok timedOut)]
  rfl

/-- A write within a page that loses power. -/
theorem program_cut (address : ℕ) (data : List UInt8) (h : inRange address data.length = true)
    (hne : data ≠ []) (hpage : chunkSize address data = data.length) (m : Cells) (left : Cells)
    (log : List Command) : program address data ⟨m, { programs := [.powerLost left] }, log⟩ =
      (none, ⟨overwrite address data.length left m, {}, .program address data m :: log⟩) := by
  have hcut : pageProgram pageSize address data ⟨m, { programs := [.powerLost left] }, log⟩ =
      (none, ⟨overwrite address data.length left m, {}, .program address data m :: log⟩) := rfl
  rw [program, if_pos h, programPages, if_neg hne]
  simp only [hpage, List.take_length]
  exact bind_of_none hcut

/-- On erased cells a write only ever programs erased cells. -/
theorem PartOf.blank {address : ℕ} {data before : List UInt8} {a : ℕ} {m m' : Cells}
    (h : PartOf address data m (.program a before m'))
    (hblank : ∀ i, address ≤ i → i < address + data.length → m i = 0xFF) :
    ∀ i, a ≤ i → i < a + before.length → m' i = 0xFF := by
  obtain ⟨j, n, hjn, heq⟩ := h
  cases heq
  intro i hi hi'
  rw [List.length_take, List.length_drop] at hi'
  rw [programmed_outside, hblank i (by omega) (by omega)]
  rw [Set.mem_Ico, List.length_take]
  omega

/-- A write in which no command fails reports success if it returns. -/
theorem program_steady {address : ℕ} {data : List UInt8}
    (h : inRange address data.length = true) {c c' : Chip} {s : Status} (hs : c.fates.Steady)
    (hc : program address data c = (some s, c')) : s = .ok := by
  have hcalm := (driven_program address data).reliable c hs s c' hc
  obtain ⟨log', hok⟩ := program_calm c.cells c.log [] h
  have hsome : (some s, c'.calm) = (some Status.ok, _) := hcalm.symm.trans hok
  exact Option.some.inj (congrArg Prod.fst hsome)

/-- The same of an erase. -/
theorem eraseSector_steady {address : ℕ} (haligned : address % sectorSize = 0)
    (hbelow : address < capacityBytes) {c c' : Chip} {s : Status}
    (hs : ∀ t left, .fails t left ∉ c.fates.erases)
    (hc : eraseSector address c = (some s, c')) : s = .ok := by
  rw [eraseSector, if_neg (by omega)] at hc
  rcases conclude_eq_some hc with ⟨-, rfl, -⟩ | ⟨t, left, hfate, -⟩
  · rfl
  · exact absurd hfate (headD_ne_fails hs t left)

/-! ## The fates of the commands -/

/-- The fate of a read that is to fail. -/
def isReadFailure : ReadFate → Bool
  | .fails .. => true
  | _ => false

/-- A read that returns has the bytes, or failed and left something in the buffer. -/
theorem read_returns {address length : ℕ} (h : inRange address length = true) {c c' : Chip}
    {s : Status} {bytes : List UInt8} (hc : read address length c = (some (s, bytes), c')) :
    c' = { c with fates := { c.fates with reads := c.fates.reads.tail } } ∧
    ((isReadFailure (c.fates.reads.headD .completes) = false ∧ s = .ok ∧
        bytes = c.cells.slice address length) ∨
      (isReadFailure (c.fates.reads.headD .completes) = true ∧ s ≠ .ok ∧
        ∃ t left, c.fates.reads.headD .completes = .fails t left ∧
          bytes = left.slice 0 length)) := by
  rw [read, if_pos h] at hc
  unfold Nor.read at hc
  split at hc
  · rename_i hfate
    cases hc
    exact ⟨rfl, .inl ⟨by rw [hfate]; rfl, rfl, rfl⟩⟩
  · rename_i t left hfate
    cases hc
    exact ⟨rfl, .inr ⟨by rw [hfate]; rfl, failure_ne_ok t, t, left, hfate, rfl⟩⟩
  · cases hc


theorem eraseSector_reads (address : ℕ) (c : Chip) :
    (eraseSector address c).2.fates.reads = c.fates.reads := by
  unfold eraseSector
  split
  · rfl
  · unfold erase conclude
    split <;> rfl

theorem pageProgram_reads (a : ℕ) (data : List UInt8) (c : Chip) :
    (pageProgram pageSize a data c).2.fates.reads = c.fates.reads := by
  unfold pageProgram conclude
  split <;> rfl

theorem program_reads (address : ℕ) (data : List UInt8) (c : Chip) :
    (program address data c).2.fates.reads = c.fates.reads := by
  have hpages : ∀ (address : ℕ) (data : List UInt8) (c : Chip),
      (programPages address data c).2.fates.reads = c.fates.reads := by
    intro address data
    induction address, data using programPages.induct with
    | case1 address =>
      intro c
      rw [programPages, if_pos rfl]
      rfl
    | case2 address data hne chunk =>
      rename_i ih
      intro c
      have hpage := pageProgram_reads address (data.take (chunkSize address data)) c
      rw [programPages, if_neg hne]
      rcases h : pageProgram pageSize address (data.take (chunkSize address data)) c with
        ⟨_ | status, c₁⟩
      · rw [bind_of_none h]
        rwa [h] at hpage
      · rw [bind_of_some h]
        rw [h] at hpage
        split
        · exact (ih c₁).trans hpage
        · exact hpage
  unfold program
  split
  · exact hpages address data c
  · rfl

/-- The fate of a write that is to fail. -/
def isFailure : WriteFate → Bool
  | .fails .. => true
  | _ => false

/-- The first of some writes failed if the fate at the head was to fail, and the others come
behind it. -/
theorem any_take_succ (fates : List WriteFate) (n : ℕ) : (fates.take (n + 1)).any isFailure =
    (isFailure (fates.headD .completes) || (fates.tail.take n).any isFailure) := by
  cases fates with
  | nil => simp [isFailure]
  | cons fate fates => rfl

theorem conclude_isFailure {fate : WriteFate} {a n : ℕ} {done : Cells} {c c' : Chip} {s : Status}
    (h : conclude fate a n done c = (some s, c')) : isFailure fate = decide (s ≠ .ok) := by
  cases fate with
  | completes =>
    cases h
    rfl
  | fails t left =>
    simp only [conclude, Prod.mk.injEq, Option.some.injEq] at h
    rw [← h.1, decide_eq_true (failure_ne_ok t), isFailure]
  | powerLost left => cases h

/-- An erase that returns uses up its fate, and failed if that was to fail. -/
theorem eraseSector_fate {address : ℕ} (haligned : address % sectorSize = 0)
    (hbelow : address < capacityBytes) {c c' : Chip} {s : Status}
    (h : eraseSector address c = (some s, c')) :
    isFailure (c.fates.erases.headD .completes) = decide (s ≠ .ok) ∧
      c'.fates.erases = c.fates.erases.tail ∧ c'.fates.programs = c.fates.programs := by
  rw [eraseSector, if_neg (by omega)] at h
  refine ⟨conclude_isFailure h, ?_⟩
  have hfates := congrArg (fun r => r.2.fates) h
  rw [← hfates]
  show (conclude _ _ _ _ _).2.fates.erases = _ ∧ (conclude _ _ _ _ _).2.fates.programs = _
  unfold conclude
  split <;> exact ⟨rfl, rfl⟩

/-- The pages of a write. -/
def pages (address length : ℕ) : ℕ := (address % pageSize + length + (pageSize - 1)) / pageSize

/-- One page less is left behind the first chunk. -/
theorem pages_succ {address : ℕ} {data : List UInt8}
    (hrest : data.drop (chunkSize address data) ≠ []) : pages address data.length =
      pages (address + chunkSize address data) (data.drop (chunkSize address data)).length + 1 := by
  have hmod := Nat.mod_lt address (by decide : 0 < pageSize)
  have hlt : chunkSize address data < data.length := by
    by_contra hge
    exact hrest (List.drop_eq_nil_of_le (Nat.le_of_not_lt hge))
  have hchunk : chunkSize address data = pageSize - address % pageSize := by
    unfold chunkSize at *
    omega
  rw [List.length_drop, hchunk] at *
  unfold pages pageSize at *
  omega

/-- A short write takes one page. -/
theorem pages_eq_one {address : ℕ} {data : List UInt8} (h : data ≠ [])
    (hrest : data.drop (chunkSize address data) = []) : pages address data.length = 1 := by
  have hpos : 0 < data.length := List.length_pos_iff.2 h
  have hmod := Nat.mod_lt address (by decide : 0 < pageSize)
  have hall : data.length ≤ chunkSize address data := List.drop_eq_nil_iff.1 hrest
  unfold pages chunkSize pageSize at *
  omega

theorem programPages_fates {address : ℕ} {data : List UInt8} (hne : data ≠ []) {c c' : Chip}
    {s : Status} (h : programPages address data c = (some s, c')) :
    (c.fates.programs.take (pages address data.length)).any isFailure = decide (s ≠ .ok) := by
  induction address, data using programPages.induct generalizing c with
  | case1 address => exact absurd rfl hne
  | case2 address data _ chunk =>
    rename_i ih
    rw [programPages, if_neg hne] at h
    obtain ⟨status, c₁, h₁, h₂⟩ := bind_eq_some.1 h
    have hfates : c₁.fates.programs = c.fates.programs.tail := by
      have hpage := congrArg (fun r => r.2.fates.programs) h₁
      rw [← hpage]
      show (conclude _ _ _ _ _).2.fates.programs = _
      unfold conclude
      split <;> rfl
    have hfirst : isFailure (c.fates.programs.headD .completes) = decide (status ≠ .ok) :=
      conclude_isFailure h₁
    by_cases hrest : data.drop (chunkSize address data) = []
    · have hlast : s = status := by
        split at h₂
        · rename_i hok
          rw [hrest, programPages, if_pos rfl] at h₂
          cases h₂
          exact hok.symm
        · cases h₂
          rfl
      rw [pages_eq_one hne hrest, any_take_succ, hfirst, List.take_zero, List.any_nil,
        Bool.or_false, hlast]
    · rw [pages_succ hrest, any_take_succ, hfirst]
      split at h₂
      · rename_i hok
        rw [← hfates, ih hrest h₂, decide_eq_false (not_not_intro hok), Bool.false_or]
      · rename_i hfailed
        cases h₂
        rw [decide_eq_true hfailed, Bool.true_or]

/-- A write that returns failed if a page of it was to fail. -/
theorem program_fates {address : ℕ} {data : List UInt8}
    (hrange : inRange address data.length = true) (hne : data ≠ []) {c c' : Chip} {s : Status}
    (h : program address data c = (some s, c')) :
    (c.fates.programs.take (pages address data.length)).any isFailure = decide (s ≠ .ok) := by
  rw [program, if_pos hrange] at h
  exact programPages_fates hne h

theorem eraseSector_log {address : ℕ} (haligned : address % sectorSize = 0)
    (hbelow : address < capacityBytes) (c : Chip) :
    (eraseSector address c).2.log = .erase address sectorSize c.cells :: c.log := by
  rw [eraseSector, if_neg (by omega)]
  unfold erase conclude
  split <;> rfl

end HealthCheck.W25q64
