import HealthCheck.W25q64

/-!
# The W25Q64 driver, transfer by transfer

`W25Q64_Program` with the bytes it sends: a write enable, a page program of four command bytes and
a chunk of the data, and the wait for the chip, in rounds that end at page boundaries. Any transfer
may time out with some of its bytes sent; the chip carries out what it got when it is deselected. A
page program ANDs its bytes into the cells while the address counter wraps in its page (`Nor.burn`).

* `position` — where each round begins.
* `program_linear` — what the rounds leave: linear memory, up to the round that failed.
* `program_refines` — so the write is one of the command-level driver, for some fates.
-/

namespace HealthCheck.W25q64.Spi

open Nor

/-! ## Transfers -/

/-- What becomes of a call of `w25q64_Transfer`: every byte is sent, or it times out behind some. -/
inductive Transfer where
  | completes
  | timesOut (sent : ℕ)

/-- What the call returns. -/
def Transfer.status : Transfer → Status
  | completes => .ok
  | timesOut _ => .timeout

/-- What the chip gets. -/
def Transfer.sent (bytes : List UInt8) : Transfer → List UInt8
  | completes => bytes
  | timesOut n => bytes.take n

/-- What becomes of the calls in one round of the loop: the transfers of the write enable, of the
command and of the data, and what `w25q64_WaitReady` returns. -/
structure Round where
  enable : Transfer := .completes
  command : Transfer := .completes
  data : Transfer := .completes
  ready : Status := .ok

/-- All of them succeed. -/
def Round.Succeeds (r : Round) : Prop :=
  r.enable = .completes ∧ r.command = .completes ∧ r.data = .completes ∧ r.ready = .ok

/-- How many of `n` bytes of data get to the chip. -/
def Round.stored (r : Round) (n : ℕ) : ℕ :=
  match r.enable, r.command, r.data with
  | .completes, .completes, .completes => n
  | .completes, .completes, .timesOut sent => min sent n
  | _, _, _ => 0

/-! ## The chip -/

/-- The cells, the write enable latch, and the page programs carried out, latest first. -/
structure SpiChip where
  cells : Cells
  writeEnabled : Bool
  log : List (ℕ × List UInt8)

/-- `W25Q64_COMMAND_WRITE_ENABLE`. -/
def commandWriteEnable : UInt8 := 0x06

/-- `W25Q64_COMMAND_PAGE_PROGRAM`. -/
def commandPageProgram : UInt8 := 0x02

/-- What the chip does with the bytes between its selection and the end of it. -/
def SpiChip.deselect (chip : SpiChip) : List UInt8 → SpiChip
  | [command] => { chip with writeEnabled := chip.writeEnabled || command = commandWriteEnable }
  | command :: high :: middle :: low :: byte :: data =>
    let address := high.toNat * 2 ^ 16 + middle.toNat * 2 ^ 8 + low.toNat
    if command = commandPageProgram ∧ chip.writeEnabled = true then
      ⟨burn pageSize address (byte :: data) chip.cells, false, (address, byte :: data) :: chip.log⟩
    else chip
  | _ => chip

/-! ## The driver -/

/-- `w25q64_WriteEnable`. -/
def writeEnable (enable : Transfer) (chip : SpiChip) : Status × SpiChip :=
  (enable.status, chip.deselect (enable.sent [commandWriteEnable]))

/-- `command` of `W25Q64_Program`. -/
def commandBytes (address : ℕ) : List UInt8 :=
  [commandPageProgram, UInt8.ofNat (address >>> 16), UInt8.ofNat (address >>> 8),
    UInt8.ofNat address]

/-- The calls of one round. -/
def pageCommand (r : Round) (address : ℕ) (bytes : List UInt8) (chip : SpiChip) :
    Status × SpiChip :=
  let (status, chip) := writeEnable r.enable chip
  if status = .ok then
    let sent := r.command.sent (commandBytes address)
    let (status, sent) :=
      if r.command.status = .ok then (r.data.status, sent ++ r.data.sent bytes)
      else (r.command.status, sent)
    let chip := chip.deselect sent
    if status = .ok then (r.ready, chip) else (status, chip)
  else (status, chip)

/-- The loop of `W25Q64_Program`, from round `k` on. `offset` is how far `source` has moved. -/
def programLoop (round : ℕ → Round) (data : List UInt8) (k address offset length : ℕ)
    (chip : SpiChip) : Status × SpiChip :=
  if length = 0 then (.ok, chip)
  else
    let chunk := min (pageSize - address % pageSize) length
    let (status, chip) := pageCommand (round k) address ((data.drop offset).take chunk) chip
    if status = .ok then
      programLoop round data (k + 1) ((address + chunk) % 2 ^ 32) (offset + chunk)
        (length - chunk) chip
    else (status, chip)
termination_by length
decreasing_by
  have := Nat.mod_lt address (by decide : 0 < pageSize)
  omega

/-- `W25Q64_Program`. -/
def program (round : ℕ → Round) (address : ℕ) (data : List UInt8) (chip : SpiChip) :
    Status × SpiChip :=
  if inRange address data.length then programLoop round data 0 address 0 data.length chip
  else (.error, chip)

/-! ## One round -/

theorem address_commandBytes {address : ℕ} (h : address < 2 ^ 24) :
    (UInt8.ofNat (address >>> 16)).toNat * 2 ^ 16 + (UInt8.ofNat (address >>> 8)).toNat * 2 ^ 8 +
      (UInt8.ofNat address).toNat = address := by
  simp only [UInt8.toNat_ofNat', Nat.shiftRight_eq_div_pow]
  omega

/-- What the chip does with a command and what it got of the data. -/
theorem deselect_command {address : ℕ} (h : address < 2 ^ 24) {bytes : List UInt8}
    (hpage : address % pageSize + bytes.length ≤ pageSize) {chip : SpiChip}
    (henabled : chip.writeEnabled = true) :
    (chip.deselect (commandBytes address ++ bytes)).cells = programmed address bytes chip.cells ∧
      ∀ c ∈ (chip.deselect (commandBytes address ++ bytes)).log,
        c ∈ chip.log ∨ c = (address, bytes) := by
  cases bytes with
  | nil => exact ⟨(programmed_nil address chip.cells).symm, fun _ hc => .inl hc⟩
  | cons byte bytes =>
    have hchip : chip.deselect (commandBytes address ++ byte :: bytes) =
        ⟨burn pageSize address (byte :: bytes) chip.cells, false,
          (address, byte :: bytes) :: chip.log⟩ := by
      rw [commandBytes]
      simp only [List.cons_append, List.nil_append, SpiChip.deselect]
      rw [if_pos ⟨trivial, henabled⟩, address_commandBytes h]
    rw [hchip]
    exact ⟨burn_eq_programmed _ _ hpage, fun c hc => (List.mem_cons.1 hc).symm⟩

/-- With fewer bytes than a command and one byte of data it does not touch its cells. -/
theorem deselect_short (chip : SpiChip) {sent : List UInt8} (h : sent.length ≤ 4) :
    (chip.deselect sent).cells = chip.cells ∧ (chip.deselect sent).log = chip.log := by
  match sent, h with
  | [], _ => exact ⟨rfl, rfl⟩
  | [_], _ => exact ⟨rfl, rfl⟩
  | [_, _], _ => exact ⟨rfl, rfl⟩
  | [_, _, _], _ => exact ⟨rfl, rfl⟩
  | [_, _, _, _], _ => exact ⟨rfl, rfl⟩

/-- What a round does to the chip, and when it goes on. -/
structure PageCommand (r : Round) (address : ℕ) (bytes : List UInt8) (chip : SpiChip)
    (result : Status × SpiChip) : Prop where
  cells : result.2.cells = programmed address (bytes.take (r.stored bytes.length)) chip.cells
  status : result.1 = .ok ↔ r.Succeeds
  log : ∀ c ∈ result.2.log, c ∈ chip.log ∨ c = (address, bytes.take (r.stored bytes.length))

theorem pageCommand_spec (r : Round) {address : ℕ} (h : address < 2 ^ 24) {bytes : List UInt8}
    (hpage : address % pageSize + bytes.length ≤ pageSize) (chip : SpiChip) :
    PageCommand r address bytes chip (pageCommand r address bytes chip) := by
  obtain ⟨enable, command, data, ready⟩ := r
  cases enable with
  | timesOut n =>
    have hshort : ([commandWriteEnable].take n).length ≤ 4 :=
      (List.length_take_le' ..).trans (by decide)
    obtain ⟨hcells, hlog⟩ := deselect_short chip hshort
    refine ⟨?_, ⟨nofun, fun hs => nomatch hs.1⟩, fun c hc => .inl ?_⟩
    · exact hcells.trans (programmed_nil address chip.cells).symm
    · exact hlog ▸ hc
  | completes =>
    have hcells : (chip.deselect [commandWriteEnable]).cells = chip.cells := rfl
    have henabled : (chip.deselect [commandWriteEnable]).writeEnabled = true :=
      Bool.or_true chip.writeEnabled
    cases command with
    | timesOut n =>
      have hshort : ((commandBytes address).take n).length ≤ 4 := List.length_take_le' ..
      obtain ⟨hcells', hlog⟩ := deselect_short (chip.deselect [commandWriteEnable]) hshort
      refine ⟨?_, ⟨nofun, fun hs => nomatch hs.2.1⟩, fun c hc => .inl ?_⟩
      · exact hcells'.trans (programmed_nil address chip.cells).symm
      · exact hlog ▸ hc
    | completes =>
      cases data with
      | timesOut n =>
        have htake : bytes.take (min n bytes.length) = bytes.take n := by
          rw [List.take_eq_take_iff, Nat.min_assoc, Nat.min_self]
        have hpart : address % pageSize + (bytes.take n).length ≤ pageSize :=
          (Nat.add_le_add_left (List.length_take_le' ..) _).trans hpage
        obtain ⟨hcells', hlog⟩ := deselect_command h hpart henabled
        refine ⟨?_, ⟨nofun, fun hs => nomatch hs.2.2.1⟩, fun c hc => ?_⟩
        · exact hcells'.trans (congrArg (programmed address · chip.cells) htake.symm)
        · exact (hlog c hc).imp_right fun heq => heq.trans (congrArg (address, ·) htake.symm)
      | completes =>
        have htake : bytes.take bytes.length = bytes := List.take_length
        obtain ⟨hcells', hlog⟩ := deselect_command h hpage henabled
        refine ⟨?_, ⟨fun hs => ⟨rfl, rfl, rfl, hs⟩, fun hs => hs.2.2.2⟩, fun c hc => ?_⟩
        · exact hcells'.trans (congrArg (programmed address · chip.cells) htake.symm)
        · exact (hlog c hc).imp_right fun heq => heq.trans (congrArg (address, ·) htake.symm)

/-! ## Rounds -/

/-- Where round `k` of a write begins: at the address, at a page boundary or at the end. -/
def position (address length k : ℕ) : ℕ :=
  min (max address ((address / pageSize + k) * pageSize)) (address + length)

section Position

variable (address length k : ℕ)

theorem position_zero : position address length 0 = address := by
  unfold position pageSize
  omega

theorem position_succ : position address length (k + 1) = position address length k +
    min (pageSize - position address length k % pageSize)
      (address + length - position address length k) := by
  unfold position pageSize
  omega

theorem le_position : address ≤ position address length k := by
  unfold position
  omega

theorem position_le : position address length k ≤ address + length :=
  Nat.min_le_right ..

/-- There are no more rounds than bytes. -/
theorem position_length : position address length length = address + length := by
  unfold position pageSize
  omega

end Position

theorem Round.stored_le (r : Round) (n : ℕ) : r.stored n ≤ n := by
  unfold Round.stored
  split
  · exact Nat.le_refl n
  · exact Nat.min_le_right ..
  · exact Nat.zero_le n

theorem Round.Succeeds.stored {r : Round} (h : r.Succeeds) (n : ℕ) : r.stored n = n := by
  obtain ⟨enable, command, data, ready⟩ := r
  obtain ⟨rfl, rfl, rfl, -⟩ := h
  rfl

section Loop

variable {round : ℕ → Round} {address : ℕ} {data : List UInt8} {chip : SpiChip} {k : ℕ}

/-- The round at a position of the write: the pages before it are stored, and so is what it has
sent of its own. -/
theorem round_spec (hrange : address + data.length ≤ capacityBytes) {chip' : SpiChip}
    (hchip : chip'.cells = programmed address
      (data.take (position address data.length k - address)) chip.cells) {start chunk : ℕ}
    (hstart : start = position address data.length k)
    (hchunk : chunk = min (pageSize - start % pageSize) (address + data.length - start)) :
    ∃ status chip'', pageCommand (round k) start ((data.drop (start - address)).take chunk) chip' =
        (status, chip'') ∧ (status = .ok ↔ (round k).Succeeds) ∧ chip''.cells = programmed address
          (data.take (start - address + (round k).stored chunk)) chip.cells := by
  have hle : address ≤ start := hstart ▸ le_position ..
  have hend : start ≤ address + data.length := hstart ▸ position_le ..
  have hlength : ((data.drop (start - address)).take chunk).length = chunk := by
    rw [List.length_take, List.length_drop]
    omega
  have hpage : start % pageSize + ((data.drop (start - address)).take chunk).length ≤ pageSize := by
    have hmod := Nat.mod_lt start (by decide : 0 < pageSize)
    omega
  have hfits : start < 2 ^ 24 := by
    rw [capacityBytes] at hrange
    omega
  have hspec := pageCommand_spec (round k) hfits hpage chip'
  refine ⟨_, _, rfl, hspec.status, hspec.cells.trans ?_⟩
  have hstored := (round k).stored_le chunk
  have htake : (data.take (start - address)).length = start - address := by
    rw [List.length_take]
    omega
  have happend := programmed_append address (data.take (start - address))
    ((data.drop (start - address)).take ((round k).stored chunk)) chip.cells
  rw [htake, Nat.add_sub_cancel' hle, ← List.take_add] at happend
  rw [hlength, hchip, ← hstart, List.take_take, Nat.min_eq_left hstored, happend]

/-- **The loop gets to its `k`-th round** with the pages before it stored, if those succeed. -/
theorem programLoop_reaches (chip : SpiChip) (hrange : address + data.length ≤ capacityBytes)
    (hrounds : ∀ j < k, (round j).Succeeds) :
    ∃ chip', chip'.cells = programmed address
        (data.take (position address data.length k - address)) chip.cells ∧
      programLoop round data 0 address 0 data.length chip =
        programLoop round data k (position address data.length k)
          (position address data.length k - address)
          (address + data.length - position address data.length k) chip' := by
  induction k with
  | zero =>
    refine ⟨chip, ?_, ?_⟩
    · rw [position_zero, Nat.sub_self, List.take_zero, programmed_nil]
    · rw [position_zero, Nat.sub_self, Nat.add_sub_cancel_left]
  | succ k ih =>
    obtain ⟨chip', hcells, hloop⟩ := ih fun j hj => hrounds j (by omega)
    have hsucceeds := hrounds k (Nat.lt_succ_self k)
    have hstart : address ≤ position address data.length k := le_position ..
    have hnext := position_succ address data.length k
    rw [hloop]
    by_cases hdone : address + data.length - position address data.length k = 0
    · have hsame : position address data.length (k + 1) = position address data.length k := by
        rw [hnext, hdone, Nat.min_zero, Nat.add_zero]
      refine ⟨chip', by rwa [hsame], ?_⟩
      rw [hsame, hdone, programLoop, if_pos rfl, programLoop, if_pos rfl]
    · obtain ⟨status, chip'', hpage, hstatus, hcells'⟩ := round_spec hrange hcells rfl rfl
      have hbelow : position address data.length (k + 1) < 2 ^ 32 := by
        have hend := position_le address data.length (k + 1)
        rw [capacityBytes] at hrange
        omega
      rw [hsucceeds.stored] at hcells'
      refine ⟨chip'', ?_, ?_⟩
      · rw [hcells', hnext, Nat.sub_add_comm hstart]
      · rw [programLoop, if_neg hdone]
        dsimp only
        rw [hpage]
        dsimp only
        rw [if_pos (hstatus.2 hsucceeds), ← hnext, Nat.mod_eq_of_lt hbelow]
        congr 1 <;> omega

/-- **Every command stays within one page**, whatever becomes of the transfers. -/
theorem inPage_programLoop {offset length : ℕ} (hrange : address + length ≤ capacityBytes) :
    ∀ c ∈ (programLoop round data k address offset length chip).2.log,
      c ∈ chip.log ∨ c.1 % pageSize + c.2.length ≤ pageSize := by
  have hcommand {k address chunk offset : ℕ} {chip chip' : SpiChip} {status : Status}
      (hlow : address ≤ capacityBytes) (hchunk : chunk ≤ pageSize - address % pageSize)
      (hpage : pageCommand (round k) address ((data.drop offset).take chunk) chip =
        (status, chip')) :
      ∀ c ∈ chip'.log, c ∈ chip.log ∨ c.1 % pageSize + c.2.length ≤ pageSize := by
    have hmod := Nat.mod_lt address (by decide : 0 < pageSize)
    have hlength : ((data.drop offset).take chunk).length ≤ chunk := List.length_take_le ..
    have hfits : address < 2 ^ 24 := by
      rw [capacityBytes] at hlow
      omega
    have hinPage : address % pageSize + ((data.drop offset).take chunk).length ≤ pageSize := by
      omega
    have hspec := pageCommand_spec (round k) hfits hinPage chip
    rw [hpage] at hspec
    intro c hc
    refine (hspec.log c hc).imp_right ?_
    rintro rfl
    have hsent := List.length_take_le' ((round k).stored ((data.drop offset).take chunk).length)
      ((data.drop offset).take chunk)
    dsimp only
    omega
  induction k, address, offset, length, chip using programLoop.induct round data with
  | case1 k address offset chip =>
    rw [programLoop, if_pos rfl]
    exact fun c hc => .inl hc
  | case2 k address offset length chip hlength chunk chip' hpage ih =>
    have hnext : (address + chunk) % 2 ^ 32 = address + chunk :=
      Nat.mod_eq_of_lt (by rw [capacityBytes] at hrange; omega)
    rw [programLoop, if_neg hlength]
    dsimp only
    rw [hpage]
    dsimp only
    rw [if_pos rfl]
    intro c hc
    rcases ih (by omega) c hc with hc | hc
    · exact hcommand (by omega) (Nat.min_le_left ..) hpage c hc
    · exact .inr hc
  | case3 k address offset length chip hlength chunk status chip' hpage hfailed =>
    rw [programLoop, if_neg hlength]
    dsimp only
    rw [hpage]
    dsimp only
    rw [if_neg hfailed]
    exact hcommand (by omega) (Nat.min_le_left ..) hpage

/-! ## The whole write -/

/-- When every round succeeds, all of the data is stored. -/
theorem program_succeeds (chip : SpiChip) (hne : data ≠ [])
    (hrange : address + data.length ≤ capacityBytes) (hrounds : ∀ k, (round k).Succeeds) :
    (program round address data chip).1 = .ok ∧
      (program round address data chip).2.cells = programmed address data chip.cells := by
  obtain ⟨chip', hcells, hloop⟩ := programLoop_reaches (k := data.length) chip hrange
    fun j _ => hrounds j
  rw [position_length, Nat.add_sub_cancel_left, List.take_length] at hcells
  rw [program, if_pos (inRange_of_le (List.length_pos_iff.2 hne) hrange), hloop, position_length,
    Nat.sub_self, programLoop, if_pos rfl]
  exact ⟨rfl, hcells⟩

/-- When a round fails, the pages before it are stored, and what it has sent of its own. -/
theorem program_fails (chip : SpiChip) (hne : data ≠ [])
    (hrange : address + data.length ≤ capacityBytes)
    (hk : position address data.length k < address + data.length)
    (hrounds : ∀ j < k, (round j).Succeeds) (hfails : ¬(round k).Succeeds) :
    (program round address data chip).1 ≠ .ok ∧
      (program round address data chip).2.cells = programmed address
        (data.take (position address data.length k - address + (round k).stored
          (position address data.length (k + 1) - position address data.length k)))
        chip.cells := by
  obtain ⟨chip', hcells, hloop⟩ := programLoop_reaches chip hrange hrounds
  obtain ⟨status, chip'', hpage, hstatus, hcells'⟩ := round_spec hrange hcells rfl rfl
  have hfailed : status ≠ .ok := mt hstatus.1 hfails
  have hchunk : position address data.length (k + 1) - position address data.length k =
      min (pageSize - position address data.length k % pageSize)
        (address + data.length - position address data.length k) := by
    rw [position_succ, Nat.add_sub_cancel_left]
  rw [program, if_pos (inRange_of_le (List.length_pos_iff.2 hne) hrange), hloop, programLoop,
    if_neg (by omega)]
  dsimp only
  rw [hpage]
  dsimp only
  rw [if_neg hfailed, hchunk]
  exact ⟨hfailed, hcells'⟩

/-- Programming a first part of the data. -/
theorem programmed_take {n : ℕ} (hn : n ≤ data.length) (m : Cells) (i : ℕ) :
    programmed address (data.take n) m i =
      if i < address + n then programmed address data m i else m i := by
  have hlength : (data.take n).length = n := List.length_take_of_le hn
  unfold programmed
  rw [hlength]
  by_cases hi : i < address + n
  · rw [if_pos hi]
    by_cases ha : address ≤ i
    · rw [if_pos ⟨ha, hi⟩, if_pos ⟨ha, by omega⟩, List.getD_eq_getElem?_getD,
        List.getElem?_take_of_lt (by omega), ← List.getD_eq_getElem?_getD]
    · rw [if_neg fun h => ha h.1, if_neg fun h => ha h.1]
  · rw [if_neg fun h => hi h.2, if_neg hi]

/-- What a write leaves of the cells `m` when its round `k` is the first that fails. -/
structure FailsAt (round : ℕ → Round) (address : ℕ) (data : List UInt8) (k : ℕ) (m : Cells)
    (result : Status × SpiChip) : Prop where
  status : result.1 ≠ .ok
  /-- The pages before it. -/
  before : ∀ i < position address data.length k, result.2.cells i = programmed address data m i
  /-- Its own page, of which the chip got a first part. -/
  own : ∀ i, position address data.length k ≤ i → i < position address data.length (k + 1) →
    result.2.cells i = if i < position address data.length k + (round k).stored
      (position address data.length (k + 1) - position address data.length k)
      then programmed address data m i else m i
  /-- The pages behind it. -/
  behind : ∀ i ≥ position address data.length (k + 1), result.2.cells i = m i

/-- **`W25Q64_Program` is linear programming**: if every transfer and every wait succeeds, the data
is ANDed into the cells of its range and nothing else has changed; if round `k` is the first that
fails, the pages before it are stored and nothing behind its own page has changed. No command leaves
its page. -/
theorem program_linear (round : ℕ → Round) (chip : SpiChip) {address : ℕ} {data : List UInt8}
    (hne : data ≠ []) (hrange : address + data.length ≤ capacityBytes) :
    (∀ c ∈ (program round address data chip).2.log,
      c ∈ chip.log ∨ c.1 % pageSize + c.2.length ≤ pageSize) ∧
    ((∀ k, (round k).Succeeds) → (program round address data chip).1 = .ok ∧
      ∀ i, (program round address data chip).2.cells i =
        if address ≤ i ∧ i < address + data.length then chip.cells i &&& data.getD (i - address) 0
        else chip.cells i) ∧
    ∀ k, position address data.length k < address + data.length → (∀ j < k, (round j).Succeeds) →
      ¬(round k).Succeeds →
        FailsAt round address data k chip.cells (program round address data chip) := by
  refine ⟨?_, fun hrounds => ?_, fun k hk hrounds hfails => ?_⟩
  · rw [program, if_pos (inRange_of_le (List.length_pos_iff.2 hne) hrange)]
    exact inPage_programLoop hrange
  · obtain ⟨hstatus, hcells⟩ := program_succeeds chip hne hrange hrounds
    exact ⟨hstatus, fun i => congrFun hcells i⟩
  · obtain ⟨hstatus, hcells⟩ := program_fails chip hne hrange hk hrounds hfails
    have hstart := le_position address data.length k
    have hend := position_le address data.length (k + 1)
    have hstored := (round k).stored_le
      (position address data.length (k + 1) - position address data.length k)
    have hnext := position_succ address data.length k
    have hi (i : ℕ) := congrFun hcells i
    simp only [programmed_take (show position address data.length k - address + (round k).stored
      (position address data.length (k + 1) - position address data.length k) ≤ data.length by
        omega)] at hi
    refine ⟨hstatus, fun i hlow => ?_, fun i hlow hhigh => ?_, fun i hhigh => ?_⟩
    · rw [hi, if_pos (by omega)]
    · rw [hi, ← Nat.add_assoc, Nat.add_sub_cancel' hstart]
    · rw [hi, if_neg (by omega)]

/-- Rounds of which the second gets two bytes of its data to the chip. -/
def interrupted (k : ℕ) : Round := if k = 1 then { data := .timesOut 2 } else {}

/-- Ten bytes across a page boundary. -/
theorem program_linear_interrupted : FailsAt interrupted 250 (List.replicate 10 0x55) 1
    (fun _ => 0xFF) (program interrupted 250 (List.replicate 10 0x55)
      ⟨fun _ => 0xFF, false, []⟩) := by
  have hne : List.replicate 10 (0x55 : UInt8) ≠ [] := by decide
  have hrange : 250 + (List.replicate 10 (0x55 : UInt8)).length ≤ capacityBytes := by decide
  have hfails : ¬(interrupted 1).Succeeds := fun h =>
    nomatch (h.2.2.1 : Transfer.timesOut 2 = .completes)
  refine (program_linear interrupted ⟨fun _ => 0xFF, false, []⟩ hne hrange).2.2 1 (by decide)
    (fun j hj => ?_) hfails
  obtain rfl : j = 0 := Nat.lt_one_iff.1 hj
  exact ⟨rfl, rfl, rfl, rfl⟩

/-! ## The command-level driver -/

/-- A failure that has left the cells of its command as they are now. -/
theorem pageProgram_left {a : ℕ} {bytes : List UInt8} {status : Status} (hstatus : status ≠ .ok)
    {m m' : Cells} (hm : ∀ i ∉ Set.Ico a (a + bytes.length), m' i = m i) (fates : List WriteFate)
    (log : List Command) :
    ∃ fate, pageProgram pageSize a bytes ⟨m, { programs := fate :: fates }, log⟩ =
      (some status, ⟨m', { programs := fates }, .program a bytes m :: log⟩) := by
  have hleft : overwrite a bytes.length m' m = m' := by
    funext i
    by_cases hi : i ∈ Set.Ico a (a + bytes.length)
    · exact if_pos hi
    · exact (overwrite_outside hi).trans (hm i hi).symm
  obtain ⟨timedOut, rfl⟩ : ∃ timedOut, status = failure timedOut := by
    cases status with
    | ok => exact absurd rfl hstatus
    | error => exact ⟨false, rfl⟩
    | timeout => exact ⟨true, rfl⟩
  have hfails : pageProgram pageSize a bytes
      ⟨m, { programs := .fails timedOut m' :: fates }, log⟩ = _ := pageProgram_of_fails rfl
  rw [hleft] at hfails
  exact ⟨.fails timedOut m', hfails⟩

/-- A round that goes on is the whole command, and one that fails is the command failing. -/
theorem pageCommand_refines {start : ℕ} (hstart : start < capacityBytes) {bytes : List UInt8}
    (hpage : start % pageSize + bytes.length ≤ pageSize) {chip chip' : SpiChip} {status : Status}
    (hround : pageCommand (round k) start bytes chip = (status, chip')) (fates : List WriteFate)
    (log : List Command) :
    ∃ fate, pageProgram pageSize start bytes ⟨chip.cells, { programs := fate :: fates }, log⟩ =
      (some status,
        ⟨chip'.cells, { programs := fates }, .program start bytes chip.cells :: log⟩) := by
  have hspec := pageCommand_spec (round k) (by rw [capacityBytes] at hstart; omega) hpage chip
  rw [hround] at hspec
  by_cases hok : status = .ok
  · subst hok
    have hcells : burn pageSize start bytes chip.cells = chip'.cells := by
      rw [burn_eq_programmed _ _ hpage, hspec.cells, (hspec.status.1 rfl).stored, List.take_length]
    have hcompletes : pageProgram pageSize start bytes
        ⟨chip.cells, { programs := .completes :: fates }, log⟩ = _ := pageProgram_of_completes rfl
    rw [hcells] at hcompletes
    exact ⟨.completes, hcompletes⟩
  · refine pageProgram_left hok (fun i hi => ?_) fates log
    rw [hspec.cells]
    refine programmed_outside fun hin => hi ⟨hin.1, hin.2.trans_le ?_⟩
    exact Nat.add_le_add_left (List.length_take_le' ..) start

/-- The loop is the one of the driver that gives whole commands, with the fates that its rounds come
to. -/
theorem programLoop_refines {offset length : ℕ} (hrange : address + length ≤ capacityBytes)
    (hoffset : offset + length = data.length) (log : List Command) :
    ∃ fates c', programPages address (data.drop offset) ⟨chip.cells, { programs := fates }, log⟩ =
        (some (programLoop round data k address offset length chip).1, c') ∧
      c'.cells = (programLoop round data k address offset length chip).2.cells := by
  have hrest {offset length : ℕ} (hoffset : offset + length = data.length) (address : ℕ)
      (hlength : length ≠ 0) : data.drop offset ≠ [] ∧
        chunkSize address (data.drop offset) = min (pageSize - address % pageSize) length := by
    have hdrop : (data.drop offset).length = length := by
      rw [List.length_drop]
      omega
    exact ⟨fun hnil => hlength (by rw [← hdrop, hnil]; rfl), by rw [chunkSize, hdrop]⟩
  induction k, address, offset, length, chip using programLoop.induct round data
    generalizing log with
  | case1 k address offset chip =>
    have hnil : data.drop offset = [] := List.drop_eq_nil_of_le (by omega)
    rw [hnil, programPages, if_pos rfl, programLoop, if_pos rfl]
    exact ⟨[], _, rfl, rfl⟩
  | case2 k address offset length chip hlength chunk chip' hpage ih =>
    obtain ⟨hne, hchunk⟩ := hrest hoffset address hlength
    have hnext : (address + chunk) % 2 ^ 32 = address + chunk :=
      Nat.mod_eq_of_lt (by rw [capacityBytes] at hrange; omega)
    have hinPage := chunkSize_inPage address (data.drop offset)
    rw [hchunk] at hinPage
    obtain ⟨fates, c', hlater, hc'⟩ := ih (by omega) (by omega)
      (.program address ((data.drop offset).take chunk) chip.cells :: log)
    obtain ⟨fate, hfirst⟩ := pageCommand_refines (by omega) hinPage hpage fates log
    rw [programLoop, if_neg hlength]
    dsimp only
    rw [hpage]
    dsimp only
    rw [if_pos rfl]
    refine ⟨fate :: fates, c', ?_, hc'⟩
    rw [programPages, if_neg hne]
    simp only [hchunk]
    rw [bind_of_some hfirst, if_pos rfl, List.drop_drop]
    exact (congrArg (programPages · (data.drop (offset + chunk)) _) hnext.symm).trans hlater
  | case3 k address offset length chip hlength chunk status chip' hpage hfailed =>
    obtain ⟨hne, hchunk⟩ := hrest hoffset address hlength
    have hinPage := chunkSize_inPage address (data.drop offset)
    rw [hchunk] at hinPage
    obtain ⟨fate, hfirst⟩ := pageCommand_refines (by omega) hinPage hpage [] log
    rw [programLoop, if_neg hlength]
    dsimp only
    rw [hpage]
    dsimp only
    rw [if_neg hfailed]
    refine ⟨[fate], ⟨chip'.cells, {},
      .program address ((data.drop offset).take chunk) chip.cells :: log⟩, ?_, rfl⟩
    rw [programPages, if_neg hne]
    simp only [hchunk]
    rw [bind_of_some hfirst, if_neg hfailed]
    rfl

/-- **The driver that gives whole commands** writes what this one does, for some fates of its
commands. -/
theorem program_refines (chip : SpiChip) (hne : data ≠ [])
    (hrange : address + data.length ≤ capacityBytes) (log : List Command) :
    ∃ fates c', W25q64.program address data ⟨chip.cells, { programs := fates }, log⟩ =
        (some (program round address data chip).1, c') ∧
      c'.cells = (program round address data chip).2.cells := by
  have hin := inRange_of_le (List.length_pos_iff.2 hne) hrange
  rw [program, W25q64.program, if_pos hin, if_pos hin]
  exact programLoop_refines hrange (Nat.zero_add data.length) log

end Loop

end HealthCheck.W25q64.Spi
