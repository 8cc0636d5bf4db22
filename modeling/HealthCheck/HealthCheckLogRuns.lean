import HealthCheck.HealthCheckLogState
import HealthCheck.Lib.Run

/-!
# The result log over whole runs

A run of the log is a list of start-ups and appends, each with the fates of its flash calls.

* `survives_power_loss` — in every run in which power losses are all that happens, no record is
  lost or overwritten, the sequences increase and the newest records are returned;
* `survives_failed_programs` — the same for runs in which programs fail, if nothing is appended
  behind a slot that a failed program left erased;
* `hidden_behind_gap` — and without that condition a record is lost.
-/

namespace HealthCheck.HealthCheckLog

open Nor hiding read driven_read read_ok read_cases observes_read uncut_read
open Crc32 Memory Run TwoBank W25q64

/-! ## The machine -/

/-- A start-up or an append, with the fates of its flash calls. -/
inductive Event
  | boot (fates : Fates)
  | append (resourceIndex : UInt8) (result : Result) (timestamp : UInt32) (fates : Fates)

/-- The device and what has happened to its log. -/
structure Sys where
  cells : Cells
  /-- The variables of the log, if it was started since power was lost. -/
  ram : Option Ram
  /-- The records that got into their slots completely, latest first. -/
  appended : List Record
  /-- The records whose append returned `HEALTH_CHECK_LOG_STATUS_OK`, latest first. -/
  reported : List Record
  /-- How many sequences were used. -/
  spent : ℕ

namespace Sys

/-- A device that was never started, on a flash `m`. -/
def start (m : Cells) : Sys := ⟨m, none, [], [], 0⟩

/-- The record stands in the slot that was meant for it. -/
def Stored (m : Cells) (ram : Ram) (record : Record) : Prop :=
  recordAt m (place ram).1 (place ram).2 = record

instance (m : Cells) (ram : Ram) (record : Record) : Decidable (Stored m ram record) :=
  inferInstanceAs (Decidable (_ = _))

/-- The device after an append. -/
def afterAppend (s : Sys) (ram : Ram) (record : Record)
    (out : Option (Status × Option Entry × Ram) × Chip) : Sys where
  cells := out.2.cells
  ram := out.1.map fun returned => returned.2.2
  appended := if Stored out.2.cells ram record then record :: s.appended else s.appended
  reported := if out.1.map Prod.fst = some .ok then record :: s.reported else s.reported
  spent := if Stored out.2.cells ram record ∨ out.1.isSome then s.spent + 1 else s.spent

/-- What a start-up does. -/
def bootOut (s : Sys) (fates : Fates) : Option (Status × Ram) × Chip := init ⟨s.cells, fates, []⟩

/-- What an append does. -/
def appendOut (s : Sys) (ram : Ram) (resourceIndex : UInt8) (result : Result)
    (timestamp : UInt32) (fates : Fates) : Option (Status × Option Entry × Ram) × Chip :=
  append resourceIndex result timestamp ram ⟨s.cells, fates, []⟩

def step (s : Sys) : Event → Sys
  | .boot fates =>
    { s with cells := (s.bootOut fates).2.cells, ram := (s.bootOut fates).1.map Prod.snd }
  | .append resourceIndex result timestamp fates =>
    match s.ram with
    | none => s
    | some ram => s.afterAppend ram (newRecord resourceIndex result timestamp ram.nextSequence)
        (s.appendOut ram resourceIndex result timestamp fates)

/-- The erases and page programs of an event, latest first. -/
def commands (s : Sys) : Event → List Command
  | .boot fates => (s.bootOut fates).2.log
  | .append resourceIndex result timestamp fates =>
    match s.ram with
    | none => []
    | some ram => (s.appendOut ram resourceIndex result timestamp fates).2.log

end Sys

/-! ## What goes wrong -/

/-- What is left by a command that did not complete: a first part of the data of a program, or
of a sector garbage that is no record and records that were there. -/
def Left (c : Chip) : Prop :=
  Prefixed c ∧ ∀ x before, c.log.head? = some (.erase (sectorBase x) sectorSize before) →
    Mixed before c.cells x

/-- A program that did not complete leaves the whole record in the slot or none. -/
def Torn (c : Chip) (ram : Ram) (record : Record) : Prop :=
  (∃ a data before, c.log.head? = some (.program a data before)) →
    (recordAt c.cells (place ram).1 (place ram).2).isValid = true →
      Sys.Stored c.cells ram record

namespace Sys

/-- Power losses are all that happens to an event. -/
def PowerOnly (s : Sys) : Event → Prop
  | .boot fates => fates.Steady ∧ ((s.bootOut fates).1 = none → Left (s.bootOut fates).2)
  | .append resourceIndex result timestamp fates => fates.Steady ∧ ∀ ram, s.ram = some ram →
    let out := s.appendOut ram resourceIndex result timestamp fates
    out.1 = none → Left out.2 ∧
      Torn out.2 ram (newRecord resourceIndex result timestamp ram.nextSequence)

/-- An append that power interrupts leaves less than the whole record. -/
def Partial (s : Sys) : Event → Prop
  | .boot _ => True
  | .append resourceIndex result timestamp fates => ∀ ram, s.ram = some ram →
    let out := s.appendOut ram resourceIndex result timestamp fates
    out.1 = none →
      ¬ Stored out.2.cells ram (newRecord resourceIndex result timestamp ram.nextSequence)

/-- An append that returns has stored its record and reports so. -/
def Concluded (s : Sys) : Event → Prop
  | .boot _ => True
  | .append resourceIndex result timestamp fates => ∀ ram, s.ram = some ram →
    let out := s.appendOut ram resourceIndex result timestamp fates
    out.1 ≠ none → out.1.map Prod.fst = some .ok ∧
      Stored out.2.cells ram (newRecord resourceIndex result timestamp ram.nextSequence)

end Sys

/-- A page program goes to erased cells, an erase to the older sector. -/
def Proper : Command → Prop
  | .program a data before => ∀ i, a ≤ i → i < a + data.length → before i = 0xFF
  | .erase a n before => ∃ x, a = sectorBase x ∧ n = sectorSize ∧ Older before x

/-! ## One append -/

/-- A running log erases the older sector only. -/
theorem On.older {m : Cells} {hist : List Record} {ram : Ram} (h : On m hist ram) :
    Older m ram.activeSector.other := fun r hr r' hr' =>
  (List.pairwise_append.1 h.sorted).2.2 r hr r' ((Bank.other_other ram.activeSector) ▸ hr')

theorem ne_erased {sequence : UInt32} (h : sequence.toNat + 1 < 2 ^ 32) :
    sequence ≠ erasedSequence := fun heq => by
  rw [heq] at h
  exact absurd h (by decide)

section Writes

variable {record : Record} {c c₁ : Chip} {hist : List Record} {ram ram₁ : Ram}
  {out : Option (Status × Option Entry × Ram) × Chip}

theorem Ready.stored_iff (h : Ready c ram c₁ ram₁) (record : Record) (m : Cells) :
    Sys.Stored m ram record ↔ recordAt m ram₁.activeSector ram₁.nextSlot = record := by
  rw [Sys.Stored, h.place]

/-- The slot a record goes to is erased. -/
theorem On.blank_next {m : Cells} (h : On m hist ram) (hslot : ram.nextSlot < slotsPerSector) :
    Blank m ram.activeSector ram.nextSlot :=
  h.used.blank _ h.fill_le hslot

/-- The last command is a page program. -/
theorem Writes.head (h : Writes (slotAddress ram₁.activeSector ram₁.nextSlot)
    (layout.encode record) c₁ out ram₁.advanced) :
    ∃ a data before, out.2.log.head? = some (.program a data before) := by
  obtain ⟨commands, hlog, hne, hparts⟩ := h.log
  obtain ⟨command, rest, rfl⟩ := List.exists_cons_of_ne_nil hne
  obtain ⟨j, n, -, hcommand⟩ := hparts command List.mem_cons_self
  exact ⟨_, _, _, by rw [hlog, hcommand]; rfl⟩

/-- A record whose append succeeded is stored. -/
theorem Writes.stored_of_ok (h : Writes (slotAddress ram₁.activeSector ram₁.nextSlot)
    (layout.encode record) c₁ out ram₁.advanced) (hready : Ready c ram c₁ ram₁)
    (hon : On c₁.cells hist ram₁) (hok : out.1.map Prod.fst = some .ok) :
    Sys.Stored out.2.cells ram record := by
  rw [hready.stored_iff, h.ok hok]
  exact recordAt_programmed (hon.blank_next hready.slot)

/-- **What a write leaves** is a running log, whether power is lost or not. -/
theorem Writes.on (h : Writes (slotAddress ram₁.activeSector ram₁.nextSlot)
    (layout.encode record) c₁ out ram₁.advanced) (hready : Ready c ram c₁ ram₁)
    (hon : On c₁.cells hist ram₁) (hvalid : record.isValid = true)
    (hsequence : record.sequence = ram.nextSequence) (hwrap : ram.nextSequence.toNat + 1 < 2 ^ 32)
    (hleft : out.1.map Prod.fst ≠ some .ok → Prefixed out.2 ∧ Torn out.2 ram record)
    (hgapless : (recordAt out.2.cells (place ram).1 (place ram).2).looksErased = true ∨
      fill c₁.cells ram₁.activeSector = ram₁.nextSlot) :
    On out.2.cells (if Sys.Stored out.2.cells ram record then record :: hist else hist)
      ram₁.advanced ∧ ∀ y, records c₁.cells y ⊆ records out.2.cells y := by
  obtain ⟨k, hk⟩ := h.stored fun hr => (hleft hr).1
  rw [hready.place] at hgapless
  have htorn : (recordAt out.2.cells ram₁.activeSector ram₁.nextSlot).isValid = true →
      recordAt out.2.cells ram₁.activeSector ram₁.nextSlot = record := by
    by_cases hok : out.1.map Prod.fst = some .ok
    · exact fun _ => (hready.stored_iff _ _).1 (h.stored_of_ok hready hon hok)
    · intro hv
      refine (hready.stored_iff _ _).1 ((hleft hok).2 h.head ?_)
      rwa [hready.place]
  have hwrite := hon.write hready.slot hk hvalid (hsequence.trans hready.sequence.symm)
    (by rwa [hready.sequence]) htorn hgapless
  have hstored : (if Sys.Stored out.2.cells ram record then record :: hist else hist) =
      if recordAt out.2.cells ram₁.activeSector ram₁.nextSlot = record then record :: hist
      else hist := if_congr (hready.stored_iff _ _) rfl rfl
  rw [hstored]
  refine ⟨hwrite, records_subset_of_write hready.slot (fun i hi => ?_)
    (hon.blank_next hready.slot)⟩
  rw [hk]
  exact programmed_outside_slot hi

/-- The commands of an append are proper. -/
theorem Writes.proper (h : Writes (slotAddress ram₁.activeSector ram₁.nextSlot)
    (layout.encode record) c₁ out ram₁.advanced) (hready : Ready c ram c₁ ram₁)
    (hon : On c.cells hist ram) (hon₁ : On c₁.cells hist ram₁) (hlog : c.log = []) :
    ∀ command ∈ out.2.log, Proper command := by
  obtain ⟨programs, hprograms, -, hparts⟩ := h.log
  obtain ⟨erases, herases, hbefore⟩ := hready.log
  intro command hmem
  rw [hprograms, herases, hlog, List.append_nil] at hmem
  rcases List.mem_append.1 hmem with hmem | hmem
  · obtain ⟨j, n, hjn, rfl⟩ := hparts command hmem
    have hpart := hparts _ hmem
    refine hpart.blank fun i hi hi' => hon₁.blank_next hready.slot i hi ?_
    rwa [length_encode] at hi'
  · rw [hbefore command hmem]
    exact ⟨_, rfl, rfl, hon.older⟩

end Writes

/-! ## Power losses -/

/-- The records have the sequences 1, 2, 3 and so on. -/
def Numbered : List Record → Prop
  | [] => True
  | r :: older => r.number = older.length + 1 ∧ Numbered older

theorem Numbered.le {hist : List Record} (h : Numbered hist) :
    ∀ r ∈ hist, r.number ≤ hist.length := by
  induction hist with
  | nil => exact fun _ hr => (List.not_mem_nil hr).elim
  | cons r older ih =>
    intro r' hr'
    rcases List.mem_cons.1 hr' with rfl | hr'
    · exact h.1.le
    · exact (ih h.2 r' hr').trans (Nat.le_succ _)

theorem Numbered.pairwise {hist : List Record} (h : Numbered hist) :
    hist.Pairwise fun r r' => r'.number < r.number := by
  induction hist with
  | nil => exact .nil
  | cons r older ih =>
    refine .cons (fun r' hr' => ?_) (ih h.2)
    rw [h.1]
    exact Nat.lt_succ_of_le (h.2.le r' hr')

/-- A log without power that lost no record but to an erase. -/
structure Idle (m : Cells) (hist : List Record) : Prop where
  off : Off m hist
  covers : (∀ x, records m x = []) → hist = []

/-- A running log after power losses. -/
structure Running (m : Cells) (hist : List Record) (ram : Ram) : Prop where
  on : On m hist ram
  tight : Tight m ram
  next : ram.nextSequence.toNat = hist.length + 1
  covers : (∀ x, records m x = []) → hist = []

theorem Running.idle {m : Cells} {hist : List Record} {ram : Ram} (h : Running m hist ram) :
    Idle m hist := ⟨h.on.off, h.covers⟩

theorem Booted.running {m m' : Cells} {hist : List Record} {ram : Ram} (h : Booted m hist m' ram)
    (hnumbered : Numbered hist) (hcovers : (∀ x, records m x = []) → hist = []) :
    Running m' hist ram := by
  rcases h.next with ⟨hempty, hone⟩ | ⟨hne, r, x, hhead, -, hnext⟩
  · have hnil := hcovers hempty
    refine ⟨h.on, h.tight, ?_, fun _ => hnil⟩
    rw [hone, hnil]
    rfl
  · refine ⟨h.on, h.tight, ?_, fun hempty => absurd ?_ hne⟩
    · obtain ⟨older, rfl⟩ : ∃ older, hist = r :: older := by
        cases hist with
        | nil => cases hhead
        | cons r' older =>
          cases hhead
          exact ⟨older, rfl⟩
      rw [hnext, hnumbered.1]
      rfl
    · rw [retained, hempty, hempty]
      rfl

section Cut

variable {record : Record} {c : Chip} {hist : List Record} {ram : Ram}

/-- Power is lost while the other sector is erased for an append. -/
theorem Running.cutErase (h : Running c.cells hist ram) (hfull : ram.nextSlot = slotsPerSector)
    {c' : Chip} (hkeep : ∀ i, sectorBase ram.activeSector ≤ i →
      i < sectorBase ram.activeSector + sectorSize → c'.cells i = c.cells i)
    (hmixed : Mixed c.cells c'.cells ram.activeSector.other) (hvalid : record.isValid = true)
    (hsequence : record.sequence = ram.nextSequence) :
    Idle c'.cells hist ∧ ¬ Sys.Stored c'.cells ram record := by
  have hne : records c.cells ram.activeSector ≠ [] := by
    refine h.tight.2.resolve_left ?_
    rw [hfull, slotsPerSector_eq]
    decide
  refine ⟨⟨h.on.off_of_mixed h.tight hfull hkeep hmixed, fun hempty => ?_⟩, fun hstored => ?_⟩
  · rw [← records_congr hkeep] at hne
    exact absurd (hempty _) hne
  · have hplace : place ram = (ram.activeSector.other, 0) := if_pos hfull.ge
    rw [Sys.Stored, hplace] at hstored
    have hmem : record ∈ records c'.cells ram.activeSector.other :=
      mem_records.2 ⟨0, by decide, hstored, hvalid⟩
    have hbelow := h.on.below record (List.mem_append_left _ (hmixed.records_subset hmem))
    rw [Record.number, hsequence] at hbelow
    exact lt_irrefl _ hbelow

/-- **A record is written** in a run with power losses. -/
theorem Running.writes (h : Running c.cells hist ram) {c₁ : Chip} {ram₁ : Ram}
    {out : Option (Status × Option Entry × Ram) × Chip} (hready : Ready c ram c₁ ram₁)
    (hon : On c₁.cells hist ram₁) (hwrites : Writes (slotAddress ram₁.activeSector ram₁.nextSlot)
      (layout.encode record) c₁ out ram₁.advanced) (hsteady : c.fates.Steady)
    (hvalid : record.isValid = true) (hsequence : record.sequence = ram.nextSequence)
    (hwrap : ram.nextSequence.toNat + 1 < 2 ^ 32)
    (hleft : out.1 = none → Left out.2 ∧ Torn out.2 ram record) :
    (out.1 ≠ none → out.1.map Prod.fst = some .ok ∧ Sys.Stored out.2.cells ram record) ∧
    Idle out.2.cells (if Sys.Stored out.2.cells ram record then record :: hist else hist) ∧
    ∀ returned, out.1 = some returned → Running out.2.cells
      (if Sys.Stored out.2.cells ram record then record :: hist else hist) returned.2.2 := by
  have hok : out.1 ≠ none → out.1.map Prod.fst = some .ok :=
    hwrites.steady (hsteady.after hready.fates)
  have hstored : out.1 ≠ none → Sys.Stored out.2.cells ram record := fun hr =>
    hwrites.stored_of_ok hready hon (hok hr)
  have hfill : fill c₁.cells ram₁.activeSector = ram₁.nextSlot := by
    rcases hready.same with ⟨hcells, hram⟩ | ⟨-, hram, hcells⟩
    · rw [hcells, hram]
      exact h.tight.1
    · rw [hram]
      exact (tight_rolled hcells).1
  obtain ⟨hon', hkept⟩ := hwrites.on hready hon hvalid hsequence hwrap (fun hr => by
    by_cases hnone : out.1 = none
    · exact ⟨(hleft hnone).1.1, (hleft hnone).2⟩
    · exact absurd (hok hnone) hr) (.inr hfill)
  have hslot := (hready.stored_iff record out.2.cells).1
  have hrecords : Sys.Stored out.2.cells ram record →
      record ∈ records out.2.cells ram₁.activeSector := fun hs =>
    mem_records.2 ⟨_, hready.slot, hslot hs, hvalid⟩
  have hcovers : (∀ x, records out.2.cells x = []) →
      (if Sys.Stored out.2.cells ram record then record :: hist else hist) = [] := by
    intro hempty
    rw [if_neg fun hs => absurd (hempty _) (List.ne_nil_of_mem (hrecords hs))]
    have hbefore : ∀ x, records c₁.cells x = [] := fun x =>
      List.eq_nil_of_subset_nil (hempty x ▸ hkept x)
    rcases hready.same with ⟨hcells, -⟩ | ⟨hfull, -, hcells⟩
    · exact h.covers fun x => hcells ▸ hbefore x
    · have hactive := hbefore ram.activeSector
      rw [records_congr (blank_outside hcells)] at hactive
      refine absurd hactive (h.tight.2.resolve_left ?_)
      rw [hfull, slotsPerSector_eq]
      decide
  refine ⟨fun hr => ⟨hok hr, hstored hr⟩, ⟨hon'.off, hcovers⟩, fun returned hr => ?_⟩
  have hs := hstored (hr ▸ Option.some_ne_none _)
  rw [if_pos hs] at hon' hcovers ⊢
  rw [hwrites.ram returned hr]
  refine ⟨hon', hon'.tight_of_stored hready.slot ?_, ?_, hcovers⟩
  · rw [hslot hs]
    exact hvalid
  · show (ram₁.nextSequence + 1).toNat = hist.length + 1 + 1
    rw [hready.sequence, UInt32.toNat_add, ← h.next]
    exact Nat.mod_eq_of_lt hwrap

end Cut

namespace Sys

/-- What holds of the log as long as power losses are all that happens. -/
structure Inv (s : Sys) : Prop where
  numbered : Numbered s.appended
  reported : s.reported.Sublist s.appended
  idle : s.ram = none → Idle s.cells s.appended
  running : ∀ ram, s.ram = some ram → Running s.cells s.appended ram

theorem Inv.resting {s : Sys} (h : s.Inv) : Idle s.cells s.appended := by
  cases hram : s.ram with
  | none => exact h.idle hram
  | some ram => exact (h.running ram hram).idle

/-- Flash on which the two sectors of the log are erased. -/
def Erased (m : Cells) : Prop :=
  ∀ x i, sectorBase x ≤ i → i < sectorBase x + sectorSize → m i = 0xFF

theorem records_of_erased {m : Cells} (h : Erased m) (x : Bank) : records m x = [] :=
  (used_zero (h x)).records_zero

theorem inv_start {m : Cells} (h : Erased m) : (start m).Inv where
  numbered := trivial
  reported := List.Sublist.refl []
  idle _ := ⟨.inl (records_of_erased h), fun _ => rfl⟩
  running _ hram := nomatch hram

/-- A start-up, whether power is lost in it or not. -/
theorem boot_inv {s : Sys} (hinv : s.Inv) {fates : Fates} (h : s.PowerOnly (.boot fates))
    (hfew : s.appended.length < 2 ^ 32 - 2) : (s.step (.boot fates)).Inv ∧
      ∀ command ∈ s.commands (.boot fates), Proper command := by
  have hidle := hinv.resting
  have hwrap : ∀ x, ∀ r ∈ records s.cells x, r.number + 1 < 2 ^ 32 := fun x r hr => by
    have hle := hidle.off.number_le hinv.numbered.le x r hr
    omega
  have hstarts := init_starts (c := ⟨s.cells, fates, []⟩) hidle.off hwrap rfl h.1.reads h.1.erases
  have hcut := h.2
  have hnil : ∀ command ∈ ([] : List Command), Proper command :=
    fun _ hmem => (List.not_mem_nil hmem).elim
  have herase : ∀ {x}, Older s.cells x →
      ∀ command ∈ [Command.erase (sectorBase x) sectorSize s.cells], Proper command :=
    fun holder command hmem => (List.mem_singleton.1 hmem) ▸ ⟨_, rfl, rfl, holder⟩
  show (Sys.mk _ _ _ _ _).Inv ∧ ∀ command ∈ (s.bootOut fates).2.log, _
  change Starts s.cells s.appended [] (s.bootOut fates) at hstarts
  generalize s.bootOut fates = out at hstarts hcut
  cases hstarts with
  | cut hcells hlog =>
    refine ⟨⟨hinv.numbered, hinv.reported, fun _ => ?_, fun _ hram => nomatch hram⟩, ?_⟩
    · show Idle _ s.appended
      rw [hcells]
      exact hidle
    · rw [hlog]
      exact hnil
  | resumed hcells hlog hbooted =>
    refine ⟨⟨hinv.numbered, hinv.reported, nofun, fun ram hram => ?_⟩, ?_⟩
    · cases hram
      show Running _ s.appended _
      rw [hcells]
      exact hbooted.running hinv.numbered hidle.covers
    · rw [hlog]
      exact hnil
  | cutErase holder hlog hoff =>
    have hmixed := (hcut rfl).2 _ _ (by rw [hlog]; rfl)
    obtain ⟨hoff, hempty⟩ := hoff hmixed
    refine ⟨⟨hinv.numbered, hinv.reported, fun _ => ⟨hoff, fun h => hidle.covers (hempty h)⟩,
      fun _ hram => nomatch hram⟩, ?_⟩
    rw [hlog]
    exact herase holder
  | erased holder hlog hbooted =>
    refine ⟨⟨hinv.numbered, hinv.reported, nofun, fun ram hram => ?_⟩, ?_⟩
    · cases hram
      exact hbooted.running hinv.numbered hidle.covers
    · rw [hlog]
      exact herase holder

/-- An append, whether power is lost in it or not. -/
theorem append_inv {s : Sys} (hinv : s.Inv) {resourceIndex : UInt8} {result : Result}
    {timestamp : UInt32} {fates : Fates}
    (h : s.PowerOnly (.append resourceIndex result timestamp fates))
    (hfew : s.appended.length < 2 ^ 32 - 2) :
    (s.step (.append resourceIndex result timestamp fates)).Inv ∧
      (∀ command ∈ s.commands (.append resourceIndex result timestamp fates), Proper command) ∧
      s.Concluded (.append resourceIndex result timestamp fates) := by
  obtain ⟨hsteady, hleft⟩ := h
  unfold step commands Concluded
  cases hram : s.ram with
  | none => exact ⟨hinv, fun _ hmem => (List.not_mem_nil hmem).elim, nofun⟩
  | some ram =>
    have hrunning := hinv.running ram hram
    have hwrap : ram.nextSequence.toNat + 1 < 2 ^ 32 := by
      rw [hrunning.next]
      omega
    have hvalid := newRecord_valid resourceIndex result timestamp (ne_erased hwrap)
    have hcut := hleft ram hram
    have happends := append_appends resourceIndex result timestamp
      (c := ⟨s.cells, fates, []⟩) hrunning.on hsteady.reads hsteady.erases
    show (s.afterAppend ram _ (s.appendOut ram resourceIndex result timestamp fates)).Inv ∧
      (∀ command ∈ (s.appendOut ram resourceIndex result timestamp fates).2.log, _) ∧ _
    simp only [Option.some.injEq, forall_eq']
    change Appends _ ⟨s.cells, fates, []⟩ s.appended ram
      (s.appendOut ram resourceIndex result timestamp fates) at happends
    simp only at hcut
    generalize hrecord : newRecord resourceIndex result timestamp ram.nextSequence = record at *
    generalize s.appendOut ram resourceIndex result timestamp fates = out at *
    have hsequence : record.sequence = ram.nextSequence := by
      rw [← hrecord]
      rfl
    cases happends with
    | cutErase hfull hlog hkeep =>
      obtain ⟨hidle, hnot⟩ := hrunning.cutErase hfull hkeep ((hcut rfl).1.2 _ _ (by rw [hlog]; rfl))
        hvalid hsequence
      refine ⟨⟨?_, ?_, fun _ => ?_, nofun⟩, fun command hmem => ?_, fun hr => absurd rfl hr⟩
      · show Numbered (if _ then _ else _)
        rw [if_neg hnot]
        exact hinv.numbered
      · show s.reported.Sublist (if _ then _ else _)
        rw [if_neg hnot]
        exact hinv.reported
      · show Idle _ (if _ then _ else _)
        rw [if_neg hnot]
        exact hidle
      · rw [hlog] at hmem
        rw [List.mem_singleton.1 hmem]
        exact ⟨_, rfl, rfl, hrunning.on.older⟩
    | writes hready hon hwrites =>
      obtain ⟨hok, hidle, hruns⟩ := hrunning.writes hready hon hwrites hsteady hvalid hsequence
        hwrap hcut
      refine ⟨⟨?_, ?_, fun hnone => hidle, fun ram' hram' => ?_⟩,
        hwrites.proper hready hrunning.on hon rfl, hok⟩
      · show Numbered (if _ then _ else _)
        split
        · refine ⟨?_, hinv.numbered⟩
          rw [Record.number, hsequence, hrunning.next]
        · exact hinv.numbered
      · show (if _ then _ else _ : List Record).Sublist (if _ then _ else _)
        by_cases hnone : out.1 = none
        · rw [hnone, if_neg (by simp)]
          split
          · exact hinv.reported.trans (List.sublist_cons_self _ _)
          · exact hinv.reported
        · rw [if_pos (hok hnone).1, if_pos (hok hnone).2]
          exact hinv.reported.cons_cons _
      · obtain ⟨returned, hreturned, rfl⟩ := Option.map_eq_some_iff.1 hram'
        exact hruns returned hreturned

/-- **One event**, whether power is lost in it or not. -/
theorem step_inv {s : Sys} (hinv : s.Inv) {e : Event} (h : s.PowerOnly e)
    (hfew : s.appended.length < 2 ^ 32 - 2) :
    (s.step e).Inv ∧ (∀ command ∈ s.commands e, Proper command) ∧ s.Concluded e := by
  cases e with
  | boot fates => exact ⟨(boot_inv hinv h hfew).1, (boot_inv hinv h hfew).2, trivial⟩
  | append resourceIndex result timestamp fates => exact append_inv hinv h hfew

theorem appended_grows (s : Sys) (e : Event) : s.appended.length ≤ (s.step e).appended.length := by
  cases e with
  | boot fates => exact le_rfl
  | append resourceIndex result timestamp fates =>
    unfold step
    cases s.ram with
    | none => exact le_rfl
    | some ram =>
      show _ ≤ (if _ then _ else _ : List Record).length
      split
      · exact Nat.le_succ _
      · exact le_rfl

/-- Appends that power interrupts and that store less than the whole record leave no trace. -/
theorem reported_eq {s : Sys} (h : s.reported = s.appended) {e : Event} (hconcluded : s.Concluded e)
    (hshort : s.Partial e) : (s.step e).reported = (s.step e).appended := by
  cases e with
  | boot fates => exact h
  | append resourceIndex result timestamp fates =>
    unfold step
    unfold Concluded at hconcluded
    unfold Partial at hshort
    cases hram : s.ram with
    | none => exact h
    | some ram =>
      have hcut := hshort ram hram
      have hdone := hconcluded ram hram
      show (if _ then _ else _ : List Record) = if _ then _ else _
      simp only at hcut hdone
      generalize s.appendOut ram resourceIndex result timestamp fates = out at hcut hdone ⊢
      by_cases hnone : out.1 = none
      · rw [if_neg (by rw [hnone]; nofun), if_neg (hcut hnone)]
        exact h
      · rw [if_pos (hdone hnone).1, if_pos (hdone hnone).2, h]

end Sys

/-- What a running log knows about the records that were appended. -/
structure Serves (m : Cells) (ram : Ram) (hist : List Record) : Prop where
  above : ∀ x, ∀ r ∈ records m x, r.sequence < ram.nextSequence
  slot : ram.nextSlot ≤ slotsPerSector ∧
    (ram.nextSlot = slotsPerSector ∨ Blank m ram.activeSector ram.nextSlot)
  /-- The records on the flash are the latest ones, and `HealthCheckLog_GetRecent` returns the
  latest of them. -/
  recent : ∃ kept erased, hist = kept ++ erased ∧ kept.Perm (records m .a ++ records m .b) ∧
    (kept.Pairwise fun r r' => r'.number < r.number) ∧
    ∀ n, getRecent n ram ⟨m, {}, []⟩ = (some ((kept.take n).map Record.entry), ⟨m, {}, []⟩)

theorem retained_perm (m : Cells) (x : Bank) :
    (retained m x).Perm (records m .a ++ records m .b) := by
  cases x with
  | a => exact List.perm_append_comm
  | b => exact .refl _

theorem On.serves {m : Cells} {hist : List Record} {ram : Ram} (h : On m hist ram) :
    Serves m ram hist := by
  refine ⟨fun x r hr => ?_, ⟨h.nextSlot_le, ?_⟩, ?_⟩
  · rw [UInt32.lt_iff_toNat_lt]
    refine h.below r ((retained_perm m _).mem_iff.2 ?_)
    cases x with
    | a => exact List.mem_append_left _ hr
    | b => exact List.mem_append_right _ hr
  · exact h.nextSlot_le.eq_or_lt.imp_right fun hslot => h.used.blank _ h.fill_le hslot
  · obtain ⟨erased, herased⟩ := h.kept
    refine ⟨_, erased, herased.symm, (List.reverse_perm _).trans (retained_perm m _),
      List.pairwise_reverse.2 h.sorted, fun n => ?_⟩
    exact (h.getRecent n).calm (driven_getRecent Set.univ n ram) []

/-- **Power losses cost nothing**: in every run from erased sectors in which power losses are all
that happens, nothing is programmed over and only the older sector is ever erased, the sequences
increase from append to append, and a log that was started continues behind every record it finds
and returns the newest ones. -/
theorem survives_power_loss {m : Cells} (hm : Sys.Erased m) {events : List Event}
    (h : Along Sys.step Sys.PowerOnly (.start m) events)
    (hfew : (run Sys.step (.start m) events).appended.length < 2 ^ 32 - 2) :
    Along Sys.step (fun s e => ∀ command ∈ s.commands e, Proper command) (.start m) events ∧
    ((run Sys.step (.start m) events).appended.Pairwise fun r r' => r'.number < r.number) ∧
    (run Sys.step (.start m) events).reported.Sublist (run Sys.step (.start m) events).appended ∧
    (Along Sys.step Sys.Partial (.start m) events →
      (run Sys.step (.start m) events).reported = (run Sys.step (.start m) events).appended) ∧
    ∀ ram, (run Sys.step (.start m) events).ram = some ram →
      Serves (run Sys.step (.start m) events).cells ram
        (run Sys.step (.start m) events).appended := by
  have hboth := h.and (along_below Sys.appended_grows hfew)
  have hstep : ∀ s e, Sys.Inv s → (s.PowerOnly e ∧ (s.step e).appended.length < 2 ^ 32 - 2) →
      (s.step e).Inv ∧ (∀ command ∈ s.commands e, Proper command) ∧ s.Concluded e :=
    fun s e hinv hs => Sys.step_inv hinv hs.1 ((Sys.appended_grows s e).trans_lt hs.2)
  have hkeeps : ∀ s e, Sys.Inv s → (s.PowerOnly e ∧ (s.step e).appended.length < 2 ^ 32 - 2) →
      (s.step e).Inv := fun s e hinv hs => (hstep s e hinv hs).1
  have hinv := keeps hkeeps (Sys.inv_start hm) hboth
  refine ⟨?_, hinv.numbered.pairwise, hinv.reported, fun hshort => ?_, fun ram hram =>
    (hinv.running ram hram).on.serves⟩
  · exact Along.of_keeps hkeeps (fun s e hi hs => (hstep s e hi hs).2.1) (Sys.inv_start hm) hboth
  · have hconcluded := Along.of_keeps hkeeps (fun s e hi hs => (hstep s e hi hs).2.2)
      (Sys.inv_start hm) hboth
    have hkept : ∀ s e, s.reported = s.appended → (s.Concluded e ∧ s.Partial e) →
        (Sys.step s e).reported = (Sys.step s e).appended :=
      fun s e heq hs => Sys.reported_eq heq hs.1 hs.2
    exact keeps hkept rfl (hconcluded.and hshort)

/-- A request that was answered. -/
def answered : Result := ⟨0, 200, 12, 0⟩

/-- The log is started and written to, nothing going wrong. -/
def once : List Event := [.boot {}, .append 0 answered 1 {}]

theorem Sys.powerOnly_boot (s : Sys) : s.PowerOnly (.boot {}) :=
  ⟨Fates.steady_nil, fun hnone => absurd hnone (uncut_init _ Fates.noLoss_nil)⟩

theorem Sys.powerOnly_append (s : Sys) (resourceIndex : UInt8) (result : Result)
    (timestamp : UInt32) : s.PowerOnly (.append resourceIndex result timestamp {}) :=
  ⟨Fates.steady_nil, fun _ _ hnone =>
    absurd hnone (uncut_append resourceIndex result timestamp _ _ Fates.noLoss_nil)⟩

/-! An append whose program stores the first `n` bytes of the record only. -/

/-- What such a program leaves on erased cells. -/
def leftOf (ram : Ram) (record : Record) (n : ℕ) : Cells :=
  programmed (slotAddress ram.activeSector ram.nextSlot) ((layout.encode record).take n)
    fun _ => 0xFF

/-- The next slot is erased and in one page. -/
structure Fits (m : Cells) (ram : Ram) : Prop where
  slot : ram.nextSlot < slotsPerSector
  page : slotAddress ram.activeSector ram.nextSlot % pageSize + recordSize ≤ pageSize
  blank : Blank m ram.activeSector ram.nextSlot

namespace Fits

variable {m : Cells} {ram : Ram} (h : Fits m ram)
include h

theorem place_eq : place ram = (ram.activeSector, ram.nextSlot) :=
  if_neg (Nat.not_le_of_lt h.slot)

theorem overwrite_leftOf (record : Record) (n : ℕ) :
    overwrite (slotAddress ram.activeSector ram.nextSlot) (layout.encode record).length
      (leftOf ram record n) m =
    programmed (slotAddress ram.activeSector ram.nextSlot) ((layout.encode record).take n) m := by
  have hle : ((layout.encode record).take n).length ≤ recordSize :=
    length_encode record ▸ List.length_take_le' n _
  funext i
  rw [overwrite, length_encode]
  split
  · rename_i hi
    simp only [leftOf, programmed, h.blank i hi.1 hi.2]
  · exact (if_neg (by omega)).symm

/-- The program is one page program. -/
theorem program_cut (record : Record) (n : ℕ) :
    W25q64.program (slotAddress ram.activeSector ram.nextSlot) (layout.encode record)
        ⟨m, { programs := [.powerLost (leftOf ram record n)] }, []⟩ =
      (none, ⟨programmed (slotAddress ram.activeSector ram.nextSlot)
        ((layout.encode record).take n) m, {},
        [.program (slotAddress ram.activeSector ram.nextSlot) (layout.encode record) m]⟩) := by
  have hlength := length_encode record
  rw [W25q64.program_cut _ _ (hlength ▸ inRange_slot h.slot)
    (List.ne_nil_of_length_pos (by rw [hlength]; decide))
    (by rw [chunkSize, hlength]; exact Nat.min_eq_right (Nat.le_sub_of_add_le' h.page)),
    h.overwrite_leftOf]

theorem program_fails (record : Record) (n : ℕ) (timedOut : Bool) :
    W25q64.program (slotAddress ram.activeSector ram.nextSlot) (layout.encode record)
        ⟨m, { programs := [.fails timedOut (leftOf ram record n)] }, []⟩ =
      (some (failure timedOut), ⟨programmed (slotAddress ram.activeSector ram.nextSlot)
        ((layout.encode record).take n) m, {},
        [.program (slotAddress ram.activeSector ram.nextSlot) (layout.encode record) m]⟩) := by
  have hlength := length_encode record
  rw [W25q64.program_fails _ _ (hlength ▸ inRange_slot h.slot)
    (List.ne_nil_of_length_pos (by rw [hlength]; decide))
    (by rw [chunkSize, hlength]; exact Nat.min_eq_right (Nat.le_sub_of_add_le' h.page)),
    h.overwrite_leftOf]

/-- What is left is a first part of the record, and torn. -/
theorem left {record : Record} {n : ℕ}
    (hinvalid : (recordAt (programmed (slotAddress ram.activeSector ram.nextSlot)
      ((layout.encode record).take n) m) ram.activeSector ram.nextSlot).isValid = false) {c : Chip}
    (hcells : c.cells = programmed (slotAddress ram.activeSector ram.nextSlot)
      ((layout.encode record).take n) m)
    (hlog : c.log = [.program (slotAddress ram.activeSector ram.nextSlot) (layout.encode record)
      m]) : Left c ∧ Torn c ram record := by
  refine ⟨⟨fun a data before hhead => ⟨n, ?_⟩, fun x before hhead => ?_⟩, fun _ hvalid => ?_⟩
  · rw [hlog] at hhead
    cases hhead
    exact hcells
  · rw [hlog] at hhead
    cases hhead
  · rw [h.place_eq, hcells, hinvalid] at hvalid
    cases hvalid

theorem appendOut_cut {s : Sys} (hs : s.cells = m) (resourceIndex : UInt8) (result : Result)
    (timestamp : UInt32) (n : ℕ) :
    let record := newRecord resourceIndex result timestamp ram.nextSequence
    s.appendOut ram resourceIndex result timestamp
        { programs := [.powerLost (leftOf ram record n)] } =
      (none, ⟨programmed (slotAddress ram.activeSector ram.nextSlot)
        ((layout.encode record).take n) m, {},
        [.program (slotAddress ram.activeSector ram.nextSlot) (layout.encode record) m]⟩) := by
  intro record
  rw [Sys.appendOut, append, if_neg (Nat.not_le_of_lt h.slot), hs]
  exact bind_of_none (h.program_cut _ n)

theorem appendOut_fails {s : Sys} (hs : s.cells = m) (resourceIndex : UInt8) (result : Result)
    (timestamp : UInt32) (n : ℕ) (timedOut : Bool) :
    let record := newRecord resourceIndex result timestamp ram.nextSequence
    s.appendOut ram resourceIndex result timestamp
        { programs := [.fails timedOut (leftOf ram record n)] } =
      (some (failure timedOut, none, ram.advanced),
        ⟨programmed (slotAddress ram.activeSector ram.nextSlot)
          ((layout.encode record).take n) m, {},
        [.program (slotAddress ram.activeSector ram.nextSlot) (layout.encode record) m]⟩) := by
  intro record
  rw [Sys.appendOut, append, if_neg (Nat.not_le_of_lt h.slot), hs]
  refine (bind_of_some (h.program_fails _ n timedOut)).trans ?_
  rw [if_pos (failure_ne_ok timedOut)]
  rfl

end Fits

/-- An append that loses power behind the first `n` bytes of the record. -/
theorem Fits.powerOnly {s : Sys} {ram : Ram} (h : Fits s.cells ram) (hram : s.ram = some ram)
    {resourceIndex : UInt8} {result : Result} {timestamp : UInt32} {n : ℕ}
    (hinvalid : (recordAt (programmed (slotAddress ram.activeSector ram.nextSlot)
      ((layout.encode (newRecord resourceIndex result timestamp ram.nextSequence)).take n) s.cells)
      ram.activeSector ram.nextSlot).isValid = false) :
    s.PowerOnly (.append resourceIndex result timestamp { programs := [.powerLost
      (leftOf ram (newRecord resourceIndex result timestamp ram.nextSequence) n)] }) := by
  have hout := h.appendOut_cut rfl resourceIndex result timestamp n
  refine ⟨?_, fun ram' hram' => ?_⟩
  · constructor <;> simp [Fates.ReadsSucceed]
  · cases hram.symm.trans hram'
    intro out _
    have hcells : out = _ := hout
    rw [hcells]
    exact h.left hinvalid rfl rfl

/-- The variables after `once`. -/
def onceRam : Ram := ⟨.a, 1, 2⟩

theorem ram_once : (run Sys.step (.start fun _ => 0xFF) once).ram = some onceRam := by
  have hvalues : (run Sys.step (.start fun _ => 0xFF) once).ram.map
      (fun ram => (ram.activeSector, ram.nextSlot, ram.nextSequence)) = some (.a, 1, 2) := by
    decide +kernel
  obtain ⟨⟨activeSector, nextSlot, nextSequence⟩, hram, heq⟩ := Option.map_eq_some_iff.1 hvalues
  rw [hram]
  cases heq
  rfl

theorem fits_once : Fits (run Sys.step (.start fun _ => 0xFF) once).cells onceRam := by
  have hblank : ∀ i < recordSize, (run Sys.step (.start fun _ => 0xFF) once).cells
      (slotAddress .a 1 + i) = 0xFF := by decide +kernel
  refine ⟨by decide, by decide, fun i hi hi' => ?_⟩
  have hi : slotAddress .a 1 ≤ i := hi
  have hin := hblank (i - slotAddress .a 1) (Nat.sub_lt_left_of_lt_add hi hi')
  rwa [Nat.add_sub_cancel' hi] at hin

/-- The second record, and what is left of it if its program stores the sequence only. -/
def second : Record := newRecord 0 answered 2 2

def leftOfSecond : Cells := leftOf onceRam second 4

theorem leftOfSecond_invalid : (recordAt (programmed (slotAddress .a 1)
    ((layout.encode second).take 4) (run Sys.step (.start fun _ => 0xFF) once).cells)
    .a 1).isValid = false := by decide +kernel

/-- Power is lost in the second append; the log is started again and appended to. -/
def lost : List Event :=
  once ++ [.append 0 answered 2 { programs := [.powerLost leftOfSecond] }, .boot {},
    .append 0 answered 3 {}]

/-- The torn record is skipped, and its sequence is used again. -/
theorem survives_power_loss_lost :
    ∃ ram, (run Sys.step (.start fun _ => 0xFF) lost).ram = some ram ∧
      Serves (run Sys.step (.start fun _ => 0xFF) lost).cells ram
        (run Sys.step (.start fun _ => 0xFF) lost).appended ∧
      (run Sys.step (.start fun _ => 0xFF) lost).appended.map Record.sequence = [2, 1] := by
  have hsome : (run Sys.step (.start fun _ => 0xFF) lost).ram.isSome = true := by decide +kernel
  obtain ⟨ram, hram⟩ := Option.isSome_iff_exists.1 hsome
  have hpower : Along Sys.step Sys.PowerOnly (.start fun _ => 0xFF) lost :=
    along_append.2 ⟨⟨Sys.powerOnly_boot _, Sys.powerOnly_append _ _ _ _, trivial⟩,
      fits_once.powerOnly ram_once leftOfSecond_invalid, Sys.powerOnly_boot _,
      Sys.powerOnly_append _ _ _ _, trivial⟩
  exact ⟨ram, hram, (survives_power_loss (fun _ _ _ _ => rfl) hpower
    (by decide +kernel)).2.2.2.2 ram hram, by decide +kernel⟩

/-! ## Programs that fail -/

namespace Sys

/-- Erases and reads complete and power is never lost; a program may fail and leave a first part
of the record. -/
structure ProgramsOnly (fates : Fates) : Prop where
  noLoss : fates.NoLoss
  reads : fates.ReadsSucceed
  erases : ∀ t left, .fails t left ∉ fates.erases

/-- Failing programs are all that happens to an event. -/
def ProgramErrors (s : Sys) : Event → Prop
  | .boot fates => ProgramsOnly fates
  | .append resourceIndex result timestamp fates => ProgramsOnly fates ∧ ∀ ram, s.ram = some ram →
    let out := s.appendOut ram resourceIndex result timestamp fates
    out.1.map Prod.fst ≠ some .ok → Prefixed out.2 ∧
      Torn out.2 ram (newRecord resourceIndex result timestamp ram.nextSequence)

/-- A program that fails leaves less than the whole record, and nothing is programmed behind a slot
of the active sector that a failed program left erased. -/
def Gapless (s : Sys) : Event → Prop
  | .boot _ => True
  | .append resourceIndex result timestamp fates => ∀ ram, s.ram = some ram →
    let out := s.appendOut ram resourceIndex result timestamp fates
    (out.1.map Prod.fst ≠ some .ok →
      ¬ Stored out.2.cells ram (newRecord resourceIndex result timestamp ram.nextSequence)) ∧
    (ram.nextSlot < slotsPerSector →
      (recordAt out.2.cells ram.activeSector ram.nextSlot).looksErased = true ∨
      ∀ slot < ram.nextSlot, (recordAt s.cells ram.activeSector slot).looksErased = false)

instance (s : Sys) : (e : Event) → Decidable (s.Gapless e)
  | .boot _ => inferInstanceAs (Decidable True)
  | .append resourceIndex result timestamp fates =>
    inferInstanceAs (Decidable (∀ ram ∈ s.ram,
      let out := s.appendOut ram resourceIndex result timestamp fates
      (out.1.map Prod.fst ≠ some .ok →
        ¬ Stored out.2.cells ram (newRecord resourceIndex result timestamp ram.nextSequence)) ∧
      (ram.nextSlot < slotsPerSector →
        (recordAt out.2.cells ram.activeSector ram.nextSlot).looksErased = true ∨
        ∀ slot < ram.nextSlot, (recordAt s.cells ram.activeSector slot).looksErased = false)))

/-- What holds of the log as long as failing programs are all that happens. -/
structure Sound (s : Sys) : Prop where
  numbers : ∀ r ∈ s.appended, r.number ≤ s.spent
  reported : s.reported = s.appended
  idle : s.ram = none → Off s.cells s.appended
  running : ∀ ram, s.ram = some ram →
    On s.cells s.appended ram ∧ ram.nextSequence.toNat ≤ s.spent + 1

theorem Sound.off {s : Sys} (h : s.Sound) : Off s.cells s.appended := by
  cases hram : s.ram with
  | none => exact h.idle hram
  | some ram => exact (h.running ram hram).1.off

theorem sound_start {m : Cells} (h : Erased m) : (start m).Sound where
  numbers _ hr := (List.not_mem_nil hr).elim
  reported := rfl
  idle _ := .inl (records_of_erased h)
  running _ hram := nomatch hram

theorem boot_sound {s : Sys} (hsound : s.Sound) {fates : Fates} (h : ProgramsOnly fates)
    (hfew : s.spent < 2 ^ 32 - 2) : (s.step (.boot fates)).Sound ∧
      ∀ command ∈ s.commands (.boot fates), Proper command := by
  have hbound := hsound.off.number_le hsound.numbers
  have hwrap : ∀ x, ∀ r ∈ records s.cells x, r.number + 1 < 2 ^ 32 := fun x r hr => by
    have hle := hbound x r hr
    omega
  have hstarts := init_starts (c := ⟨s.cells, fates, []⟩) hsound.off hwrap rfl h.reads h.erases
  have huncut : (s.bootOut fates).1 ≠ none := uncut_init ⟨s.cells, fates, []⟩ h.noLoss
  have hnext : ∀ {m' ram}, Booted s.cells s.appended m' ram →
      ram.nextSequence.toNat ≤ s.spent + 1 := by
    intro m' ram hbooted
    rcases hbooted.next with ⟨-, hone⟩ | ⟨-, r, x, -, hr, hnext⟩
    · rw [hone]
      exact Nat.le_add_left ..
    · rw [hnext]
      exact Nat.succ_le_succ (hbound x r hr)
  show (Sys.mk _ _ _ _ _).Sound ∧ ∀ command ∈ (s.bootOut fates).2.log, _
  change Starts s.cells s.appended [] (s.bootOut fates) at hstarts
  generalize s.bootOut fates = out at hstarts huncut
  cases hstarts with
  | cut hcells hlog => exact absurd rfl huncut
  | cutErase holder hlog hoff => exact absurd rfl huncut
  | resumed hcells hlog hbooted =>
    refine ⟨⟨hsound.numbers, hsound.reported, nofun, fun ram hram => ?_⟩, ?_⟩
    · cases hram
      refine ⟨?_, hnext hbooted⟩
      show On _ s.appended _
      rw [hcells]
      exact hbooted.on
    · rw [hlog]
      exact fun _ hmem => (List.not_mem_nil hmem).elim
  | erased holder hlog hbooted =>
    refine ⟨⟨hsound.numbers, hsound.reported, nofun, fun ram hram => ?_⟩, ?_⟩
    · cases hram
      exact ⟨hbooted.on, hnext hbooted⟩
    · rw [hlog]
      exact fun command hmem => (List.mem_singleton.1 hmem) ▸ ⟨_, rfl, rfl, holder⟩

theorem append_sound {s : Sys} (hsound : s.Sound) {resourceIndex : UInt8} {result : Result}
    {timestamp : UInt32} {fates : Fates}
    (h : s.ProgramErrors (.append resourceIndex result timestamp fates))
    (hgapless : s.Gapless (.append resourceIndex result timestamp fates))
    (hfew : s.spent < 2 ^ 32 - 2) :
    (s.step (.append resourceIndex result timestamp fates)).Sound ∧
      ∀ command ∈ s.commands (.append resourceIndex result timestamp fates), Proper command := by
  obtain ⟨honly, hleft⟩ := h
  unfold step commands
  unfold Gapless at hgapless
  cases hram : s.ram with
  | none => exact ⟨hsound, fun _ hmem => (List.not_mem_nil hmem).elim⟩
  | some ram =>
    obtain ⟨hrunning, hnext⟩ := hsound.running ram hram
    have hwrap : ram.nextSequence.toNat + 1 < 2 ^ 32 := by omega
    have hvalid := newRecord_valid resourceIndex result timestamp (ne_erased hwrap)
    have hfails := hleft ram hram
    obtain ⟨hwhole, hgap⟩ := hgapless ram hram
    have happends := append_appends resourceIndex result timestamp
      (c := ⟨s.cells, fates, []⟩) hrunning honly.reads honly.erases
    have huncut : (s.appendOut ram resourceIndex result timestamp fates).1 ≠ none :=
      uncut_append resourceIndex result timestamp ram ⟨s.cells, fates, []⟩ honly.noLoss
    show (s.afterAppend ram _ (s.appendOut ram resourceIndex result timestamp fates)).Sound ∧
      ∀ command ∈ (s.appendOut ram resourceIndex result timestamp fates).2.log, _
    change Appends _ ⟨s.cells, fates, []⟩ s.appended ram
      (s.appendOut ram resourceIndex result timestamp fates) at happends
    simp only at hfails
    generalize hrecord : newRecord resourceIndex result timestamp ram.nextSequence = record at *
    generalize s.appendOut ram resourceIndex result timestamp fates = out at *
    have hsequence : record.sequence = ram.nextSequence := by
      rw [← hrecord]
      rfl
    cases happends with
    | cutErase hfull hlog hkeep => exact absurd rfl huncut
    | @writes c₁ ram₁ _ hready hon hwrites =>
      have hslot : (recordAt out.2.cells (place ram).1 (place ram).2).looksErased = true ∨
          fill c₁.cells ram₁.activeSector = ram₁.nextSlot := by
        rcases hready.same with ⟨hcells, hsame⟩ | ⟨hfull, hrolled, hcells⟩
        · have hfree : ram.nextSlot < slotsPerSector := hsame ▸ hready.slot
          rw [hready.place, hsame, hcells]
          refine (hgap hfree).imp_right fun hused => ?_
          refine hrunning.fill_le.antisymm (Nat.le_of_not_lt fun hlt => ?_)
          have herased := looksErased_of_blank (hrunning.used.blank _ le_rfl (hlt.trans hfree))
          rw [hused _ hlt] at herased
          cases herased
        · rw [hrolled]
          exact .inr (tight_rolled hcells).1
      have hstored := hwrites.stored_of_ok hready hon
      obtain ⟨hon', -⟩ := hwrites.on hready hon hvalid hsequence hwrap hfails hslot
      have hiff : out.1.map Prod.fst = some .ok ↔ Stored out.2.cells ram record :=
        ⟨hstored, fun hs => by_contra fun hne => hwhole hne hs⟩
      obtain ⟨returned, hreturned⟩ := Option.ne_none_iff_exists'.1 huncut
      have hspent : (if Stored out.2.cells ram record ∨ out.1.isSome then s.spent + 1
          else s.spent) = s.spent + 1 := if_pos (.inr (by rw [hreturned]; rfl))
      refine ⟨⟨?_, ?_, fun hnone => ?_, fun ram' hram' => ?_⟩,
        hwrites.proper hready hrunning hon rfl⟩
      · show ∀ r ∈ (if Stored out.2.cells ram record then record :: s.appended else s.appended),
          r.number ≤ (if Stored out.2.cells ram record ∨ out.1.isSome then s.spent + 1 else s.spent)
        rw [hspent]
        have hkept : ∀ r ∈ s.appended, r.number ≤ s.spent + 1 := fun r hr =>
          (hsound.numbers r hr).trans (Nat.le_succ _)
        split
        · intro r hr
          rcases List.mem_cons.1 hr with rfl | hr
          · rw [Record.number, hsequence]
            exact hnext
          · exact hkept r hr
        · exact hkept
      · show (if _ then _ else _ : List Record) = if _ then _ else _
        rw [if_congr hiff rfl rfl, hsound.reported]
      · exact absurd (Option.map_eq_none_iff.1 hnone) huncut
      · obtain ⟨returned', hreturned', rfl⟩ := Option.map_eq_some_iff.1 hram'
        rw [hwrites.ram returned' hreturned']
        refine ⟨hon', ?_⟩
        show (ram₁.nextSequence + 1).toNat ≤
          (if Stored out.2.cells ram record ∨ out.1.isSome then s.spent + 1 else s.spent) + 1
        rw [hspent, hready.sequence, UInt32.toNat_add]
        exact (Nat.mod_le _ _).trans (Nat.succ_le_succ hnext)

theorem spent_grows (s : Sys) (e : Event) : s.spent ≤ (s.step e).spent := by
  cases e with
  | boot fates => exact le_rfl
  | append resourceIndex result timestamp fates =>
    unfold step
    cases s.ram with
    | none => exact le_rfl
    | some ram =>
      show _ ≤ (if _ then _ else _)
      split
      · exact Nat.le_succ _
      · exact le_rfl

end Sys

/-- **Failing programs cost nothing**, as long as none leaves a whole record and nothing is
programmed behind a slot they left erased: every program goes to erased flash, the records on the
flash are the latest of those reported, no two with one sequence, and they are returned. -/
theorem survives_failed_programs {m : Cells} (hm : Sys.Erased m) {events : List Event}
    (h : Along Sys.step Sys.ProgramErrors (.start m) events)
    (hgapless : Along Sys.step Sys.Gapless (.start m) events)
    (hfew : (run Sys.step (.start m) events).spent < 2 ^ 32 - 2) :
    Along Sys.step (fun s e => ∀ command ∈ s.commands e, Proper command) (.start m) events ∧
    ∀ ram, (run Sys.step (.start m) events).ram = some ram →
      Serves (run Sys.step (.start m) events).cells ram
        (run Sys.step (.start m) events).reported := by
  have hall := (h.and hgapless).and (along_below Sys.spent_grows hfew)
  have hstep : ∀ s e, Sys.Sound s →
      ((s.ProgramErrors e ∧ s.Gapless e) ∧ (s.step e).spent < 2 ^ 32 - 2) →
      (s.step e).Sound ∧ ∀ command ∈ s.commands e, Proper command := by
    intro s e hsound hs
    have hbelow := (Sys.spent_grows s e).trans_lt hs.2
    cases e with
    | boot fates => exact Sys.boot_sound hsound hs.1.1 hbelow
    | append resourceIndex result timestamp fates =>
      exact Sys.append_sound hsound hs.1.1 hs.1.2 hbelow
  have hsound := keeps (fun s e hi hs => (hstep s e hi hs).1) (Sys.sound_start hm) hall
  refine ⟨Along.of_keeps (fun s e hi hs => (hstep s e hi hs).1)
    (fun s e hi hs => (hstep s e hi hs).2) (Sys.sound_start hm) hall, fun ram hram => ?_⟩
  rw [hsound.reported]
  exact (hsound.running ram hram).1.serves

theorem Sys.programErrors_append {s : Sys} {resourceIndex : UInt8} {result : Result}
    {timestamp : UInt32} (h : (s.ram.map fun ram =>
      (s.appendOut ram resourceIndex result timestamp {}).1.map Prod.fst) = some (some .ok)) :
    s.ProgramErrors (.append resourceIndex result timestamp {}) := by
  refine ⟨⟨Fates.noLoss_nil, Fates.steady_nil.reads, Fates.steady_nil.erases⟩,
    fun ram hram hne => absurd ?_ hne⟩
  rw [hram] at h
  exact Option.some.inj h

theorem Sys.programErrors_boot (s : Sys) : s.ProgramErrors (.boot {}) :=
  ⟨Fates.noLoss_nil, Fates.steady_nil.reads, Fates.steady_nil.erases⟩

/-- An append whose program fails behind the first `n` bytes of the record. -/
theorem Fits.programErrors {s : Sys} {ram : Ram} (h : Fits s.cells ram) (hram : s.ram = some ram)
    {resourceIndex : UInt8} {result : Result} {timestamp : UInt32} {n : ℕ} (timedOut : Bool)
    (hinvalid : (recordAt (programmed (slotAddress ram.activeSector ram.nextSlot)
      ((layout.encode (newRecord resourceIndex result timestamp ram.nextSequence)).take n) s.cells)
      ram.activeSector ram.nextSlot).isValid = false) :
    s.ProgramErrors (.append resourceIndex result timestamp { programs := [.fails timedOut
      (leftOf ram (newRecord resourceIndex result timestamp ram.nextSequence) n)] }) := by
  have hout := h.appendOut_fails rfl resourceIndex result timestamp n timedOut
  refine ⟨⟨?_, ?_, ?_⟩, fun ram' hram' => ?_⟩
  · constructor <;> simp
  · exact fun _ _ => List.not_mem_nil
  · exact fun _ _ => List.not_mem_nil
  · cases hram.symm.trans hram'
    intro out _
    have hcells : out = _ := hout
    rw [hcells]
    exact (h.left hinvalid rfl rfl).imp_left And.left

/-- The second append fails, the third one takes the next slot, and the log is started again. -/
def failed : List Event :=
  once ++ [.append 0 answered 2 { programs := [.fails false leftOfSecond] },
    .append 0 answered 3 {}, .boot {}]

theorem survives_failed_programs_failed :
    ∃ ram, (run Sys.step (.start fun _ => 0xFF) failed).ram = some ram ∧
      Serves (run Sys.step (.start fun _ => 0xFF) failed).cells ram
        (run Sys.step (.start fun _ => 0xFF) failed).reported ∧
      (run Sys.step (.start fun _ => 0xFF) failed).reported.map Record.sequence = [3, 1] := by
  have hsome : (run Sys.step (.start fun _ => 0xFF) failed).ram.isSome = true := by decide +kernel
  obtain ⟨ram, hram⟩ := Option.isSome_iff_exists.1 hsome
  have herrors : Along Sys.step Sys.ProgramErrors (.start fun _ => 0xFF) failed :=
    along_append.2 ⟨⟨Sys.programErrors_boot _, Sys.programErrors_append (by decide +kernel),
      trivial⟩, fits_once.programErrors ram_once false leftOfSecond_invalid,
      Sys.programErrors_append (by decide +kernel), Sys.programErrors_boot _, trivial⟩
  have hgapless : Along Sys.step Sys.Gapless (.start fun _ => 0xFF) failed :=
    ⟨trivial, by decide +kernel, by decide +kernel, by decide +kernel, trivial, trivial⟩
  exact ⟨ram, hram, (survives_failed_programs (fun _ _ _ _ => rfl) herrors hgapless
    (by decide +kernel)).2 ram hram, by decide +kernel⟩

/-- The fates of an append whose program fails and leaves the slot erased. -/
def unprogrammed : Fates := { programs := [.fails false fun _ => 0xFF] }

/-- Of three appends the second one fails; then the log is started again. -/
def gap : List Event :=
  once ++ [.append 0 answered 2 unprogrammed, .append 0 answered 3 {}, .boot {}]

/-- The failing append leaves nothing. -/
theorem programErrors_unprogrammed : (run Sys.step (.start fun _ => 0xFF) once).ProgramErrors
    (.append 0 answered 2 unprogrammed) := by
  have hnone : leftOf onceRam second 0 = fun _ => 0xFF := by
    rw [leftOf, List.take_zero, programmed_nil]
  have hfates : unprogrammed = { programs := [.fails false (leftOf onceRam second 0)] } := by
    rw [hnone]
    rfl
  have herased := not_isValid_of_looksErased (looksErased_of_blank fits_once.blank)
  rw [hfates]
  refine fits_once.programErrors ram_once false ?_
  rw [List.take_zero, programmed_nil]
  exact herased

/-- Both appends that reported success are on the flash, and only the first one is returned. -/
theorem hidden_behind_gap : Along Sys.step Sys.ProgramErrors (.start fun _ => 0xFF) gap ∧
    (run Sys.step (.start fun _ => 0xFF) gap).reported =
      [recordAt (run Sys.step (.start fun _ => 0xFF) gap).cells .a 2,
        recordAt (run Sys.step (.start fun _ => 0xFF) gap).cells .a 0] ∧
    ((run Sys.step (.start fun _ => 0xFF) gap).ram.bind fun ram =>
      (getRecent 50 ram ⟨(run Sys.step (.start fun _ => 0xFF) gap).cells, {}, []⟩).1) =
      some [(recordAt (run Sys.step (.start fun _ => 0xFF) gap).cells .a 0).entry] := by
  refine ⟨?_, by decide +kernel, by decide +kernel⟩
  refine along_append.2 ⟨⟨Sys.programErrors_boot _, Sys.programErrors_append (by decide +kernel),
    trivial⟩, programErrors_unprogrammed, Sys.programErrors_append (by decide +kernel),
    Sys.programErrors_boot _, trivial⟩

end HealthCheck.HealthCheckLog
