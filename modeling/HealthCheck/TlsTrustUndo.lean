import HealthCheck.TlsTrustAnchors

/-!
# Failed operations of the trust store

An operation edits the snapshot in RAM, and a commit that fails reads the bank in use to undo the
edit. Nothing looks at whether that read succeeds.

* `failed_call_keeps_anchors` — an operation that reports failure leaves what is shown as it was,
  whichever flash calls have failed, unless the undoing read is one of them (`Undone`);
* `undo_lost` — and then a failed delete can take effect.
-/

namespace HealthCheck.TlsTrustStore

open Nor hiding read driven_read read_ok read_cases
open CString FlashLayout Memory TwoBank W25q64

/-! ## What is shown -/

/-- What is shown is the same. -/
structure Alike (ram ram' : Ram) : Prop where
  exists_eq : ∀ id, anchorExists id ram' = anchorExists id ram
  list_eq : ∀ capacity, list capacity ram' = list capacity ram
  parse_eq : ∀ {Crt : Type} (crtParse : Bytes → Option Crt) (id : ℕ),
    parse crtParse id ram' = parse crtParse id ram

theorem alike_of_anchors {ram ram' : Ram} (h : ram'.snapshot.anchors = ram.snapshot.anchors) :
    Alike ram ram' where
  exists_eq id := by rw [anchorExists, anchorExists, h]
  list_eq capacity := by rw [list, list, h]
  parse_eq crtParse id := by rw [parse, parse, h]

/-! ## The read that undoes a commit -/

/-- A write of the save is to fail. -/
def writeFails (fates : Fates) : Bool :=
  (fates.erases.take tlsTrustStoreBankSectors).any isFailure ||
    (fates.programs.take (pages tlsTrustStoreBankA layout.size)).any isFailure

/-- The fate of the read that undoes a failed commit: the first read if a write fails, and else
the one behind a failed verification. -/
def undoRead (fates : Fates) : ReadFate :=
  if writeFails fates then fates.reads.headD .completes
  else
    match fates.reads.headD .completes with
    | .fails .. => fates.reads.tail.headD .completes
    | _ => .completes

/-- The undoing read does not fail, or has left the anchors of `ram` in the buffer. -/
def Undone (ram : Ram) (fates : Fates) : Prop :=
  ∀ t left, undoRead fates = .fails t left →
    (layout.decode (left.slice 0 layout.size)).anchors = ram.snapshot.anchors

theorem eraseSectors_fates {a n : ℕ} (ha : a % sectorSize = 0)
    (hn : a + n * sectorSize ≤ capacityBytes) {c c' : Chip} {s : Status}
    (h : eraseSectors a n c = (some s, c')) :
    (c.fates.erases.take n).any isFailure = decide (s ≠ .ok) ∧
      c'.fates.programs = c.fates.programs ∧ c'.fates.reads = c.fates.reads := by
  induction n generalizing a c with
  | zero =>
    cases h
    exact ⟨rfl, rfl, rfl⟩
  | succ n ih =>
    have hpos : 0 < sectorSize := by decide
    have hbelow : a < capacityBytes := by rw [Nat.succ_mul] at hn; omega
    obtain ⟨erased, c₁, h₁, h₂⟩ := bind_eq_some.1 h
    obtain ⟨hfirst, herases, hprograms⟩ := eraseSector_fate ha hbelow h₁
    have hreads := eraseSector_reads a c
    rw [h₁] at hreads
    rw [any_take_succ, hfirst]
    split at h₂
    · rename_i hfailed
      cases h₂
      exact ⟨by rw [decide_eq_true hfailed, Bool.true_or]; rfl, hprograms, hreads⟩
    · rename_i hok
      obtain ⟨hrest, hprograms', hreads'⟩ := ih (by rw [Nat.add_mod_right, ha])
        (by rw [Nat.succ_mul] at hn; omega) h₂
      refine ⟨?_, hprograms'.trans hprograms, hreads'.trans hreads⟩
      rw [← herases, hrest, decide_eq_false hok, Bool.false_or]

theorem pages_address (x : Bank) :
    pages (address x) layout.size = pages tlsTrustStoreBankA layout.size := by
  cases x <;> decide

/-- A save of a valid snapshot fails by a write, or by the verification. -/
theorem save_failed {ram ram' : Ram} (hvalid : isSnapshotValid ram.snapshot = true) {c c' : Chip}
    {s : Status} (hs : s ≠ .ok) (h : save ram c = (some (s, ram'), c')) :
    (writeFails c.fates = true ∧ c'.fates.reads = c.fates.reads) ∨
    (writeFails c.fates = false ∧ c'.fates.reads = c.fates.reads.tail ∧
      ∃ t left, c.fates.reads.headD .completes = .fails t left) := by
  obtain ⟨erased, c₁, h₁, h⟩ := bind_eq_some.1 h
  obtain ⟨herases, hprograms₁, hreads₁⟩ := eraseSectors_fates (aligned ram.active.other)
    (address_le ram.active.other) h₁
  split at h
  · rename_i hfailed
    cases h
    refine .inl ⟨?_, hreads₁⟩
    rw [writeFails, herases, decide_eq_true hfailed, Bool.true_or]
  rename_i he
  obtain rfl := not_ne_iff.1 he
  obtain ⟨programmed, c₂, h₂, h⟩ := bind_eq_some.1 h
  have hlength := layout.length_encode ram.snapshot
  have hrange : inRange (address ram.active.other) (layout.encode ram.snapshot).length = true := by
    rw [hlength]
    exact inRange_address _
  have hne : layout.encode ram.snapshot ≠ [] := by
    intro hnil
    rw [hnil] at hlength
    exact absurd hlength (by decide)
  have hprograms := program_fates hrange hne h₂
  rw [hlength, pages_address, hprograms₁] at hprograms
  have hreads₂ := program_reads (address ram.active.other) (layout.encode ram.snapshot) c₁
  rw [h₂] at hreads₂
  have hreads : c₂.fates.reads = c.fates.reads := hreads₂.trans hreads₁
  split at h
  · rename_i hfailed
    cases h
    refine .inl ⟨?_, hreads⟩
    rw [writeFails, hprograms, decide_eq_true hfailed, Bool.or_true]
  rename_i hp
  obtain rfl := not_ne_iff.1 hp
  refine .inr ⟨?_, ?_⟩
  · rw [writeFails, herases, hprograms]
    rfl
  obtain ⟨⟨status, snapshot⟩, c₃, h₃, h⟩ := bind_eq_some.1 h
  simp only [pure_apply, Prod.mk.injEq, Option.some.injEq] at h
  obtain ⟨⟨rfl, -⟩, rfl⟩ := h
  have hslice : c₂.cells.slice (address ram.active.other) layout.size =
      layout.encode ram.snapshot := by
    rw [program_ok h₂, eraseSectors_ok h₁]
    exact slice_programmed_bank _ _ _
  obtain ⟨⟨read, bytes⟩, c₄, h₄, h₃⟩ := bind_eq_some.1 h₃
  have hc : c₃ = c₄ := by
    dsimp only at h₃
    split at h₃ <;> cases h₃ <;> rfl
  subst hc
  rw [W25q64.read, if_pos (inRange_address _)] at h₄
  rw [← hreads]
  unfold Nor.read at h₄
  split at h₄
  · -- What was programmed is read back, and it is valid.
    cases h₄
    rw [hslice] at h₃
    simp only [ne_eq, not_true_eq_false, if_false, layout.decode_encode, hvalid, if_true,
      pure_apply, Prod.mk.injEq, Option.some.injEq] at h₃
    exact absurd h₃.1.1.symm hs
  · rename_i t left hfate
    cases h₄
    exact ⟨rfl, t, left, hfate⟩
  · cases h₄

/-- A failed commit whose undoing read is `Undone` leaves the anchors of the bank in use. -/
theorem commit_undone {ram candidate ram' : Ram} (hactive : candidate.active = ram.active)
    (hvalid : isSnapshotValid (stamp candidate.snapshot) = true) {c c' : Chip}
    (hload : (load c.cells ram.active).anchors = ram.snapshot.anchors)
    (hundone : Undone ram c.fates) {s : TrustStatus} (hs : s ≠ .ok)
    (h : commitCandidate candidate c = (some (s, ram'), c')) :
    ram'.active = ram.active ∧ ram'.snapshot.anchors = ram.snapshot.anchors := by
  obtain ⟨⟨status, saved⟩, c₁, h₁, h⟩ := bind_eq_some.1 h
  dsimp only at h
  by_cases hok : status = .ok
  · rw [if_pos hok] at h
    cases h
    exact absurd rfl hs
  rw [if_neg hok] at h
  have hsaved : saved.active = ram.active := by
    rcases save_cases h₁ with ⟨rfl, -⟩ | ⟨-, hsame⟩
    · exact absurd rfl hok
    · exact hsame.trans hactive
  obtain ⟨⟨status', snapshot⟩, c₂, h₂, h⟩ := bind_eq_some.1 h
  simp only [pure_apply, Prod.mk.injEq, Option.some.injEq] at h
  obtain ⟨⟨-, rfl⟩, -⟩ := h
  refine ⟨hsaved, ?_⟩
  show snapshot.anchors = ram.snapshot.anchors
  have hkept : load c₁.cells ram.active = load c.cells ram.active := by
    have hsteps := (driven_save { candidate with snapshot := stamp candidate.snapshot }).steps c
    rw [h₁] at hsteps
    refine load_congr fun i hi => hsteps.outside i ?_
    rw [hactive]
    exact Set.disjoint_left.1 (disjoint_other ram.active) hi
  have hundo : ∀ t left, c₁.fates.reads.headD .completes = .fails t left →
      undoRead c.fates = .fails t left := by
    intro t left hfate
    rcases save_failed hvalid hok h₁ with ⟨hwrite, hreads⟩ | ⟨hwrite, hreads, t', left', hfirst⟩
    · rw [undoRead, if_pos hwrite, ← hreads, hfate]
    · rw [undoRead, if_neg (by rw [hwrite]; decide), hfirst, ← hreads]
      exact hfate
  rw [hsaved] at h₂
  obtain ⟨⟨read, bytes⟩, c₃, h₃, h₂⟩ := bind_eq_some.1 h₂
  have hsnapshot : snapshot = layout.decode bytes := by
    dsimp only at h₂
    split at h₂ <;> cases h₂ <;> rfl
  rw [W25q64.read, if_pos (inRange_address _)] at h₃
  unfold Nor.read at h₃
  split at h₃
  · cases h₃
    rw [hsnapshot]
    exact (congrArg Snapshot.anchors hkept).trans hload
  · rename_i t left hfate
    cases h₃
    rw [hsnapshot]
    exact hundone t left (hundo t left hfate)
  · cases h₃

/-! ## Runs -/

/-- The call is refused, or its undoing read is `Undone`. -/
def Undoes (s : Sys store) : Event store → Prop
  | .boot _ => True
  | .call op fates => ∀ ram candidate, s.ram = some ram →
    TlsTrustStore.candidate op ram = .ok candidate → Undone ram fates

/-- A running device holds the anchors of its active bank, and they are well formed. -/
def Holds (s : Sys store) : Prop := ∀ ram, s.ram = some ram →
  (load s.cells ram.active).anchors = ram.snapshot.anchors ∧
    ram.snapshot.anchors.toList.all Anchor.wellFormed = true

/-- A snapshot that start-up has found and the one it has committed are in the bank in use. -/
theorem init_holds {c c' : Chip} {ram : Ram} (h : init c = (some (.ok, ram), c')) :
    load c'.cells ram.active = ram.snapshot ∧ isSnapshotValid ram.snapshot = true := by
  obtain ⟨⟨firstStatus, first⟩, c₁, h₁, h⟩ := bind_eq_some.1 h
  obtain ⟨⟨secondStatus, second⟩, c₂, h₂, h⟩ := bind_eq_some.1 h
  dsimp only at h
  split at h
  · obtain ⟨⟨status, snapshot⟩, c₃, h₃, h⟩ := bind_eq_some.1 h
    cases h
    obtain ⟨hsnapshot, hvalid, hcells⟩ := readSnapshot_ok h₃
    refine ⟨?_, hvalid⟩
    rw [hsnapshot, load, hcells]
    rfl
  · split at h
    · rename_i hsecond
      cases h
      subst hsecond
      obtain ⟨hsnapshot, hvalid, hcells⟩ := readSnapshot_ok h₂
      refine ⟨?_, hvalid⟩
      rw [hsnapshot, load, hcells]
      rfl
    · obtain ⟨snapshot, c₃, -, h⟩ := bind_eq_some.1 h
      obtain ⟨⟨status, ram₁⟩, c₄, h₄, h⟩ := bind_eq_some.1 h
      simp only [pure_apply, Prod.mk.injEq, Option.some.injEq] at h
      obtain ⟨⟨hstatus, rfl⟩, rfl⟩ := h
      rcases commit_cases h₄ with ⟨-, rfl, hvalid, hload⟩ | ⟨hne, -⟩
      · exact ⟨hload, hvalid⟩
      · rw [if_neg hne] at hstatus
        cases hstatus

theorem holds_boot (s : Sys store) (fates : Fates) : Holds (s.step (.boot fates)) := by
  intro ram hram
  rcases hr : store.init ⟨s.cells, fates, []⟩ with ⟨_ | ⟨_ | _, ram'⟩, c⟩
  case some.ok =>
    rw [step_booted hr] at hram ⊢
    cases hram
    obtain ⟨hload, hvalid⟩ := init_holds hr
    exact ⟨congrArg Snapshot.anchors hload, all_wellFormed hvalid⟩
  all_goals
    simp only [Sys.step, hr] at hram
    cases hram

/-- An operation that reports failure leaves the anchors of the bank in use. -/
theorem apply_undone {op : Op} {ram ram' : Ram} {c c' : Chip} {status : TrustStatus}
    (hload : (load c.cells ram.active).anchors = ram.snapshot.anchors)
    (hwell : ram.snapshot.anchors.toList.all Anchor.wellFormed = true)
    (hundone : ∀ candidate, TlsTrustStore.candidate op ram = .ok candidate → Undone ram c.fates)
    (h : apply op ram c = (some (status, ram'), c')) (hstatus : status ≠ .ok) :
    ram'.active = ram.active ∧ ram'.snapshot.anchors = ram.snapshot.anchors ∧
      load c'.cells ram.active = load c.cells ram.active := by
  rw [apply_eq] at h
  cases hc : candidate op ram with
  | error status' =>
    rw [hc] at h
    cases h
    exact ⟨rfl, rfl, rfl⟩
  | ok candidate =>
    rw [hc] at h
    obtain ⟨hactive, -, hcandidate⟩ := candidate_ok hc
    have hvalid : isSnapshotValid (stamp candidate.snapshot) = true := by
      rw [isSnapshotValid_stamp]
      exact hcandidate hwell
    obtain ⟨hactive', hanchors⟩ :=
      commit_undone hactive hvalid hload (hundone candidate hc) hstatus h
    refine ⟨hactive', hanchors, ?_⟩
    have hsteps := (driven_commit candidate).steps c
    have hrun : commitCandidate candidate c = _ := h
    rw [hrun] at hsteps
    refine load_congr fun i hi => hsteps.outside i ?_
    rw [hactive]
    exact Set.disjoint_left.1 (disjoint_other ram.active) hi

/-- What a call of a device that holds its anchors leaves, when it returns. -/
theorem call_alike {s : Sys store} (hs : Holds s) {op : Op} {fates : Fates}
    (hundoes : Undoes s (.call op fates)) {ram ram' : Ram} {c : Chip} {status : TrustStatus}
    (hram : s.ram = some ram)
    (h : apply op ram ⟨s.cells, fates, []⟩ = (some (status, ram'), c)) (hstatus : status ≠ .ok) :
    ram'.active = ram.active ∧ ram'.snapshot.anchors = ram.snapshot.anchors ∧
      load c.cells ram.active = load s.cells ram.active := by
  obtain ⟨hload, hwell⟩ := hs ram hram
  exact apply_undone (c := ⟨s.cells, fates, []⟩) hload hwell
    (fun candidate hc => hundoes ram candidate hram hc) h hstatus

theorem holds_call {s : Sys store} (hs : Holds s) {op : Op} {fates : Fates}
    (hundoes : Undoes s (.call op fates)) : Holds (s.step (.call op fates)) := by
  intro ram' hram'
  cases hram : s.ram with
  | none =>
    simp only [Sys.step, hram] at hram'
    cases hram'
  | some ram =>
    rcases hr : store.exec op ram ⟨s.cells, fates, []⟩ with ⟨_ | ⟨_ | _, ram₁⟩, c⟩
    all_goals simp only [Sys.step, hram, hr] at hram' ⊢
    · cases hram'
    · cases hram'
      obtain ⟨status, happly, hok⟩ := exec_eq_some hr
      have hstatus : status ≠ .ok := of_decide_eq_false hok.symm
      obtain ⟨hactive, hanchors, hload⟩ := call_alike hs hundoes hram happly hstatus
      obtain ⟨hold, hwell⟩ := hs ram hram
      rw [hactive, hanchors]
      exact ⟨(congrArg Snapshot.anchors hload).trans hold, hwell⟩
    · cases hram'
      obtain ⟨status, happly, hok⟩ := exec_eq_some hr
      obtain rfl : status = .ok := of_decide_eq_true hok.symm
      obtain ⟨-, hvalid, hload⟩ := apply_ok happly
      exact ⟨congrArg Snapshot.anchors hload, all_wellFormed hvalid⟩

theorem holds_run {s : Sys store} (hs : Holds s) {events : List (Event store)}
    (h : s.Along Undoes events) : Holds (s.run events) := by
  induction events generalizing s with
  | nil => exact hs
  | cons e events ih =>
    refine ih ?_ h.2
    cases e with
    | boot fates => exact holds_boot s fates
    | call op fates => exact holds_call hs h.1

/-- **An operation that reports failure shows nothing**: after any run from any flash content,
whatever fails in it and in the operation, as long as the read that undoes a failed commit does
not fail too, or has left the anchors that were there. -/
theorem failed_call_keeps_anchors {s : Sys store} (hoff : s.ram = none)
    {events : List (Event store)} {op : Op} {fates : Fates}
    (h : s.Along Undoes (events ++ [.call op fates])) {ram ram' : Ram} {c : Chip}
    {status : TrustStatus} (hram : (s.run events).ram = some ram)
    (hcall : apply op ram ⟨(s.run events).cells, fates, []⟩ = (some (status, ram'), c))
    (hstatus : status ≠ .ok) : Alike ram ram' := by
  obtain ⟨hevents, hundoes, -⟩ := along_append.1 h
  have hstart : Holds s := by
    intro ram hram
    cases hoff.symm.trans hram
  exact alike_of_anchors
    (call_alike (holds_run hstart hevents) hundoes hram hcall hstatus).2.1

/-! ### A delete whose erase fails -/

/-- The variables of a device that was started on erased flash. -/
def freshRam : Ram := ⟨stamp default, .a⟩

theorem run_boot : ((Sys.start store).run [.boot {}]).ram = some freshRam := by
  obtain ⟨⟨status, ram⟩, c, h⟩ := lawful.init_driven.returns ⟨(Sys.start store).cells, {}, []⟩ rfl
  obtain ⟨-, -, hok, hsteady⟩ :=
    lawful.seeds rfl lawful.fresh_erased Fates.steady_nil.reads _ _ h
  obtain rfl := hsteady Fates.steady_nil _ _ rfl
  obtain ⟨-, -, -, hsnapshot, hactive⟩ := hok ram rfl
  have hram : ram = freshRam := by
    obtain ⟨snapshot, active⟩ := ram
    have hsnapshot : snapshot = stamp default := hsnapshot
    have hactive : active = .a := hactive
    rw [hsnapshot, hactive, freshRam]
  rw [Sys.run, List.foldl_cons, List.foldl_nil, step_booted h]
  exact congrArg some hram

theorem exists_freshRam : anchorExists 0 freshRam = true := by
  rw [anchorExists_eq, show freshRam.snapshot = stamp default from rfl, anchors_default]
  rfl

/-- What the delete commits. -/
def deleted : Ram := freshRam.setAnchor 0 zeroAnchor

theorem candidate_delete : candidate (.delete 0) freshRam = .ok deleted := by
  rw [candidate, if_pos exists_freshRam]
  rfl

/-- The fates of a delete whose first erase fails. -/
def unerased (reads : List ReadFate) : Fates := { erases := [.fails false fun _ => 0], reads }

/-- What is left is the read that undoes it. -/
theorem delete_unerased (m : Cells) (reads : List ReadFate) : ∃ m' log,
    apply (.delete 0) freshRam ⟨m, unerased reads, []⟩ =
      (readSnapshot (address .a) >>= fun r => pure (.storageError, ⟨r.2, .a⟩))
        ⟨m', { reads }, log⟩ := by
  have herase : eraseSector (address .b) ⟨m, unerased reads, []⟩ =
      (some (failure false), ⟨overwrite (address .b) sectorSize (fun _ => 0) m, { reads },
        [.erase (address .b) sectorSize m]⟩) := by
    rw [eraseSector, if_neg (by decide)]
    rfl
  have herases : eraseSectors (address .b) tlsTrustStoreBankSectors ⟨m, unerased reads, []⟩ =
      (some .error, ⟨overwrite (address .b) sectorSize (fun _ => 0) m, { reads },
        [.erase (address .b) sectorSize m]⟩) := by
    rw [tlsTrustStoreBankSectors, eraseSectors, bind_of_some herase,
      if_pos (failure_ne_ok false)]
    rfl
  have hsave : save { deleted with snapshot := stamp deleted.snapshot } ⟨m, unerased reads, []⟩ =
      (some (.error, { deleted with snapshot := stamp deleted.snapshot }),
        ⟨overwrite (address .b) sectorSize (fun _ => 0) m, { reads },
          [.erase (address .b) sectorSize m]⟩) := by
    refine (bind_of_some herases).trans ?_
    rw [if_pos (by decide)]
    rfl
  refine ⟨overwrite (address .b) sectorSize (fun _ => 0) m,
    [.erase (address .b) sectorSize m], ?_⟩
  rw [apply_eq, candidate_delete]
  exact bind_of_some hsave

theorem failed_call_keeps_anchors_delete : ∃ (m : Cells) (ram : Ram) (c : Chip),
    apply (.delete 0) freshRam ⟨m, unerased [], []⟩ = (some (.storageError, ram), c) ∧
    Alike freshRam ram := by
  obtain ⟨m', log, hrun⟩ := delete_unerased ((Sys.start store).run [.boot {}]).cells []
  have hread := readSnapshot_calm .a m' log
  rw [bind_of_some hread, pure_apply] at hrun
  have hundoes :
      (Sys.start store).Along Undoes ([.boot {}] ++ [.call (.delete 0) (unerased [])]) := by
    refine ⟨trivial, fun ram candidate _ _ t left hfate => ?_, trivial⟩
    have hnone : undoRead (unerased []) = .completes := rfl
    rw [hnone] at hfate
    cases hfate
  exact ⟨_, _, _, hrun, failed_call_keeps_anchors rfl hundoes run_boot hrun (by decide)⟩

/-- The buffer as the save has left it. -/
def untouched : Cells := programmed 0 (layout.encode (stamp deleted.snapshot)) fun _ => 0xFF

/-- The erase fails, and so does the undoing read, with nothing transferred: the deleted anchor
is gone although the delete reports `TLS_TRUST_STORE_STATUS_STORAGE_ERROR`. -/
theorem undo_lost : ∃ (m : Cells) (ram ram' : Ram) (c : Chip),
    m = ((Sys.start store).run [.boot {}]).cells ∧
    ((Sys.start store).run [.boot {}]).ram = some ram ∧
    apply (.delete 0) ram ⟨m, unerased [.fails true untouched], []⟩ =
      (some (.storageError, ram'), c) ∧
    anchorExists 0 ram = true ∧ anchorExists 0 ram' = false := by
  obtain ⟨m', log, hrun⟩ :=
    delete_unerased ((Sys.start store).run [.boot {}]).cells [.fails true untouched]
  have hslice : untouched.slice 0 layout.size = layout.encode (stamp deleted.snapshot) := by
    rw [← layout.length_encode (stamp deleted.snapshot)]
    exact slice_programmed fun _ _ _ => rfl
  have hread : readSnapshot (address .a) ⟨m', { reads := [.fails true untouched] }, log⟩ =
      (some (.error, stamp deleted.snapshot), ⟨m', {}, log⟩) := by
    have hread : read (address .a) layout.size ⟨m', { reads := [.fails true untouched] }, log⟩ =
        (some (failure true, untouched.slice 0 layout.size), ⟨m', {}, log⟩) := by
      rw [W25q64.read, if_pos (inRange_address .a)]
      rfl
    rw [readSnapshot, bind_of_some hread, hslice]
    simp only [layout.decode_encode, ne_eq, failure_ne_ok, not_false_eq_true, if_true]
    rfl
  rw [bind_of_some hread, pure_apply] at hrun
  refine ⟨_, freshRam, _, _, rfl, run_boot, hrun, exists_freshRam, ?_⟩
  rw [anchorExists_eq]
  have hanchors : anchors (stamp deleted.snapshot) = anchors deleted.snapshot := rfl
  show (anchors (stamp deleted.snapshot) 0).isSome = false
  rw [hanchors, deleted, anchors_setAnchor freshRam (by decide), Function.update_self]
  rfl

end HealthCheck.TlsTrustStore
