import HealthCheck.StoreReadFailures
import HealthCheck.TlsTrustMigration

/-!
# Trust anchors that are not read at start-up

`TlsTrustStore_Init` has the same habit with its longer banks: what it does not read it takes for
absent, and then the first bank gets the compiled default or an expanded version-1 image.

* `bootCells_of_reads`, `bootCells_of_unread` — what such a start-up leaves.
* `loads_newest_iff` — when a reboot with working reads still loads the newest image.
-/

namespace HealthCheck.TlsTrustStore

open Nor hiding read driven_read read_ok read_cases observes_read uncut_read read_pattern
open CString FlashLayout Memory TwoBank W25q64

/-! ## The newest image -/

/-- The newest version-2 image on flash is `s`. -/
def Finds (m : Cells) (s : Snapshot) : Prop := ∃ x, store.newest m = some x ∧ load m x = s

/-- The newest image on flash: of version 2, or what one of version 1 is expanded to. -/
def Newest (m : Cells) (s : Snapshot) : Prop :=
  Finds m s ∨ (∀ x, isSnapshotValid (load m x) = false) ∧ isSnapshotValid s = true ∧
    ∃ legacy, newestLegacy m = some legacy ∧ stamp (expandLegacy legacy) = s

/-- The newest image if the first bank holds none. -/
def Behind (m : Cells) (s : Snapshot) : Prop :=
  if isSnapshotValid (load m .b) = true then load m .b = s
  else ∃ legacy, newestLegacy m = some legacy ∧ stamp (expandLegacy legacy) = s

/-- The first two reads of a start-up get a valid image. -/
def ReadsSnapshot (m : Cells) (p : Pattern) : Prop :=
  p.fails 0 = false ∧ isSnapshotValid (load m .a) = true ∨
    p.fails 1 = false ∧ isSnapshotValid (load m .b) = true

/-- What a start-up commits that reads no version-2 image: the third and fourth read look for
version-1 images, and the fifth reads the first one again. -/
def fallback (m : Cells) (p : Pattern) : Snapshot :=
  let firstValid := !p.fails 2 && isLegacySnapshotValid (legacyLoad m .a)
  let secondValid := !p.fails 3 && isLegacySnapshotValid (legacyLoad m .b)
  if firstValid &&
      (!secondValid || (legacyLoad m .a).generation ≥ (legacyLoad m .b).generation) then
    expandLegacy (legacyLayout.decode
      (p.answer 4 (m.slice (legacyAddress .a) legacyLayout.size)).2)
  else if secondValid then expandLegacy (legacyLoad m .b)
  else default

/-! ## Start-up by the outcomes of its reads -/

/-- The status of an image that was to be read. -/
def readVerdict (fails : Bool) (s : Snapshot) : Status := if fails then .error else verdict s

theorem readVerdict_eq_ok {fails : Bool} {s : Snapshot} :
    readVerdict fails s = .ok ↔ fails = false ∧ isSnapshotValid s = true := by
  cases fails with
  | true => exact iff_of_false nofun nofun
  | false => exact verdict_eq_ok.trans (and_iff_right rfl).symm

theorem readSnapshot_pattern (x : Bank) (m : Cells) (p : Pattern) (log : List Command) :
    ∃ s, readSnapshot (address x) ⟨m, p.fates, log⟩ =
      (some (readVerdict (p.fails 0) (load m x), s), ⟨m, (p.after 1).fates, log⟩) := by
  have hread := read_pattern (inRange_address x) m p log
  rw [readSnapshot, bind_of_some hread]
  dsimp only
  cases hfails : p.fails 0 with
  | true =>
    have hne : (p.answer 0 (m.slice (address x) layout.size)).1 ≠ .ok := fun hok => by
      rw [Pattern.answer_ok_iff, hfails] at hok
      cases hok
    rw [if_pos hne]
    exact ⟨_, rfl⟩
  | false =>
    rw [Pattern.answer_of_succeeds hfails, if_neg (not_not_intro rfl)]
    exact ⟨_, rfl⟩

section StartUp

variable (m : Cells) (p : Pattern)

/-- When an image is read nothing is written. -/
theorem bootCells_of_reads (h : ReadsSnapshot m p) : bootCells init m p = m := by
  obtain ⟨first, hfirst⟩ := readSnapshot_pattern .a m p []
  obtain ⟨second, hsecond⟩ := readSnapshot_pattern .b m (p.after 1) []
  obtain ⟨third, hthird⟩ := readSnapshot_pattern .a m ((p.after 1).after 1) []
  have hfirst : readSnapshot tlsTrustStoreBankA _ = _ := hfirst
  have hsecond : readSnapshot tlsTrustStoreBankB _ = _ := hsecond
  have hthird : readSnapshot tlsTrustStoreBankA _ = _ := hthird
  rw [bootCells, init, bind_of_some hfirst]
  dsimp only
  rw [bind_of_some hsecond]
  dsimp only
  split_ifs with htaken hother
  · rw [bind_of_some hthird]
    rfl
  · rfl
  · rw [readVerdict_eq_ok, Pattern.fails_after] at hother
    have ha := h.resolve_right hother
    refine absurd ⟨readVerdict_eq_ok.2 ha, .inl ?_⟩ htaken
    rw [Ne, readVerdict_eq_ok, Pattern.fails_after]
    exact hother

theorem bootCells_of_unread (h : ¬ReadsSnapshot m p) :
    bootCells init m p = (initLegacy ⟨m, (p.after 2).fates, []⟩).2.cells := by
  obtain ⟨hfirst, hsecond⟩ := not_or.1 h
  obtain ⟨first, ha⟩ := readSnapshot_pattern .a m p []
  obtain ⟨second, hb⟩ := readSnapshot_pattern .b m (p.after 1) []
  have ha : readSnapshot tlsTrustStoreBankA _ = _ := ha
  have hb : readSnapshot tlsTrustStoreBankB _ = _ := hb
  rw [bootCells, init, bind_of_some ha]
  dsimp only
  rw [bind_of_some hb]
  dsimp only
  rw [if_neg fun htaken => hfirst (readVerdict_eq_ok.1 htaken.1), if_neg ?_, Pattern.after_after]
  rw [readVerdict_eq_ok, Pattern.fails_after]
  exact hsecond

theorem readLegacy_pattern (x : Bank) (log : List Command) :
    ∃ legacy, readLegacy (legacyAddress x) ⟨m, p.fates, log⟩ =
      (some (!p.fails 0 && isLegacySnapshotValid (legacyLoad m x), legacy),
        ⟨m, (p.after 1).fates, log⟩) ∧ (p.fails 0 = false → legacy = legacyLoad m x) := by
  have hread := read_pattern (inRange_legacyAddress x) m p log
  rw [readLegacy, bind_of_some hread]
  dsimp only
  cases hfails : p.fails 0 with
  | true =>
    have hne : (p.answer 0 (m.slice (legacyAddress x) legacyLayout.size)).1 ≠ .ok := fun hok => by
      rw [Pattern.answer_ok_iff, hfails] at hok
      cases hok
    rw [decide_eq_false hne, Bool.false_and]
    exact ⟨_, rfl, nofun⟩
  | false =>
    rw [Pattern.answer_of_succeeds hfails, decide_eq_true rfl, Bool.true_and, legacyLoad]
    exact ⟨_, rfl, fun _ => rfl⟩

/-- What a start-up commits that reads no version-2 image. -/
theorem readDefault_pattern (log : List Command) : ∃ q : Pattern,
    readDefault ⟨m, (p.after 2).fates, log⟩ = (some (fallback m p), ⟨m, q.fates, log⟩) := by
  obtain ⟨first, ha, hfirst⟩ := readLegacy_pattern m (p.after 2) .a log
  obtain ⟨second, hb, hsecond⟩ := readLegacy_pattern m (p.after 3) .b log
  have hc := read_pattern (inRange_legacyAddress .a) m (p.after 4) log
  simp only [Pattern.fails_after, Pattern.after_after, Nat.reduceAdd] at ha hb hc hfirst hsecond
  have ha : readLegacy tlsTrustStoreLegacyBankA _ = _ := ha
  have hb : readLegacy tlsTrustStoreLegacyBankB _ = _ := hb
  have hthird : (read tlsTrustStoreLegacyBankA legacyLayout.size >>= fun answer =>
      pure (expandLegacy (legacyLayout.decode answer.2))) ⟨m, (p.after 4).fates, log⟩ =
      (some (expandLegacy (legacyLayout.decode
        (p.answer 4 (m.slice (legacyAddress .a) legacyLayout.size)).2)),
        ⟨m, (p.after 5).fates, log⟩) := by
    rw [Pattern.answer_after] at hc
    exact bind_of_some hc
  rw [readDefault, bind_of_some ha]
  dsimp only
  rw [bind_of_some hb]
  dsimp only
  have hread {v : Bool} {k : ℕ} (h : (!p.fails k && v) = true) : p.fails k = false :=
    Bool.not_eq_eq_eq_not.1 (Bool.and_eq_true_iff.1 h).1
  unfold fallback
  dsimp only
  cases hv1 : !p.fails 2 && isLegacySnapshotValid (legacyLoad m .a) <;>
    cases hv2 : !p.fails 3 && isLegacySnapshotValid (legacyLoad m .b)
  · exact ⟨_, rfl⟩
  · rw [hsecond (hread hv2)]
    exact ⟨_, rfl⟩
  · exact ⟨_, hthird⟩
  · rw [hfirst (hread hv1), hsecond (hread hv2)]
    by_cases hnewer : (legacyLoad m .a).generation ≥ (legacyLoad m .b).generation
    · have htaken : (true && (!true || decide ((legacyLoad m .a).generation ≥
          (legacyLoad m .b).generation))) = true := decide_eq_true hnewer
      rw [if_pos htaken, if_pos htaken]
      exact ⟨_, hthird⟩
    · have htaken : (true && (!true || decide ((legacyLoad m .a).generation ≥
          (legacyLoad m .b).generation))) ≠ true := decide_eq_true_iff.not.2 hnewer
      rw [if_neg htaken, if_neg htaken]
      exact ⟨_, rfl⟩

/-- A commit to the first bank writes, and is verified or not. -/
theorem commit_pattern (snapshot : Snapshot) (log : List Command) :
    (commitCandidate ⟨snapshot, .b⟩ ⟨m, p.fates, log⟩).2.cells =
      programmed (address .a) (layout.encode (stamp snapshot)) (blank (address .a) bankSize m) := by
  obtain ⟨log₁, herase⟩ := eraseSectors_calm (n := tlsTrustStoreBankSectors) (aligned .a)
    (address_le .a) m log (p.map Pattern.fate)
  have hrange : inRange (address .a) (layout.encode (stamp snapshot)).length = true := by
    rw [layout.length_encode]
    exact inRange_address .a
  obtain ⟨log₂, hprogram⟩ :=
    program_calm (blank (address .a) bankSize m) log₁ (p.map Pattern.fate) hrange
  obtain ⟨read, hread⟩ := readSnapshot_pattern .a (programmed (address .a)
    (layout.encode (stamp snapshot)) (blank (address .a) bankSize m)) p log₂
  have hsave : save ⟨stamp snapshot, .b⟩ ⟨m, p.fates, log⟩ =
      (some (readVerdict (p.fails 0) (load (programmed (address .a)
        (layout.encode (stamp snapshot)) (blank (address .a) bankSize m)) .a), ⟨read,
        if readVerdict (p.fails 0) (load (programmed (address .a)
        (layout.encode (stamp snapshot)) (blank (address .a) bankSize m)) .a) = .ok then .a
        else .b⟩), ⟨programmed (address .a) (layout.encode (stamp snapshot))
          (blank (address .a) bankSize m), (p.after 1).fates, log₂⟩) := by
    rw [save, Pattern.fates]
    dsimp only [Bank.other]
    rw [bind_of_some herase, if_neg (by simp), programVerified]
    dsimp only [Bank.other]
    rw [← bankSize, bind_of_some hprogram, if_neg (by simp)]
    exact bind_of_some hread
  rw [commitCandidate, bind_of_some hsave]
  dsimp only
  split_ifs
  · rfl
  · obtain ⟨again, hagain⟩ := readSnapshot_pattern .b (programmed (address .a)
      (layout.encode (stamp snapshot)) (blank (address .a) bankSize m)) (p.after 1) log₂
    rw [bind_of_some hagain]
    rfl

end StartUp

/-! ## The reboot -/

section Reboot

variable {m : Cells} {s : Snapshot}

/-- A reboot with working reads loads the newest version-2 image. -/
theorem loads_of_newest {x : Bank} (h : store.newest m = some x) :
    Loads init Ram.snapshot m s ↔ load m x = s := by
  obtain ⟨⟨status, ram⟩, c, hinit⟩ := driven_init.returns ⟨m, {}, []⟩ rfl
  obtain ⟨-, hram⟩ := init_loads (c := ⟨m, {}, []⟩) h Fates.steady_nil.reads hinit
  obtain ⟨rfl, rfl⟩ := hram status ram rfl
  constructor
  · rintro ⟨ram', c', hinit', hs⟩
    cases hinit.symm.trans hinit'
    exact hs
  · exact fun hs => ⟨_, c, hinit, hs⟩

/-- Without one, it loads what the newest version-1 image is expanded to. -/
theorem loads_of_legacy (hinvalid : ∀ x, isSnapshotValid (load m x) = false)
    {legacy : LegacySnapshot} (h : newestLegacy m = some legacy)
    (hs : isSnapshotValid s = true) :
    Loads init Ram.snapshot m s ↔ stamp (expandLegacy legacy) = s := by
  obtain ⟨⟨status, ram⟩, c, hinit⟩ := driven_init.returns ⟨m, {}, []⟩ rfl
  rcases init_migrates (c := ⟨m, {}, []⟩) hinvalid h Fates.steady_nil.reads hinit with
    ⟨hnone, -⟩ | ⟨c₁, -, hf₁, hcommit⟩
  · cases hnone
  by_cases hvalid : isSnapshotValid (stamp (expandLegacy legacy)) = true
  · obtain ⟨-, -, hdone, hok⟩ := commit_report hvalid hcommit
    obtain rfl : status = .ok := hok (Fates.steady_nil.after hf₁) status ram rfl
    obtain ⟨-, rfl⟩ := hdone ram rfl
    constructor
    · rintro ⟨ram', c', hinit', hsnapshot⟩
      cases hinit.symm.trans hinit'
      exact hsnapshot
    · exact fun hsnapshot => ⟨_, c, hinit, hsnapshot⟩
  · refine iff_of_false ?_ fun hsnapshot => hvalid (hsnapshot ▸ hs)
    rintro ⟨ram', c', hinit', -⟩
    cases hinit.symm.trans hinit'
    obtain ⟨⟨status, ram''⟩, c₂, hcandidate, hret⟩ := bind_eq_some.1 hcommit
    rcases commit_cases hcandidate with ⟨-, -, hstored, -⟩ | ⟨hne, -⟩
    · exact hvalid hstored
    · simp only [if_neg hne, pure_apply, Prod.mk.injEq, Option.some.injEq, reduceCtorEq,
        false_and] at hret

theorem Newest.valid (h : Newest m s) : isSnapshotValid s = true := by
  rcases h with ⟨x, hx, rfl⟩ | ⟨-, hs, -⟩
  · exact valid_of_newest hx
  · exact hs

/-- Behind a write of `w` to the first bank. -/
theorem loads_behind {w : Snapshot} {m' : Cells} (hw : load m' .a = w)
    (hkept : ∀ i ∉ region .a, m' i = m i) (h : Newest m s)
    (hlegacy : isSnapshotValid w = false → newestLegacy m ≠ none) :
    Loads init Ram.snapshot m' s ↔ w = s ∨
      if isSnapshotValid w = true then load m .b = s ∧ w.generation.toNat < s.generation.toNat
      else Behind m s := by
  have hs := h.valid
  have hb : load m' .b = load m .b := load_congr fun i hi => hkept i fun hi' =>
    Set.disjoint_left.1 disjoint_region hi' hi
  by_cases hvalid : isSnapshotValid w = true
  · rw [if_pos hvalid]
    have hfirst : isSnapshotValid (load m' .a) = true := hw.symm ▸ hvalid
    have hnewest : ∃ z, store.newest m' = some z := exists_newest hfirst
    obtain ⟨z, hz⟩ := hnewest
    have hloads : Loads init Ram.snapshot m' s ↔ Finds m' s := by
      rw [loads_of_newest hz]
      refine ⟨fun hsame => ⟨z, hz, hsame⟩, ?_⟩
      rintro ⟨z', hz', hsame⟩
      cases hz.symm.trans hz'
      exact hsame
    rw [hloads]
    rcases h with ⟨x, hx, rfl⟩ | ⟨hinvalid, -⟩
    · have hiff := finds_iff (y := .a) hx hb
      simp only [hw] at hiff
      exact hiff.trans (by simp [store, hvalid, Outranks, Bank.other])
    · have ha : isSnapshotValid (load m' .a) = true := hw.symm ▸ hvalid
      have hnewest : store.newest m' = some .a := by
        refine newest_of_outranks ha fun hother => ?_
        have hother : isSnapshotValid (load m' .b) = true := hother
        rw [hb, hinvalid] at hother
        cases hother
      have hne : load m .b ≠ s := fun heq => by
        rw [← heq, hinvalid] at hs
        cases hs
      rw [or_iff_left fun hcopy => hne hcopy.1]
      constructor
      · rintro ⟨z', hz', hsame⟩
        cases hnewest.symm.trans hz'
        exact hw.symm.trans hsame
      · exact fun heq => ⟨.a, hnewest, hw.trans heq⟩
  · rw [if_neg hvalid, or_iff_right fun heq : w = s => hvalid (heq.symm ▸ hs)]
    rw [Bool.not_eq_true] at hvalid
    have ha : isSnapshotValid (load m' .a) = false := hw.symm ▸ hvalid
    by_cases hother : isSnapshotValid (load m .b) = true
    · have hvalid' : isSnapshotValid (load m' .b) = true := hb.symm ▸ hother
      have hnewest : store.newest m' = some .b := by
        refine newest_of_outranks hvalid' fun hfirst => ?_
        have hfirst : isSnapshotValid (load m' .a) = true := hfirst
        rw [ha] at hfirst
        cases hfirst
      rw [Behind, if_pos hother, loads_of_newest hnewest, hb]
    · have hnone : ∀ x, isSnapshotValid (load m' x) = false := fun x => by
        cases x with
        | a => exact ha
        | b => rw [hb]; exact Bool.eq_false_iff.2 hother
      obtain ⟨legacy, hsome⟩ := Option.ne_none_iff_exists'.1 (hlegacy hvalid)
      rw [Behind, if_neg hother, loads_of_legacy hnone ((newestLegacy_congr hkept).trans hsome) hs,
        hsome]
      simp only [Option.some.injEq, exists_eq_left']

end Reboot

/-- With nothing to expand, the default is written, which is valid. -/
theorem newestLegacy_ne_none {m : Cells} {p : Pattern}
    (h : isSnapshotValid (stamp (fallback m p)) = false) : newestLegacy m ≠ none := by
  intro hnone
  have hnewest : newest isLegacySnapshotValid (fun s => s.generation.toNat) (legacyLoad m) = none :=
    Option.map_eq_none_iff.1 hnone
  have hinvalid (x : Bank) : isLegacySnapshotValid (legacyLoad m x) = false := by
    by_contra hv
    have hsome : ∃ z, newest isLegacySnapshotValid (fun s => s.generation.toNat) (legacyLoad m) =
        some z := exists_newest (Bool.eq_true_of_not_eq_false hv)
    rw [hnewest] at hsome
    exact Option.some_ne_none _ hsome.choose_spec.symm
  have hdefault : fallback m p = default := by
    unfold fallback
    simp only [hinvalid, Bool.and_false, Bool.false_and, Bool.false_eq_true, if_false]
  rw [hdefault, isSnapshotValid_default] at h
  cases h

/-- **A reboot loads the newest image** if the boot before it read a valid one, or wrote that image
to the first bank, or what it wrote there leaves that image the newest of those found behind it. -/
theorem loads_newest_iff {m : Cells} {s : Snapshot} (h : Newest m s) (p : Pattern) :
    Loads init Ram.snapshot (bootCells init m p) s ↔ ReadsSnapshot m p ∨
      stamp (fallback m p) = s ∨
      if isSnapshotValid (stamp (fallback m p)) = true then
        load m .b = s ∧ (stamp (fallback m p)).generation.toNat < s.generation.toNat
      else Behind m s := by
  by_cases hread : ReadsSnapshot m p
  · rw [bootCells_of_reads m p hread]
    refine iff_of_true ?_ (.inl hread)
    rcases h with ⟨x, hx, rfl⟩ | ⟨hinvalid, -⟩
    · exact (loads_of_newest hx).2 rfl
    · rcases hread with ⟨-, hv⟩ | ⟨-, hv⟩ <;> rw [hinvalid] at hv <;> cases hv
  · obtain ⟨q, hdefault⟩ := readDefault_pattern m p []
    have hcells : bootCells init m p = programmed (address .a)
        (layout.encode (stamp (fallback m p))) (blank (address .a) bankSize m) := by
      rw [bootCells_of_unread m p hread, initLegacy, bind_of_some hdefault,
        ← commit_pattern m q (fallback m p) []]
      rcases hcommit : commitCandidate ⟨fallback m p, .b⟩ ⟨m, q.fates, []⟩ with ⟨_ | r, c⟩
      · rw [bind_of_none hcommit]
      · rw [bind_of_some hcommit]
        rfl
    have hkept : ∀ i ∉ region .a, programmed (address .a) (layout.encode (stamp (fallback m p)))
        (blank (address .a) bankSize m) i = m i := fun i hi => by
      rw [programmed_outside fun hmem => hi (Set.Ico_subset_Ico_right ?_ hmem)]
      · exact overwrite_outside hi
      · rw [layout.length_encode]
        exact Nat.add_le_add_left size_le _
    rw [hcells, or_iff_right hread]
    refine loads_behind ?_ hkept h newestLegacy_ne_none
    rw [load, slice_programmed_bank, layout.decode_encode]

end HealthCheck.TlsTrustStore
