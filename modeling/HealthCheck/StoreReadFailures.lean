import HealthCheck.CallbackConfig
import HealthCheck.HealthCheckMigration
import HealthCheck.Lib.ReadFailures
import HealthCheck.TlsServerCredentials
import HealthCheck.UserStore

/-!
# One-sector stores that are not read at start-up

Each `_Init` takes a sector whose read failed for one without a snapshot. The user store and the
server credentials then run without their snapshot and leave the flash alone. The two configurations
save a default, or migrate what looks like an old version, and that may go over the newest snapshot.

* `newestSnapshot_pattern`, `save_pattern` — the two parts of a start-up, by the outcomes of its
  reads.
* `loads_newest_iff` of each store that saves — when a reboot with working reads still loads the
  newest snapshot.
-/

namespace HealthCheck

open Nor hiding read driven_read read_ok read_cases observes_read uncut_read read_pattern
open TwoBank W25q64

theorem W25q64.read_pattern {address length : ℕ} (h : inRange address length = true) (m : Cells)
    (p : Pattern) (log : List Command) : read address length ⟨m, p.fates, log⟩ =
      (some (p.answer 0 (m.slice address length)), ⟨m, (p.after 1).fates, log⟩) := by
  rw [read, if_pos h]
  exact Nor.read_pattern m p log address length

namespace SectorStore

variable {σ : Type} {S : SectorStore σ}

/-- The newest snapshot on flash is `s`. -/
def Finds (S : SectorStore σ) (m : Cells) (s : σ) : Prop :=
  ∃ x, newest S.isValid (fun s => (S.generation s).toNat) (S.load m) = some x ∧ S.load m x = s

/-- The first two reads of a start-up get a valid snapshot. -/
def ReadsSnapshot (S : SectorStore σ) (m : Cells) (p : Pattern) : Prop :=
  p.fails 0 = false ∧ S.isValid (S.load m .a) = true ∨
    p.fails 1 = false ∧ S.isValid (S.load m .b) = true

theorem Finds.valid {m : Cells} {s : σ} (h : S.Finds m s) : S.isValid s = true := by
  obtain ⟨x, hx, rfl⟩ := h
  exact valid_of_newest hx

theorem choose_eq_none_iff {first second : Bool} {x y : σ} :
    S.choose first second x y = none ↔ first = false ∧ second = false := by
  unfold choose
  cases first <;> cases second <;> simp
  split <;> nofun

theorem readsSnapshot_iff {m : Cells} {p : Pattern} : S.ReadsSnapshot m p ↔
    S.choose (!p.fails 0 && S.isValid (S.load m .a)) (!p.fails 1 && S.isValid (S.load m .b))
      (S.load m .a) (S.load m .b) ≠ none := by
  rw [Ne, choose_eq_none_iff, ReadsSnapshot]
  cases p.fails 0 <;> cases p.fails 1 <;> simp [or_iff_not_imp_left]

variable (hS : S.Sound)
include hS

/-- **What a start-up finds**, whichever of its reads fail. -/
theorem newestSnapshot_pattern (m : Cells) (p : Pattern) (log : List Command) :
    S.newestSnapshot ⟨m, p.fates, log⟩ =
      (some (S.choose (!p.fails 0 && S.isValid (S.load m .a))
        (!p.fails 1 && S.isValid (S.load m .b)) (S.load m .a) (S.load m .b)),
        ⟨m, (p.after 2).fates, log⟩) := by
  have ha : inRange S.sectorA S.layout.size = true := inRange_address hS .a
  have hb : inRange S.sectorB S.layout.size = true := inRange_address hS .b
  rw [newestSnapshot, bind_of_some (read_pattern ha m p log)]
  dsimp only
  rw [bind_of_some (read_pattern hb m (p.after 1) log)]
  simp only [Pattern.after_after, Pattern.answer_ok_iff, Pattern.fails_after, Nat.add_zero]
  have hanswer {k : ℕ} {q : Pattern} {x : Bank} (hk : q.fails k = false) :
      S.layout.decode (q.answer k (m.slice (S.address x) S.layout.size)).2 = S.load m x := by
    rw [Pattern.answer_of_succeeds hk, load]
  have hfirst := @hanswer 0 p .a
  have hsecond := @hanswer 0 (p.after 1) .b
  rw [Pattern.fails_after] at hsecond
  cases h0 : p.fails 0 <;> cases h1 : p.fails 1 <;> simp_all [choose, address]

/-- A save writes, and is verified or not. -/
theorem save_pattern (candidate : σ) (ram : SectorRam σ) (m : Cells) (p : Pattern)
    (log : List Command) : (S.save candidate ram ⟨m, p.fates, log⟩).2.cells =
      S.stored (S.target ram) (S.stamp candidate) m := by
  have hrange := inRange_address hS (S.activeBank ram).other
  have herase := eraseSector_calm m log (p.map Pattern.fate)
    (hS.aligned (S.activeBank ram).other) (hS.below _)
  rw [← target_eq_address] at hrange herase
  have hlen := S.layout.length_encode (S.stamp candidate)
  obtain ⟨log', hprogram⟩ := program_calm (blank (S.target ram) sectorSize m)
    (.erase (S.target ram) sectorSize m :: log) (p.map Pattern.fate) (hlen ▸ hrange)
  have hread := read_pattern hrange (S.stored (S.target ram) (S.stamp candidate) m) p log'
  have hfates : p.fates = { reads := p.map Pattern.fate } := rfl
  rw [save, hfates, bind_of_some herase, if_neg (by simp), programVerified,
    bind_of_some hprogram, if_neg (by simp)]
  rw [stored, hfates] at hread
  rw [bind_of_some hread]
  dsimp only
  split <;> rfl

/-- When a snapshot is read nothing is written. -/
theorem bootCells_of_reads {Ram : Type} {k : Option (SectorRam σ) → FlashM (Status × Ram)}
    (hk : ∀ ram, ∃ r, k (some ram) = pure r) {m : Cells} {p : Pattern} (h : S.ReadsSnapshot m p) :
    bootCells (S.newestSnapshot >>= k) m p = m := by
  obtain ⟨ram, hram⟩ := Option.ne_none_iff_exists'.1 (readsSnapshot_iff.1 h)
  obtain ⟨r, hr⟩ := hk ram
  rw [bootCells, bind_of_some (newestSnapshot_pattern hS m p []), hram, hr]
  rfl

theorem bootCells_of_unread {Ram : Type} {k : Option (SectorRam σ) → FlashM (Status × Ram)}
    {m : Cells} {p : Pattern} (h : ¬S.ReadsSnapshot m p) :
    bootCells (S.newestSnapshot >>= k) m p = (k none ⟨m, (p.after 2).fates, []⟩).2.cells := by
  rw [readsSnapshot_iff, not_not] at h
  rw [bootCells, bind_of_some (newestSnapshot_pattern hS m p []), h]

/-- A reboot loads the newest snapshot, if there is one. -/
theorem loads_iff {Ram : Type} {k : Option (SectorRam σ) → FlashM (Status × Ram)}
    {snapshot : Ram → σ}
    (hk : ∀ ram, ∃ r, k (some ram) = pure (.ok, r) ∧ snapshot r = ram.snapshot)
    {m : Cells} {s t : σ} (h : S.Finds m t) :
    Loads (S.newestSnapshot >>= k) snapshot m s ↔ S.Finds m s := by
  obtain ⟨x, hx, rfl⟩ := h
  have hram : S.newestRam m = some ⟨S.load m x, S.address x⟩ := congrArg (Option.map _) hx
  obtain ⟨r, hr, hsnapshot⟩ := hk ⟨S.load m x, S.address x⟩
  have hinit : (S.newestSnapshot >>= k) ⟨m, {}, []⟩ = (some (.ok, r), ⟨m, {}, []⟩) := by
    rw [bind_of_some (newestSnapshot_calm hS m []), hram, hr]
    rfl
  have hfinds : S.Finds m s ↔ S.load m x = s := by
    refine ⟨?_, fun hs => ⟨x, hx, hs⟩⟩
    rintro ⟨y, hy, hs⟩
    obtain rfl := Option.some.inj (hx.symm.trans hy)
    exact hs
  rw [hfinds, Loads, hinit]
  simp only [Prod.mk.injEq, Option.some.injEq, true_and]
  constructor
  · rintro ⟨ram, c, ⟨rfl, -⟩, hs⟩
    exact hsnapshot.symm.trans hs
  · exact fun hs => ⟨r, _, ⟨rfl, rfl⟩, hsnapshot.trans hs⟩

/-- The newest snapshot behind a save over one of the sectors. -/
theorem finds_stored_iff {m : Cells} {s w : σ} (h : S.Finds m s) (hw : S.isValid w = true)
    (y : Bank) : S.Finds (S.stored (S.address y) w m) s ↔ w = s ∨ (S.load m y.other = s ∧
      Outranks (S.generation s).toNat (S.generation w).toNat y.other) := by
  obtain ⟨x, hx, rfl⟩ := h
  have hload := load_stored hS y w m
  have hiff := finds_iff hx (load_stored_other hS y w m)
  simp only [hload, hw, true_and, true_imp_iff] at hiff
  exact hiff

theorem exists_finds_stored {w : σ} (hw : S.isValid w = true) (y : Bank) (m : Cells) :
    ∃ t, S.Finds (S.stored (S.address y) w m) t := by
  have hload := load_stored hS y w m
  have hnewest : ∃ z, newest S.isValid (fun s => (S.generation s).toNat)
      (S.load (S.stored (S.address y) w m)) = some z := exists_newest (hload.symm ▸ hw)
  obtain ⟨z, hz⟩ := hnewest
  exact ⟨_, z, hz, rfl⟩

omit hS in
theorem cells_save_pure {α : Type} (candidate : σ) (ram : SectorRam σ)
    (finish : Status × σ × SectorRam σ → α) (c : Chip) :
    ((S.save candidate ram >>= fun r => pure (finish r)) c).2.cells =
      (S.save candidate ram c).2.cells := by
  rcases h : S.save candidate ram c with ⟨_ | r, c'⟩
  · rw [bind_of_none h]
  · rw [bind_of_some h]
    rfl

section StartUp

variable {Ram : Type} {k : Option (SectorRam σ) → FlashM (Status × Ram)} {snapshot : Ram → σ}
  (hk : ∀ ram, ∃ r, k (some ram) = pure (.ok, r) ∧ snapshot r = ram.snapshot)
  {m : Cells} {s : σ} (h : S.Finds m s) (p : Pattern)
include hk h

/-- A start-up that never writes loses nothing. -/
theorem loads_of_idle (hnone : ∃ r, k none = pure r) :
    Loads (S.newestSnapshot >>= k) snapshot (bootCells (S.newestSnapshot >>= k) m p) s := by
  have hsame : bootCells (S.newestSnapshot >>= k) m p = m := by
    by_cases hread : S.ReadsSnapshot m p
    · exact bootCells_of_reads hS (fun ram => (hk ram).imp' _ fun _ hr => hr.1) hread
    · obtain ⟨r, hr⟩ := hnone
      rw [bootCells_of_unread hS hread, hr]
      rfl
  rw [hsame, loads_iff hS hk h]
  exact h

/-- A start-up that saves `w` to a sector if it reads no snapshot. -/
theorem loads_iff_of_save {w : σ} (hw : S.isValid w = true) (y : Bank)
    (hnone : ¬S.ReadsSnapshot m p →
      (k none ⟨m, (p.after 2).fates, []⟩).2.cells = S.stored (S.address y) w m) :
    Loads (S.newestSnapshot >>= k) snapshot (bootCells (S.newestSnapshot >>= k) m p) s ↔
      S.ReadsSnapshot m p ∨ w = s ∨ (S.load m y.other = s ∧
        Outranks (S.generation s).toNat (S.generation w).toNat y.other) := by
  by_cases hread : S.ReadsSnapshot m p
  · rw [bootCells_of_reads hS (fun ram => (hk ram).imp' _ fun _ hr => hr.1) hread,
      loads_iff hS hk h]
    exact iff_of_true h (.inl hread)
  · obtain ⟨t, ht⟩ := exists_finds_stored hS hw y m
    rw [bootCells_of_unread hS hread, hnone hread, loads_iff hS hk ht, finds_stored_iff hS h hw,
      or_iff_right hread]

end StartUp

/-- Where the other sector has no valid snapshot, the one that was saved is found. -/
theorem finds_stored_only {w : σ} (hw : S.isValid w = true) {y : Bank}
    (hother : S.isValid (S.load m y.other) = false) :
    S.Finds (S.stored (S.address y) w m) s ↔ w = s := by
  have hload := load_stored hS y w m
  have hkept := load_stored_other hS y w m
  have hnewest : newest S.isValid (fun s => (S.generation s).toNat)
      (S.load (S.stored (S.address y) w m)) = some y :=
    newest_of_outranks (hload.symm ▸ hw) fun hv => by rw [hkept, hother] at hv; cases hv
  constructor
  · rintro ⟨z, hz, hs⟩
    obtain rfl := Option.some.inj (hnewest.symm.trans hz)
    exact hload.symm.trans hs
  · exact fun hs => ⟨y, hnewest, hload.trans hs⟩

end SectorStore

/-! ## The user store and the server credentials -/

theorem UserStore.loads_newest {m : Cells} {s : UserStore.Snapshot}
    (h : UserStore.sectorStore.Finds m s) (p : Pattern) :
    Loads UserStore.init SectorRam.snapshot (bootCells UserStore.init m p) s :=
  SectorStore.loads_of_idle UserStore.sound (k := UserStore.resume)
    (fun ram => ⟨ram, UserStore.resume_some ram, rfl⟩) h p ⟨_, UserStore.resume_none⟩

theorem TlsServerCredentials.loads_newest {m : Cells} {s : TlsServerCredentials.Snapshot}
    (h : TlsServerCredentials.sectorStore.Finds m s) (p : Pattern) :
    Loads TlsServerCredentials.init (·.store.snapshot)
      (bootCells TlsServerCredentials.init m p) s :=
  SectorStore.loads_of_idle TlsServerCredentials.sound (k := TlsServerCredentials.resume)
    (fun _ => ⟨_, rfl, rfl⟩) h p ⟨_, rfl⟩

/-! ## The callback configuration -/

namespace CallbackConfig

theorem resume_none (c : Chip) : (resume none c).2.cells =
    (sectorStore.save default ⟨default, FlashLayout.callbackConfigSectorB⟩ c).2.cells :=
  SectorStore.cells_save_pure _ _ _ c

theorem loads_newest_iff {m : Cells} {s : Snapshot} (h : sectorStore.Finds m s) (p : Pattern) :
    Loads init SectorRam.snapshot (bootCells init m p) s ↔ sectorStore.ReadsSnapshot m p ∨
      stamp default = s ∨ (sectorStore.load m .b = s ∧ 1 < s.generation.toNat) := by
  have hnone : (resume none ⟨m, (p.after 2).fates, []⟩).2.cells =
      sectorStore.stored (sectorStore.address .a) (sectorStore.stamp default) m := by
    have htarget : sectorStore.target ⟨default, FlashLayout.callbackConfigSectorB⟩ =
        sectorStore.address .a := if_neg sound.ne.symm
    rw [resume_none, SectorStore.save_pattern sound, htarget]
  have hgeneration : (sectorStore.generation (sectorStore.stamp default)).toNat = 1 := by
    rw [sound.generation_stamp]
    decide
  have hk (ram : Ram) : ∃ r, resume (some ram) = pure (.ok, r) ∧ r.snapshot = ram.snapshot :=
    ⟨ram, resume_some ram, rfl⟩
  have hiff := SectorStore.loads_iff_of_save sound hk h p valid_default .a fun _ => by rw [hnone]
  rw [hgeneration] at hiff
  exact hiff

end CallbackConfig

/-! ## The health-check configuration -/

namespace HealthCheckConfig

/-- The newest snapshot on flash: of version 2, or what one of version 1 is migrated to. -/
def Newest (m : Cells) (s : Snapshot) : Prop :=
  sectorStore.Finds m s ∨ (∀ x, sectorStore.isValid (sectorStore.load m x) = false) ∧
    ∃ x, newestLegacy m = some x ∧ stamp (migrateLegacy (legacyLoad m x)) = s

/-- The version-1 snapshot that a start-up finds with its third and fourth read. -/
def legacyRead (m : Cells) (p : Pattern) : Option (LegacySnapshot × ℕ) :=
  chooseLegacy (!p.fails 2 && isLegacyValid (legacyLoad m .a))
    (!p.fails 3 && isLegacyValid (legacyLoad m .b)) (legacyLoad m .a) (legacyLoad m .b)

/-- Whichever version-1 snapshot is chosen was read from a sector without a version-2 one. -/
theorem legacyRead_eq_some {m : Cells} {p : Pattern} {legacy : LegacySnapshot} {address : ℕ}
    (h : legacyRead m p = some (legacy, address)) : ∃ x, legacy = legacyLoad m x ∧
      address = sectorStore.address x ∧ isLegacyValid (legacyLoad m x) = true := by
  unfold legacyRead chooseLegacy at h
  split_ifs at h with hfirst hsecond
  · cases h
    simp only [Bool.and_eq_true] at hfirst
    exact ⟨.a, rfl, rfl, hfirst.1.2⟩
  · cases h
    simp only [Bool.and_eq_true] at hsecond
    exact ⟨.b, rfl, rfl, hsecond.2⟩

/-- No sector holds a snapshot of both versions. -/
theorem isValid_of_isLegacyValid {m : Cells} {x : Bank}
    (h : isLegacyValid (legacyLoad m x) = true) :
    sectorStore.isValid (sectorStore.load m x) = false := by
  by_contra hv
  have hvalid : isValid (sectorStore.load m x) = true := Bool.eq_true_of_not_eq_false hv
  simp only [isLegacyValid, isValid, Bool.and_eq_true, decide_eq_true_eq] at h hvalid
  have hversion := h.1.1.2
  rw [legacyVersion_eq, hvalid.1.1.2] at hversion
  exact absurd hversion (by decide)

theorem target_address (s : Snapshot) (x : Bank) :
    sectorStore.target ⟨s, sectorStore.address x⟩ = sectorStore.address x.other := by
  rw [SectorStore.target_eq_address, SectorStore.activeBank_address sound]

theorem saveInPlace_pattern (s : Snapshot) (x : Bank) (m : Cells) (p : Pattern)
    (log : List Command) : (saveInPlace ⟨s, sectorStore.address x⟩ ⟨m, p.fates, log⟩).2.cells =
      sectorStore.stored (sectorStore.address x.other) (sectorStore.stamp s) m := by
  rw [← target_address s x, ← SectorStore.save_pattern sound s _ m p log]
  exact SectorStore.cells_save_pure _ _ _ _

/-- What is saved when there is no version-2 snapshot. -/
def toSave : Option (LegacySnapshot × ℕ) → Ram
  | some (legacy, address) => ⟨migrateLegacy legacy, address⟩
  | none => ⟨default, sectorStore.address .b⟩

/-- The choice that a start-up makes between two answers. -/
theorem legacyRead_of_answers {m : Cells} {p : Pattern} {first second : Status × List UInt8}
    (hfirst : first.1 = .ok ↔ p.fails 2 = false) (hsecond : second.1 = .ok ↔ p.fails 3 = false)
    (ha : p.fails 2 = false → legacyLayout.decode first.2 = legacyLoad m .a)
    (hb : p.fails 3 = false → legacyLayout.decode second.2 = legacyLoad m .b) :
    chooseLegacy (first.1 = .ok && isLegacyValid (legacyLayout.decode first.2))
      (second.1 = .ok && isLegacyValid (legacyLayout.decode second.2))
      (legacyLayout.decode first.2) (legacyLayout.decode second.2) = legacyRead m p := by
  simp only [hfirst, hsecond, legacyRead, chooseLegacy]
  cases h2 : p.fails 2 <;> cases h3 : p.fails 3 <;> simp [h2, h3, ha, hb]

/-- A start-up without a version-2 snapshot. -/
theorem initLegacy_pattern (m : Cells) (p : Pattern) (log : List Command) :
    initLegacy ⟨m, (p.after 2).fates, log⟩ =
      saveInPlace (toSave (legacyRead m p)) ⟨m, (p.after 4).fates, log⟩ := by
  have hrange : ∀ y, W25q64.inRange (sectorStore.address y) legacyLayout.size = true := fun y =>
    W25q64.inRange_of_sector (by decide) (by decide) (sound.aligned y) (sound.below y)
  have hok (k : ℕ) (bytes : List UInt8) :
      ((p.after k).answer 0 bytes).1 = .ok ↔ p.fails k = false := by
    rw [Pattern.answer_ok_iff, Pattern.fails_after, Nat.add_zero]
  have hanswer (k : ℕ) (x : Bank) (hk : p.fails k = false) : legacyLayout.decode
      ((p.after k).answer 0 (m.slice (sectorStore.address x) legacyLayout.size)).2 =
        legacyLoad m x := by
    rw [Pattern.answer_of_succeeds (by rwa [Pattern.fails_after]), legacyLoad]
  have hchoice := legacyRead_of_answers (hok 2 _) (hok 3 _) (hanswer 2 .a) (hanswer 3 .b)
  have hfirst := read_pattern (hrange .a) m (p.after 2) log
  have hsecond := read_pattern (hrange .b) m (p.after 3) log
  rw [Pattern.after_after] at hfirst hsecond
  have ha : FlashLayout.healthCheckConfigSectorA = sectorStore.address .a := rfl
  have hb : FlashLayout.healthCheckConfigSectorB = sectorStore.address .b := rfl
  rw [initLegacy, ha, hb, bind_of_some hfirst]
  dsimp only
  rw [bind_of_some hsecond, hchoice]
  rcases legacyRead m p with _ | ⟨legacy, address⟩ <;> rfl

theorem Newest.valid {m : Cells} {s : Snapshot} (h : Newest m s) :
    sectorStore.isValid s = true := by
  rcases h with h | ⟨-, x, hx, rfl⟩
  · exact h.valid
  · exact isValid_migrateLegacy (valid_of_newest hx)

/-- What is found behind a save over one of the sectors. -/
theorem Newest.finds_stored_iff {m : Cells} {s w : Snapshot} (h : Newest m s)
    (hw : sectorStore.isValid w = true) (y : Bank) :
    sectorStore.Finds (sectorStore.stored (sectorStore.address y) w m) s ↔
      w = s ∨ (sectorStore.load m y.other = s ∧
        Outranks (sectorStore.generation s).toNat (sectorStore.generation w).toNat y.other) := by
  have hvalid := h.valid
  rcases h with h | ⟨hnone, -⟩
  · exact SectorStore.finds_stored_iff sound h hw y
  · have hother : sectorStore.load m y.other ≠ s := fun hs => by
      rw [← hs, hnone] at hvalid
      cases hvalid
    rw [SectorStore.finds_stored_only sound hw (hnone y.other),
      or_iff_left fun hcopy => hother hcopy.1]

/-- **A reboot loads the newest snapshot** if the boot before it read a valid one, or wrote that
snapshot, or wrote the default to the first sector, which the second outranks. -/
theorem loads_newest_iff {m : Cells} {s : Snapshot} (h : Newest m s) (p : Pattern) :
    Loads init SectorRam.snapshot (bootCells init m p) s ↔ sectorStore.ReadsSnapshot m p ∨
      match legacyRead m p with
      | some (legacy, _) => stamp (migrateLegacy legacy) = s
      | none => stamp default = s ∨ (sectorStore.load m .b = s ∧ 1 < s.generation.toNat) := by
  have hk : ∀ ram : Ram, ∃ r, resume (some ram) = pure (.ok, r) ∧ r.snapshot = ram.snapshot :=
    fun ram => ⟨ram, resume_some ram, rfl⟩
  have hloads {w : Snapshot} (hw : sectorStore.isValid w = true) (y : Bank) :
      Loads (sectorStore.newestSnapshot >>= resume) SectorRam.snapshot
        (sectorStore.stored (sectorStore.address y) w m) s ↔
      w = s ∨ (sectorStore.load m y.other = s ∧
        Outranks (sectorStore.generation s).toNat (sectorStore.generation w).toNat y.other) := by
    obtain ⟨t, ht⟩ := SectorStore.exists_finds_stored sound hw y m
    rw [SectorStore.loads_iff sound hk ht, h.finds_stored_iff hw]
  rw [init_eq]
  by_cases hread : sectorStore.ReadsSnapshot m p
  · have hfinds : sectorStore.Finds m s := h.resolve_right fun hlegacy => by
      rcases hread with ⟨-, hv⟩ | ⟨-, hv⟩ <;> rw [hlegacy.1] at hv <;> cases hv
    rw [SectorStore.bootCells_of_reads sound (fun ram => (hk ram).imp' _ fun _ hr => hr.1) hread,
      SectorStore.loads_iff sound hk hfinds]
    exact iff_of_true hfinds (.inl hread)
  · have hcells : bootCells (sectorStore.newestSnapshot >>= resume) m p =
        (saveInPlace (toSave (legacyRead m p)) ⟨m, (p.after 4).fates, []⟩).2.cells := by
      rw [SectorStore.bootCells_of_unread sound hread]
      exact congrArg (fun r => r.2.cells) (initLegacy_pattern m p [])
    rw [hcells, or_iff_right hread]
    cases hlegacy : legacyRead m p with
    | none =>
      have hgeneration : (sectorStore.generation (sectorStore.stamp default)).toNat = 1 := by
        rw [sound.generation_stamp]
        decide
      have hiff := hloads isValid_default .a
      rw [hgeneration] at hiff
      rw [toSave, saveInPlace_pattern]
      exact hiff
    | some found =>
      obtain ⟨legacy, address⟩ := found
      obtain ⟨x, rfl, rfl, hvalid⟩ := legacyRead_eq_some hlegacy
      have hother : sectorStore.load m x ≠ s := fun hs => by
        have hinvalid := isValid_of_isLegacyValid hvalid
        rw [hs, h.valid] at hinvalid
        cases hinvalid
      have hiff := hloads (isValid_migrateLegacy hvalid) x.other
      rw [Bank.other_other, or_iff_left fun hcopy => hother hcopy.1] at hiff
      rw [toSave, saveInPlace_pattern]
      exact hiff

end HealthCheckConfig

end HealthCheck
