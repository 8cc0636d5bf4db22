import HealthCheck.HealthCheckConfig
import HealthCheck.Lib.Run

/-!
# The migration of version-1 health-check configurations

Both versions of the configuration lie in the same two sectors. `HealthCheckConfig_Init` expands
the newest version-1 snapshot and saves it to the sector that snapshot is not in.

* `migration_transactional`: however often power cuts the migration, every start-up finds the
  version-1 snapshot or the complete new one, the first that returns has the same configuration,
  and from then on no start-up migrates again.
-/

namespace HealthCheck.HealthCheckConfig

open Nor hiding read driven_read read_ok read_cases
open CString Memory Run TwoBank

/-! ## What is migrated -/

/-- The sector of the newest valid version-1 snapshot. -/
def newestLegacy (m : Cells) : Option Bank :=
  newest isLegacyValid (fun s => s.generation.toNat) (legacyLoad m)

/-- A resource slot that is kept, with the default anchor. -/
structure SameSlot (legacy : LegacyResource) (r : Resource) : Prop where
  occupied : r.occupied = legacy.occupied
  enabled : r.enabled = legacy.enabled
  port : r.port = legacy.port
  host : r.host = legacy.host
  path : r.path = legacy.path
  trustAnchorId : r.trustAnchorId = 0

/-- The configuration of a version-1 snapshot. -/
structure Migrated (legacy : LegacySnapshot) (s : Snapshot) : Prop where
  period : s.periodSeconds = legacy.periodSeconds
  slots : ∀ i (h : i < maxResources), SameSlot legacy.resources[i] s.resources[i]

theorem migrated_stamp (legacy : LegacySnapshot) :
    Migrated legacy (stamp (migrateLegacy legacy)) := by
  refine ⟨rfl, fun i h => ?_⟩
  have hslot : (stamp (migrateLegacy legacy)).resources[i] =
      { occupied := legacy.resources[i].occupied
        enabled := legacy.resources[i].enabled
        trustAnchorId := 0
        reserved := 0
        port := legacy.resources[i].port
        host := legacy.resources[i].host
        path := legacy.resources[i].path } := Vector.getElem_map _ h
  rw [hslot]
  exact ⟨rfl, rfl, rfl, rfl, rfl, rfl⟩

theorem periodValid_of_legacy {s : LegacySnapshot} (h : isLegacyValid s = true) :
    periodValid s.periodSeconds = true := by
  simp only [isLegacyValid, Bool.and_eq_true] at h
  exact h.1.2

/-- The expanded snapshot is valid. -/
theorem isValid_migrateLegacy {legacy : LegacySnapshot} (h : isLegacyValid legacy = true) :
    sectorStore.isValid (sectorStore.stamp (migrateLegacy legacy)) = true :=
  (isValid_stamp (migrateLegacy legacy)).trans (periodValid_of_legacy h)

theorem chooseLegacy_eq (m : Cells) :
    chooseLegacy (isLegacyValid (legacyLoad m .a)) (isLegacyValid (legacyLoad m .b))
      (legacyLoad m .a) (legacyLoad m .b) =
      (newestLegacy m).map fun x => (legacyLoad m x, sectorStore.address x) := by
  simp only [chooseLegacy, newestLegacy, newest, ge_iff_le, UInt32.le_iff_toNat_le]
  split_ifs <;> rfl

/-- The newest snapshot stays the newest while it is kept and the other one is lost or kept. -/
theorem newest_of_kept {Image : Type} {valid : Image → Bool} {generation : Image → ℕ}
    {load load' : Bank → Image} {x : Bank} (h : newest valid generation load = some x)
    (hkept : load' x = load x)
    (hother : valid (load' x.other) = true → load' x.other = load x.other) :
    newest valid generation load' = some x := by
  have hx := valid_of_newest h
  cases hv : valid (load' x.other) with
  | true =>
    have hsame : load' = load := funext fun y => by
      rcases x.eq_or_other y with rfl | hy
      · exact hkept
      · rw [← Bank.other_other y, ← hy]
        exact hother hv
    rw [hsame, h]
  | false =>
    exact newest_of_outranks (by rw [hkept, hx]) fun hv' => absurd hv' (by rw [hv]; decide)

/-! ## Cut by power losses -/

/-- Without a version-2 snapshot start-up is cut off reading, or comes to save the expanded
version-1 snapshot. -/
theorem init_migrates {c c' : Chip} {r : Option (Status × Ram)} {x : Bank}
    (hinvalid : ∀ y, sectorStore.isValid (sectorStore.load c.cells y) = false)
    (hlegacy : newestLegacy c.cells = some x) (hreads : c.fates.ReadsSucceed)
    (h : init c = (r, c')) : (r = none ∧ c'.cells = c.cells) ∨
      ∃ c₁, c₁.cells = c.cells ∧ c.fates.After c₁.fates ∧
        saveInPlace ⟨migrateLegacy (legacyLoad c.cells x), sectorStore.address x⟩ c₁ = (r, c') := by
  have hrange : ∀ y, W25q64.inRange (sectorStore.address y) legacyLayout.size = true := fun y =>
    W25q64.inRange_of_sector (by decide) (by decide) (sound.aligned y) (sound.below y)
  rw [init_eq] at h
  rcases (SectorStore.observes_newestSnapshot sound c.cells).cases rfl hreads h with
    ⟨hr, hcells, -⟩ | ⟨c₁, hcells₁, -, hf₁, h₁⟩
  · exact .inl ⟨hr, hcells⟩
  rw [SectorStore.newestRam_of_fresh hinvalid] at h₁
  rcases (W25q64.observes_read (hrange .a) c.cells).cases hcells₁ (hreads.after hf₁) h₁ with
    ⟨hr, hcells, -⟩ | ⟨c₂, hcells₂, -, hf₂, h₂⟩
  · exact .inl ⟨hr, hcells⟩
  have hf₂ := hf₁.trans hf₂
  rcases (W25q64.observes_read (hrange .b) c.cells).cases hcells₂ (hreads.after hf₂) h₂ with
    ⟨hr, hcells, -⟩ | ⟨c₃, hcells₃, -, hf₃, h₃⟩
  · exact .inl ⟨hr, hcells⟩
  refine .inr ⟨c₃, hcells₃, hf₂.trans hf₃, ?_⟩
  have hchoice := chooseLegacy_eq c.cells
  rw [hlegacy] at hchoice
  simp only [decide_true, Bool.true_and] at h₃
  generalize hchosen : chooseLegacy _ _ _ _ = choice at h₃
  obtain rfl := hchosen.symm.trans hchoice
  exact h₃

theorem driven_init : Driven (sectorStore.region .a ∪ sectorStore.region .b) init :=
  lawful.init_driven

/-- The cells behind a start-up. -/
def boot (m : Cells) (fates : Fates) : Cells := (init ⟨m, fates, []⟩).2.cells

/-- Power is lost during `HealthCheckConfig_Init`. A torn image fails both validity checks. -/
structure Cut (m : Cells) (fates : Fates) : Prop where
  steady : fates.Steady
  lost : (init ⟨m, fates, []⟩).1 = none
  torn : Torn (S := store) m (boot m fates) (boot m {})
  legacyTorn : ∀ y, isLegacyValid (legacyLoad (boot m fates) y) = true →
    legacyLoad (boot m fates) y = legacyLoad m y

/-- The migration on its way from `m`: the sector of the newest version-1 snapshot is as it was,
and the other one holds the complete new snapshot or no new one. -/
structure Migrating (m : Cells) (x : Bank) (m' : Cells) : Prop where
  kept : ∀ i ∈ sectorStore.region x, m' i = m i
  complete : sectorStore.isValid (sectorStore.load m' x.other) = true →
    sectorStore.load m' x.other = stamp (migrateLegacy (legacyLoad m x))
  other : isLegacyValid (legacyLoad m' x.other) = true →
    legacyLoad m' x.other = legacyLoad m x.other

/-- The newest version-1 snapshot is still there and the one to migrate. -/
structure Intact (m : Cells) (x : Bank) (m' : Cells) : Prop where
  invalid : ∀ y, sectorStore.isValid (sectorStore.load m' y) = false
  newest : newestLegacy m' = some x
  same : legacyLoad m' x = legacyLoad m x

/-- The new snapshot is complete, and the one that start-up takes. -/
structure Complete (m : Cells) (x : Bank) (m' : Cells) : Prop where
  newest : store.newest m' = some x.other
  load : sectorStore.load m' x.other = stamp (migrateLegacy (legacyLoad m x))

section Migration

variable {m : Cells} {x : Bank}
  (hinvalid : ∀ y, sectorStore.isValid (sectorStore.load m y) = false)
  (hlegacy : newestLegacy m = some x)
include hinvalid hlegacy

/-- Every state on the way has one snapshot or the other. -/
theorem Migrating.cases {m' : Cells} (h : Migrating m x m') :
    Intact m x m' ∨ Complete m x m' := by
  have hkept : sectorStore.isValid (sectorStore.load m' x) = false := by
    rw [SectorStore.load_congr sound h.kept]
    exact hinvalid x
  cases hother : sectorStore.isValid (sectorStore.load m' x.other) with
  | true =>
    refine .inr ⟨newest_of_outranks hother fun hx => absurd hx ?_, h.complete hother⟩
    rw [Bank.other_other]
    exact Bool.eq_false_iff.mp hkept
  | false =>
    refine .inl ⟨fun y => ?_, ?_, legacyLoad_congr h.kept⟩
    · rcases x.eq_or_other y with rfl | hy
      · exact hkept
      · rw [← Bank.other_other y, ← hy]
        exact hother
    · exact newest_of_kept hlegacy (legacyLoad_congr h.kept) h.other

/-- A start-up on the way, however it ends. -/
theorem Migrating.init_cases {m' : Cells} (h : Migrating m x m') {fates : Fates}
    (hsteady : fates.Steady) {r : Option (Status × Ram)} {c : Chip}
    (hinit : init ⟨m', fates, []⟩ = (r, c)) :
    (∀ i ∈ sectorStore.region x, c.cells i = m i) ∧
      ∀ status ram, r = some (status, ram) → status = .ok ∧
        ram = ⟨stamp (migrateLegacy (legacyLoad m x)), sectorStore.address x.other⟩ ∧
        sectorStore.load c.cells x.other = stamp (migrateLegacy (legacyLoad m x)) := by
  rcases h.cases hinvalid hlegacy with hintact | hcomplete
  · have hvalid : sectorStore.isValid (sectorStore.stamp (migrateLegacy (legacyLoad m x))) = true :=
      isValid_migrateLegacy (valid_of_newest hlegacy)
    rcases init_migrates (c := ⟨m', fates, []⟩) hintact.invalid hintact.newest hsteady.reads
      hinit with ⟨rfl, hcells⟩ | ⟨c₁, hcells₁, hf₁, hsave⟩
    · exact ⟨fun i hi => (congrFun hcells i).trans (h.kept i hi), nofun⟩
    · have hsame : legacyLoad m' x = legacyLoad m x := hintact.same
      change saveInPlace ⟨migrateLegacy (legacyLoad m' x), _⟩ c₁ = _ at hsave
      rw [hsame] at hsave
      obtain ⟨hsteps, -, hdone, hok⟩ := SectorStore.seed_report sound (id : Ram → Ram) x
        hvalid (fun _ => rfl) (fun _ _ => rfl) hsave
      refine ⟨fun i hi => ?_, fun status ram hr => ?_⟩
      · have hout : i ∉ sectorStore.region x.other := fun hi' => by
          have hd := SectorStore.disjoint_region sound
          cases x with
          | a => exact Set.disjoint_left.mp hd hi hi'
          | b => exact Set.disjoint_left.mp hd hi' hi
        exact (hsteps.outside i hout).trans ((congrFun hcells₁ i).trans (h.kept i hi))
      · have hstatus := hok (hsteady.after hf₁) status ram hr
        obtain ⟨hload, hram⟩ := hdone ram (hstatus ▸ hr)
        exact ⟨hstatus, hram, hload⟩
  · have hload := hcomplete.load
    have hsome : sectorStore.newestRam m' =
        some ⟨sectorStore.load m' x.other, sectorStore.address x.other⟩ :=
      congrArg (Option.map _) hcomplete.newest
    rw [init_eq] at hinit
    obtain ⟨hcells, hram⟩ := SectorStore.found_eq (c := ⟨m', fates, []⟩) sound hsteady.reads hsome
      (resume_some _) hinit
    refine ⟨fun i hi => (congrFun hcells i).trans (h.kept i hi), fun status ram hr => ?_⟩
    obtain ⟨hok, rfl⟩ := hram status ram hr
    rw [hcells, hload]
    exact ⟨hok, rfl, rfl⟩

/-- A start-up that is cut off leaves the migration on its way. -/
theorem Migrating.cut {m' : Cells} (h : Migrating m x m') {fates : Fates}
    (hcut : Cut m' fates) : Migrating m x (boot m' fates) := by
  have hboot : ∀ fates, init ⟨m', fates, []⟩ =
      ((init ⟨m', fates, []⟩).1, (init ⟨m', fates, []⟩).2) := fun _ => rfl
  refine ⟨(h.init_cases hinvalid hlegacy hcut.steady (hboot fates)).1, fun hvalid => ?_,
    fun hvalid => ?_⟩
  · rcases hcut.torn x.other hvalid with hold | hdone
    · have hold : sectorStore.load (boot m' fates) x.other = sectorStore.load m' x.other := hold
      rw [hold] at hvalid ⊢
      exact h.complete hvalid
    · obtain ⟨⟨status, ram⟩, c, hreturns⟩ := driven_init.returns ⟨m', {}, []⟩ rfl
      have hload := ((h.init_cases hinvalid hlegacy Fates.steady_nil hreturns).2
        status ram rfl).2.2
      have hcells : boot m' {} = c.cells := by
        rw [boot, hreturns]
      exact hdone.trans (hcells ▸ hload)
  · have hsame := hcut.legacyTorn _ hvalid
    rw [hsame] at hvalid ⊢
    exact h.other hvalid

end Migration

/-! ## Later saves -/

/-- A mutation keeps the variables when it fails. -/
def KeepsOnFailure (ram : Ram) (x : FlashM (ConfigStatus × Ram)) : Prop :=
  ∀ c c' s ram', x c = (some (s, ram'), c') → s ≠ .ok → ram' = ram

theorem keepsOnFailure_pure (s : ConfigStatus) (ram : Ram) :
    KeepsOnFailure ram (pure (s, ram)) := by
  intro c c' s' ram' h _
  simp only [pure_apply, Prod.mk.injEq, Option.some.injEq] at h
  exact h.1.2.symm

theorem keepsOnFailure_commit (candidate : Snapshot) (ram : Ram) :
    KeepsOnFailure ram (commit candidate ram) := by
  intro c c' s ram' h hs
  obtain ⟨⟨status, x, ram₁⟩, c₁, hsave, hret⟩ := bind_eq_some.mp h
  simp only [pure_apply, Prod.mk.injEq, Option.some.injEq] at hret
  obtain ⟨⟨hstatus, rfl⟩, -⟩ := hret
  rcases SectorStore.save_eq_some sound hsave with ⟨rfl, -⟩ | ⟨-, hram⟩
  · exact absurd hstatus.symm hs
  · exact hram

theorem keepsOnFailure_apply (op : Op) (ram : Ram) : KeepsOnFailure ram (apply op ram) := by
  have hidle := fun s => keepsOnFailure_pure s ram
  cases op with
  | setPeriodSeconds periodSeconds =>
    simp only [apply, setPeriodSeconds]
    split
    · exact hidle _
    · exact keepsOnFailure_commit _ ram
  | addResource host port path enabled trustAnchorId =>
    simp only [apply, addResource]
    split
    · exact hidle _
    · split
      · exact hidle _
      · simp only [bind_assoc, pure_bind, Prod.mk.eta, bind_pure]
        exact keepsOnFailure_commit _ ram
  | updateResource index host port path enabled trustAnchorId =>
    simp only [apply, updateResource]
    split
    · split
      · exact hidle _
      · split
        · exact hidle _
        · exact keepsOnFailure_commit _ ram
    · exact hidle _
  | deleteResource index =>
    simp only [apply, deleteResource]
    split
    · split
      · exact hidle _
      · exact keepsOnFailure_commit _ ram
    · exact hidle _

/-- A valid version-2 snapshot is on flash: in the sector in use, when the store is running. -/
def Upgraded (s : Sys store) : Prop :=
  ∃ y, sectorStore.isValid (sectorStore.load s.cells y) = true ∧
    ∀ ram, s.ram = some ram → sectorStore.activeBank ram = y

/-- No read of a start-up fails; anything may happen to a mutation. -/
def BootsRead (_ : Sys store) : Event store → Prop
  | .boot fates => fates.ReadsSucceed
  | .call _ _ => True

/-- Start-up takes a version-2 snapshot and writes nothing. -/
def LoadsVersion2 (m : Cells) : Prop :=
  ∀ fates : Fates, fates.ReadsSucceed → ∀ r c, init ⟨m, fates, []⟩ = (r, c) →
    c.cells = m ∧ ∀ status ram, r = some (status, ram) →
      status = .ok ∧ ∃ y, sectorStore.isValid (sectorStore.load m y) = true ∧
        ram.snapshot = sectorStore.load m y ∧ sectorStore.activeBank ram = y

theorem loadsVersion2_of_valid {m : Cells} {y : Bank}
    (h : sectorStore.isValid (sectorStore.load m y) = true) : LoadsVersion2 m := by
  intro fates hreads r c hinit
  have hnewest : ∃ z, store.newest m = some z := exists_newest h
  obtain ⟨z, hz⟩ := hnewest
  obtain ⟨hcells, hram⟩ := lawful.loads (c := ⟨m, fates, []⟩) hz hreads hinit
  refine ⟨hcells, fun status ram hr => ?_⟩
  obtain ⟨hok, hsnapshot, hactive⟩ := hram status ram hr
  exact ⟨hok, z, valid_of_newest hz, hsnapshot, hactive⟩

/-- The store running on some flash. -/
def running (m : Cells) (ram : Ram) : Sys store := ⟨m, some ram, ram.snapshot, none, 0⟩

/-- However a mutation ends, the sector in use is as it was. It stays in use when the mutation
fails, and when it succeeds it does too or a valid snapshot is in the sector used then. -/
theorem exec_keeps (op : Op) (ram : Ram) (c : Chip) :
    sectorStore.load (exec op ram c).2.cells (sectorStore.activeBank ram) =
      sectorStore.load c.cells (sectorStore.activeBank ram) ∧
    (∀ (ram' : Ram) c', exec op ram c = (some (true, ram'), c') →
      sectorStore.activeBank ram' = sectorStore.activeBank ram ∨
      sectorStore.isValid (sectorStore.load c'.cells (sectorStore.activeBank ram')) = true) ∧
    ∀ (ram' : Ram) c', exec op ram c = (some (false, ram'), c') →
      sectorStore.activeBank ram' = sectorStore.activeBank ram := by
  have hfailed : ∀ (ram' : Ram) c', exec op ram c = (some (false, ram'), c') →
      sectorStore.activeBank ram' = sectorStore.activeBank ram := by
    intro ram' c' h
    obtain ⟨⟨s, ram₁⟩, c₁, happly, hret⟩ := bind_eq_some.mp h
    have hret : (some (decide (s = .ok), ram₁), c₁) = (some (false, ram'), c') := hret
    simp only [Prod.mk.injEq, Option.some.injEq, decide_eq_false_iff_not] at hret
    obtain ⟨⟨hs, rfl⟩, -⟩ := hret
    rw [keepsOnFailure_apply op ram _ _ _ _ happly hs]
  rcases lawful.shape op ram with ⟨ok, ram', hx, -, hactive⟩ | ⟨image, hx⟩
  · have hx : exec op ram = pure (ok, ram') := hx
    refine ⟨congrArg (fun r => sectorStore.load r.2.cells _) (congrFun hx c),
      fun ram'' c' h => .inl ?_, hfailed⟩
    have hret : (some (ok, ram'), c) = (some (true, ram''), c') := (congrFun hx c).symm.trans h
    cases hret
    exact hactive
  · refine ⟨load_of_steps lawful (hx.driven.steps c), fun ram' c' h => .inr ?_, hfailed⟩
    obtain ⟨hvalid, hload, -, hactive⟩ := hx.done c c' ram' h
    have hactive : sectorStore.activeBank ram' = (sectorStore.activeBank ram).other := hactive
    have hload : sectorStore.load c'.cells (sectorStore.activeBank ram).other = image := hload
    rw [hactive, hload]
    exact hvalid

/-- One event keeps a version-2 snapshot on flash. -/
theorem upgraded_step (s : Sys store) (e : Event store) (h : Upgraded s) (he : BootsRead s e) :
    Upgraded (s.step e) := by
  obtain ⟨y, hvalid, hactive⟩ := h
  cases e with
  | boot fates =>
    have hloads := loadsVersion2_of_valid hvalid fates he
    rcases hinit : store.init ⟨s.cells, fates, []⟩ with ⟨_ | ⟨status, ram⟩, c⟩
    · obtain ⟨hcells, -⟩ := hloads _ _ hinit
      simp only [Sys.step, hinit]
      exact ⟨y, by rw [hcells]; exact hvalid, fun _ hram => by cases hram⟩
    · obtain ⟨hcells, hram⟩ := hloads _ _ hinit
      obtain ⟨rfl, z, hz, -, hbank⟩ := hram status ram rfl
      simp only [Sys.step, hinit]
      refine ⟨z, by rw [hcells]; exact hz, fun ram' hram' => ?_⟩
      rw [← Option.some.inj hram']
      exact hbank
  | call op fates =>
    rcases hram : s.ram with _ | ram
    · simp only [Sys.step, hram]
      exact ⟨y, hvalid, hactive⟩
    · have hbank : sectorStore.activeBank ram = y := hactive ram hram
      obtain ⟨hkept, hdone, hfailed⟩ := exec_keeps op ram ⟨s.cells, fates, []⟩
      rw [hbank] at hkept hfailed
      have hkept : sectorStore.isValid (sectorStore.load
          (store.exec op ram ⟨s.cells, fates, []⟩).2.cells y) = true :=
        (congrArg sectorStore.isValid hkept).trans hvalid
      rcases hexec : store.exec op ram ⟨s.cells, fates, []⟩ with ⟨_ | ⟨_ | _, ram'⟩, c⟩ <;>
        rw [hexec] at hkept <;> simp only [Sys.step, hram, hexec]
      · exact ⟨y, hkept, fun _ hram' => by cases hram'⟩
      · refine ⟨y, hkept, fun ram'' hram'' => ?_⟩
        rw [← Option.some.inj hram'']
        exact hfailed ram' c hexec
      · rcases hdone ram' c hexec with hsame | hnew
        · refine ⟨y, hkept, fun ram'' hram'' => ?_⟩
          rw [← Option.some.inj hram'']
          exact hsame.trans hbank
        · refine ⟨_, hnew, fun ram'' hram'' => ?_⟩
          rw [← Option.some.inj hram'']

/-- **Transactional migration.** From any flash with a valid version-1 snapshot and no version-2
one, and however often power is lost in `HealthCheckConfig_Init`: every start-up finds the newest
version-1 snapshot as it was or the complete new one, the first that returns succeeds with the
same configuration, and whatever is saved later, interrupted or failing, start-up never takes a
version-1 snapshot again. -/
theorem migration_transactional {m : Cells} {x : Bank}
    (hinvalid : ∀ y, sectorStore.isValid (sectorStore.load m y) = false)
    (hlegacy : newestLegacy m = some x) {cuts : List Fates} (hcuts : Along boot Cut m cuts) :
    (Intact m x (run boot m cuts) ∨ Complete m x (run boot m cuts)) ∧
    ∀ fates, fates.Steady → ∀ status ram c,
      init ⟨run boot m cuts, fates, []⟩ = (some (status, ram), c) →
        status = .ok ∧ Migrated (legacyLoad m x) ram.snapshot ∧
        ∀ events, Along Sys.step BootsRead (running c.cells ram) events →
          LoadsVersion2 (run Sys.step (running c.cells ram) events).cells := by
  have hstart : Migrating m x m := by
    refine ⟨fun _ _ => rfl, fun hvalid => ?_, fun _ => rfl⟩
    rw [hinvalid x.other] at hvalid
    cases hvalid
  have hrun : Migrating m x (run boot m cuts) :=
    keeps (fun _ _ h hcut => h.cut hinvalid hlegacy hcut) hstart hcuts
  refine ⟨hrun.cases hinvalid hlegacy, fun fates hsteady status ram c hinit => ?_⟩
  obtain ⟨-, hreturns⟩ := hrun.init_cases hinvalid hlegacy hsteady hinit
  obtain ⟨hok, rfl, hload⟩ := hreturns status ram rfl
  refine ⟨hok, migrated_stamp _, fun events hevents => ?_⟩
  have hvalid : sectorStore.isValid (sectorStore.load c.cells x.other) = true := by
    rw [hload]
    exact isValid_migrateLegacy (valid_of_newest hlegacy)
  have hupgraded : Upgraded (running c.cells
      ⟨stamp (migrateLegacy (legacyLoad m x)), sectorStore.address x.other⟩) := by
    refine ⟨x.other, hvalid, fun ram hram => ?_⟩
    rw [← Option.some.inj hram]
    exact SectorStore.activeBank_address sound _ _
  obtain ⟨y, hy, -⟩ := keeps upgraded_step hupgraded hevents
  exact loadsVersion2_of_valid hy

/-! ## A migration that is cut off twice -/

open W25q64 (cutErase zeroed)

section Cuts

variable {m : Cells} {x : Bank}
  (hinvalid : ∀ y, sectorStore.isValid (sectorStore.load m y) = false)
  (hlegacy : newestLegacy m = some x)
include hinvalid hlegacy

/-- Power is lost while the sector for the new snapshot is erased. -/
theorem init_migration_cut : init ⟨m, cutErase, []⟩ =
    (none, ⟨zeroed (sectorStore.address x.other) m, {},
      [.erase (sectorStore.address x.other) W25q64.sectorSize m]⟩) := by
  have hchoice := chooseLegacy_eq m
  rw [hlegacy] at hchoice
  exact init_cut hinvalid hchoice rfl

theorem boot_cut : boot m cutErase = zeroed (sectorStore.address x.other) m := by
  rw [boot, init_migration_cut hinvalid hlegacy]

omit hinvalid hlegacy in
theorem zeroed_kept : ∀ i ∈ sectorStore.region x,
    zeroed (sectorStore.address x.other) m i = m i := by
  have hother := SectorStore.zeroed_other sound x.other m
  rwa [Bank.other_other] at hother

theorem cut_migration : Cut m cutErase where
  steady := W25q64.steady_cutErase
  lost := by rw [init_migration_cut hinvalid hlegacy]
  torn := by
    rw [boot_cut hinvalid hlegacy]
    exact SectorStore.torn_zeroed sound isValid_zeros _ _
  legacyTorn y hy := by
    rw [boot_cut hinvalid hlegacy] at hy ⊢
    rcases x.eq_or_other y with rfl | hother
    · exact legacyLoad_congr zeroed_kept
    · obtain rfl : y = x.other := by rw [hother, Bank.other_other]
      exact absurd hy (ne_true_of_eq_false (unmigratable_zeroed x.other m))

/-- The version-1 snapshot is still there to migrate. -/
theorem intact_cut : Intact m x (boot m cutErase) := by
  rw [boot_cut hinvalid hlegacy]
  refine ⟨fun y => ?_, newest_of_kept hlegacy (legacyLoad_congr zeroed_kept) fun hvalid => ?_,
    legacyLoad_congr zeroed_kept⟩
  · rcases x.eq_or_other y with rfl | hother
    · rw [SectorStore.load_congr sound zeroed_kept]
      exact hinvalid x
    · obtain rfl : y = x.other := by rw [hother, Bank.other_other]
      rw [SectorStore.load_zeroed sound]
      exact isValid_zeros
  · exact absurd hvalid (ne_true_of_eq_false (unmigratable_zeroed x.other m))

end Cuts

theorem maxResources_pos : 0 < maxResources := by decide

/-- A version-1 snapshot with one resource. -/
def legacyImage : LegacySnapshot :=
  let s : LegacySnapshot :=
    { magic := magic
      version := legacyVersion
      reserved := 0
      generation := 7
      periodSeconds := 300
      resources := (Vector.replicate _ ⟨0, 0, 0, .replicate _ 0, .replicate _ 0⟩).set 0
        ⟨1, 1, 443, charArray hostSize (ascii "example.org"), charArray pathSize (ascii "/")⟩
        maxResources_pos
      crc := 0 }
  { s with crc := legacyCrcOf s }

/-- A chip with nothing else on it. -/
def legacyFlash : Cells :=
  programmed (sectorStore.address .a) (legacyLayout.encode legacyImage)
    (blank (sectorStore.address .a) W25q64.sectorSize fun _ => 0xFF)

theorem isLegacyValid_legacyImage : isLegacyValid legacyImage = true := by
  have hperiod : periodValid 300 = true := by decide
  simp only [isLegacyValid, legacyImage, legacyCrcOf, LegacySnapshot.body, decide_true, hperiod,
    Bool.and_self]

theorem legacyFlash_second : ∀ i ∈ sectorStore.region .b, legacyFlash i = 0xFF := by
  have hlength : (legacyLayout.encode legacyImage).length ≤ W25q64.sectorSize := by
    rw [legacyLayout.length_encode]
    decide
  intro i hi
  have hout : i ∉ sectorStore.region .a := fun hi' =>
    Set.disjoint_left.mp (SectorStore.disjoint_region sound) hi' hi
  rw [legacyFlash, programmed_outside fun hi' =>
    hout (Set.Ico_subset_Ico_right (Nat.add_le_add_left hlength _) hi')]
  exact overwrite_outside hout

theorem legacyLoad_legacyFlash : legacyLoad legacyFlash .a = legacyImage := by
  have hfits : (legacyLayout.encode legacyImage).length ≤ W25q64.sectorSize := by
    rw [legacyLayout.length_encode]
    decide
  have hslice := slice_programmed_blank (a := sectorStore.address .a) (fun _ => 0xFF) hfits
  rw [legacyLayout.length_encode] at hslice
  rw [legacyLoad, legacyFlash, hslice, legacyLayout.decode_encode]

theorem newestLegacy_legacyFlash : newestLegacy legacyFlash = some .a := by
  have hsecond : isLegacyValid (legacyLoad legacyFlash .b) = false :=
    unmigratable_congr (m := fun _ => 0xFF) legacyFlash_second (unmigratable_erased .b)
  refine newest_of_outranks ?_ fun h => absurd h (by simp [Bank.other, hsecond])
  rw [legacyLoad_legacyFlash]
  exact isLegacyValid_legacyImage

theorem isValid_legacyFlash (y : Bank) :
    sectorStore.isValid (sectorStore.load legacyFlash y) = false := by
  cases y with
  | a =>
    have hversion : (sectorStore.load legacyFlash .a).version = legacyVersion := by
      rw [← legacyVersion_eq, legacyLoad_legacyFlash]
      rfl
    have h : sectorStore.isValid = isValid := rfl
    simp [h, isValid, hversion, version, legacyVersion]
  | b =>
    rw [SectorStore.load_congr (m := fun _ => 0xFF) sound legacyFlash_second]
    exact isValid_erased .b

/-- The first two start-ups lose power while they save the new snapshot, and the third one returns.
The next save loses power too. -/
theorem migration_transactional_cut : ∃ status ram c,
    init ⟨run boot legacyFlash [cutErase, cutErase], {}, []⟩ = (some (status, ram), c) ∧
    status = .ok ∧ Migrated legacyImage ram.snapshot ∧ ram.snapshot.resources[0].occupied = 1 ∧
    LoadsVersion2 (run Sys.step (running c.cells ram)
      [.call (.setPeriodSeconds 60) cutErase, .boot {}]).cells := by
  have hfirst := intact_cut isValid_legacyFlash newestLegacy_legacyFlash
  have hcuts : Along boot Cut legacyFlash [cutErase, cutErase] :=
    ⟨cut_migration isValid_legacyFlash newestLegacy_legacyFlash,
      cut_migration hfirst.invalid hfirst.newest, trivial⟩
  obtain ⟨⟨status, ram⟩, c, hinit⟩ := driven_init.returns
    ⟨run boot legacyFlash [cutErase, cutErase], {}, []⟩ rfl
  obtain ⟨hok, hmigrated, hlater⟩ := (migration_transactional isValid_legacyFlash
    newestLegacy_legacyFlash hcuts).2 {} Fates.steady_nil status ram c hinit
  rw [legacyLoad_legacyFlash] at hmigrated
  exact ⟨status, ram, c, hinit, hok, hmigrated, (hmigrated.slots 0 (by decide)).occupied.trans rfl,
    hlater _ ⟨trivial, Fates.steady_nil.reads, trivial⟩⟩

end HealthCheck.HealthCheckConfig
