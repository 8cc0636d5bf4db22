import HealthCheck.CallbackConfig
import HealthCheck.HealthCheckConfig
import HealthCheck.TlsServerCredentials
import HealthCheck.TlsTrustStoreProof
import HealthCheck.UserStore

/-!
# The persistent stores over whole runs

Five components keep their state in two banks of the flash. All follow the scheme of
`TwoBank.Store`, so what a run of start-ups and mutations does to one of them, it does to all:

* `boot_loads_last_or_cut` — power losses alone never cost a store more than the mutation they
  interrupt;
* `failed_mutation_reloads` — a mutation that reports failure has no effect beyond the next
  boot, if no read fails and no failed write leaves a complete newer snapshot;
* `put_outlives_failure` — and without that condition it can have one.
-/

namespace HealthCheck.PersistentStores

open Nor hiding read
open TwoBank
open W25q64 (cutErase sectorSize steady_cutErase zeroed)

/-- The stores with banks of one sector. -/
def oneSectorStores : List Store :=
  [UserStore.store, HealthCheckConfig.store, CallbackConfig.store, TlsServerCredentials.store]

/-- The five A/B stores. -/
def stores : List Store := TlsTrustStore.store :: oneSectorStores

theorem lawful_of_mem {S : Store} (hS : S ∈ stores) : S.Lawful := by
  simp only [stores, oneSectorStores, List.mem_cons, List.not_mem_nil, or_false] at hS
  rcases hS with rfl | rfl | rfl | rfl | rfl
  · exact TlsTrustStore.lawful
  · exact UserStore.lawful
  · exact HealthCheckConfig.lawful
  · exact CallbackConfig.lawful
  · exact TlsServerCredentials.lawful

/-- Power losses are all that goes wrong. What is torn passes for no image of the store, neither
of its present version nor of the one that the health-check configuration migrates. -/
def LossOnly {S : Store} (s : Sys S) (e : Event S) : Prop :=
  s.PowerOnly e ∧ (S = HealthCheckConfig.store → s.Unmigrated e)

theorem orderly_of_lossOnly {S : Store} (hS : S ∈ oneSectorStores) {s : Sys S} {e : Event S}
    (hs : s.Inv) (h : LossOnly s e) : s.Orderly e := by
  refine orderly_of_powerOnly (lawful_of_mem (List.mem_cons_of_mem _ hS)) hs h.1 ?_
  simp only [oneSectorStores, List.mem_cons, List.not_mem_nil, or_false] at hS
  rcases hS with rfl | rfl | rfl | rfl
  · exact fun _ hnone x => ⟨hnone x, trivial⟩
  · exact unspoilt_step HealthCheckConfig.lawful rfl hs h.1 (h.2 rfl)
  · exact fun _ hnone x => ⟨hnone x, trivial⟩
  · exact fun _ hnone x => ⟨hnone x, trivial⟩

/-- **Power-loss atomicity and durability**: after any run from erased flash in which power
losses are all that happens, a start-up that is not itself cut off loads the snapshot of the
last mutation that returned success, or the complete one of a mutation that was interrupted
since. -/
theorem boot_loads_last_or_cut {S : Store} (hS : S ∈ oneSectorStores) {events : List (Event S)}
    (h : (Sys.start S).Along LossOnly events)
    (hsaves : ((Sys.start S).run events).saves < 2 ^ 32 - 1) {fates : Fates} (hf : fates.Steady)
    {status : Status} {ram : S.Ram} {c : Chip}
    (hinit : S.init ⟨((Sys.start S).run events).cells, fates, []⟩ = (some (status, ram), c)) :
    status = .ok ∧ (S.snapshot ram = ((Sys.start S).run events).last ∨
      ((Sys.start S).run events).cut = some (S.snapshot ram)) := by
  have hlawful : S.Lawful := lawful_of_mem (List.mem_cons_of_mem _ hS)
  have hinv := run_keeps hlawful (fun _ _ => orderly_of_lossOnly hS) (inv_start hlawful) h hsaves
  exact loads_last_or_cut hlawful hinv.settled hf hinit

/-! ### A configuration that loses power twice -/

/-- The first start-up loses power while it saves the default, and the second of two updates while
it is saved. -/
def cutUpdates : List (Event HealthCheckConfig.store) :=
  [.boot cutErase, .boot {}, .call (.setPeriodSeconds 120) {},
    .call (.setPeriodSeconds 300) cutErase]

theorem lossOnly_boot_cut : LossOnly (Sys.start HealthCheckConfig.store) (.boot cutErase) := by
  have hcells : ∀ c, HealthCheckConfig.store.init ⟨fun _ => 0xFF, cutErase, []⟩ = (none, c) →
      c.cells = zeroed (HealthCheckConfig.sectorStore.address .a) fun _ => 0xFF := fun c h => by
    rw [← (Prod.mk.inj (HealthCheckConfig.init_erased_cut.symm.trans h)).2]
  refine ⟨⟨steady_cutErase, fun c h => ?_⟩, fun _ c h _ hnone x => ⟨hnone x, ?_⟩⟩
  · rw [hcells c h]
    exact SectorStore.torn_zeroed HealthCheckConfig.sound HealthCheckConfig.isValid_zeros _ _
  · rw [hcells c h]
    cases x with
    | a => exact HealthCheckConfig.unmigratable_zeroed .a _
    | b =>
      exact HealthCheckConfig.unmigratable_congr
        (SectorStore.zeroed_other HealthCheckConfig.sound .a _)
        (HealthCheckConfig.unmigratable_erased .b)

theorem exec_cut (ram : HealthCheckConfig.Ram) (m : Cells) : ∃ log,
    HealthCheckConfig.exec (.setPeriodSeconds 300) ram ⟨m, cutErase, []⟩ = (none,
      ⟨zeroed (HealthCheckConfig.sectorStore.address
        (HealthCheckConfig.sectorStore.activeBank ram).other) m, {}, log⟩) := by
  rw [← SectorStore.target_eq_address]
  exact ⟨_, bind_of_none (HealthCheckConfig.apply_cut (by decide) ram m)⟩

theorem lossOnly_call_cut (s : Sys HealthCheckConfig.store) :
    LossOnly s (.call (.setPeriodSeconds 300) cutErase) := by
  refine ⟨⟨steady_cutErase, fun ram c _ h => ?_⟩, fun _ => trivial⟩
  obtain ⟨log, hcut⟩ := exec_cut ram s.cells
  rw [(Prod.mk.inj (h.symm.trans hcut)).2]
  exact SectorStore.torn_zeroed HealthCheckConfig.sound HealthCheckConfig.isValid_zeros _ _

/-- The second update was about to be saved. -/
theorem cut_cutUpdates :
    ∃ image, ((Sys.start HealthCheckConfig.store).run cutUpdates).cut = some image := by
  have hlawful := HealthCheckConfig.lawful
  have hmem : HealthCheckConfig.store ∈ oneSectorStores := List.mem_cons_of_mem _ List.mem_cons_self
  have hbooted : ((Sys.start HealthCheckConfig.store).step (.boot cutErase)).Inv :=
    inv_step hlawful (inv_start hlawful)
      (orderly_of_lossOnly hmem (inv_start hlawful) lossOnly_boot_cut)
      ((saves_step_le _ _).trans_lt (by decide))
  obtain ⟨ram, hram⟩ := running_boot hlawful hbooted.settled
  obtain ⟨ram', hram'⟩ := running_call hlawful hram (.setPeriodSeconds 120)
  obtain ⟨log, hcut⟩ := exec_cut ram' ((((Sys.start HealthCheckConfig.store).step
    (.boot cutErase)).step (.boot {})).step (.call (.setPeriodSeconds 120) {})).cells
  rw [cutUpdates, Sys.run, List.foldl_cons, List.foldl_cons, List.foldl_cons, List.foldl_cons,
    List.foldl_nil]
  exact cut_of_lost hlawful hram' hcut

/-- What comes up is the first update or the second. -/
theorem boot_loads_last_or_cut_updates :
    (∃ image, ((Sys.start HealthCheckConfig.store).run cutUpdates).cut = some image) ∧
    ∃ (ram : HealthCheckConfig.Ram) (c : Chip),
      HealthCheckConfig.init ⟨((Sys.start HealthCheckConfig.store).run cutUpdates).cells, {}, []⟩ =
        (some (.ok, ram), c) ∧
      (ram.snapshot = ((Sys.start HealthCheckConfig.store).run cutUpdates).last ∨
        ((Sys.start HealthCheckConfig.store).run cutUpdates).cut = some ram.snapshot) := by
  have hmem : HealthCheckConfig.store ∈ oneSectorStores := List.mem_cons_of_mem _ List.mem_cons_self
  have hlawful := HealthCheckConfig.lawful
  have hrun : (Sys.start HealthCheckConfig.store).Along LossOnly cutUpdates :=
    ⟨lossOnly_boot_cut, ⟨powerOnly_boot hlawful _, fun _ => unmigrated_boot hlawful _⟩,
      ⟨powerOnly_call hlawful _ _, fun _ => trivial⟩, lossOnly_call_cut _, trivial⟩
  obtain ⟨⟨status, ram⟩, c, h⟩ := hlawful.init_driven.returns
    ⟨((Sys.start HealthCheckConfig.store).run cutUpdates).cells, {}, []⟩ rfl
  obtain ⟨rfl, hsnapshot⟩ := boot_loads_last_or_cut hmem hrun
    ((saves_run_le _ _).trans_lt (by decide)) Fates.steady_nil h
  exact ⟨cut_cutUpdates, ram, c, h, hsnapshot⟩

/-! ## Mutations that report failure -/

/-- **A failed mutation has no lasting effect**, in every run whose steps are orderly and that
does not exhaust the generations: a boot whose flash calls succeed loads the snapshot that was
active before the mutation, and that is the one still in RAM. -/
theorem failed_mutation_reloads {S : Store} (hS : S ∈ stores) {events : List (Event S)}
    {op : S.Op} {fates : Fates}
    (h : (Sys.start S).Along Sys.Orderly (events ++ [.call op fates]))
    (hsaves : ((Sys.start S).run (events ++ [.call op fates])).saves < 2 ^ 32 - 1)
    {ram ram' : S.Ram} {c : Chip} (hram : ((Sys.start S).run events).ram = some ram)
    (hfail : S.exec op ram ⟨((Sys.start S).run events).cells, fates, []⟩ =
      (some (false, ram'), c)) :
    S.snapshot ram' = S.snapshot ram ∧ ∃ ram'' c',
      S.init ⟨c.cells, {}, []⟩ = (some (.ok, ram''), c') ∧ S.snapshot ram'' = S.snapshot ram := by
  have hlawful := lawful_of_mem hS
  have hbefore : ((Sys.start S).run events).Inv := by
    refine run_keeps hlawful (fun _ _ _ ho => ho) (inv_start hlawful) (along_append.1 h).1 ?_
    rw [run_append] at hsaves
    exact (saves_le_run _ _).trans_lt hsaves
  have hafter := run_keeps hlawful (fun _ _ _ ho => ho) (inv_start hlawful) h hsaves
  have hstep : (Sys.start S).run (events ++ [.call op fates]) =
      { (Sys.start S).run events with
        cells := c.cells, ram := some ram'
        saves := ((Sys.start S).run events).saves + (c.log.any isErase).toNat } := by
    rw [run_append]
    exact step_failed hram hfail
  rw [hstep] at hafter
  have hlast := last_of_running hbefore hram
  obtain ⟨ram'', c', hinit, hsnapshot⟩ := reloads hlawful hafter rfl
  exact ⟨(last_of_running hafter rfl).symm.trans hlast, ram'', c', hinit, hsnapshot.trans hlast⟩

/-! ### Two ways to fail -/

/-- A record of a user named `bob`. -/
def record : UserStore.Record :=
  { UserStore.zeroRecord with enabled := 1, username := CString.charArray _ (CString.ascii "bob") }

/-- The variables of a user store that was started on erased flash. -/
def freshRam : UserStore.Ram := ⟨UserStore.empty, FlashLayout.userStoreSectorB⟩

theorem run_boot_userStore : (Sys.start UserStore.store).run [.boot {}] =
    ⟨fun _ => 0xFF, some freshRam, UserStore.empty, none, 0⟩ := by
  have hinit := UserStore.init_calm (fun _ => 0xFF) []
  rw [SectorStore.newestRam_of_fresh UserStore.isValid_erased] at hinit
  exact step_booted (S := UserStore.store) (s := Sys.start UserStore.store) hinit

/-- The snapshot `UserStore_Put` saves there. -/
def candidate : UserStore.Snapshot :=
  { UserStore.empty with count := 1, users := UserStore.empty.users.setIfInBounds 0 record }

theorem exec_put_fresh : UserStore.exec (.put record) freshRam =
    UserStore.save candidate freshRam >>= fun r => pure (decide (r.1 = .ok), r.2.2) :=
  UserStore.exec_put (by decide) rfl

theorem target_freshRam :
    UserStore.sectorStore.target freshRam = FlashLayout.userStoreSectorA := by decide

/-- The fates of a `UserStore_Put` whose erase fails and leaves zeros. -/
def unerased : Fates := { erases := [.fails false fun _ => 0] }

/-- The flash it leaves. -/
def spoilt : Cells := zeroed FlashLayout.userStoreSectorA fun _ => 0xFF

theorem put_unerased : ∃ log, UserStore.exec (.put record) freshRam
    ⟨fun _ => 0xFF, unerased, []⟩ = (some (false, freshRam), ⟨spoilt, {}, log⟩) := by
  obtain ⟨log, hsave⟩ := SectorStore.save_unerased UserStore.sound candidate freshRam
    (fun _ => 0xFF) false (fun _ => 0)
  rw [target_freshRam] at hsave
  rw [exec_put_fresh]
  exact ⟨log, bind_of_some hsave⟩

theorem isValid_spoilt (x : Bank) :
    UserStore.sectorStore.isValid (UserStore.sectorStore.load spoilt x) = false := by
  cases x with
  | a =>
    have hload : UserStore.sectorStore.load spoilt .a = _ :=
      SectorStore.load_zeroed UserStore.sound .a fun _ => 0xFF
    have hmagic : (UserStore.sectorStore.load spoilt .a).magic = 0 := by
      rw [hload]
      rfl
    have h : UserStore.sectorStore.isValid = UserStore.isValid := rfl
    simp [h, UserStore.isValid, hmagic, UserStore.magic]
  | b =>
    have hkept : UserStore.sectorStore.load spoilt .b =
        UserStore.sectorStore.load (fun _ => 0xFF) .b :=
      SectorStore.load_congr UserStore.sound (SectorStore.zeroed_other UserStore.sound .a _)
    rw [hkept]
    exact UserStore.isValid_erased .b

theorem failed_mutation_reloads_unerased :
    ∃ (ram ram' : UserStore.Ram) (c c' : Chip),
      UserStore.exec (.put record) freshRam ⟨fun _ => 0xFF, unerased, []⟩ =
        (some (false, ram), c) ∧
      UserStore.init ⟨c.cells, {}, []⟩ = (some (.ok, ram'), c') ∧
      ram'.snapshot = UserStore.empty := by
  obtain ⟨log, hexec⟩ := put_unerased
  have hinvalid : ∀ x, UserStore.store.valid (UserStore.store.load spoilt x) = false :=
    isValid_spoilt
  have hcall : ((Sys.start UserStore.store).run [.boot {}]).Orderly
      (.call (.put record) unerased) := by
    rw [run_boot_userStore]
    refine orderly_failed (S := UserStore.store) (by simp [unerased, Fates.ReadsSucceed]) rfl hexec
      (fun x hx => ?_) (fun _ _ x => ⟨isValid_spoilt x, trivial⟩)
    rw [hinvalid x] at hx
    cases hx
  have hboot : (Sys.start UserStore.store).Orderly (.boot {}) :=
    orderly_of_lossOnly List.mem_cons_self (inv_start UserStore.lawful)
      ⟨powerOnly_boot UserStore.lawful _, fun _ => unmigrated_boot UserStore.lawful _⟩
  have hexec' : UserStore.store.exec (.put record) freshRam
      ⟨((Sys.start UserStore.store).run [.boot {}]).cells, unerased, []⟩ =
      (some (false, freshRam), ⟨spoilt, {}, log⟩) := by
    rw [run_boot_userStore]
    exact hexec
  have hrun : (Sys.start UserStore.store).Along Sys.Orderly
      ([.boot {}] ++ [.call (.put record) unerased]) :=
    along_append.2 ⟨⟨hboot, trivial⟩, hcall, trivial⟩
  obtain ⟨-, ram', c', hinit, hsnapshot⟩ := failed_mutation_reloads
    (S := UserStore.store) (List.mem_cons_of_mem _ List.mem_cons_self) hrun
    ((saves_run_le _ _).trans_lt (by decide)) (congrArg Sys.ram run_boot_userStore) hexec'
  exact ⟨freshRam, ram', _, c', hexec, hinit, hsnapshot⟩

/-- The fates of a `UserStore_Put` whose verification read times out. -/
def unverified : Fates := { reads := [.fails true fun _ => 0] }

/-- The flash it leaves: the complete image in the first sector. -/
def completed : Cells :=
  UserStore.sectorStore.stored FlashLayout.userStoreSectorA (UserStore.sectorStore.stamp candidate)
    fun _ => 0xFF

theorem put_unverified : ∃ log, UserStore.exec (.put record) freshRam
    ⟨fun _ => 0xFF, unverified, []⟩ = (some (false, freshRam), ⟨completed, {}, log⟩) := by
  obtain ⟨log, hsave⟩ := SectorStore.save_unread UserStore.sound candidate freshRam
    (fun _ => 0xFF) true (fun _ => 0)
  rw [target_freshRam] at hsave
  rw [exec_put_fresh]
  refine ⟨log, Eq.trans (bind_of_some hsave) ?_⟩
  rfl

theorem newestRam_completed : UserStore.sectorStore.newestRam completed =
    some ⟨UserStore.sectorStore.stamp candidate, FlashLayout.userStoreSectorA⟩ := by
  have hload : UserStore.sectorStore.load completed .a = UserStore.sectorStore.stamp candidate :=
    SectorStore.load_stored UserStore.sound .a _ _
  have hvalid : UserStore.sectorStore.isValid (UserStore.sectorStore.load completed .a) = true := by
    have h : UserStore.sectorStore.isValid = UserStore.isValid := rfl
    rw [hload, h]
    exact (UserStore.isValid_stamp candidate).2 (by decide)
  have hother : UserStore.sectorStore.isValid (UserStore.sectorStore.load completed .b) = false := by
    have hkept : UserStore.sectorStore.load completed .b =
        UserStore.sectorStore.load (fun _ => 0xFF) .b :=
      SectorStore.load_stored_other UserStore.sound .a _ _
    rw [hkept]
    exact UserStore.isValid_erased .b
  rw [SectorStore.newestRam_of_only hvalid hother, hload]
  rfl

/-- `UserStore_Put` reports an error, and the user is there after the next boot. -/
theorem put_outlives_failure : ∃ (ram ram' ram'' : UserStore.Ram) (c c' : Chip),
    ((Sys.start UserStore.store).run [.boot {}]).ram = some ram ∧
    UserStore.exec (.put record) ram
      ⟨((Sys.start UserStore.store).run [.boot {}]).cells, unverified, []⟩ =
        (some (false, ram'), c) ∧
    UserStore.init ⟨c.cells, {}, []⟩ = (some (.ok, ram''), c') ∧
    ram''.snapshot ≠ ram.snapshot := by
  obtain ⟨log, hexec⟩ := put_unverified
  have hinit := UserStore.init_calm completed []
  rw [newestRam_completed] at hinit
  refine ⟨freshRam, freshRam, _, ⟨completed, {}, log⟩, _, ?_, ?_, hinit, fun h => ?_⟩
  · exact congrArg Sys.ram run_boot_userStore
  · rw [run_boot_userStore]
    exact hexec
  · have hmagic : UserStore.magic = 0 := congrArg UserStore.Snapshot.magic h
    exact absurd hmagic (by decide)

end HealthCheck.PersistentStores
