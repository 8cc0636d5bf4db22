import HealthCheck.Authorization
import HealthCheck.HealthCheckRequest
import HealthCheck.StoredConfigurations
import HealthCheck.UserMap

/-!
# The texts that a device holds

The management API writes the names of the accounts and the hosts and paths of the resources into
JSON texts without looking at them again. They came from a request body or are compiled in, so
they have no quote, no backslash and no control character, and they outlive anything that happens
to the flash.

* `UserStore.Presentable` — accounts whose names, roles and states can be shown.
* `Device.Presentable` — the same of a device, in its banks and in RAM.
* `Device.presentable_run` — it holds in every state reached, with any failing flash commands.
-/

namespace HealthCheck

open Nor hiding read driven_read read_ok read_cases
open ApiService CString Run TwoBank

/-! ## Accounts -/

namespace UserStore

/-- An account that can be shown. -/
structure Record.Presentable (r : Record) : Prop where
  name : JsonText.Plain r.name
  short : r.name.length < usernameSize
  role : r.role = roleAdministrator ∨ r.role = roleUser
  enabled : r.enabled = 0 ∨ r.enabled = 1

/-- A snapshot of such accounts. -/
structure Presentable (s : Snapshot) : Prop where
  count : s.count.toNat ≤ maxUsers
  accounts : ∀ r ∈ s.records, r.Presentable

theorem presentable_empty : Presentable empty := ⟨by decide, fun _ h => by cases h⟩

theorem Presentable.stamp {s : Snapshot} (h : Presentable s) : Presentable (stamp s) :=
  ⟨h.count, h.accounts⟩

/-- What a call saves has the records from before and the one of a put. -/
theorem presentable_saved {op : Op} {s candidate : Snapshot} (hs : Presentable s)
    (hop : ∀ record, op = .put record → record.Presentable) (h : op.saved s = some candidate) :
    Presentable candidate := by
  cases op with
  | put record =>
    rw [Op.saved] at h
    split at h
    · cases h
    · obtain ⟨hcount, hrecords⟩ := records_put hs.count h
      refine ⟨hcount, fun r hr => ?_⟩
      have hmem : r ∈ s.records ∨ r = record := by
        rw [hrecords] at hr
        split at hr
        · exact List.mem_or_eq_of_mem_set hr
        · exact (List.mem_append.1 hr).imp_right List.mem_singleton.1
      rcases hmem with hold | rfl
      · exact hs.accounts r hold
      · exact hop r rfl
  | delete name =>
    obtain ⟨p, hp, rfl⟩ := Option.map_eq_some_iff.1 h
    obtain ⟨hcount, hrecords⟩ := records_delete hs.count hp
    refine ⟨hcount, fun r hr => hs.accounts r ?_⟩
    rw [hrecords] at hr
    exact List.mem_of_mem_eraseIdx hr

/-- The record a request stores: its name was read from the request, or an account has it. -/
theorem presentable_asked {request : Request} {ram : ApiService.Ram} {record : Record}
    (hs : Presentable ram.auth.users.snapshot) (h : UserChanges request ram (.put record)) :
    record.Presentable := by
  obtain ⟨hrole, henabled, hzero, -, hname⟩ := h
  refine ⟨?_, length_cstr_lt hzero, hrole, henabled⟩
  rcases hname with ⟨-, hplain⟩ | ⟨-, -, hfound⟩
  · exact hplain
  · obtain ⟨⟨existing, p⟩, hfind⟩ := Option.isSome_iff_exists.1 hfound
    obtain ⟨hmem, hsame⟩ := find_eq_some hfind
    exact hsame ▸ (hs.accounts existing hmem).name

/-- **What a request leaves of the accounts.** -/
theorem presentable_exec {request : Request} {ram : ApiService.Ram} {op : Op} {users : Ram}
    {c c' : Chip} {ok : Bool} (hs : Presentable ram.auth.users.snapshot)
    (hop : UserChanges request ram op)
    (hexec : exec op ram.auth.users c = (some (ok, users), c')) : Presentable users.snapshot := by
  rcases exec_eq_some hexec with ⟨-, candidate, hsaved, hsnapshot⟩ | ⟨-, rfl⟩
  · rw [hsnapshot]
    refine (presentable_saved hs (fun record hput => ?_) hsaved).stamp
    subst hput
    exact presentable_asked hs hop
  · exact hs

end UserStore

/-! ## Resources -/

namespace HealthCheckConfig

/-- The resources in use can be shown. -/
def Presentable (s : Snapshot) : Prop :=
  ∀ i (h : i < maxResources), s.resources[i].occupied ≠ 0 → Readable s.resources[i]

theorem presentable_default : Presentable default := by
  intro i hi hoccupied
  have hslot : default.resources[i] = if i = 0 then defaultResource else zeroResource := by
    have hslots : default.resources =
        (Vector.replicate maxResources zeroResource).set 0 defaultResource := rfl
    rw [hslots, Vector.getElem_set, Vector.getElem_replicate]
    split
    · exact (if_pos (Eq.symm ‹_›)).symm
    · exact (if_neg (Ne.symm ‹_›)).symm
  rw [hslot] at hoccupied ⊢
  split
  · exact readable_default
  · rename_i hne
    rw [if_neg hne] at hoccupied
    exact absurd rfl hoccupied

/-- **What a request leaves of the resources.** -/
theorem presentable_exec {request : Request} {ram : ApiService.Ram} {op : Op} {health : Ram}
    {c c' : Chip} {ok : Bool} (hs : Presentable ram.health.snapshot)
    (hop : HealthAsked request ram op)
    (hexec : exec op ram.health c = (some (ok, health), c')) : Presentable health.snapshot := by
  obtain ⟨⟨status, health'⟩, c₁, happly, hret⟩ := bind_eq_some.1 hexec
  simp only [pure_apply, Prod.mk.injEq, Option.some.injEq] at hret
  obtain ⟨⟨-, rfl⟩, -⟩ := hret
  refine slots_apply happly ?_ hs
  cases op with
  | addResource => exact ⟨hop.2.1, hop.2.2.1⟩
  | updateResource index host port path enabled trustAnchorId =>
    obtain ⟨-, -, -, hoccupied, hhost, hpath⟩ := hop
    obtain ⟨hindex, hslot⟩ := getD_occupied hoccupied
    rw [hslot] at hoccupied hhost hpath
    have hreadable := hs index hindex hoccupied
    exact ⟨plain_of_textAsked hhost hreadable.host.2.2,
      plain_of_textAsked hpath hreadable.path.2.2⟩
  | setPeriodSeconds => trivial
  | deleteResource => trivial

end HealthCheckConfig

/-! ## The device -/

namespace Device

open FactoryReset FlashLayout W25q64

/-- The accounts and the resources can be shown: those of a running device, and those of a valid
snapshot in any bank. -/
structure Presentable (d : Device) : Prop where
  configured : Configured d
  users : UserStore.store.Images UserStore.Presentable d.cells
  health : HealthCheckConfig.store.Images HealthCheckConfig.Presentable d.cells
  accounts : ∀ ram, d.ram = some ram → UserStore.Presentable ram.auth.users.snapshot
  resources : ∀ ram, d.ram = some ram → HealthCheckConfig.Presentable ram.health.snapshot

/-- A valid snapshot of the users, or of the health-check configuration in either version, that is
found after an event is one from before it or the one it was to leave. -/
structure Whole (d : Device) (e : Event) : Prop where
  users : Intact d e
  health : Untorn d e

theorem Whole.of_calm {d : Device} {e : Event} (h : e.calm = e) : Whole d e where
  users _ _ := .inr (by rw [h])
  health := .of_calm h

/-! ### What nothing interrupts -/

/-- A save leaves the candidate in one bank and the other bank alone. -/
theorem health_save {m : Cells} {candidate : HealthCheckConfig.Snapshot}
    (h : HealthCheckConfig.store.Images HealthCheckConfig.Presentable m)
    (hcandidate : HealthCheckConfig.Presentable candidate) (ram : HealthCheckConfig.Ram)
    (log : List Command) : HealthCheckConfig.store.Images HealthCheckConfig.Presentable
      (HealthCheckConfig.save candidate ram ⟨m, {}, log⟩).2.cells := by
  obtain ⟨s, ram', log', hsave, -⟩ :=
    SectorStore.save_calm HealthCheckConfig.sound candidate ram m log
  have hcells : (HealthCheckConfig.save candidate ram ⟨m, {}, log⟩).2.cells = _ :=
    congrArg (fun r => r.2.cells) hsave
  rw [hcells, SectorStore.target_eq_address]
  intro y hy
  change HealthCheckConfig.Presentable (HealthCheckConfig.sectorStore.load _ y)
  rcases Bank.eq_or_other y (HealthCheckConfig.sectorStore.activeBank ram).other with rfl | rfl
  · rw [SectorStore.load_stored HealthCheckConfig.sound]
    exact hcandidate
  · change HealthCheckConfig.isValid (HealthCheckConfig.sectorStore.load _ _) = true at hy
    rw [SectorStore.load_stored_other HealthCheckConfig.sound] at hy ⊢
    exact h _ hy

/-- Start-up writes nothing, or the default. -/
theorem health_start {m : Cells} (h : Fitting m)
    (himages : HealthCheckConfig.store.Images HealthCheckConfig.Presentable m)
    (log : List Command) : HealthCheckConfig.store.Images HealthCheckConfig.Presentable
      (HealthCheckConfig.init ⟨m, {}, log⟩).2.cells := by
  rw [HealthCheckConfig.init_eq,
    bind_of_some (SectorStore.newestSnapshot_calm HealthCheckConfig.sound m log)]
  cases HealthCheckConfig.sectorStore.newestRam m with
  | some ram => exact himages
  | none =>
    have hrange (x : Bank) : inRange (HealthCheckConfig.sectorStore.address x)
        HealthCheckConfig.legacyLayout.size = true :=
      inRange_of_sector (by decide) (by decide) (HealthCheckConfig.sound.aligned x)
        (HealthCheckConfig.sound.below x)
    have hnone : HealthCheckConfig.newestLegacy m = none := newest_eq_none h.legacy
    have hchoice := HealthCheckConfig.chooseLegacy_eq m
    rw [hnone] at hchoice
    have hseed : HealthCheckConfig.initLegacy ⟨m, {}, log⟩ = HealthCheckConfig.saveInPlace
        ⟨HealthCheckConfig.default, healthCheckConfigSectorB⟩ ⟨m, {}, log⟩ := by
      rw [HealthCheckConfig.initLegacy]
      refine (bind_of_some (read_calm m log (hrange .a))).trans
        ((bind_of_some (read_calm m log (hrange .b))).trans ?_)
      dsimp only
      generalize hchosen : HealthCheckConfig.chooseLegacy _ _ _ _ = choice
      obtain rfl := hchosen.symm.trans hchoice
      rfl
    have hcells : (HealthCheckConfig.initLegacy ⟨m, {}, log⟩).2.cells =
        (HealthCheckConfig.save HealthCheckConfig.default
          ⟨HealthCheckConfig.default, healthCheckConfigSectorB⟩ ⟨m, {}, log⟩).2.cells := by
      rw [hseed, saved_inPlace]
    change HealthCheckConfig.store.Images HealthCheckConfig.Presentable
      (HealthCheckConfig.initLegacy ⟨m, {}, log⟩).2.cells
    rw [hcells]
    exact health_save himages HealthCheckConfig.presentable_default
      ⟨HealthCheckConfig.default, healthCheckConfigSectorB⟩ log

/-- What the banks of the health-check configuration hold. -/
def Stocked (m : Cells) : Prop :=
  Fitting m ∧ HealthCheckConfig.store.Images HealthCheckConfig.Presentable m

theorem Stocked.wiped {m m' : Cells} (h : Stocked m) (hm : HealthCheckConfig.store.Wiped m m') :
    Stocked m' :=
  ⟨h.1.wiped hm, h.2.wiped HealthCheckConfig.lawful hm⟩

theorem stocked_driven {α : Type} {x : FlashM α} {R : Set ℕ} (h : Driven R x)
    (hR : Disjoint Part.health.store.span R) : Preserves Stocked x :=
  (FactoryReset.Wipes.of_driven (S := HealthCheckConfig.store) h hR).preserves Stocked.wiped

theorem stocked_part (p : Part) : Preserves Stocked p.store.init := by
  by_cases hp : p = .health
  · subst hp
    rintro ⟨m, fates, log⟩ rfl hm
    exact ⟨⟨hm.1.init log, health_start hm.1 hm.2 log⟩,
      (HealthCheckConfig.driven_init.steps ⟨m, {}, log⟩).fates.of_nil⟩
  · exact stocked_driven p.lawful.init_driven (Part.disjoint (Ne.symm hp))

theorem stocked_startup : Preserves Stocked startup :=
  preserves_startup ((FactoryReset.wipes_recover banksAreSectors_health).preserves Stocked.wiped)
    stocked_part (stocked_driven HealthCheckLog.driven_init Part.health.disjoint_log)

variable {d : Device} {e : Event}

/-- The accounts in the banks after an event that nothing interrupts. -/
theorem users_calm (h : Presentable d) (e : Event) :
    UserStore.store.Images UserStore.Presentable (d.step e.calm).cells := by
  have hwiped {m : Cells} (hm : Wiped d.cells m) :
      UserStore.store.Images UserStore.Presentable m := h.users.wiped UserStore.lawful hm
  cases e with
  | boot => exact hwiped (wipes_startup ⟨d.cells, {}, []⟩ rfl).1
  | request env request body =>
    simp only [Event.calm, step]
    split
    · exact h.users
    · rename_i ram hram
      rcases (dispatch_effect env request body ram).changes with hstill | ⟨p, op, hop, hdrives⟩
      · exact hwiped (.of_same fun i _ =>
          (hstill.driven.steps ⟨d.cells, {}, []⟩).outside i (Set.notMem_empty i))
      · rw [hdrives.chip]
        by_cases hp : p = .users
        · subst hp
          exact Store.Images.call UserStore.lawful rfl h.users fun users c' hexec =>
            UserStore.presentable_exec (h.accounts ram hram) hop hexec
        · have hdriven : Driven p.store.span (p.store.exec op (ram.part p)) :=
            Store.driven_exec p.lawful op _
          exact hwiped (.of_same fun i hi => (hdriven.steps ⟨d.cells, {}, []⟩).outside i
            (Set.disjoint_left.1 (Part.disjoint (Ne.symm hp)) hi))
  | check check =>
    simp only [Event.calm, step]
    split
    · exact h.users
    · rename_i ram _
      have hwipes : Wipes (checkResource check ram) :=
        (Wipes.of_driven (HealthCheckLog.driven_append ..) Part.users.disjoint_log).bind
          fun _ => .pure _
      exact hwiped (hwipes ⟨d.cells, {}, []⟩ rfl).1
  | reset locked =>
    simp only [Event.calm, step]
    split
    · exact h.users
    · exact hwiped (wipes_execute locked ⟨d.cells, {}, []⟩ rfl).1

/-- And the resources. -/
theorem health_calm (h : Presentable d) (e : Event) :
    HealthCheckConfig.store.Images HealthCheckConfig.Presentable (d.step e.calm).cells := by
  have hstocked : Stocked d.cells := ⟨h.configured.fitting, h.health⟩
  cases e with
  | boot => exact (stocked_startup ⟨d.cells, {}, []⟩ rfl hstocked).1.2
  | request env request body =>
    simp only [Event.calm, step]
    split
    · exact h.health
    · rename_i ram hram
      rcases (dispatch_effect env request body ram).changes with hstill | ⟨p, op, hop, hdrives⟩
      · exact h.health.wiped HealthCheckConfig.lawful (.of_same fun i _ =>
          (hstill.driven.steps ⟨d.cells, {}, []⟩).outside i (Set.notMem_empty i))
      · rw [hdrives.chip]
        by_cases hp : p = .health
        · subst hp
          exact Store.Images.call HealthCheckConfig.lawful rfl h.health fun health c' hexec =>
            HealthCheckConfig.presentable_exec (h.resources ram hram) hop hexec
        · have hdriven : Driven p.store.span (p.store.exec op (ram.part p)) :=
            Store.driven_exec p.lawful op _
          exact (stocked_driven hdriven (Part.disjoint (Ne.symm hp)) ⟨d.cells, {}, []⟩ rfl
            hstocked).1.2
  | check check =>
    simp only [Event.calm, step]
    split
    · exact h.health
    · rename_i ram _
      have hcheck : Preserves Stocked (checkResource check ram) :=
        (stocked_driven (HealthCheckLog.driven_append ..) Part.health.disjoint_log).bind
          fun _ => .pure _
      exact (hcheck ⟨d.cells, {}, []⟩ rfl hstocked).1.2
  | reset locked =>
    simp only [Event.calm, step]
    split
    · exact h.health
    · exact ((FactoryReset.wipes_execute banksAreSectors_health Part.health.disjoint_marker
        locked).preserves Stocked.wiped ⟨d.cells, {}, []⟩ rfl hstocked).1.2

/-! ### The variables -/

/-- Start-up takes the resources from the banks, or the default. -/
theorem health_loaded {c c' : Chip} {status : Status} {ram : HealthCheckConfig.Ram}
    (hm : Stocked c.cells) (h : HealthCheckConfig.init c = (some (status, ram), c')) :
    HealthCheckConfig.Presentable ram.snapshot := by
  rcases HealthCheckConfig.init_eq_some h with ⟨x, hvalid, hload, -⟩ | ⟨x, hlegacy⟩ | hdefault
  · rw [hload]
    exact hm.2 x hvalid
  · rw [hm.1.legacy x] at hlegacy
    cases hlegacy
  · rw [hdefault]
    exact HealthCheckConfig.presentable_default

/-- The resources behind start-up, whatever fails in it. -/
theorem startup_resources {c c' : Chip} {ram : Ram} (hm : Stocked c.cells)
    (h : startup c = (some (some ram), c')) :
    HealthCheckConfig.Presentable ram.health.snapshot := by
  obtain ⟨stores, c₀, c₁, c₂, c₃, c₄, c₅, hrecover, htrust, hcallback, hhealth, -, -, -, rfl⟩ :=
    startup_eq_some h
  have herased : Stocked fun _ => 0xFF :=
    ⟨fitting_erased, (Store.stocked_erased HealthCheckConfig.lawful).images⟩
  have hm₀ : Stocked c₀.cells := by
    rcases recover_ok hrecover with hsame | hall
    · rwa [hsame]
    · refine ⟨fitting_allErased hall, fun x hx => ?_⟩
      have hbank : HealthCheckConfig.store.Images HealthCheckConfig.Presentable c₀.cells := by
        refine herased.2.wiped HealthCheckConfig.lawful fun y => .inr fun i hi => ?_
        have hspan : i ∈ Part.health.store.span := by
          cases y
          · exact .inl hi
          · exact .inr hi
        have hbounds : sector 4 ≤ i ∧ i < sector 2 := Part.health.span_subset hspan
        have hsectors := sectors_lt
        exact blank_of_allErased hall (.inl ⟨by omega, by omega⟩)
      exact hbank x hx
  have hkept : ∀ p : Part, p ≠ .health → ∀ {c c' : Chip} {r : Status × p.store.Ram},
      Stocked c.cells → p.store.init c = (some r, c') → Stocked c'.cells := by
    intro p hp c c' r hm hinit
    have hsteps := p.lawful.init_driven.steps c
    rw [hinit] at hsteps
    exact hm.wiped (.of_same (S := HealthCheckConfig.store) fun i hi =>
      hsteps.outside i (Set.disjoint_left.1 (Part.disjoint hp.symm) hi))
  have hm₂ := hkept .callback (by decide) (hkept .trust (by decide) hm₀ htrust) hcallback
  exact health_loaded hm₂ hhealth

/-- The accounts behind start-up. -/
theorem startup_accounts {c c' : Chip} {ram : Ram}
    (hm : UserStore.store.Images UserStore.Presentable c'.cells)
    (h : startup c = (some (some ram), c')) : UserStore.Presentable ram.auth.users.snapshot := by
  rcases (startup_users h).2 with hempty | ⟨x, hload, hvalid⟩
  · rw [hempty]
    exact UserStore.presentable_empty
  · rw [hload]
    exact hm x hvalid

/-- And behind a request. -/
theorem dispatch_presentable {env : Env} {request : Request} {body : Bytes} {ram : Ram}
    {c c' : Chip} {r : Response × Ram} (husers : UserStore.Presentable ram.auth.users.snapshot)
    (hhealth : HealthCheckConfig.Presentable ram.health.snapshot)
    (h : dispatch env request body ram c = (some r, c')) :
    UserStore.Presentable r.2.auth.users.snapshot ∧
      HealthCheckConfig.Presentable r.2.health.snapshot := by
  rcases (dispatch_effect env request body ram).changes with hstill | ⟨p, op, hop, hdrives⟩
  · have hparts := hstill.parts c r c' h
    have husersSame : r.2.auth.users = ram.auth.users := hparts .users
    have hhealthSame : r.2.health = ram.health := hparts .health
    rw [husersSame, hhealthSame]
    exact ⟨husers, hhealth⟩
  · have hparts := (hdrives.kept c r c' h).parts
    have hvars := hdrives.vars c
    rw [h] at hvars
    obtain ⟨⟨ok, vars⟩, hexec, hsame⟩ := Option.map_eq_some_iff.1 hvars.symm
    constructor
    · by_cases hp : p = .users
      · subst hp
        have hram : vars = r.2.auth.users := hsame
        rw [← hram]
        exact UserStore.presentable_exec husers hop (Prod.ext hexec rfl)
      · have hram : r.2.auth.users = ram.auth.users := hparts .users (Ne.symm hp)
        rwa [hram]
    · by_cases hp : p = .health
      · subst hp
        have hram : vars = r.2.health := hsame
        rw [← hram]
        exact HealthCheckConfig.presentable_exec hhealth hop (Prod.ext hexec rfl)
      · have hram : r.2.health = ram.health := hparts .health (Ne.symm hp)
        rwa [hram]

/-! ### Runs -/

/-- **Every event keeps the texts presentable.** -/
theorem presentable_step (h : Presentable d) (he : Whole d e) : Presentable (d.step e) := by
  have husers : UserStore.store.Images UserStore.Presentable (d.step e).cells :=
    h.users.torn (users_calm h e) he.users
  have hram : ∀ ram, (d.step e).ram = some ram →
      UserStore.Presentable ram.auth.users.snapshot ∧
        HealthCheckConfig.Presentable ram.health.snapshot := by
    intro ram hram
    rcases ram_step hram with ⟨fates, c', hstartup, hcells⟩ |
      ⟨before, env, request, body, response, fates, c', hbefore, hdispatch⟩ |
      ⟨before, log, buzzer, hbefore, rfl⟩
    · exact ⟨startup_accounts (hcells ▸ husers) hstartup,
        startup_resources ⟨h.configured.fitting, h.health⟩ hstartup⟩
    · exact dispatch_presentable (h.accounts before hbefore) (h.resources before hbefore) hdispatch
    · exact ⟨h.accounts before hbefore, h.resources before hbefore⟩
  exact ⟨configured_step h.configured he.health, husers,
    h.health.torn (health_calm h e) he.health.torn, fun ram hr => (hram ram hr).1,
    fun ram hr => (hram ram hr).2⟩

theorem presentable_start : Presentable start where
  configured := configured_start
  users := (Store.stocked_erased UserStore.lawful).images
  health := (Store.stocked_erased HealthCheckConfig.lawful).images
  accounts := nofun
  resources := nofun

/-- **The texts are presentable in every state reached.** -/
theorem presentable_run {events : List Event} (h : Along step Whole start events) :
    Presentable (run step start events) :=
  keeps (fun _ _ => presentable_step) presentable_start h

end Device

end HealthCheck
