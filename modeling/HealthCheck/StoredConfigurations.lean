import HealthCheck.Device
import HealthCheck.HealthCheckSlots
import HealthCheck.StoreErasure

/-!
# The configurations of a running device

The health-check configuration and the callback configuration are checked field by field before
they are saved. Start-up checks the fields of the callback again, and of the health-check
configuration only the period: its resources are what the banks hold.

* `Configured` — what is kept over every run of the device, with any failing flash commands.
-/

namespace HealthCheck.Device

open Nor hiding read driven_read read_ok read_cases
open ApiService FactoryReset FlashLayout TwoBank W25q64 CString Run

/-! ## The banks of the health-check configuration -/

/-- The valid images are fit, and there is nothing to migrate. -/
structure Fitting (m : Cells) : Prop where
  images : HealthCheckConfig.store.Images HealthCheckConfig.Fit m
  legacy : ∀ x, HealthCheckConfig.isLegacyValid (HealthCheckConfig.legacyLoad m x) = false

theorem fitting_erased : Fitting fun _ => 0xFF where
  images := (Store.stocked_erased HealthCheckConfig.lawful).images
  legacy := HealthCheckConfig.unmigratable_erased

theorem Fitting.wiped {m m' : Cells} (h : Fitting m) (hm : HealthCheckConfig.store.Wiped m m') :
    Fitting m' where
  images := h.images.wiped HealthCheckConfig.lawful hm
  legacy x := by
    rcases hm x with hsame | hblank
    · rw [HealthCheckConfig.legacyLoad_congr hsame]
      exact h.legacy x
    · rw [HealthCheckConfig.legacyLoad_congr (m := fun _ => 0xFF) hblank]
      exact fitting_erased.legacy x

/-- A bank that is written holds a snapshot of version 2. -/
theorem Fitting.stored {m : Cells} (h : Fitting m) {candidate : HealthCheckConfig.Snapshot}
    (hfit : HealthCheckConfig.Fit candidate) (x : Bank) :
    Fitting (HealthCheckConfig.sectorStore.stored (HealthCheckConfig.sectorStore.address x)
      (HealthCheckConfig.stamp candidate) m) := by
  have hother := SectorStore.stored_other HealthCheckConfig.sound x
    (HealthCheckConfig.stamp candidate) m
  have hself := SectorStore.load_stored HealthCheckConfig.sound x
    (HealthCheckConfig.stamp candidate) m
  refine ⟨fun y hy => ?_, fun y => ?_⟩
  · change HealthCheckConfig.Fit (HealthCheckConfig.sectorStore.load _ y)
    rcases Bank.eq_or_other y x with rfl | rfl
    · rw [hself]
      exact hfit.stamp
    · have hload := SectorStore.load_congr HealthCheckConfig.sound hother
      change HealthCheckConfig.isValid (HealthCheckConfig.sectorStore.load _ _) = true at hy
      rw [hload] at hy ⊢
      exact h.images _ hy
  · rcases Bank.eq_or_other y x with rfl | rfl
    · exact HealthCheckConfig.unmigratable_of_load hself
    · rw [HealthCheckConfig.legacyLoad_congr hother]
      exact h.legacy _

/-- A save that nothing interrupts. -/
theorem Fitting.save {m : Cells} (h : Fitting m) {candidate : HealthCheckConfig.Snapshot}
    (hfit : HealthCheckConfig.Fit candidate) (ram : HealthCheckConfig.Ram) (log : List Command) :
    Fitting (HealthCheckConfig.save candidate ram ⟨m, {}, log⟩).2.cells := by
  obtain ⟨s, ram', log', hsave, -⟩ :=
    SectorStore.save_calm HealthCheckConfig.sound candidate ram m log
  have hcells : (HealthCheckConfig.save candidate ram ⟨m, {}, log⟩).2.cells = _ :=
    congrArg (fun r => r.2.cells) hsave
  rw [hcells, SectorStore.target_eq_address]
  exact h.stored hfit _

/-- A mutation that nothing interrupts. -/
theorem Fitting.exec {m : Cells} (h : Fitting m) {op : HealthCheckConfig.Op}
    {ram : HealthCheckConfig.Ram} (hfit : HealthCheckConfig.Fit ram.snapshot)
    (htexts : op.Texts) (log : List Command) :
    Fitting (HealthCheckConfig.exec op ram ⟨m, {}, log⟩).2.cells := by
  have hcells : (HealthCheckConfig.exec op ram ⟨m, {}, log⟩).2.cells =
      (HealthCheckConfig.apply op ram ⟨m, {}, log⟩).2.cells :=
    congrArg (fun r => r.2.cells)
      (bind_pure_apply (HealthCheckConfig.apply op ram) (fun r => (decide (r.1 = .ok), r.2)) _)
  rw [hcells, HealthCheckConfig.apply_eq]
  cases hedit : HealthCheckConfig.edited op ram.snapshot with
  | error status => exact h
  | ok candidate =>
    have hcommit : (HealthCheckConfig.commit candidate ram ⟨m, {}, log⟩).2.cells =
        (HealthCheckConfig.save candidate ram ⟨m, {}, log⟩).2.cells :=
      congrArg (fun r => r.2.cells) (bind_pure_apply (HealthCheckConfig.save candidate ram)
        (fun r =>
          (if r.1 = .ok then HealthCheckConfig.ConfigStatus.ok else .storageError, r.2.2)) _)
    show Fitting (HealthCheckConfig.commit candidate ram ⟨m, {}, log⟩).2.cells
    rw [hcommit]
    exact h.save (hfit.edited htexts hedit) ram log

theorem saved_inPlace (ram : HealthCheckConfig.Ram) (c : Chip) :
    (HealthCheckConfig.saveInPlace ram c).2.cells =
      (HealthCheckConfig.save ram.snapshot ram c).2.cells :=
  congrArg (fun r => r.2.cells) (bind_pure_apply (HealthCheckConfig.save ram.snapshot ram)
    (fun r => (r.1, { r.2.2 with snapshot := r.2.1 })) c)

theorem fit_default : HealthCheckConfig.Fit HealthCheckConfig.default where
  period := HealthCheckConfig.fit_default.period
  free := HealthCheckConfig.fit_default.free
  occupied := HealthCheckConfig.fit_default.occupied

/-- Start-up when nothing goes wrong. -/
theorem Fitting.init {m : Cells} (h : Fitting m) (log : List Command) :
    Fitting (HealthCheckConfig.init ⟨m, {}, log⟩).2.cells := by
  rw [HealthCheckConfig.init_eq,
    bind_of_some (SectorStore.newestSnapshot_calm HealthCheckConfig.sound m log)]
  cases HealthCheckConfig.sectorStore.newestRam m with
  | some ram => exact h
  | none =>
    have hrange (x : Bank) : inRange (HealthCheckConfig.sectorStore.address x)
        HealthCheckConfig.legacyLayout.size = true :=
      inRange_of_sector (by decide) (by decide) (HealthCheckConfig.sound.aligned x)
        (HealthCheckConfig.sound.below x)
    have hnone : HealthCheckConfig.newestLegacy m = none :=
      newest_eq_none h.legacy
    have hseed : HealthCheckConfig.initLegacy ⟨m, {}, log⟩ = HealthCheckConfig.saveInPlace
        ⟨HealthCheckConfig.default, healthCheckConfigSectorB⟩ ⟨m, {}, log⟩ := by
      rw [HealthCheckConfig.initLegacy]
      refine (bind_of_some (read_calm m log (hrange .a))).trans
        ((bind_of_some (read_calm m log (hrange .b))).trans ?_)
      have hchoice := HealthCheckConfig.chooseLegacy_eq m
      rw [hnone] at hchoice
      dsimp only
      generalize hchosen : HealthCheckConfig.chooseLegacy _ _ _ _ = choice
      obtain rfl := hchosen.symm.trans hchoice
      rfl
    have hcells : (HealthCheckConfig.initLegacy ⟨m, {}, log⟩).2.cells =
        (HealthCheckConfig.save HealthCheckConfig.default
          ⟨HealthCheckConfig.default, healthCheckConfigSectorB⟩ ⟨m, {}, log⟩).2.cells := by
      rw [hseed, saved_inPlace]
    change Fitting (HealthCheckConfig.initLegacy ⟨m, {}, log⟩).2.cells
    rw [hcells]
    exact h.save fit_default ⟨HealthCheckConfig.default, healthCheckConfigSectorB⟩ log


theorem Fitting.congr {m m' : Cells} (h : Fitting m)
    (hm : ∀ i ∈ Part.health.store.span, m' i = m i) : Fitting m' :=
  h.wiped (.of_same (S := HealthCheckConfig.store) hm)

/-! ## Programs that keep the banks fit -/

theorem preserves_driven {α : Type} {x : FlashM α} {R : Set ℕ} (h : Driven R x)
    (hR : Disjoint Part.health.store.span R) : Preserves Fitting x :=
  (FactoryReset.Wipes.of_driven (S := HealthCheckConfig.store) h hR).preserves Fitting.wiped

theorem banksAreSectors_health : BanksAreSectors HealthCheckConfig.store := fun x =>
  ⟨_, HealthCheckConfig.sound.aligned x, rfl⟩

theorem fitting_part (p : Part) : Preserves Fitting p.store.init := by
  by_cases hp : p = .health
  · subst hp
    rintro ⟨m, fates, log⟩ rfl hm
    exact ⟨Fitting.init hm log, (HealthCheckConfig.driven_init.steps ⟨m, {}, log⟩).fates.of_nil⟩
  · exact preserves_driven p.lawful.init_driven (Part.disjoint (Ne.symm hp))

theorem fitting_startup : Preserves Fitting startup :=
  preserves_startup ((FactoryReset.wipes_recover banksAreSectors_health).preserves Fitting.wiped)
    fitting_part (preserves_driven HealthCheckLog.driven_init Part.health.disjoint_log)

/-! ## What start-up loads -/

/-- Erased sectors hold no image. -/
theorem fitting_allErased {m : Cells} (h : AllErased m) : Fitting m := by
  refine fitting_erased.wiped fun x => .inr fun i hi => ?_
  have hspan : i ∈ Part.health.store.span := by
    cases x
    · exact .inl hi
    · exact .inr hi
  have hbounds : sector 4 ≤ i ∧ i < sector 2 := Part.health.span_subset hspan
  have hsectors := sectors_lt
  exact blank_of_allErased h (.inl ⟨by omega, by omega⟩)

/-- Whatever is read, the callback comes up with valid fields. -/
theorem callback_init {c c' : Chip} {status : Status} {ram : CallbackConfig.Ram}
    (h : CallbackConfig.init c = (some (status, ram), c')) :
    CallbackConfig.fieldsValid ram.snapshot.config = true := by
  rw [CallbackConfig.init_eq] at h
  obtain ⟨found, c₁, hfound, h⟩ := bind_eq_some.1 h
  obtain ⟨rfl, hchoose⟩ := SectorStore.newestSnapshot_returns CallbackConfig.sound hfound
  cases found with
  | some found =>
    rw [CallbackConfig.resume_some, pure_apply, Prod.mk.injEq, Option.some.injEq,
      Prod.mk.injEq] at h
    obtain ⟨⟨-, rfl⟩, rfl⟩ := h
    obtain ⟨x, rfl, hvalid⟩ := SectorStore.choose_eq_some hchoose.symm
    change CallbackConfig.valid (CallbackConfig.sectorStore.load c.cells x) = true at hvalid
    simp only [CallbackConfig.valid, Bool.and_eq_true] at hvalid
    exact hvalid.1.2
  | none =>
    obtain ⟨⟨s, candidate, ram₁⟩, c₂, hsave, hret⟩ := bind_eq_some.1 h
    simp only [pure_apply, Prod.mk.injEq, Option.some.injEq] at hret
    obtain ⟨⟨-, rfl⟩, -⟩ := hret
    have hdefault : CallbackConfig.fieldsValid CallbackConfig.default.config = true := by decide
    rw [SectorStore.save_candidate hsave]
    exact hdefault

/-- Whatever is read, the health-check configuration comes up fit from fit banks. -/
theorem health_init {c c' : Chip} {status : Status} {ram : HealthCheckConfig.Ram}
    (hm : Fitting c.cells) (h : HealthCheckConfig.init c = (some (status, ram), c')) :
    HealthCheckConfig.Fit ram.snapshot := by
  rcases HealthCheckConfig.init_eq_some h with ⟨x, hvalid, hload, -⟩ | ⟨x, hlegacy⟩ | hdefault
  · rw [hload]
    exact hm.images x hvalid
  · rw [hm.legacy x] at hlegacy
    cases hlegacy
  · rw [hdefault]
    exact HealthCheckConfig.fit_default

/-- The configurations behind start-up, whatever fails in it. -/
theorem startup_configured {c c' : Chip} {ram : Ram} (hm : Fitting c.cells)
    (h : startup c = (some (some ram), c')) : HealthCheckConfig.Fit ram.health.snapshot ∧
      CallbackConfig.fieldsValid ram.callback.snapshot.config = true := by
  obtain ⟨stores, c₀, c₁, c₂, c₃, c₄, c₅, hrecover, htrust, hcallback, hhealth, -, -, -, rfl⟩ :=
    startup_eq_some h
  have hm₀ : Fitting c₀.cells := by
    rcases recover_ok hrecover with hsame | herased
    · rwa [hsame]
    · exact fitting_allErased herased
  have helsewhere : ∀ p : Part, p ≠ .health → ∀ {c c' : Chip} {r : Status × p.store.Ram},
      Fitting c.cells → p.store.init c = (some r, c') → Fitting c'.cells := by
    intro p hp c c' r hm hinit
    have hsteps := p.lawful.init_driven.steps c
    rw [hinit] at hsteps
    exact hm.congr fun i hi =>
      hsteps.outside i (Set.disjoint_left.1 (Part.disjoint hp.symm) hi)
  have hm₂ := helsewhere .callback (by decide) (helsewhere .trust (by decide) hm₀ htrust) hcallback
  exact ⟨health_init hm₂ hhealth, callback_init hcallback⟩

/-! ## Every state reached -/

/-- The banks are fit, and so are the configurations of a running device. -/
structure Configured (d : Device) : Prop where
  fitting : Fitting d.cells
  health : ∀ ram, d.ram = some ram → HealthCheckConfig.Fit ram.health.snapshot
  callback : ∀ ram, d.ram = some ram →
    CallbackConfig.fieldsValid ram.callback.snapshot.config = true

/-- A valid health-check configuration that is found after an event, of either version, is one
from before it, or the one it was to leave. -/
structure Untorn (d : Device) (e : Event) : Prop where
  torn : Torn (S := HealthCheckConfig.store) d.cells (d.step e).cells (d.step e.calm).cells
  legacy : ∀ x, HealthCheckConfig.isLegacyValid
      (HealthCheckConfig.legacyLoad (d.step e).cells x) = true →
    HealthCheckConfig.isLegacyValid (HealthCheckConfig.legacyLoad d.cells x) = true ∨
      HealthCheckConfig.isLegacyValid
        (HealthCheckConfig.legacyLoad (d.step e.calm).cells x) = true

theorem Untorn.of_calm {d : Device} {e : Event} (h : e.calm = e) : Untorn d e where
  torn _ _ := .inr (by rw [h])
  legacy _ hx := .inr (by rwa [h])

theorem texts_of_asked {request : Request} {ram : Ram} {op : HealthCheckConfig.Op}
    (h : HealthAsked request ram op) : op.Texts := by
  cases op with
  | addResource host port path enabled trustAnchorId =>
    exact ⟨JsonText.zero_notMem_of_plain h.2.1, JsonText.zero_notMem_of_plain h.2.2.1⟩
  | updateResource index host port path enabled trustAnchorId =>
    exact ⟨zero_notMem_of_textAsked h.2.2.2.2.1, zero_notMem_of_textAsked h.2.2.2.2.2⟩
  | _ => trivial

/-- The banks after an event that nothing interrupts. -/
theorem fitting_calm {d : Device} (h : Configured d) (e : Event) :
    Fitting (d.step e.calm).cells := by
  cases e with
  | boot => exact (fitting_startup ⟨d.cells, {}, []⟩ rfl h.fitting).1
  | request env request body =>
    simp only [Event.calm, step]
    split
    · exact h.fitting
    · rename_i ram hram
      rcases (dispatch_effect env request body ram).changes with hstill | ⟨p, op, hop, hdrives⟩
      · exact h.fitting.congr fun i _ =>
          (hstill.driven.steps ⟨d.cells, {}, []⟩).outside i (Set.notMem_empty i)
      · rw [hdrives.chip]
        by_cases hp : p = .health
        · subst hp
          exact h.fitting.exec (h.health ram hram) (texts_of_asked hop) []
        · have hdriven : Driven p.store.span (p.store.exec op (ram.part p)) :=
            Store.driven_exec p.lawful op _
          exact (preserves_driven hdriven (Part.disjoint (Ne.symm hp)) ⟨d.cells, {}, []⟩ rfl
            h.fitting).1
  | check check =>
    simp only [Event.calm, step]
    split
    · exact h.fitting
    · rename_i ram _
      have hcheck : Preserves Fitting (checkResource check ram) :=
        (preserves_driven (HealthCheckLog.driven_append ..) Part.health.disjoint_log).bind
          fun _ => .pure _
      exact (hcheck ⟨d.cells, {}, []⟩ rfl h.fitting).1
  | reset locked =>
    simp only [Event.calm, step]
    split
    · exact h.fitting
    · exact ((FactoryReset.wipes_execute banksAreSectors_health Part.health.disjoint_marker
        locked).preserves Fitting.wiped ⟨d.cells, {}, []⟩ rfl h.fitting).1

/-- The callback configuration behind a mutation. -/
theorem callback_exec {config : CallbackConfig.Config} {ram ram' : CallbackConfig.Ram}
    {c c' : Chip} {ok : Bool} (h : CallbackConfig.fieldsValid ram.snapshot.config = true)
    (hexec : CallbackConfig.exec config ram c = (some (ok, ram'), c')) :
    CallbackConfig.fieldsValid ram'.snapshot.config = true := by
  rcases CallbackConfig.exec_eq_some hexec with ⟨hvalid, hconfig⟩ | rfl
  · rwa [hconfig]
  · exact h

/-- The health-check configuration behind a mutation. -/
theorem health_exec {op : HealthCheckConfig.Op} {ram ram' : HealthCheckConfig.Ram} {c c' : Chip}
    {ok : Bool} (h : HealthCheckConfig.Fit ram.snapshot) (htexts : op.Texts)
    (hexec : HealthCheckConfig.exec op ram c = (some (ok, ram'), c')) :
    HealthCheckConfig.Fit ram'.snapshot := by
  rcases HealthCheckConfig.exec_eq_some hexec with ⟨candidate, hedit, hsnapshot⟩ | rfl
  · rw [hsnapshot]
    exact (h.edited htexts hedit).stamp
  · exact h

/-- The configurations after a request. -/
theorem configured_dispatch {env : Env} {request : Request} {ram : Ram} {x : Route} {c c' : Chip}
    {r : Response × Ram} (hhealth : HealthCheckConfig.Fit ram.health.snapshot)
    (hcallback : CallbackConfig.fieldsValid ram.callback.snapshot.config = true)
    (heffect : Effect env request ram x) (hx : x c = (some r, c')) :
    HealthCheckConfig.Fit r.2.health.snapshot ∧
      CallbackConfig.fieldsValid r.2.callback.snapshot.config = true := by
  rcases heffect.changes with hstill | ⟨p, op, hop, hdrives⟩
  · have hparts := hstill.parts c r c' hx
    have hsameHealth : r.2.health = ram.health := hparts .health
    have hsameCallback : r.2.callback = ram.callback := hparts .callback
    rw [hsameHealth, hsameCallback]
    exact ⟨hhealth, hcallback⟩
  · have hparts := (hdrives.kept c r c' hx).parts
    have hvars := hdrives.vars c
    rw [hx] at hvars
    obtain ⟨⟨ok, vars⟩, hexec, hsame⟩ := Option.map_eq_some_iff.1 hvars.symm
    have hhealth' : HealthCheckConfig.Fit r.2.health.snapshot := by
      by_cases hp : p = .health
      · subst hp
        have hram : vars = r.2.health := hsame
        rw [← hram]
        exact health_exec hhealth (texts_of_asked hop) (Prod.ext hexec rfl)
      · have hram : r.2.health = ram.health := hparts .health (Ne.symm hp)
        rwa [hram]
    refine ⟨hhealth', ?_⟩
    by_cases hp : p = .callback
    · subst hp
      have hram : vars = r.2.callback := hsame
      rw [← hram]
      exact callback_exec hcallback (Prod.ext hexec rfl)
    · have hram : r.2.callback = ram.callback := hparts .callback (Ne.symm hp)
      rwa [hram]

/-- **Every event keeps the configurations fit.** -/
theorem configured_step {d : Device} {e : Event} (h : Configured d) (he : Untorn d e) :
    Configured (d.step e) := by
  have hcalm := fitting_calm h e
  have hfitting : Fitting (d.step e).cells :=
    ⟨h.fitting.images.torn hcalm.images he.torn, fun x => Bool.eq_false_iff.2 fun hx => by
      rcases he.legacy x hx with hold | hnew
      · exact absurd hold (by rw [h.fitting.legacy]; decide)
      · exact absurd hnew (by rw [hcalm.legacy]; decide)⟩
  have hram : ∀ ram, (d.step e).ram = some ram → HealthCheckConfig.Fit ram.health.snapshot ∧
      CallbackConfig.fieldsValid ram.callback.snapshot.config = true := by
    intro ram hram
    rcases ram_step hram with ⟨fates, c', hstartup, -⟩ |
      ⟨before, env, request, body, response, fates, c', hbefore, hdispatch⟩ |
      ⟨before, log, buzzer, hbefore, rfl⟩
    · exact startup_configured h.fitting hstartup
    · exact configured_dispatch (h.health before hbefore) (h.callback before hbefore)
        (dispatch_effect env request body before) hdispatch
    · exact ⟨h.health before hbefore, h.callback before hbefore⟩
  exact ⟨hfitting, fun ram h => (hram ram h).1, fun ram h => (hram ram h).2⟩

theorem configured_start : Configured start where
  fitting := fitting_erased
  health := nofun
  callback := nofun

/-- **The configurations are fit in every state reached.** -/
theorem configured_run {events : List Event} (h : Along step Untorn start events) :
    Configured (run step start events) :=
  keeps (fun _ _ => configured_step) configured_start h

end HealthCheck.Device
