import HealthCheck.AnchorReferences

/-!
# What a device loses when power is lost

The device has five stores on one flash, and nothing but the order of the writes protects them.
Seen from outside it does better: every request is done completely or not at all, wherever power is
lost, and whatever has happened, the device starts up again with everything that was done.

* `Committed`, `Commits` — the device as it should be: images, and requests that are atomic.
* `Device.Holds` — what a running device has in RAM and what start-up will find.
* `Device.comes_up` — start-up.
* `Device.crash_consistent` — the device goes along with its specification, in every run.
-/

namespace HealthCheck.Device

open Nor hiding read driven_read read_ok read_cases
open ApiService CString FactoryReset FlashLayout Run TwoBank

/-! ## The specification -/

/-- An image of each component. -/
abbrev Committed := (p : Part) → p.store.Image

/-- An event commits nothing, or all that it does when nothing interrupts it. -/
inductive Commits (d : Device) (e : Event) (s : Committed) : Committed → Prop
  | nothing : Commits d e s s
  | all {ram : Ram} (hram : (d.step e.calm).ram = some ram) : Commits d e s (images ram)

/-- The images that start-up will find are those a running device has in RAM. -/
structure Shows (d : Device) (s : Committed) : Prop where
  ram : ∀ ram, d.ram = some ram → images ram = s
  found : ∀ p : Part, p.store.Finds d.cells (s p)

/-- Power losses are all that goes wrong, and no request changes a component at its last
generation. What a loss leaves in a bank is its old image, the complete new one or nothing valid,
and nothing of an older version to migrate. -/
structure LossOnly (d : Device) (e : Event) : Prop where
  steady : e.Steady
  torn : ∀ p : Part, Torn (S := p.store) d.cells (d.step e).cells (d.step e.calm).cells
  unspoilt : ∀ p : Part, Unspoilt (S := p.store) d.cells (d.step e).cells
  lasts : ∀ env request body fates, e = .request env request body fates → ∀ ram,
    d.ram = some ram → ∀ p op, Changes env request ram p op →
      p.store.generation (images ram p) + 1 < 2 ^ 32

/-- A device between two events. -/
structure Holds (d : Device) (s : Committed) : Prop where
  unmarked : ¬Marked d.cells
  found : ∀ p : Part, p.store.Finds d.cells (s p)
  ram : ∀ ram, d.ram = some ram → images ram = s
  live : ∀ ram, d.ram = some ram → ∀ p : Part, p.store.Live d.cells (ram.part p)

theorem Holds.shows {d : Device} {s : Committed} (h : Holds d s) : Shows d s := ⟨h.ram, h.found⟩

/-! ## Start-up -/

section Startup

variable {c c' : Chip} {s : Committed}

/-- **Start-up opens each of the components.** -/
theorem opens_part (p : Part) (h : ¬Marked c.cells) : p.store.Opens startup c := by
  have hR : Disjoint p.store.span p.store.spanᶜ := disjoint_compl_right
  have hnone : Driven p.store.spanᶜ (pure none : FlashM (Option Stores)) := .pure none
  have hrest (stores : Option Stores) : Driven p.store.spanᶜ (pure stores) := .pure stores
  have hopen (hopens : ∀ c', p.store.Opens openStores c') : p.store.Opens startup c := by
    refine .behind (steps_recover h) (Set.disjoint_empty _) fun status c' => .ite ?_ ?_
    · exact .of_driven (.pure _) hR
    · exact (hopens c').bind hR fun _ => .pure _
  have hskip {q : Part} (hq : p ≠ q) (c : Chip) {f : Status × q.store.Ram → FlashM (Option Stores)}
      (hf : ∀ r c', p.store.Opens (f r) c') : p.store.Opens (q.store.init >>= f) c :=
    .behind ((apart q hq).steps c) hR hf
  have hskipLog (c : Chip) {f : Status × HealthCheckLog.Ram → FlashM (Option Stores)}
      (hf : ∀ r c', p.store.Opens (f r) c') : p.store.Opens (HealthCheckLog.init >>= f) c :=
    .behind ((apart_log p).steps c) hR hf
  cases p with
  | trust | health | callback => exact opens_startup (by decide) h
  | credentials =>
    refine hopen fun c => hskip (q := .trust) (by decide) c fun _ c => .ite (.of_driven hnone hR) ?_
    refine hskip (q := .callback) (by decide) c fun _ c => .ite (.of_driven hnone hR) ?_
    refine hskip (q := .health) (by decide) c fun _ c => .ite (.of_driven hnone hR) ?_
    refine hskipLog c fun _ c => .ite (.of_driven hnone hR) ?_
    refine .bind .init hR fun _ => .ite hnone ?_
    exact (apart .users (by decide)).bind fun _ => .ite hnone (hrest _)
  | users =>
    refine hopen fun c => hskip (q := .trust) (by decide) c fun _ c => .ite (.of_driven hnone hR) ?_
    refine hskip (q := .callback) (by decide) c fun _ c => .ite (.of_driven hnone hR) ?_
    refine hskip (q := .health) (by decide) c fun _ c => .ite (.of_driven hnone hR) ?_
    refine hskipLog c fun _ c => .ite (.of_driven hnone hR) ?_
    refine hskip (q := .credentials) (by decide) c fun _ c => .ite (.of_driven hnone hR) ?_
    exact .bind .init hR fun _ => .ite hnone (hrest _)

/-- What start-up leaves of every component when it comes up. -/
theorem parts_live {ram : Ram} (hunmarked : ¬Marked c.cells)
    (hfound : ∀ p : Part, p.store.Finds c.cells (s p)) (hf : c.fates.Steady)
    (h : startup c = (some (some ram), c')) :
    ∀ p : Part, p.store.Live c'.cells (ram.part p) ∧ images ram p = s p := by
  have htied := startup_live hunmarked (fun p _ => hfound p) hf h
  have hrecovered := steps_recover hunmarked
  obtain ⟨stores, c₀, c₁, c₂, c₃, c₄, c₅, hrecover, htrust, hcallback, hhealth, hlog, hcredentials,
    husers, rfl⟩ := startup_eq_some h
  rw [hrecover] at hrecovered
  have hsteps (q : Part) {c c' : Chip} {r : Status × q.store.Ram}
      (h : q.store.init c = (some r, c')) : Steps q.store.span c c' := by
    have hsteps := q.lawful.init_driven.steps c
    rwa [h] at hsteps
  have hkept (p q : Part) (hne : p ≠ q) {c c' : Chip} (h : Steps q.store.span c c') :
      ∀ i ∈ p.store.span, c'.cells i = c.cells i := fun i hi =>
    h.outside i (Set.disjoint_left.1 (Part.disjoint hne) hi)
  have h₁ := hsteps .trust htrust
  have h₂ := hsteps .callback hcallback
  have h₃ := hsteps .health hhealth
  have h₄ := HealthCheckLog.driven_init.steps c₃
  have h₅ := hsteps .credentials hcredentials
  have h₆ := hsteps .users husers
  rw [hlog] at h₄
  have hcells : c₀.cells = c.cells := funext fun i => hrecovered.outside i (Set.notMem_empty i)
  rw [← hcells] at hfound
  have hf₄ : c₄.fates.Steady := hf.after (hrecovered.fates.trans (h₁.fates.trans (h₂.fates.trans
    (h₃.fates.trans h₄.fates))))
  -- The two components that are opened last find their banks as they were.
  have hlast (p : Part) (htrust : p ≠ .trust) (hcallback : p ≠ .callback) (hhealth : p ≠ .health) :
      p.store.Finds c₄.cells (s p) := by
    refine (hfound p).congr p.lawful p.local fun i hi => ?_
    rw [h₄.outside i (Set.disjoint_left.1 p.disjoint_log hi), hkept p .health hhealth h₃ i hi,
      hkept p .callback hcallback h₂ i hi, hkept p .trust htrust h₁ i hi]
  intro p
  cases p with
  | trust | health | callback => exact htied _ (by decide)
  | credentials =>
    obtain ⟨-, hlive, hsnapshot, -⟩ := (hlast .credentials (by decide) (by decide)
      (by decide)).loaded (Part.lawful .credentials) hf₄ hcredentials rfl
    exact ⟨hlive.congr (Part.lawful .credentials) Part.credentials.local
      (hkept .credentials .users (by decide) h₆), hsnapshot⟩
  | users =>
    have hbefore := (hlast .users (by decide) (by decide) (by decide)).congr (Part.lawful .users)
      Part.users.local (hkept .users .credentials (by decide) h₅)
    obtain ⟨-, hlive, hsnapshot, -⟩ := hbefore.loaded (Part.lawful .users) (hf₄.after h₅.fates)
      husers rfl
    exact ⟨hlive, hsnapshot⟩

/-- The log is started whatever its sectors hold. -/
theorem log_comes_up (hc : c.fates = {}) :
    ∃ ram c', HealthCheckLog.init c = (some (.ok, ram), c') ∧ c'.fates = {} := by
  obtain ⟨m, fates, log⟩ := c
  obtain rfl : fates = {} := hc
  have hscan (x : Bank) : HealthCheckLog.scanSector x ⟨m, {}, log⟩ =
      (some (HealthCheckLog.scanOf m x), ⟨m, {}, log⟩) :=
    (HealthCheckLog.observes_scanSector m x).calm
      (HealthCheckLog.driven_scanSector Set.univ x) log
  have hroll (x : Bank) (ram : HealthCheckLog.Ram) : ∃ ram' c',
      HealthCheckLog.initRoll x ram ⟨m, {}, log⟩ = (some (.ok, ram'), c') := by
    have hdriven := HealthCheckLog.driven_initRoll x ram
    obtain ⟨⟨status, ram'⟩, c', h⟩ := hdriven.returns ⟨m, {}, log⟩ rfl
    obtain ⟨c₁, -, -, hnone | ⟨-, hsome⟩, -⟩ := HealthCheckLog.rollToSector_cases x ram
      (c := ⟨m, {}, log⟩) Fates.steady_nil.erases
    · rw [HealthCheckLog.initRoll, bind_of_none hnone] at h
      cases h
    · exact ⟨_, c₁, bind_of_some hsome⟩
  have hfates := HealthCheckLog.driven_init.steps ⟨m, {}, log⟩
  have hinit : ∃ ram c', HealthCheckLog.init ⟨m, {}, log⟩ = (some (.ok, ram), c') := by
    rw [HealthCheckLog.init, bind_of_some (hscan .a), bind_of_some (hscan .b)]
    unfold HealthCheckLog.resume
    dsimp only
    split
    · exact hroll _ _
    · split <;> split
      · exact ⟨_, _, rfl⟩
      · exact hroll _ _
      · exact ⟨_, _, rfl⟩
      · exact hroll _ _
  obtain ⟨ram, c', hinit⟩ := hinit
  rw [hinit] at hfates
  exact ⟨ram, c', hinit, hfates.fates.of_nil⟩

/-- What start-up will find, when nothing goes wrong. -/
structure Findable (s : Committed) (c : Chip) : Prop where
  found : ∀ p : Part, p.store.Finds c.cells (s p)
  calm : c.fates = {}

theorem Findable.part (h : Findable s c) (p : Part) :
    ∃ ram c', p.store.init c = (some (.ok, ram), c') ∧ Findable s c' := by
  obtain ⟨⟨status, ram⟩, c', hinit⟩ := p.lawful.init_driven.returns c h.calm
  have hsteady : c.fates.Steady := h.calm ▸ Fates.steady_nil
  obtain ⟨rfl, hlive, hsnapshot, -⟩ := (h.found p).loaded p.lawful hsteady hinit rfl
  have hsteps := p.lawful.init_driven.steps c
  rw [hinit] at hsteps
  refine ⟨ram, c', hinit, fun q => ?_, (h.calm ▸ hsteps.fates).of_nil⟩
  by_cases hq : q = p
  · subst hq
    exact hsnapshot ▸ hlive.finds
  · exact (h.found q).congr q.lawful q.local fun i hi =>
      hsteps.outside i (Set.disjoint_left.1 (Part.disjoint hq) hi)

theorem Findable.log (h : Findable s c) :
    ∃ ram c', HealthCheckLog.init c = (some (.ok, ram), c') ∧ Findable s c' := by
  obtain ⟨ram, c', hinit, hcalm⟩ := log_comes_up h.calm
  have hsteps := HealthCheckLog.driven_init.steps c
  rw [hinit] at hsteps
  exact ⟨ram, c', hinit, fun p => (h.found p).congr p.lawful p.local fun i hi =>
    hsteps.outside i (Set.disjoint_left.1 p.disjoint_log hi), hcalm⟩

/-- **Start-up comes up.** -/
theorem startup_comes_up (hunmarked : ¬Marked c.cells) (h : Findable s c) :
    ∃ ram c', startup c = (some (some ram), c') := by
  obtain ⟨c₀, hrecover, hcells, hc₀⟩ := recover_calm hunmarked h.calm
  have h₀ : Findable s c₀ := ⟨fun p => by rw [hcells]; exact h.found p, hc₀⟩
  obtain ⟨trust, c₁, htrust, h₁⟩ := h₀.part .trust
  obtain ⟨callback, c₂, hcallback, h₂⟩ := h₁.part .callback
  obtain ⟨health, c₃, hhealth, h₃⟩ := h₂.part .health
  obtain ⟨log, c₄, hlog, h₄⟩ := h₃.log
  obtain ⟨credentials, c₅, hcredentials, h₅⟩ := h₄.part .credentials
  obtain ⟨users, c₆, husers, -⟩ := h₅.part .users
  have hopen : openStores c₀ =
      (some (some ⟨trust, callback, health, log, credentials, users⟩), c₆) := by
    unfold openStores
    refine (bind_of_some htrust).trans ((bind_of_some hcallback).trans ((bind_of_some hhealth).trans
      ((bind_of_some hlog).trans ((bind_of_some hcredentials).trans
        ((bind_of_some husers).trans ?_)))))
    rfl
  refine ⟨started ⟨trust, callback, health, log, credentials, users⟩, c₆, ?_⟩
  rw [startup, bind_of_some hrecover, if_neg (not_not_intro rfl), bind_of_some hopen]
  rfl

end Startup

/-! ## Events -/

section Events

variable {d : Device} {e : Event} {s : Committed}

/-- **An undisturbed start-up** comes up with everything that was committed. -/
theorem comes_up (h : Holds d s) :
    ∃ ram, (d.step (.boot {})).ram = some ram ∧ images ram = s := by
  obtain ⟨ram, c', hstartup⟩ := startup_comes_up (c := ⟨d.cells, {}, []⟩) h.unmarked ⟨h.found, rfl⟩
  refine ⟨ram, ?_, funext fun p => ?_⟩
  · change (startup ⟨d.cells, {}, []⟩).1.join = some ram
    rw [hstartup]
    rfl
  · exact (parts_live h.unmarked h.found Fates.steady_nil hstartup p).2

theorem holds_boot {fates : Fates} (h : Holds d s) (he : LossOnly d (.boot fates)) :
    Holds (d.step (.boot fates)) s := by
  have hsteady : fates.Steady := he.steady
  have hstarted : ∀ ram, (d.step (.boot fates)).ram = some ram → ∀ p : Part,
      p.store.Live (d.step (.boot fates)).cells (ram.part p) ∧ images ram p = s p := by
    intro ram hram
    have hstartup : startup ⟨d.cells, fates, []⟩ =
        (some (some ram), (startup ⟨d.cells, fates, []⟩).2) :=
      Prod.ext (Option.join_eq_some_iff.1 hram) rfl
    exact parts_live h.unmarked h.found hsteady hstartup
  refine ⟨unmarked_startup h.unmarked, fun p => ?_,
    fun ram hram => funext fun p => (hstarted ram hram p).2,
    fun ram hram p => (hstarted ram hram p).1⟩
  exact (opens_part p h.unmarked).finds p.lawful p.local (opens_part p h.unmarked) (h.found p)
    hsteady (he.torn p) (he.unspoilt p)

/-- A route comes to its end where its operation does, with the images behind it. -/
theorem drives_ends {p : Part} {op : p.store.Op} {ram : Ram} {x : Route} (h : Drives p op ram x)
    {c c' : Chip} {ok : Bool} {vars : p.store.Ram}
    (hexec : p.store.exec op (ram.part p) c = (some (ok, vars), c')) :
    ∃ r, x c = (some r, c') ∧
      (∀ q, images r.2 q = Function.update (images ram) p (p.store.snapshot vars) q) ∧
      r.2.part p = vars ∧ ∀ q ≠ p, r.2.part q = ram.part q := by
  have hvars := h.vars c
  have hchip := h.chip c
  rw [hexec] at hvars hchip
  obtain ⟨r, hr, hpart⟩ := Option.map_eq_some_iff.1 hvars
  have hx : x c = (some r, c') := Prod.ext hr hchip
  have hkept := (h.kept c r c' hx).parts
  refine ⟨r, hx, fun q => ?_, hpart, hkept⟩
  rw [images_eq hkept, show r.2.part p = vars from hpart]

/-- A route that is an operation of a component. -/
theorem holds_drives {env : Env} {request : Request} {body : Bytes} {fates : Fates} {ram : Ram}
    (h : Holds d s) (he : LossOnly d (.request env request body fates)) (hram : d.ram = some ram)
    {p : Part} {op : p.store.Op} (hop : Changes env request ram p op)
    (hdrives : Drives p op ram (dispatch env request body ram)) :
    ∃ t, Commits d (.request env request body fates) s t ∧
      Holds (d.step (.request env request body fates)) t := by
  have hsteady : fates.Steady := he.steady
  have hlasts := he.lasts env request body fates rfl ram hram p op hop
  have htorn := he.torn p
  have hspoilt := he.unspoilt p
  obtain rfl := h.ram ram hram
  simp only [step, hram, Event.calm, hdrives.chip] at htorn hspoilt
  rcases hexec : p.store.exec op (ram.part p) ⟨d.cells, fates, []⟩ with ⟨r, c'⟩
  rw [hexec] at htorn hspoilt
  obtain ⟨hdone, ok, vars, c'', hcalm, hcut⟩ := (h.live ram hram p).call p.lawful hlasts hsteady
    hexec htorn hspoilt
  obtain ⟨whole, hwhole, himages, -⟩ := drives_ends hdrives hcalm
  have hall : Commits d (.request env request body fates) (images ram) (images whole.2) := by
    refine .all ?_
    simp only [step, hram, Event.calm]
    exact congrArg (fun out => out.1.map Prod.snd) hwhole
  have hsteps := (p.store.driven_exec p.lawful op (ram.part p)).steps ⟨d.cells, fates, []⟩
  rw [hexec] at hsteps
  have hkept : ∀ q ≠ p, ∀ i ∈ q.store.span, c'.cells i = d.cells i := fun q hq i hi =>
    hsteps.outside i (Set.disjoint_left.1 (Part.disjoint hq) hi)
  have hunmarked : ¬Marked c'.cells := by
    rw [Marked.congr (kept_marker hsteps)]
    exact h.unmarked
  have hfound : ∀ t : Committed, p.store.Finds c'.cells (t p) → (∀ q ≠ p, t q = images ram q) →
      ∀ q : Part, q.store.Finds c'.cells (t q) := by
    intro t hp hothers q
    by_cases hq : q = p
    · subst hq
      exact hp
    · rw [hothers q hq]
      exact (h.found q).congr q.lawful q.local (hkept q hq)
  have hothers : ∀ q ≠ p, images whole.2 q = images ram q := fun q hq => by
    rw [himages, Function.update_of_ne hq]
  simp only [step, hram, hdrives.chip, hexec]
  rcases r with _ | ⟨ok', vars'⟩
  · -- Cut off: start-up will find the image from before, or the complete new one.
    have hnone : (dispatch env request body ram ⟨d.cells, fates, []⟩).1 = none := by
      have hvars := hdrives.vars ⟨d.cells, fates, []⟩
      rw [hexec] at hvars
      exact Option.map_eq_none_iff.1 hvars
    have hoff : ∀ ram' : Ram, (dispatch env request body ram ⟨d.cells, fates, []⟩).1.map Prod.snd ≠
        some ram' := by
      rw [hnone]
      exact fun _ hram' => by cases hram'
    rcases hcut rfl with hold | hnew
    · exact ⟨images ram, .nothing, hunmarked, hfound _ hold fun _ _ => rfl,
        fun ram' hram' => absurd hram' (hoff ram'), fun ram' hram' => absurd hram' (hoff ram')⟩
    · refine ⟨images whole.2, hall, hunmarked, hfound _ ?_ hothers,
        fun ram' hram' => absurd hram' (hoff ram'), fun ram' hram' => absurd hram' (hoff ram')⟩
      rw [himages, Function.update_self]
      exact hnew
  · obtain ⟨r, hr, himages', hpart, hsame⟩ := drives_ends hdrives hexec
    have hreliable := (p.store.driven_exec p.lawful op (ram.part p)).reliable
      ⟨d.cells, fates, []⟩ hsteady _ _ hexec
    obtain rfl : vars = vars' :=
      (Prod.mk.inj (Option.some.inj (Prod.mk.inj (hcalm.symm.trans hreliable)).1)).2
    have hlive : ∀ q : Part, q.store.Live c'.cells (r.2.part q) := by
      intro q
      by_cases hq : q = p
      · subst hq
        exact hpart ▸ hdone ok' _ rfl
      · rw [hsame q hq]
        exact (h.live ram hram q).congr q.lawful q.local (hkept q hq)
    have heq : images whole.2 = images r.2 := funext fun q => by rw [himages, himages']
    rw [hr]
    refine ⟨images r.2, heq ▸ hall, hunmarked, fun q => (hlive q).finds, fun ram' hram' => ?_,
      fun ram' hram' => ?_⟩
    · rw [← Option.some.inj hram']
    · rw [← Option.some.inj hram']
      exact hlive

theorem holds_request {env : Env} {request : Request} {body : Bytes} {fates : Fates}
    (h : Holds d s) (he : LossOnly d (.request env request body fates)) :
    ∃ t, Commits d (.request env request body fates) s t ∧
      Holds (d.step (.request env request body fates)) t := by
  cases hram : d.ram with
  | none =>
    refine ⟨s, .nothing, ?_⟩
    simp only [step, hram]
    exact h
  | some ram =>
    rcases (dispatch_effect env request body ram).changes with hstill | ⟨p, op, hop, hdrives⟩
    · have hsteps := hstill.driven.steps ⟨d.cells, fates, []⟩
      have hcells : (dispatch env request body ram ⟨d.cells, fates, []⟩).2.cells = d.cells :=
        funext fun i => hsteps.outside i (Set.notMem_empty i)
      have hparts : ∀ ram', (dispatch env request body ram ⟨d.cells, fates, []⟩).1.map Prod.snd =
          some ram' → ∀ p, ram'.part p = ram.part p := by
        intro ram' hram'
        obtain ⟨r, hr, rfl⟩ := Option.map_eq_some_iff.1 hram'
        exact hstill.parts _ r _ (Prod.ext hr rfl)
      refine ⟨s, .nothing, ?_⟩
      simp only [step, hram, hcells]
      refine ⟨h.unmarked, h.found, fun ram' hram' => ?_, fun ram' hram' p => ?_⟩
      · rw [← h.ram ram hram]
        exact funext fun p => by rw [images, hparts ram' hram', images]
      · rw [hparts ram' hram']
        exact h.live ram hram p
    · exact holds_drives h he hram hop hdrives

theorem holds_check (h : Holds d s) (check : Check) (fates : Fates) :
    Holds (d.step (.check check fates)) s := by
  cases hram : d.ram with
  | none =>
    simp only [step, hram]
    exact h
  | some ram =>
    have hdriven : Driven HealthCheckLog.region (checkResource check ram) :=
      (HealthCheckLog.driven_append ..).bind fun _ => .pure _
    have hsteps := hdriven.steps ⟨d.cells, fates, []⟩
    have hkept (p : Part) : ∀ i ∈ p.store.span,
        (checkResource check ram ⟨d.cells, fates, []⟩).2.cells i = d.cells i := fun i hi =>
      hsteps.outside i (Set.disjoint_left.1 p.disjoint_log hi)
    have hparts : ∀ ram', (checkResource check ram ⟨d.cells, fates, []⟩).1.map Prod.snd =
        some ram' → ∀ p, ram'.part p = ram.part p := by
      intro ram' hram' p
      obtain ⟨out, hout, rfl⟩ := Option.map_eq_some_iff.1 hram'
      obtain ⟨⟨status, entry, log⟩, c₁, -, hret⟩ := bind_eq_some.1 (Prod.ext hout rfl :
        checkResource check ram ⟨d.cells, fates, []⟩ = (some out, _))
      simp only [pure_apply, Prod.mk.injEq, Option.some.injEq] at hret
      rw [← hret.1]
      cases p <;> rfl
    simp only [step, hram]
    refine ⟨?_, fun p => (h.found p).congr p.lawful p.local (hkept p), fun ram' hram' => ?_,
      fun ram' hram' p => ?_⟩
    · rw [Marked.congr fun i hi => hsteps.outside i (marker_notMem_log hi)]
      exact h.unmarked
    · rw [← h.ram ram hram]
      exact funext fun p => by rw [images, hparts ram' hram', images]
    · rw [hparts ram' hram']
      exact (h.live ram hram p).congr p.lawful p.local (hkept p)

/-- **The specification can follow every event.** -/
theorem holds_step (h : Holds d s) (he : LossOnly d e) :
    ∃ t, Commits d e s t ∧ Holds (d.step e) t := by
  cases e with
  | boot fates => exact ⟨s, .nothing, holds_boot h he⟩
  | request env request body fates => exact holds_request h he
  | check check fates => exact ⟨s, .nothing, holds_check h check fates⟩
  | reset locked fates => exact he.steady.elim

theorem holds_start : Holds start fun p => p.store.factory where
  unmarked := not_marked_erased
  found p := .fresh p.lawful.fresh_erased rfl
  ram := nofun
  live := nofun

end Events

/-! ## Runs -/

/-- **Crash consistency**: along every run from erased flash, power being lost anywhere, the device
is what its requests have made of it, each done completely or not at all, and an undisturbed
start-up comes up with exactly that. -/
theorem crash_consistent {events : List Event} (h : Along step LossOnly start events) :
    ∃ s, Follows step Commits Shows start (fun p => p.store.factory) events s ∧
      (∀ ram, (run step start events).ram = some ram → images ram = s) ∧
      ∃ ram, ((run step start events).step (.boot {})).ram = some ram ∧ images ram = s := by
  have hstep : ∀ d e s, Holds d s → LossOnly d e → ∃ t, Commits d e s t ∧ Holds (d.step e) t :=
    fun _ _ _ => holds_step
  obtain ⟨s, hfollows, hholds⟩ := follows hstep (fun _ _ => Holds.shows) holds_start h
  exact ⟨s, hfollows, hholds.ram, comes_up hholds⟩

theorem lossOnly_masterRun : Along step LossOnly start masterRun :=
  losses_masterRun.mono fun _ _ ⟨hsteady, hparts, hlasts⟩ =>
    ⟨hsteady, fun p => (hparts p).1, fun p => (hparts p).2,
      fun _ _ _ _ _ ram hram p _ _ => hlasts ram hram p⟩

/-- The master loses power with a save, and with it nothing else. -/
theorem crash_consistent_master : ∃ s,
    Follows step Commits Shows start (fun p => p.store.factory) masterRun s ∧
      (∀ ram, (run step start masterRun).ram = some ram → images ram = s) ∧
      ∃ ram, ((run step start masterRun).step (.boot {})).ram = some ram ∧ images ram = s :=
  crash_consistent lossOnly_masterRun

end HealthCheck.Device
