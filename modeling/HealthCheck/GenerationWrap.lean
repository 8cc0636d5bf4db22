import HealthCheck.AnchorReferences
import HealthCheck.Api.OptionalMembers

/-!
# References when a generation runs out

The generation of a store is a counter of 32 bits. A configuration that is saved once more at the
last one starts again at zero, and start-up prefers the image from before, with the references that
it had then.

* `Worn` — a device whose health-check configuration was saved again and again.
* `worn_run` — it comes to every generation.
* `references_lost` — so a resource that was deleted at the last one comes back, without its anchor.
-/

namespace HealthCheck.Device

open Nor hiding read driven_read read_ok read_cases
open ApiService CString FactoryReset FlashLayout Run
open TwoBank hiding run_append

/-! ## Requests of the master -/

/-- A request of the master is handled, and nothing goes wrong. -/
def ask (method target : String) (body : Bytes) : Event :=
  .request masterEnv (masterRequest method target) body {}

theorem step_ask {d : Device} {ram ram' : Ram} {method target : String} {body : Bytes}
    {response : Response} {c' : Chip} (hram : d.ram = some ram)
    (h : dispatch masterEnv (masterRequest method target) body ram ⟨d.cells, {}, []⟩ =
      (some (response, ram'), c')) :
    d.step (ask method target body) = ⟨c'.cells, some ram', d.logged⟩ := by
  unfold step ask
  dsimp only
  rw [hram]
  dsimp only
  rw [h]
  rfl

/-- Nothing is torn by an event in which nothing goes wrong. -/
theorem powerOnly_calm {d : Device} {e : Event} (hcalm : e.calm = e) (hsteady : e.Steady)
    (h : ∀ p ∈ tied, ∃ x, p.store.valid (p.store.load d.cells x) = true) : PowerOnly d e where
  steady := hsteady
  torn _ _ _ _ := .inr (by rw [hcalm])
  unspoilt p hp := by
    obtain ⟨x, hx⟩ := h p hp
    exact Store.unspoilt_of_valid p.lawful hx

/-! ## A configuration that is saved again and again -/

/-- The request to set the period to what it is. -/
def setPeriod : Event := ask "PUT" "/api/v1/health-check/config" (periodBody 60)

/-- What the first start-up and the login leave. -/
structure Started (m : Cells) (ram : Ram) : Prop where
  sessions : ram.auth.sessions = masterSessions
  trust : TlsTrustStore.store.Live m ram.trust
  anchors : ram.trust.snapshot = TlsTrustStore.stamp TlsTrustStore.default
  callback : CallbackConfig.store.Live m ram.callback
  disabled : ram.callback.snapshot.config.enabled = 0
  others : ∀ p : Part, p.store.Stocked (fun _ => True) m
  log : HealthCheckLog.Idle m []
  unmarked : ¬Marked m

variable {m : Cells} {first : Ram} {health : HealthCheckConfig.Ram} {n : ℕ} {d : Device}

/-- Since then the period was set, and the health-check configuration is at generation `n`. -/
structure Worn (m : Cells) (first : Ram) (n : ℕ) (health : HealthCheckConfig.Ram) (d : Device) :
    Prop where
  ram : d.ram = some { first with health := health }
  live : HealthCheckConfig.store.Live d.cells health
  generation : HealthCheckConfig.store.generation health.snapshot = n
  resources : health.snapshot.resources =
    (HealthCheckConfig.stamp HealthCheckConfig.default).resources
  period : HealthCheckConfig.periodValid health.snapshot.periodSeconds = true
  elsewhere : ∀ i ∉ Part.health.store.span, d.cells i = m i

/-- Another component is as it was. -/
theorem Worn.other (h : Worn m first n health d) {p : Part} (hp : p ≠ .health) :
    ∀ i ∈ p.store.span, d.cells i = m i := fun i hi =>
  h.elsewhere i fun hhealth => Set.disjoint_left.1 (Part.disjoint hp) hi hhealth

/-- The components have valid images. -/
theorem Worn.valid (h : Worn m first n health d) (hstarted : Started m first) :
    ∀ p ∈ tied, ∃ x, p.store.valid (p.store.load d.cells x) = true := by
  intro p hp
  have hlazy := lazy_tied hp
  simp only [tied, List.mem_cons, List.not_mem_nil, or_false] at hp
  rcases hp with rfl | rfl | rfl
  · exact (hstarted.trust.congr Part.trust.lawful Part.trust.local
      (h.other (by decide))).valid hlazy
  · exact h.live.valid hlazy
  · exact (hstarted.callback.congr Part.callback.lawful Part.callback.local
      (h.other (by decide))).valid hlazy

/-- An edit of the configuration by the master. -/
theorem Worn.edit (h : Worn m first n health d) {op : HealthCheckConfig.Op}
    {candidate : HealthCheckConfig.Snapshot}
    (hedit : HealthCheckConfig.edited op health.snapshot = .ok candidate)
    (hperiod : HealthCheckConfig.periodValid candidate.periodSeconds = true) :
    ∃ health' c', HealthCheckConfig.apply op health ⟨d.cells, {}, []⟩ = (some (.ok, health'), c') ∧
      health'.snapshot = HealthCheckConfig.stamp candidate ∧
      HealthCheckConfig.exec op health ⟨d.cells, {}, []⟩ = (some (true, health'), c') ∧
      ∀ i ∉ Part.health.store.span, c'.cells i = m i := by
  obtain ⟨health', c', happly, hsnapshot⟩ :=
    HealthCheckConfig.apply_calm hedit hperiod d.cells []
  have hexec : HealthCheckConfig.exec op health ⟨d.cells, {}, []⟩ = (some (true, health'), c') :=
    bind_of_some happly
  have hsteps := (HealthCheckConfig.store.driven_exec HealthCheckConfig.lawful op health).steps
    ⟨d.cells, {}, []⟩
  have hcells : ∀ i ∉ Part.health.store.span, c'.cells i = d.cells i := by
    intro i hi
    have houtside := hsteps.outside i hi
    change (HealthCheckConfig.exec op health ⟨d.cells, {}, []⟩).2.cells i = d.cells i at houtside
    rwa [hexec] at houtside
  exact ⟨health', c', happly, hsnapshot, hexec, fun i hi => (hcells i hi).trans (h.elsewhere i hi)⟩

theorem worn_step (h : Worn m first n health d) (hstarted : Started m first) (hn : n + 1 < 2 ^ 32) :
    ∃ health', Worn m first (n + 1) health' (d.step setPeriod) := by
  have hperiod : HealthCheckConfig.periodValid 60 = true := by decide
  have hedit : HealthCheckConfig.edited (.setPeriodSeconds 60) health.snapshot =
      .ok { health.snapshot with periodSeconds := 60 } := by
    rw [HealthCheckConfig.edited, hperiod]
    rfl
  obtain ⟨health', c', happly, hsnapshot, hexec, helsewhere⟩ := h.edit hedit hperiod
  have hgeneration : HealthCheckConfig.store.generation (HealthCheckConfig.stamp
      { health.snapshot with periodSeconds := 60 }) = n + 1 := by
    have hnext := (HealthCheckConfig.commits_edited hedit).generation
    change _ = (HealthCheckConfig.store.generation health.snapshot + 1) % 2 ^ 32 at hnext
    rw [hnext, h.generation, Nat.mod_eq_of_lt hn]
  obtain ⟨hlive, -⟩ := live_done HealthCheckConfig.lawful (HealthCheckConfig.commits_edited hedit)
    h.live (hgeneration.trans (congrArg (· + 1) h.generation.symm)) hexec
  obtain ⟨principal, hprincipal, hrole⟩ : Administrator masterEnv
      (masterRequest "PUT" "/api/v1/health-check/config") { first with health := health } :=
    administrator_master rfl hstarted.sessions
  have hnumber : jsonNumber (cstr (periodBody 60)) (ascii "period_seconds") = some 60 := by
    decide +kernel
  have hdispatch : ∃ response, dispatch masterEnv
      (masterRequest "PUT" "/api/v1/health-check/config") (periodBody 60)
      { first with health := health } ⟨d.cells, {}, []⟩ =
        (some (response, { first with health := health' }), c') := by
    rw [dispatch_putHealthCheckConfig (by decide), guarded_of_administrator hprincipal hrole,
      putHealthCheckConfig, hnumber]
    exact ⟨_, bind_of_some happly⟩
  obtain ⟨response, hdispatch⟩ := hdispatch
  refine ⟨health', ?_⟩
  rw [setPeriod, step_ask h.ram hdispatch]
  refine ⟨rfl, hlive, ?_, ?_, ?_, helsewhere⟩
  · rw [hsnapshot, hgeneration]
  · rw [hsnapshot]
    exact h.resources
  · rw [hsnapshot]
    exact hperiod

theorem worn_run (h : Worn m first n health d) (hstarted : Started m first) {k : ℕ}
    (hk : n + k < 2 ^ 32) : Along step PowerOnly d (List.replicate k setPeriod) ∧
      ∃ health', Worn m first (n + k) health' (run step d (List.replicate k setPeriod)) := by
  induction k generalizing n health d with
  | zero => exact ⟨trivial, health, h⟩
  | succ k ih =>
    obtain ⟨health', hstep⟩ := worn_step h hstarted (by omega)
    obtain ⟨halong, health'', hrun⟩ := ih hstep (by omega)
    refine ⟨⟨powerOnly_calm rfl Fates.steady_nil (h.valid hstarted), halong⟩, health'', ?_⟩
    rw [← Nat.add_assoc, Nat.add_right_comm]
    exact hrun

/-! ## The last generation -/

def dropResource : Event := ask "DELETE" "/api/v1/health-check/resources/0" []

def dropAnchor : Event := ask "DELETE" "/api/v1/trust-anchors/0" []

/-- Start-up will find the anchors of `trust`, and the resources of `old`. -/
structure Wrapped (m : Cells) (old : HealthCheckConfig.Snapshot) (trust : TlsTrustStore.Ram)
    (cells : Cells) : Prop where
  trust : TlsTrustStore.store.Live cells trust
  health : ∃ x, HealthCheckConfig.store.Top cells x ∧ HealthCheckConfig.store.load cells x = old
  elsewhere : ∀ i, i ∉ Part.health.store.span → i ∉ Part.trust.store.span → cells i = m i

variable {old : HealthCheckConfig.Snapshot} {trust : TlsTrustStore.Ram} {cells : Cells}

theorem Wrapped.other (h : Wrapped m old trust cells) {p : Part} (hhealth : p ≠ .health)
    (htrust : p ≠ .trust) : ∀ i ∈ p.store.span, cells i = m i := fun i hi =>
  h.elsewhere i (Set.disjoint_left.1 (Part.disjoint hhealth) hi)
    (Set.disjoint_left.1 (Part.disjoint htrust) hi)

theorem Wrapped.valid (h : Wrapped m old trust cells) (hstarted : Started m first) :
    ∀ p ∈ tied, ∃ x, p.store.valid (p.store.load cells x) = true := by
  intro p hp
  have hlazy := lazy_tied hp
  simp only [tied, List.mem_cons, List.not_mem_nil, or_false] at hp
  rcases hp with rfl | rfl | rfl
  · exact h.trust.valid hlazy
  · obtain ⟨x, htop, -⟩ := h.health
    exact ⟨x, htop.1⟩
  · exact (hstarted.callback.congr Part.callback.lawful Part.callback.local
      (h.other (by decide) (by decide))).valid hlazy

/-- The first resource is deleted at the last generation. -/
theorem wraps (h : Worn m first (2 ^ 32 - 1) health d) (hstarted : Started m first) :
    ∃ health', (d.step dropResource).ram = some { first with health := health' } ∧
      (∀ i (h : i < HealthCheckConfig.maxResources),
        health'.snapshot.resources[i].occupied = 0) ∧
      Wrapped m health.snapshot first.trust (d.step dropResource).cells := by
  have hindex : 0 < HealthCheckConfig.maxResources := by decide
  have hapart : Part.trust ≠ .health := by decide
  have hoccupied : health.snapshot.resources[0].occupied ≠ 0 := by
    simp only [h.resources]
    exact (by decide : (1 : UInt8) ≠ 0)
  have hedit : HealthCheckConfig.edited (.deleteResource 0) health.snapshot =
      .ok { health.snapshot with
        resources := health.snapshot.resources.set 0 HealthCheckConfig.zeroResource } := by
    rw [HealthCheckConfig.edited, dif_pos hindex, if_neg hoccupied]
  obtain ⟨health', c', happly, hsnapshot, hexec, helsewhere⟩ := h.edit hedit h.period
  have hlast : HealthCheckConfig.store.generation health.snapshot + 1 = 2 ^ 32 :=
    congrArg (· + 1) h.generation
  have htop := h.live.wrapped HealthCheckConfig.lawful hlast
    (HealthCheckConfig.commits_edited hedit) hexec
  obtain ⟨principal, hprincipal, hrole⟩ : Administrator masterEnv
      (masterRequest "DELETE" "/api/v1/health-check/resources/0") { first with health := health } :=
    administrator_master rfl hstarted.sessions
  have hdispatch : ∃ response, dispatch masterEnv
      (masterRequest "DELETE" "/api/v1/health-check/resources/0") []
      { first with health := health } ⟨d.cells, {}, []⟩ =
        (some (response, { first with health := health' }), c') := by
    have hbegins : ascii Collection.resources.path <+:
        (masterRequest "DELETE" "/api/v1/health-check/resources/0").path := by decide
    rw [dispatch_deletion rfl hbegins hprincipal hrole]
    exact ⟨_, bind_of_some happly⟩
  obtain ⟨response, hdispatch⟩ := hdispatch
  refine ⟨health', ?_⟩
  rw [dropResource, step_ask h.ram hdispatch]
  refine ⟨rfl, fun i hi => ?_, ?_, htop, fun i hhealth _ => helsewhere i hhealth⟩
  · rw [hsnapshot]
    show (health.snapshot.resources.set 0 HealthCheckConfig.zeroResource)[i].occupied = 0
    simp only [Vector.getElem_set, h.resources]
    split
    · rfl
    · by_contra hne
      exact absurd (default_slot hi hne).1.symm ‹_›
  · exact hstarted.trust.congr Part.trust.lawful Part.trust.local fun i hi =>
      helsewhere i (Set.disjoint_left.1 (Part.disjoint hapart) hi)

/-- And now its anchor. -/
theorem unanchors (hram : d.ram = some { first with health := health })
    (hfree : ∀ i (h : i < HealthCheckConfig.maxResources),
      health.snapshot.resources[i].occupied = 0)
    (h : Wrapped m old first.trust d.cells) (hstarted : Started m first) :
    ∃ trust, TlsTrustStore.anchors trust.snapshot 0 = none ∧
      Wrapped m old trust (d.step dropAnchor).cells := by
  have hapart : Part.health ≠ .trust := by decide
  have hexists : TlsTrustStore.anchorExists 0 first.trust = true := by
    rw [anchorExists_iff, hstarted.anchors, TlsTrustStore.anchors_default]
    exact Option.some_ne_none _
  have hwell : first.trust.snapshot.anchors.toList.all TlsTrustStore.Anchor.wellFormed = true :=
    TlsTrustStore.all_wellFormed (TlsTrustStore.valid_of_live hstarted.trust).1
  obtain ⟨trust, c', hdelete, hanchors⟩ : ∃ trust c', TlsTrustStore.delete 0 first.trust
      ⟨d.cells, {}, []⟩ = (some (.ok, trust), c') ∧ TlsTrustStore.anchors trust.snapshot 0 = none :=
    delete_calm hexists hwell
  have hexec : TlsTrustStore.store.exec (.delete 0) first.trust ⟨d.cells, {}, []⟩ =
      (some (true, trust), c') := by
    have happly : TlsTrustStore.apply (.delete 0) first.trust ⟨d.cells, {}, []⟩ = _ := hdelete
    exact bind_of_some happly
  have hlive : TlsTrustStore.store.Live c'.cells trust := by
    have hgeneration : TlsTrustStore.store.generation first.trust.snapshot + 1 < 2 ^ 32 := by
      rw [hstarted.anchors]
      exact (by decide : 1 + 1 < 2 ^ 32)
    have htorn : Torn (S := TlsTrustStore.store) d.cells c'.cells
        (TlsTrustStore.store.exec (.delete 0) first.trust ⟨d.cells, {}, []⟩).2.cells :=
      fun _ _ => .inr (by rw [hexec])
    obtain ⟨x, hx⟩ := h.trust.valid rfl
    exact (h.trust.call (c := ⟨d.cells, {}, []⟩) TlsTrustStore.lawful hgeneration
      Fates.steady_nil hexec htorn (Store.unspoilt_of_valid TlsTrustStore.lawful hx)).1 _ _ rfl
  have hsteps := (TlsTrustStore.store.driven_exec TlsTrustStore.lawful (.delete 0)
    first.trust).steps ⟨d.cells, {}, []⟩
  rw [hexec] at hsteps
  have hunused : isTrustAnchorInUse 0 { first with health := health } = false := by
    rw [isTrustAnchorInUse, Bool.or_eq_false_iff]
    constructor
    · rw [HealthCheckConfig.isTrustAnchorInUse, List.any_eq_false]
      intro r hr
      obtain ⟨i, hi, rfl⟩ := Vector.getElem_of_mem (Vector.mem_toList_iff.1 hr)
      simp [hfree i hi]
    · simp [CallbackConfig.isTrustAnchorInUse, CallbackConfig.get, hstarted.disabled]
  obtain ⟨principal, hprincipal, hrole⟩ : Administrator masterEnv
      (masterRequest "DELETE" "/api/v1/trust-anchors/0") { first with health := health } :=
    administrator_master rfl hstarted.sessions
  have hdispatch : ∃ response, dispatch masterEnv
      (masterRequest "DELETE" "/api/v1/trust-anchors/0") []
      { first with health := health } ⟨d.cells, {}, []⟩ =
        (some (response, { first with health := health, trust := trust }), c') := by
    have hbegins : ascii Collection.anchors.path <+:
        (masterRequest "DELETE" "/api/v1/trust-anchors/0").path := by decide
    rw [dispatch_deletion rfl hbegins hprincipal hrole]
    show ∃ response, deleteTrustAnchor 0 { first with health := health } ⟨d.cells, {}, []⟩ = _
    rw [deleteTrustAnchor, if_neg (by rw [hunused]; decide)]
    exact ⟨_, bind_of_some hdelete⟩
  obtain ⟨response, hdispatch⟩ := hdispatch
  refine ⟨trust, hanchors, ?_⟩
  rw [dropAnchor, step_ask hram hdispatch]
  refine ⟨hlive, ?_, fun i hhealth htrust => ?_⟩
  · obtain ⟨x, htop, hload⟩ := h.health
    have hkept : ∀ i ∈ HealthCheckConfig.store.span, c'.cells i = d.cells i := fun i hi =>
      hsteps.outside i (Set.disjoint_left.1 (Part.disjoint hapart) hi)
    exact ⟨x, htop.congr HealthCheckConfig.lawful hkept,
      (Store.load_eq HealthCheckConfig.lawful hkept x).trans hload⟩
  · exact (hsteps.outside i htrust).trans (h.elsewhere i hhealth htrust)

/-- What start-up comes up with. -/
theorem restarts (h : Wrapped m old trust d.cells) (hstarted : Started m first) :
    ∃ ram, (d.step (.boot {})).ram = some ram ∧ ram.health.snapshot = old ∧
      ram.trust.snapshot = trust.snapshot := by
  have hopened : Opened (fun _ _ => True) (fun _ => none) d.cells := by
    refine fun p => ⟨fun _ => ?_, nofun⟩
    by_cases hp : p ∈ tied
    · exact ⟨fun _ _ => trivial, .inl (h.valid hstarted p hp)⟩
    · exact (hstarted.others p).congr p.lawful p.local
        (h.other (fun heq => hp (heq ▸ by decide)) fun heq => hp (heq ▸ by decide))
  have hmarker : ∀ i ∈ markerRegion, d.cells i = m i := fun i hi =>
    h.elsewhere i (fun hspan => Set.disjoint_left.1 (Part.disjoint_marker .health) hspan hi)
      fun hspan => Set.disjoint_left.1 (Part.disjoint_marker .trust) hspan hi
  have hlog : ∀ i ∈ HealthCheckLog.region, d.cells i = m i := fun i hi =>
    h.elsewhere i (fun hspan => Set.disjoint_left.1 (Part.disjoint_log .health) hspan hi)
      fun hspan => Set.disjoint_left.1 (Part.disjoint_log .trust) hspan hi
  have hunmarked : ¬Marked d.cells := by
    rw [Marked.congr hmarker]
    exact hstarted.unmarked
  obtain ⟨ram, c', hstartup, -⟩ := startup_calm (c := ⟨d.cells, {}, []⟩) hopened
    (fun _ => trivial) hunmarked (hstarted.log.elsewhere hlog) trivial (by decide) rfl
  have hfinds : ∀ p ∈ tied, p.store.Finds d.cells (Function.update (Function.update (images first)
      .health old) .trust trust.snapshot p) := by
    intro p hp
    simp only [tied, List.mem_cons, List.not_mem_nil, or_false] at hp
    rcases hp with rfl | rfl | rfl
    · exact h.trust.finds
    · obtain ⟨x, htop, hload⟩ := h.health
      exact .stored x htop hload
    · exact (hstarted.callback.congr Part.callback.lawful Part.callback.local
        (h.other (by decide) (by decide))).finds
  have hlive := startup_live (c := ⟨d.cells, {}, []⟩) hunmarked hfinds Fates.steady_nil hstartup
  refine ⟨ram, ?_, (hlive .health (by decide)).2, (hlive .trust (by decide)).2⟩
  unfold step
  dsimp only
  rw [hstartup]
  rfl

/-! ## The run -/

theorem run_master : ∃ ram c', startup ⟨fun _ => 0xFF, {}, []⟩ = (some (some ram), c') ∧
    run step start [.boot {}, masterLogin] =
      ⟨c'.cells, some { ram with auth := ⟨masterSessions, ram.auth.users⟩ }, []⟩ := by
  obtain ⟨ram, c', hstartup, -⟩ := startup_erased (P := fun _ _ => True) fun _ => trivial
  have hboot : start.step (.boot {}) = ⟨c'.cells, some ram, []⟩ := by
    unfold step
    dsimp only [start]
    rw [hstartup]
    rfl
  refine ⟨ram, c', hstartup, ?_⟩
  rw [run, List.foldl_cons, List.foldl_cons, List.foldl_nil, hboot,
    step_masterLogin rfl (startup_users hstartup).1]

/-- The first start-up and the login. -/
theorem started_master : ∃ m first health, Started m first ∧
    Worn m first 1 health (run step start [.boot {}, masterLogin]) := by
  obtain ⟨ram, c', hstartup, hrun⟩ := run_master
  obtain ⟨ram', c'', hstartup', hopened, hunmarked, hlog⟩ :=
    startup_erased (P := fun p image => image = p.store.factory) fun _ => rfl
  obtain ⟨hsame, rfl⟩ : some (some ram') = some (some ram) ∧ c'' = c' :=
    Prod.mk.inj (hstartup'.symm.trans hstartup)
  obtain rfl : ram' = ram := Option.some.inj (Option.some.inj hsame)
  have hlive := startup_live (c := ⟨fun _ => 0xFF, {}, []⟩) not_marked_erased
    (fun p _ => .fresh p.lawful.fresh_erased rfl) Fates.steady_nil hstartup
  have hhealth : ram'.health.snapshot = HealthCheckConfig.stamp HealthCheckConfig.default :=
    (hlive .health (by decide)).2
  have hcallback : ram'.callback.snapshot = CallbackConfig.stamp CallbackConfig.default :=
    (hlive .callback (by decide)).2
  refine ⟨c''.cells, { ram' with auth := ⟨masterSessions, ram'.auth.users⟩ }, ram'.health, ⟨rfl,
    (hlive .trust (by decide)).1, (hlive .trust (by decide)).2, (hlive .callback (by decide)).1,
    by rw [hcallback]; rfl, fun p => ?_, hlog.idle, hunmarked⟩, ?_⟩
  · exact ⟨fun _ _ => trivial, (((hopened p).2 _ rfl).stocked p.local).found⟩
  · rw [hrun]
    refine ⟨rfl, (hlive .health (by decide)).1, ?_, ?_, ?_, fun _ _ => rfl⟩
    · rw [hhealth]
      rfl
    · rw [hhealth]
    · rw [hhealth]
      decide

/-- The first start-up and the login go as they should. -/
theorem powerOnly_master : Along step PowerOnly start [.boot {}, masterLogin] :=
  ⟨powerOnly_first, powerOnly_calm rfl Fates.steady_nil valid_first, trivial⟩

/-- What was deleted at the last generation is found again. -/
theorem comes_back {events : List Event} (hevents : Along step PowerOnly start events)
    (hworn : Worn m first (2 ^ 32 - 1) health (run step start events))
    (hstarted : Started m first) :
    ∃ later ram, Along step PowerOnly start (events ++ later) ∧
      (run step start (events ++ later)).ram = some ram ∧ ¬References ram := by
  obtain ⟨health', hram, hfree, hwrapped⟩ := wraps hworn hstarted
  obtain ⟨trust, hgone, hunanchored⟩ := unanchors hram hfree hwrapped hstarted
  obtain ⟨ram, hrestarted, hhealth, htrust⟩ := restarts hunanchored hstarted
  have hlater : Along step PowerOnly (run step start events)
      [dropResource, dropAnchor, .boot {}] :=
    ⟨powerOnly_calm rfl Fates.steady_nil (hworn.valid hstarted),
      powerOnly_calm rfl Fates.steady_nil (hwrapped.valid hstarted),
      powerOnly_calm rfl Fates.steady_nil (hunanchored.valid hstarted), trivial⟩
  refine ⟨[dropResource, dropAnchor, .boot {}], ram, along_append.2 ⟨hevents, hlater⟩, ?_,
    fun hreferences => ?_⟩
  · rw [run_append]
    exact hrestarted
  · have hback : ram.health.snapshot.resources[0] = HealthCheckConfig.defaultResource := by
      simp only [hhealth, hworn.resources]
      rfl
    have hexists := hreferences.resources 0 (by decide) (by rw [hback]; decide)
    rw [hback, anchorExists_iff, htrust] at hexists
    exact hexists hgone

/-- **References are lost** when a generation has run out: the master sets the period of the
health checks until their configuration is at its last generation, deletes the resource of the
compiled default and then its anchor. After the next start-up the resource is back. -/
theorem references_lost : ¬∀ events, Along step PowerOnly start events → ∀ ram,
    (run step start events).ram = some ram → References ram := by
  intro hheld
  obtain ⟨m, first, health₀, hstarted, hworn₀⟩ := started_master
  obtain ⟨halong, health, hworn⟩ := worn_run (k := 2 ^ 32 - 2) hworn₀ hstarted (by decide)
  rw [← run_append] at hworn
  obtain ⟨later, ram, hevents, hram, hlost⟩ :=
    comes_back (along_append.2 ⟨powerOnly_master, halong⟩) hworn hstarted
  exact hlost (hheld _ hevents ram hram)

end HealthCheck.Device
