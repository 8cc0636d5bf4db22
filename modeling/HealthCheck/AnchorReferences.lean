import HealthCheck.Lib.StoreRecovery
import HealthCheck.MasterSession
import HealthCheck.StoredConfigurations
import HealthCheck.TlsTrustAnchors

/-!
# References to trust anchors

Health-check resources and the callback name the anchor that their connections are checked against.
The anchors, the resources and the callback are in different stores, each saved on its own, and only
the routes see to it that what is named is there.

* `Referential` — every anchor that is named is held.
* `Device.Consistent` — so it is in a running device, and in what start-up will find.
* `Device.references_hold` — in every state reached, while no generation runs out.
-/

namespace HealthCheck

open Nor hiding read driven_read read_ok read_cases
open ApiService CString FactoryReset FlashLayout Run TwoBank

/-! ## The references -/

/-- The resources or the callback name the anchor. -/
def Names (health : HealthCheckConfig.Snapshot) (callback : CallbackConfig.Snapshot) (id : UInt8) :
    Prop :=
  (∃ (i : ℕ) (h : i < HealthCheckConfig.maxResources), health.resources[i].occupied ≠ 0 ∧
    health.resources[i].trustAnchorId = id) ∨
  callback.config.enabled ≠ 0 ∧ callback.config.trustAnchorId = id

/-- Every anchor that is named is held. -/
def Referential (trust : TlsTrustStore.Snapshot) (health : HealthCheckConfig.Snapshot)
    (callback : CallbackConfig.Snapshot) : Prop :=
  ∀ id, Names health callback id → TlsTrustStore.anchors trust id.toNat ≠ none

section Edits

variable {trust' : TlsTrustStore.Snapshot} {health' : HealthCheckConfig.Snapshot}
  {callback' : CallbackConfig.Snapshot} {ram : Ram}

theorem anchorExists_iff {id : ℕ} {ram : TlsTrustStore.Ram} :
    TlsTrustStore.anchorExists id ram = true ↔ TlsTrustStore.anchors ram.snapshot id ≠ none := by
  rw [TlsTrustStore.anchorExists_eq, Option.isSome_iff_ne_none]

/-- The check before a deletion. -/
theorem not_names_of_unused {id : ℕ} (h : isTrustAnchorInUse id ram = false) {id' : UInt8}
    (hid : id'.toNat = id) : ¬Names ram.health.snapshot ram.callback.snapshot id' := by
  obtain rfl : UInt8.ofNat id = id' := by rw [← hid, UInt8.ofNat_toNat]
  rw [isTrustAnchorInUse, Bool.or_eq_false_iff] at h
  rintro (⟨i, hi, hoccupied, hanchor⟩ | ⟨henabled, hanchor⟩)
  · refine absurd h.1 (Bool.not_eq_false _ ▸ List.any_eq_true.2 ⟨_, Vector.mem_toList_iff.2
      (Vector.getElem_mem hi), ?_⟩)
    simp [hoccupied, hanchor]
  · refine absurd h.2 ?_
    simp [CallbackConfig.isTrustAnchorInUse, CallbackConfig.get, henabled, hanchor]

/-- An operation of the trust store takes away no anchors but those it deletes. -/
theorem effect_ne_none {op : TlsTrustStore.Op} {m : TlsTrustStore.Anchors} {id : ℕ}
    (h : m id ≠ none) (hdelete : op ≠ .delete id) (hreset : op ≠ .reset) :
    op.effect m id ≠ none := by
  have hupdate : ∀ (id' : ℕ) (certificate : TlsTrustStore.Certificate),
      Function.update m id' (some certificate) id ≠ none := by
    intro id' certificate
    by_cases hid : id = id'
    · rw [hid, Function.update_self]
      exact Option.some_ne_none _
    · rwa [Function.update_of_ne hid]
  cases op with
  | add der mbed =>
    simp only [TlsTrustStore.Op.effect]
    rcases TlsTrustStore.lowestFree m with _ | id'
    · exact h
    · rcases TlsTrustStore.certificate der mbed with _ | certificate
      · exact h
      · exact hupdate id' certificate
  | replace id' der mbed =>
    simp only [TlsTrustStore.Op.effect]
    rcases m id' with _ | old
    · exact h
    · rcases TlsTrustStore.certificate der mbed with _ | certificate
      · exact h
      · exact hupdate id' certificate
  | delete id' =>
    have hid : id ≠ id' := fun heq => hdelete (heq ▸ rfl)
    simp only [TlsTrustStore.Op.effect]
    rwa [Function.update_of_ne hid]
  | reset => exact absurd rfl hreset

theorem lt_of_anchors {s : TlsTrustStore.Snapshot} {id : ℕ}
    (h : TlsTrustStore.anchors s id ≠ none) : id < TlsTrustStore.maxAnchors := by
  by_contra hid
  refine h (TlsTrustStore.anchors_eq_none.2 fun a ha => ?_)
  rw [Vector.getElem?_eq_none (not_lt.1 hid)] at ha
  cases ha

/-- The references behind an operation of the trust store that a request asks for. -/
theorem Referential.of_trust {env : Env} {request : Request} {op : TlsTrustStore.Op}
    (h : Referential ram.trust.snapshot ram.health.snapshot ram.callback.snapshot)
    (hop : TrustAsked env request ram op)
    (heffect : TlsTrustStore.anchors trust' = TlsTrustStore.anchors ram.trust.snapshot ∨
      TlsTrustStore.anchors trust' = op.effect (TlsTrustStore.anchors ram.trust.snapshot)) :
    Referential trust' ram.health.snapshot ram.callback.snapshot := by
  intro id hnames
  have hheld := h id hnames
  rcases heffect with hsame | hnew
  · rwa [hsame]
  · rw [hnew]
    refine effect_ne_none hheld ?_ ?_
    · rintro rfl
      exact not_names_of_unused hop.2.2 rfl hnames
    · rintro rfl
      have hle : id.toNat ≤ TlsTrustStore.maxPersisted := Nat.le_of_lt_succ (lt_of_anchors hheld)
      exact not_names_of_unused (hop.2 _ hle) rfl hnames

/-- An edit of the resources adds no name but one that was checked. -/
theorem Referential.of_health {request : Request} {op : HealthCheckConfig.Op}
    (h : Referential ram.trust.snapshot ram.health.snapshot ram.callback.snapshot)
    (hop : HealthAsked request ram op)
    (hedit : HealthCheckConfig.edited op ram.health.snapshot = .ok health') :
    Referential ram.trust.snapshot health' ram.callback.snapshot := by
  rcases HealthCheckConfig.edited_ok hedit with ⟨periodSeconds, -, -, rfl⟩ |
    ⟨index, hindex, slot, -, hmakes, rfl⟩
  · exact h
  have hslot : slot.occupied ≠ 0 → TlsTrustStore.anchors ram.trust.snapshot
      slot.trustAnchorId.toNat ≠ none := by
    intro hoccupied
    cases op with
    | setPeriodSeconds => exact hmakes.elim
    | addResource host port path enabled trustAnchorId =>
      obtain ⟨-, -, rfl⟩ := hmakes
      exact anchorExists_iff.1 hop.2.2.2
    | updateResource index' host port path enabled trustAnchorId =>
      obtain ⟨-, -, rfl⟩ := hmakes
      exact anchorExists_iff.1 hop.2.2.1
    | deleteResource index' =>
      obtain ⟨-, rfl⟩ := hmakes
      exact absurd rfl hoccupied
  rintro id (⟨i, hi, hoccupied, rfl⟩ | hcallback)
  · rw [Vector.getElem_set] at hoccupied ⊢
    split at hoccupied
    · rw [if_pos ‹_›]
      exact hslot hoccupied
    · rw [if_neg ‹_›]
      exact h _ (.inl ⟨i, hi, hoccupied, rfl⟩)
  · exact h id (.inr hcallback)

theorem Referential.of_callback
    (h : Referential ram.trust.snapshot ram.health.snapshot ram.callback.snapshot)
    (hanchor : Anchored callback'.config.trustAnchorId ram) :
    Referential ram.trust.snapshot ram.health.snapshot callback' := by
  rintro id (hresource | ⟨-, rfl⟩)
  · exact h id (.inl hresource)
  · exact anchorExists_iff.1 hanchor

end Edits

/-! ## The stores behind them -/

namespace Device

/-- The components that name anchors, and the one that holds them. -/
def tied : List Part := [.trust, .health, .callback]

/-- They save their default when they are started for the first time. -/
theorem lazy_tied {p : Part} (hp : p ∈ tied) : p.store.lazy = false := by
  simp only [tied, List.mem_cons, List.not_mem_nil, or_false] at hp
  rcases hp with rfl | rfl | rfl <;> rfl

/-- The references of one image for each component. -/
def Bound (images : (p : Part) → p.store.Image) : Prop :=
  Referential (images .trust) (images .health) (images .callback)

/-- The images in RAM. -/
def images (ram : Ram) (p : Part) : p.store.Image := p.store.snapshot (ram.part p)

/-- The anchors behind an operation of the trust store. -/
theorem trust_exec {op : TlsTrustStore.Op} {ram ram' : TlsTrustStore.Ram} {c c' : Chip} {ok : Bool}
    (hlive : TlsTrustStore.store.Live c.cells ram) (hreads : c.fates.ReadsSucceed)
    (h : TlsTrustStore.store.exec op ram c = (some (ok, ram'), c')) :
    TlsTrustStore.anchors ram'.snapshot = TlsTrustStore.anchors ram.snapshot ∨
      TlsTrustStore.anchors ram'.snapshot = op.effect (TlsTrustStore.anchors ram.snapshot) := by
  cases ok with
  | true =>
    obtain ⟨status, happly, hok⟩ := TlsTrustStore.exec_eq_some h
    obtain rfl : status = .ok := of_decide_eq_true hok.symm
    exact .inr (TlsTrustStore.apply_ok happly).1
  | false =>
    refine .inl (congrArg TlsTrustStore.anchors ?_)
    cases TlsTrustStore.lawful.shape op ram with
    | idle ok ram₁ hx hsnap _ =>
      rw [hx, pure_apply] at h
      obtain rfl : ram₁ = ram' := (Prod.mk.inj (Option.some.inj (Prod.mk.inj h).1)).2
      exact hsnap
    | commits image hx => exact (hx.failed _ _ _ hlive hreads h).1

/-- **An operation that a request asks for keeps the references**, to its end. -/
theorem bound_exec {env : Env} {request : Request} {ram : Ram} (h : Bound (images ram)) {p : Part}
    {op : p.store.Op} (hop : Changes env request ram p op) {c c' : Chip} {ok : Bool}
    {vars : p.store.Ram} (hlive : p = .trust → p.store.Live c.cells (ram.part p))
    (hreads : c.fates.ReadsSucceed)
    (hexec : p.store.exec op (ram.part p) c = (some (ok, vars), c')) :
    Bound (Function.update (images ram) p (p.store.snapshot vars)) := by
  cases p with
  | users => exact h
  | credentials => exact h
  | trust => exact Referential.of_trust h hop (trust_exec (hlive rfl) hreads hexec)
  | health =>
    rcases HealthCheckConfig.exec_eq_some hexec with ⟨candidate, hedit, hsnapshot⟩ | hsame
    · have hedited : Referential ram.trust.snapshot (HealthCheckConfig.stamp candidate)
          ram.callback.snapshot := (Referential.of_health h hop hedit : _)
      rw [← hsnapshot] at hedited
      exact hedited
    · rw [hsame]
      exact h
  | callback =>
    rcases CallbackConfig.exec_eq_some hexec with ⟨-, hconfig⟩ | hsame
    · exact Referential.of_callback h (hconfig ▸ hop.2)
    · rw [hsame]
      exact h

/-! ## Start-up -/

theorem steps_recover {c : Chip} (h : ¬Marked c.cells) : Steps ∅ c (recover c).2 := by
  have hsteps := driven_markerValid.steps c
  unfold recover
  rcases hvalid : markerValid c with ⟨_ | found, c'⟩
  · rw [bind_of_none hvalid]
    rwa [hvalid] at hsteps
  · rw [bind_of_some hvalid, markerValid_of_not_marked h hvalid]
    rwa [hvalid] at hsteps

/-- The start-up of another component. -/
theorem apart {p : Part} (q : Part) (h : p ≠ q) :
    Driven p.store.spanᶜ (q.store.init) :=
  q.lawful.init_driven.mono (Set.subset_compl_iff_disjoint_left.2 (Part.disjoint h))

theorem apart_log (p : Part) : Driven p.store.spanᶜ HealthCheckLog.init :=
  HealthCheckLog.driven_init.mono (Set.subset_compl_iff_disjoint_left.2 p.disjoint_log)

/-- **Start-up opens each of the components.** -/
theorem opens_openStores {p : Part} (hp : p ∈ tied) (c : Chip) : p.store.Opens openStores c := by
  have hR : Disjoint p.store.span p.store.spanᶜ := disjoint_compl_right
  have hnone : Driven p.store.spanᶜ (pure none : FlashM (Option Stores)) := .pure none
  have hrest (stores : Option Stores) : Driven p.store.spanᶜ (pure stores) := .pure stores
  simp only [tied, List.mem_cons, List.not_mem_nil, or_false] at hp
  rcases hp with rfl | rfl | rfl
  · refine .bind .init hR fun _ => .ite hnone ?_
    refine (apart .callback (by decide)).bind fun _ => .ite hnone ?_
    refine (apart .health (by decide)).bind fun _ => .ite hnone ?_
    refine (apart_log .trust).bind fun _ => .ite hnone ?_
    refine (apart .credentials (by decide)).bind fun _ => .ite hnone ?_
    exact (apart .users (by decide)).bind fun _ => .ite hnone (hrest _)
  · refine .behind ((apart .trust (by decide)).steps c) hR fun _ _ => .ite (.of_driven hnone hR) ?_
    refine .behind ((apart .callback (by decide)).steps _) hR fun _ _ =>
      .ite (.of_driven hnone hR) ?_
    refine .bind .init hR fun _ => .ite hnone ?_
    refine (apart_log .health).bind fun _ => .ite hnone ?_
    refine (apart .credentials (by decide)).bind fun _ => .ite hnone ?_
    exact (apart .users (by decide)).bind fun _ => .ite hnone (hrest _)
  · refine .behind ((apart .trust (by decide)).steps c) hR fun _ _ => .ite (.of_driven hnone hR) ?_
    refine .bind .init hR fun _ => .ite hnone ?_
    refine (apart .health (by decide)).bind fun _ => .ite hnone ?_
    refine (apart_log .callback).bind fun _ => .ite hnone ?_
    refine (apart .credentials (by decide)).bind fun _ => .ite hnone ?_
    exact (apart .users (by decide)).bind fun _ => .ite hnone (hrest _)

/-- Without a marker so does the whole of it. -/
theorem opens_startup {p : Part} (hp : p ∈ tied) {c : Chip} (h : ¬Marked c.cells) :
    p.store.Opens startup c := by
  have hR : Disjoint p.store.span p.store.spanᶜ := disjoint_compl_right
  refine .behind (steps_recover h) (Set.disjoint_empty _) fun status c' => .ite ?_ ?_
  · exact .of_driven (.pure _) hR
  · exact (opens_openStores hp c').bind hR fun _ => .pure _

/-! ## The invariant -/

/-- The references hold in RAM and in what start-up will find. -/
structure Consistent (d : Device) : Prop where
  unmarked : ¬Marked d.cells
  found : ∃ images, Bound images ∧ ∀ p ∈ tied, p.store.Finds d.cells (images p)
  running : ∀ ram, d.ram = some ram →
    Bound (images ram) ∧ ∀ p ∈ tied, p.store.Live d.cells (ram.part p)

/-- A start-up, a request or a health check in which no flash command fails. -/
def Event.Steady : Event → Prop
  | .boot fates | .request _ _ _ fates | .check _ fates => fates.Steady
  | .reset .. => False

/-- Power losses are all that goes wrong. What they leave in a bank is its old image, the complete
new one or nothing valid, and nothing of an older version to migrate. -/
structure PowerOnly (d : Device) (e : Event) : Prop where
  steady : e.Steady
  torn : ∀ p ∈ tied, Torn (S := p.store) d.cells (d.step e).cells (d.step e.calm).cells
  unspoilt : ∀ p ∈ tied, Unspoilt (S := p.store) d.cells (d.step e).cells

/-- No request that can change one of the components comes while it is at its last generation. -/
def Unexhausted (d : Device) : Event → Prop
  | .request env request _ _ => ∀ ram, d.ram = some ram → ∀ p ∈ tied, ∀ op,
    Changes env request ram p op → p.store.generation (images ram p) + 1 < 2 ^ 32
  | _ => True

theorem driven_openStores : Driven markerRegionᶜ openStores := by
  have hpart (p : Part) : Driven markerRegionᶜ p.store.init :=
    p.lawful.init_driven.mono (Set.subset_compl_iff_disjoint_right.2 p.disjoint_marker)
  have hlog : Driven markerRegionᶜ HealthCheckLog.init :=
    HealthCheckLog.driven_init.mono fun i hi hmarker => marker_notMem_log hmarker hi
  have hnone : Driven markerRegionᶜ (pure none : FlashM (Option Stores)) := .pure none
  refine (hpart .trust).bind fun _ => .ite hnone ?_
  refine (hpart .callback).bind fun _ => .ite hnone ?_
  refine (hpart .health).bind fun _ => .ite hnone ?_
  refine hlog.bind fun _ => .ite hnone ?_
  refine (hpart .credentials).bind fun _ => .ite hnone ?_
  exact (hpart .users).bind fun _ => .ite hnone (.pure _)

theorem unmarked_startup {c : Chip} (h : ¬Marked c.cells) : ¬Marked (startup c).2.cells := by
  have hsteps : Steps markerRegionᶜ c (startup c).2 := by
    have hrecover := (steps_recover h).mono (Set.empty_subset markerRegionᶜ)
    unfold startup
    rcases hr : recover c with ⟨_ | status, c'⟩
    · rw [bind_of_none hr]
      rwa [hr] at hrecover
    · rw [bind_of_some hr]
      rw [hr] at hrecover
      refine hrecover.trans (Driven.steps (.ite (.pure _) ?_) c')
      exact driven_openStores.bind fun _ => .pure _
  rwa [Marked.congr fun i hi => hsteps.outside i (not_not_intro hi)]

/-- What start-up leaves of the components when it comes up. -/
theorem startup_live {c c' : Chip} {ram : Ram} {found : (p : Part) → p.store.Image}
    (hunmarked : ¬Marked c.cells) (hfound : ∀ p ∈ tied, p.store.Finds c.cells (found p))
    (hf : c.fates.Steady) (h : startup c = (some (some ram), c')) :
    ∀ p ∈ tied, p.store.Live c'.cells (ram.part p) ∧ images ram p = found p := by
  have hrecovered := steps_recover hunmarked
  obtain ⟨stores, c₀, c₁, c₂, c₃, c₄, c₅, hrecover, htrust, hcallback, hhealth, hlog, hcredentials,
    husers, rfl⟩ := startup_eq_some h
  rw [hrecover] at hrecovered
  have hsteps {q : Part} {c c' : Chip} {r : Status × q.store.Ram}
      (h : q.store.init c = (some r, c')) : Steps q.store.span c c' := by
    have hsteps := q.lawful.init_driven.steps c
    rwa [h] at hsteps
  have hkept (p : Part) {q : Part} (hne : p ≠ q) {c c' : Chip} (h : Steps q.store.span c c') :
      ∀ i ∈ p.store.span, c'.cells i = c.cells i := fun i hi =>
    h.outside i (Set.disjoint_left.1 (Part.disjoint hne) hi)
  have hlogged (p : Part) : ∀ i ∈ p.store.span, c₄.cells i = c₃.cells i := by
    have hsteps := HealthCheckLog.driven_init.steps c₃
    rw [hlog] at hsteps
    exact fun i hi => hsteps.outside i (Set.disjoint_left.1 p.disjoint_log hi)
  -- The steps, and what each leaves alone.
  have h₁ := hsteps (q := .trust) htrust
  have h₂ := hsteps (q := .callback) hcallback
  have h₃ := hsteps (q := .health) hhealth
  have h₅ := hsteps (q := .credentials) hcredentials
  have h₆ := hsteps (q := .users) husers
  have hlast {p : Part} (hp : p ∈ tied) : ∀ i ∈ p.store.span, c'.cells i = c₃.cells i := by
    have hcredentials : p ≠ .credentials := by rintro rfl; revert hp; decide
    have husers : p ≠ .users := by rintro rfl; revert hp; decide
    exact fun i hi => (hkept p husers h₆ i hi).trans
      ((hkept p hcredentials h₅ i hi).trans (hlogged p i hi))
  have hcells : c₀.cells = c.cells := funext fun i => hrecovered.outside i (Set.notMem_empty i)
  have hf₀ := hf.after hrecovered.fates
  have hf₁ := hf₀.after h₁.fates
  have hf₂ := hf₁.after h₂.fates
  rw [← hcells] at hfound
  have hmem : .trust ∈ tied ∧ .health ∈ tied ∧ .callback ∈ tied := by decide
  intro p hp
  simp only [tied, List.mem_cons, List.not_mem_nil, or_false] at hp
  rcases hp with rfl | rfl | rfl
  · obtain ⟨-, hlive, hsnapshot, -⟩ := (hfound _ hmem.1).loaded TlsTrustStore.lawful hf₀ htrust rfl
    refine ⟨hlive.congr TlsTrustStore.lawful Part.trust.local fun i hi => ?_, hsnapshot⟩
    exact (hlast hmem.1 i hi).trans
      ((hkept .trust (by decide) h₃ i hi).trans (hkept .trust (by decide) h₂ i hi))
  · have hbefore := (hfound _ hmem.2.1).congr Part.health.lawful Part.health.local fun i hi =>
      (hkept .health (by decide) h₂ i hi).trans (hkept .health (by decide) h₁ i hi)
    obtain ⟨-, hlive, hsnapshot, -⟩ := hbefore.loaded HealthCheckConfig.lawful hf₂ hhealth rfl
    exact ⟨hlive.congr HealthCheckConfig.lawful Part.health.local (hlast hmem.2.1), hsnapshot⟩
  · have hbefore := (hfound _ hmem.2.2).congr Part.callback.lawful Part.callback.local
      (hkept .callback (by decide) h₁)
    obtain ⟨-, hlive, hsnapshot, -⟩ := hbefore.loaded CallbackConfig.lawful hf₁ hcallback rfl
    refine ⟨hlive.congr CallbackConfig.lawful Part.callback.local fun i hi => ?_, hsnapshot⟩
    exact (hlast hmem.2.2 i hi).trans (hkept .callback (by decide) h₃ i hi)

/-! ## Steps -/

section Steps

variable {d : Device} {ram : Ram}

theorem bound_of_eq {found found' : (p : Part) → p.store.Image} (h : Bound found)
    (heq : ∀ p ∈ tied, found' p = found p) : Bound found' := by
  unfold Bound
  rw [heq .trust (by decide), heq .health (by decide), heq .callback (by decide)]
  exact h

theorem consistent_boot (h : Consistent d) {fates : Fates} (he : PowerOnly d (.boot fates)) :
    Consistent (d.step (.boot fates)) := by
  obtain ⟨found, hbound, hfinds⟩ := h.found
  have hopens {p : Part} (hp : p ∈ tied) (c : Chip) (hc : c.cells = d.cells) :
      p.store.Opens startup c := opens_startup hp (hc ▸ h.unmarked)
  refine ⟨unmarked_startup h.unmarked, ⟨found, hbound, fun p hp => ?_⟩, fun ram hram => ?_⟩
  · exact (hopens hp ⟨d.cells, fates, []⟩ rfl).finds p.lawful p.local (hopens hp _ rfl)
      (hfinds p hp) he.steady (he.torn p hp) (he.unspoilt p hp)
  · rcases hstartup : startup ⟨d.cells, fates, []⟩ with ⟨_ | _ | ram', c'⟩
    · simp only [step, hstartup] at hram
      cases hram
    · simp only [step, hstartup] at hram
      cases hram
    · simp only [step, hstartup] at hram ⊢
      obtain rfl : ram' = ram := Option.some.inj hram
      have hsteady : fates.Steady := he.steady
      have hlive := startup_live h.unmarked hfinds hsteady hstartup
      exact ⟨bound_of_eq hbound fun p hp => (hlive p hp).2, fun p hp => (hlive p hp).1⟩

/-- One image is replaced. -/
theorem images_eq {p : Part} {ram' : Ram} (hkept : ∀ q ≠ p, ram'.part q = ram.part q) (q : Part) :
    images ram' q = Function.update (images ram) p (p.store.snapshot (ram'.part p)) q := by
  by_cases hq : q = p
  · subst hq
    rw [Function.update_self]
    rfl
  · rw [Function.update_of_ne hq, images, hkept q hq]
    rfl

/-- What is found of the other components when one has changed. -/
theorem finds_update {m : Cells} {p : Part} {image : p.store.Image}
    (hother : ∀ q ∈ tied, q ≠ p → q.store.Finds m (images ram q)) (himage : p.store.Finds m image) :
    ∀ q ∈ tied, q.store.Finds m (Function.update (images ram) p image q) := by
  intro q hq
  by_cases hqp : q = p
  · subst hqp
    rwa [Function.update_self]
  · rw [Function.update_of_ne hqp]
    exact hother q hq hqp

/-- A route that is an operation of a component. -/
theorem consistent_drives {env : Env} {request : Request} {body : Bytes} {fates : Fates}
    (h : Consistent d) (hgen : Unexhausted d (.request env request body fates))
    (he : PowerOnly d (.request env request body fates)) (hram : d.ram = some ram) {p : Part}
    {op : p.store.Op} (hop : Changes env request ram p op)
    (hdrives : Drives p op ram (dispatch env request body ram)) :
    Consistent (d.step (.request env request body fates)) := by
  obtain ⟨hbound, hlive⟩ := h.running ram hram
  obtain ⟨hsteady, htorn, hspoilt⟩ := he
  change fates.Steady at hsteady
  simp only [step, hram, Event.calm, hdrives.chip] at htorn hspoilt ⊢
  rcases hexec : p.store.exec op (ram.part p) ⟨d.cells, fates, []⟩ with ⟨r, c'⟩
  rw [hexec] at htorn hspoilt
  have hsteps := (p.store.driven_exec p.lawful op (ram.part p)).steps ⟨d.cells, fates, []⟩
  rw [hexec] at hsteps
  have hother : ∀ q ∈ tied, q ≠ p → q.store.Live c'.cells (ram.part q) := fun q hq hne =>
    (hlive q hq).congr q.lawful q.local fun i hi =>
      hsteps.outside i (Set.disjoint_left.1 (Part.disjoint hne) hi)
  have hunmarked : ¬Marked c'.cells := by
    rw [Marked.congr fun i hi => hsteps.outside i fun hspan =>
      Set.disjoint_left.1 p.disjoint_marker hspan hi]
    exact h.unmarked
  -- The variables behind a request that comes to its end.
  have hafter : ∀ ram', ((dispatch env request body ram ⟨d.cells, fates, []⟩).1.map Prod.snd) =
      some ram' → (∃ ok, r = some (ok, ram'.part p)) ∧ ∀ q ≠ p, ram'.part q = ram.part q := by
    intro ram' hram'
    obtain ⟨out, hout, rfl⟩ := Option.map_eq_some_iff.1 hram'
    have hvars := hdrives.vars ⟨d.cells, fates, []⟩
    rw [hout, hexec] at hvars
    obtain ⟨⟨ok, vars⟩, hr, hsame⟩ := Option.map_eq_some_iff.1 hvars.symm
    change vars = out.2.part p at hsame
    exact ⟨⟨ok, hsame ▸ hr⟩, (hdrives.kept _ _ _ (Prod.ext hout rfl)).parts⟩
  have htrust : p = .trust → p.store.Live d.cells (ram.part p) := by
    rintro rfl
    exact hlive .trust (by decide)
  by_cases hp : p ∈ tied
  · obtain ⟨hdone, ok, vars, c'', hcalm, hcut⟩ := (hlive p hp).call p.lawful
      (hgen ram hram p hp op hop) hsteady hexec (htorn p hp) (hspoilt p hp)
    have hrunning : ∀ ram', ((dispatch env request body ram ⟨d.cells, fates, []⟩).1.map Prod.snd) =
        some ram' → Bound (images ram') ∧ ∀ q ∈ tied, q.store.Live c'.cells (ram'.part q) := by
      intro ram' hram'
      obtain ⟨⟨ok', hr⟩, hkept⟩ := hafter ram' hram'
      refine ⟨bound_of_eq (bound_exec hbound hop htrust hsteady.reads (hr ▸ hexec))
        fun q _ => images_eq hkept q, fun q hq => ?_⟩
      by_cases hqp : q = p
      · subst hqp
        exact hdone ok' _ hr
      · rw [hkept q hqp]
        exact hother q hq hqp
    refine ⟨hunmarked, ?_, hrunning⟩
    rcases r with _ | ⟨ok', vars'⟩
    · -- Cut off: start-up will find the image from before, or the complete new one.
      rcases hcut rfl with hold | hnew
      · refine ⟨images ram, hbound, fun q hq => ?_⟩
        by_cases hqp : q = p
        · subst hqp
          exact hold
        · exact (hother q hq hqp).finds
      · exact ⟨_, bound_exec hbound hop htrust Fates.steady_nil.reads hcalm,
          finds_update (fun q hq hne => (hother q hq hne).finds) hnew⟩
    · exact ⟨_, bound_exec hbound hop htrust hsteady.reads hexec,
        finds_update (fun q hq hne => (hother q hq hne).finds) (hdone ok' vars' rfl).finds⟩
  · have hne {q : Part} (hq : q ∈ tied) : q ≠ p := fun heq => hp (heq ▸ hq)
    refine ⟨hunmarked, ⟨images ram, hbound, fun q hq => (hother q hq (hne hq)).finds⟩,
      fun ram' hram' => ?_⟩
    obtain ⟨-, hkept⟩ := hafter ram' hram'
    refine ⟨bound_of_eq hbound fun q hq => ?_, fun q hq => ?_⟩
    · rw [images, hkept q (hne hq)]
      rfl
    · rw [hkept q (hne hq)]
      exact hother q hq (hne hq)

theorem consistent_request {env : Env} {request : Request} {body : Bytes} {fates : Fates}
    (h : Consistent d) (hgen : Unexhausted d (.request env request body fates))
    (he : PowerOnly d (.request env request body fates)) :
    Consistent (d.step (.request env request body fates)) := by
  cases hram : d.ram with
  | none =>
    simp only [step, hram]
    exact h
  | some ram =>
    rcases (dispatch_effect env request body ram).changes with hstill | ⟨p, op, hop, hdrives⟩
    · have hsteps := hstill.driven.steps ⟨d.cells, fates, []⟩
      have hcells : (dispatch env request body ram ⟨d.cells, fates, []⟩).2.cells = d.cells :=
        funext fun i => hsteps.outside i (Set.notMem_empty i)
      obtain ⟨hbound, hlive⟩ := h.running ram hram
      simp only [step, hram]
      refine ⟨?_, ?_, fun ram' hram' => ?_⟩
      · rw [hcells]
        exact h.unmarked
      · rw [hcells]
        exact h.found
      · rw [hcells]
        obtain ⟨r, hr, rfl⟩ := Option.map_eq_some_iff.1 hram'
        have hparts := hstill.parts _ r _ (Prod.ext hr rfl)
        refine ⟨bound_of_eq hbound fun p _ => ?_, fun p hp => ?_⟩
        · rw [images, hparts]
          rfl
        · rw [hparts]
          exact hlive p hp
    · exact consistent_drives h hgen he hram hop hdrives

theorem consistent_check (h : Consistent d) (check : Check) (fates : Fates) :
    Consistent (d.step (.check check fates)) := by
  cases hram : d.ram with
  | none =>
    simp only [step, hram]
    exact h
  | some ram =>
    have hdriven : Driven HealthCheckLog.region (checkResource check ram) :=
      (HealthCheckLog.driven_append ..).bind fun _ => .pure _
    have hsteps := hdriven.steps ⟨d.cells, fates, []⟩
    have hkept (p : Part) : ∀ i ∈ p.store.span,
        (checkResource check ram ⟨d.cells, fates, []⟩).2.cells i = d.cells i := fun i hi =>
      hsteps.outside i (Set.disjoint_left.1 p.disjoint_log hi)
    obtain ⟨found, hfound, hfinds⟩ := h.found
    obtain ⟨hbound, hlive⟩ := h.running ram hram
    simp only [step, hram]
    refine ⟨?_, ⟨found, hfound, fun p hp => (hfinds p hp).congr p.lawful p.local (hkept p)⟩,
      fun ram' hram' => ?_⟩
    · rw [Marked.congr fun i hi => hsteps.outside i (marker_notMem_log hi)]
      exact h.unmarked
    · obtain ⟨out, hout, rfl⟩ := Option.map_eq_some_iff.1 hram'
      obtain ⟨⟨status, entry, log⟩, c₁, -, hret⟩ := bind_eq_some.1 (Prod.ext hout rfl :
        checkResource check ram ⟨d.cells, fates, []⟩ = (some out, _))
      simp only [pure_apply, Prod.mk.injEq, Option.some.injEq] at hret
      have hparts (p : Part) : out.2.part p = ram.part p := by
        rw [← hret.1]
        cases p <;> rfl
      refine ⟨bound_of_eq hbound fun p _ => ?_, fun p hp => ?_⟩
      · rw [images, hparts]
        rfl
      · rw [hparts]
        exact (hlive p hp).congr p.lawful p.local (hkept p)

/-- **Every event keeps the references**, while the generations last. -/
theorem consistent_step {e : Event} (h : Consistent d) (he : PowerOnly d e ∧ Unexhausted d e) :
    Consistent (d.step e) := by
  cases e with
  | boot fates => exact consistent_boot h he.1
  | request env request body fates => exact consistent_request h he.2 he.1
  | check check fates => exact consistent_check h check fates
  | reset locked fates => exact he.1.steady.elim

/-- The compiled default has one resource, and it names the compiled anchor. -/
theorem default_slot {i : ℕ} (hi : i < HealthCheckConfig.maxResources)
    (hoccupied : (HealthCheckConfig.stamp HealthCheckConfig.default).resources[i].occupied ≠ 0) :
    i = 0 ∧ (HealthCheckConfig.stamp HealthCheckConfig.default).resources[i] =
      HealthCheckConfig.defaultResource := by
  have hslots : (HealthCheckConfig.stamp HealthCheckConfig.default).resources =
      (Vector.replicate HealthCheckConfig.maxResources HealthCheckConfig.zeroResource).set 0
        HealthCheckConfig.defaultResource := rfl
  rw [hslots, Vector.getElem_set] at hoccupied ⊢
  split at hoccupied
  · exact ⟨‹0 = i›.symm, if_pos ‹_›⟩
  · rw [Vector.getElem_replicate] at hoccupied
    exact absurd rfl hoccupied

theorem bound_factory : Bound fun p => p.store.factory := by
  have hanchor : TlsTrustStore.anchors (TlsTrustStore.stamp TlsTrustStore.default) 0 ≠ none := by
    rw [TlsTrustStore.anchors_default]
    exact Option.some_ne_none _
  rintro id (⟨i, hi, hoccupied, rfl⟩ | ⟨henabled, -⟩)
  · obtain ⟨-, hslot⟩ := default_slot hi hoccupied
    show TlsTrustStore.anchors (TlsTrustStore.stamp TlsTrustStore.default)
      (HealthCheckConfig.stamp HealthCheckConfig.default).resources[i].trustAnchorId.toNat ≠ none
    rw [hslot]
    exact hanchor
  · exact absurd rfl henabled

theorem consistent_start : Consistent start where
  unmarked := not_marked_erased
  found := ⟨_, bound_factory, fun p _ => .fresh p.lawful.fresh_erased rfl⟩
  running := nofun

/-- The references hold along every run in which no generation runs out. -/
theorem consistent_run {events : List Event}
    (h : Along step (fun d e => PowerOnly d e ∧ Unexhausted d e) start events) :
    Consistent (run step start events) :=
  keeps (fun _ _ => consistent_step) consistent_start h

/-! ## Every state reached -/

/-- What every resource and the callback name is there. -/
structure References (ram : Ram) : Prop where
  resources : ∀ i (h : i < HealthCheckConfig.maxResources),
    ram.health.snapshot.resources[i].occupied ≠ 0 → TlsTrustStore.anchorExists
      ram.health.snapshot.resources[i].trustAnchorId.toNat ram.trust = true
  callback : ram.callback.snapshot.config.enabled ≠ 0 → TlsTrustStore.anchorExists
    ram.callback.snapshot.config.trustAnchorId.toNat ram.trust = true

theorem References.of_bound {ram : Ram} (h : Bound (images ram)) : References ram where
  resources i hi hoccupied := anchorExists_iff.2 (h _ (.inl ⟨i, hi, hoccupied, rfl⟩))
  callback henabled := anchorExists_iff.2 (h _ (.inr ⟨henabled, rfl⟩))

/-- **Referential integrity**: in every state that a device reaches from erased flash by start-ups,
requests and health checks, power being lost anywhere, every occupied resource names an anchor that
exists, and so does the callback when it is enabled, as long as no request changes a store that has
come to its last generation. -/
theorem references_hold {events : List Event}
    (hevents : Along step (fun d e => PowerOnly d e ∧ Unexhausted d e) start events) {ram : Ram}
    (hram : (run step start events).ram = some ram) : References ram :=
  .of_bound ((consistent_run hevents).running ram hram).1

theorem cells_boot (d : Device) (fates : Fates) :
    (d.step (.boot fates)).cells = (startup ⟨d.cells, fates, []⟩).2.cells := rfl

/-- The first start-up leaves a valid image of each of the components. -/
theorem valid_first : ∀ p ∈ tied,
    ∃ x, p.store.valid (p.store.load (start.step (.boot {})).cells x) = true := by
  intro p hp
  obtain ⟨ram, c', hstartup, hopened, -⟩ :=
    startup_erased (P := fun _ _ => True) fun _ => trivial
  rw [cells_boot, start, hstartup]
  rcases ((hopened p).2 _ rfl).active with hvalid | hlazy
  · exact ⟨_, hvalid⟩
  · rw [lazy_tied hp] at hlazy
    cases hlazy

theorem powerOnly_first : PowerOnly start (.boot {}) where
  steady := Fates.steady_nil
  torn _ _ _ _ := .inr (by rw [Event.calm])
  unspoilt p hp := by
    obtain ⟨x, hx⟩ := valid_first p hp
    exact Store.unspoilt_of_left (S := p.store) hx

/-- The events of the run of the master, in which a save loses power. -/
theorem losses_masterRun : Along step (fun d e => e.Steady ∧
    (∀ p : Part, Torn (S := p.store) d.cells (d.step e).cells (d.step e.calm).cells ∧
      Unspoilt (S := p.store) d.cells (d.step e).cells) ∧
    ∀ ram, d.ram = some ram → ∀ p : Part, p.store.generation (images ram p) + 1 < 2 ^ 32)
    start masterRun := by
  refine along_masterRun (fun d e he hd hbehind => ⟨?_, fun p => ⟨?_, ?_⟩, ?_⟩)
    fun d ram hd hbehind hram hsessions => ⟨?_, fun p => ⟨?_, ?_⟩, ?_⟩
  · simp only [List.mem_cons, List.not_mem_nil, or_false] at he
    rcases he with rfl | rfl <;> exact Fates.steady_nil
  · exact fun _ _ => .inr (by rw [calm_master he])
  · exact hbehind.unspoilt d.cells p
  · exact fun ram hram p => hd.generation hram p
  · exact W25q64.steady_cutErase
  · exact torn_cutPeriod hram hsessions p _
  · exact hbehind.unspoilt d.cells p
  · exact fun ram hram p => hd.generation hram p

theorem powerOnly_masterRun :
    Along step (fun d e => PowerOnly d e ∧ Unexhausted d e) start masterRun :=
  losses_masterRun.mono fun d e ⟨hsteady, hparts, hlasts⟩ =>
    ⟨⟨hsteady, fun p _ => (hparts p).1, fun p _ => (hparts p).2⟩, by
      cases e with
      | request => exact fun ram hram p _ _ _ => hlasts ram hram p
      | _ => trivial⟩

/-- The master has logged in again behind a save that lost power. -/
theorem references_hold_master :
    ∃ ram, (run step start masterRun).ram = some ram ∧ References ram := by
  obtain ⟨-, ram, hram, -⟩ := run_masterRun
  exact ⟨ram, hram, references_hold powerOnly_masterRun hram⟩

end Steps

end Device

end HealthCheck
