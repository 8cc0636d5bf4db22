import HealthCheck.Api.Reports
import HealthCheck.DeviceLog
import HealthCheck.TlsTrustUndo

/-!
# The subjects of the stored anchors

The trust anchors are listed with their subjects. Mbed TLS writes a subject without control
characters, and what comes back from the flash behind a power loss is never anything else.

* `TlsTrustStore.Presentable` — a snapshot of such anchors.
* `Device.anchors_run` — in every state reached, power being lost anywhere.
* `Device.legible_run` — and when nothing goes wrong, however many generations there are.
-/

namespace HealthCheck

open Nor hiding read driven_read read_ok read_cases
open ApiService CString FactoryReset FlashLayout Run TwoBank

/-! ## Anchors -/

namespace TlsTrustStore

/-- No subject has control characters. -/
def Presentable (s : Snapshot) : Prop :=
  ∀ id certificate, anchors s id = some certificate → Printable certificate.subject

theorem printable_defaultSubject : Printable defaultSubject := by
  have hall : defaultSubject.all (0x20 ≤ ·) = true := by decide
  exact fun c hc => of_decide_eq_true (List.all_eq_true.1 hall c hc)

theorem presentable_factory : Presentable (stamp default) := by
  intro id certificate h
  rw [anchors_default] at h
  change Function.update (fun _ => none) 0 (some (⟨defaultPem, defaultSubject⟩ : Certificate)) id =
    some certificate at h
  by_cases hid : id = 0
  · rw [hid, Function.update_self] at h
    rw [← Option.some.inj h]
    exact printable_defaultSubject
  · rw [Function.update_of_ne hid] at h
    cases h

/-- The list shows a part of each subject. -/
theorem printable_list {ram : Ram} (h : Presentable ram.snapshot) {capacity : ℕ} :
    ∀ anchor ∈ list capacity ram, Printable anchor.subject := by
  intro anchor hmem
  obtain ⟨⟨stored, id⟩, hzip, hinfo⟩ := List.mem_filterMap.1 (List.mem_of_mem_take hmem)
  have hslot := List.mem_zipIdx_iff_getElem?.1 hzip
  rw [Vector.getElem?_toList] at hslot
  dsimp only at hinfo
  split at hinfo
  · cases hinfo
  · rename_i hoccupied
    rw [← Option.some.inj hinfo]
    have hcertificate : anchors ram.snapshot id =
        some ⟨stored.der.toList.take stored.derLength.toNat, cstr stored.subject.toList⟩ := by
      rw [anchors, hslot, Option.bind_some, Anchor.certificate, if_neg hoccupied]
    exact fun c hc => h id _ hcertificate c (List.mem_of_mem_take hc)

/-- What Mbed TLS makes of the certificate that comes with an operation. -/
def Op.results : Op → Option MbedResults
  | .add _ mbed | .replace _ _ mbed => some mbed
  | _ => none

theorem printable_certificate {der : Bytes} {mbed : MbedResults} {x : Certificate}
    (h : certificate der mbed = some x) (hmbed : Printable mbed.subject) :
    Printable x.subject := by
  unfold certificate at h
  split at h
  · rw [← Option.some.inj h]
    exact fun c hc => hmbed c (List.mem_of_mem_take ((List.takeWhile_prefix _).subset hc))
  · cases h

theorem presentable_update {m : Anchors} {id : ℕ} {entry : Option Certificate}
    (hm : ∀ id x, m id = some x → Printable x.subject)
    (hentry : ∀ x, entry = some x → Printable x.subject) :
    ∀ id' x, Function.update m id entry id' = some x → Printable x.subject := by
  intro id' x hx
  by_cases hid : id' = id
  · rw [hid, Function.update_self] at hx
    exact hentry x hx
  · rw [Function.update_of_ne hid] at hx
    exact hm id' x hx

/-- **What an operation leaves of the anchors.** -/
theorem presentable_effect {op : Op} {s s' : Snapshot} (hs : Presentable s)
    (hop : ∀ mbed ∈ op.results, Printable mbed.subject)
    (h : anchors s' = anchors s ∨ anchors s' = op.effect (anchors s)) : Presentable s' := by
  unfold Presentable
  rcases h with hsame | hnew
  · rw [hsame]
    exact hs
  · rw [hnew]
    cases op with
    | add der mbed =>
      simp only [Op.effect]
      rcases lowestFree (anchors s) with _ | id
      · exact hs
      · rcases hcertificate : certificate der mbed with _ | x
        · exact hs
        · exact presentable_update hs fun y hy =>
            Option.some.inj hy ▸ printable_certificate hcertificate (hop mbed rfl)
    | replace id der mbed =>
      simp only [Op.effect]
      rcases anchors s id with _ | old
      · exact hs
      · rcases hcertificate : certificate der mbed with _ | x
        · exact hs
        · exact presentable_update hs fun y hy =>
            Option.some.inj hy ▸ printable_certificate hcertificate (hop mbed rfl)
    | delete id => exact presentable_update hs fun x hx => by cases hx
    | reset => exact fun _ x hx => by cases hx

/-- The banks behind an operation that nothing interrupts. -/
theorem images_exec {op : Op} {ram : Ram} {m : Cells} (h : store.Images Presentable m)
    (hram : Presentable ram.snapshot) (hop : ∀ mbed ∈ op.results, Printable mbed.subject) :
    store.Images Presentable (store.exec op ram ⟨m, {}, []⟩).2.cells := by
  refine Store.Images.call (c := ⟨m, {}, []⟩) lawful rfl h fun ram' c' hexec => ?_
  obtain ⟨status, happly, hok⟩ := exec_eq_some hexec
  obtain rfl : status = .ok := of_decide_eq_true hok.symm
  exact presentable_effect hram hop (.inr (apply_ok happly).1)

/-- The variables are those of the bank in use. -/
structure Loaded (m : Cells) (ram : Ram) : Prop where
  load : TlsTrustStore.load m ram.active = ram.snapshot
  valid : isSnapshotValid ram.snapshot = true

theorem Loaded.presentable {m : Cells} {ram : Ram} (h : Loaded m ram)
    (himages : store.Images Presentable m) : Presentable ram.snapshot := by
  have hvalid : isSnapshotValid (TlsTrustStore.load m ram.active) = true := h.load ▸ h.valid
  rw [← h.load]
  exact himages ram.active hvalid

theorem Loaded.congr {m m' : Cells} {ram : Ram} (h : Loaded m ram)
    (hm : ∀ i ∈ store.span, m' i = m i) : Loaded m' ram :=
  ⟨(Store.load_eq lawful hm ram.active).trans h.load, h.valid⟩

/-- They stay so when reads succeed: what cannot be saved is read back. -/
theorem Loaded.exec {op : Op} {ram ram' : Ram} {c c' : Chip} {ok : Bool} (h : Loaded c.cells ram)
    (hreads : c.fates.ReadsSucceed) (hexec : store.exec op ram c = (some (ok, ram'), c')) :
    Loaded c'.cells ram' := by
  obtain ⟨status, happly, -⟩ := exec_eq_some hexec
  by_cases hstatus : status = .ok
  · subst hstatus
    obtain ⟨-, hvalid, hload⟩ := apply_ok happly
    exact ⟨hload, hvalid⟩
  · rw [apply_eq] at happly
    cases hc : candidate op ram with
    | error refused =>
      rw [hc] at happly
      cases happly
      exact h
    | ok edited =>
      rw [hc] at happly
      obtain ⟨hedited, -, -⟩ := candidate_ok hc
      rcases commit_cases happly with ⟨hok, -⟩ | ⟨-, hactive, hread⟩
      · exact absurd hok hstatus
      · have hsteps := (driven_commit edited).steps c
        have hcommit : commitCandidate edited c = _ := happly
        rw [hcommit, hedited] at hsteps
        have hkept : TlsTrustStore.load c'.cells ram.active =
            TlsTrustStore.load c.cells ram.active :=
          load_congr fun i hi =>
            hsteps.outside i (Set.disjoint_left.1 (disjoint_other ram.active) hi)
        have hsnapshot : ram'.snapshot = ram.snapshot := by
          rw [hread hreads, hedited, h.load]
        rw [hedited] at hactive
        exact ⟨by rw [hactive, hkept, h.load, hsnapshot], hsnapshot ▸ h.valid⟩

end TlsTrustStore

/-! ## The device -/

namespace Device

variable {d : Device} {e : Event}

/-- A subject that comes with a request has no control characters. -/
def Event.Readable : Event → Prop
  | .request env _ _ _ => Printable env.anchor.subject
  | _ => True

/-- The anchors in the banks can be shown. -/
structure Anchored (d : Device) : Prop where
  consistent : Consistent d
  images : Part.trust.store.Images TlsTrustStore.Presentable d.cells

/-- So can those of a running device. -/
theorem Anchored.ram (h : Anchored d) {ram : Ram} (hram : d.ram = some ram) :
    TlsTrustStore.Presentable ram.trust.snapshot := by
  cases ((h.consistent.running ram hram).2 .trust (by decide)) with
  | stored htop hload =>
    have himage := h.images _ htop.1
    rw [hload] at himage
    exact himage
  | fresh hlazy => cases hlazy

theorem results_of_asked {env : Env} {request : Request} {ram : Ram} {op : TlsTrustStore.Op}
    (hop : TrustAsked env request ram op) : ∀ mbed ∈ op.results, mbed = env.anchor := by
  cases op with
  | add der mbed => exact fun _ hmbed => (Option.some.inj hmbed) ▸ hop.2
  | replace id der mbed => exact fun _ hmbed => (Option.some.inj hmbed) ▸ hop.2.2
  | delete id => exact fun _ hmbed => by cases hmbed
  | reset => exact fun _ hmbed => by cases hmbed

section Images

variable {m : Cells} (h : Part.trust.store.Images TlsTrustStore.Presentable m)
include h

/-- The anchors in the banks after a request that nothing interrupts, -/
theorem images_request {env : Env} (request : Request) (body : Bytes) {ram : Ram}
    (hram : TlsTrustStore.Presentable ram.trust.snapshot) (henv : Printable env.anchor.subject) :
    Part.trust.store.Images TlsTrustStore.Presentable
      (dispatch env request body ram ⟨m, {}, []⟩).2.cells := by
  rcases (dispatch_effect env request body ram).changes with hstill | ⟨p, op, hop, hdrives⟩
  · exact h.congr TlsTrustStore.lawful fun i _ =>
      (hstill.driven.steps ⟨m, {}, []⟩).outside i (Set.notMem_empty i)
  · rw [hdrives.chip]
    by_cases hp : p = .trust
    · subst hp
      refine TlsTrustStore.images_exec h hram fun mbed hmbed => ?_
      rw [results_of_asked hop mbed hmbed]
      exact henv
    · have hdriven : Driven p.store.span (p.store.exec op (ram.part p)) :=
        Store.driven_exec p.lawful op _
      exact h.congr TlsTrustStore.lawful fun i hi =>
        (hdriven.steps ⟨m, {}, []⟩).outside i
          (Set.disjoint_left.1 (Part.disjoint (Ne.symm hp)) hi)

/-- and after a check. -/
theorem images_check (check : Check) (ram : Ram) :
    Part.trust.store.Images TlsTrustStore.Presentable
      (checkResource check ram ⟨m, {}, []⟩).2.cells := by
  have hdriven : Driven HealthCheckLog.region (checkResource check ram) :=
    (HealthCheckLog.driven_append ..).bind fun _ => .pure _
  exact h.congr TlsTrustStore.lawful fun i hi =>
    (hdriven.steps ⟨m, {}, []⟩).outside i (Set.disjoint_left.1 Part.trust.disjoint_log hi)

end Images

/-- **The anchors in the banks** after an event that nothing interrupts. -/
theorem anchors_calm (h : Anchored d) (he : e.Readable) (hreset : e.Steady) :
    Part.trust.store.Images TlsTrustStore.Presentable (d.step e.calm).cells := by
  cases e with
  | boot fates =>
    obtain ⟨found, -, hfinds⟩ := h.consistent.found
    have hopens : Part.trust.store.Opens startup ⟨d.cells, {}, []⟩ :=
      opens_startup (by decide) h.consistent.unmarked
    intro x hx
    change TlsTrustStore.store.valid (TlsTrustStore.store.load
      (startup ⟨d.cells, {}, []⟩).2.cells x) = true at hx
    change TlsTrustStore.Presentable (TlsTrustStore.store.load
      (startup ⟨d.cells, {}, []⟩).2.cells x)
    rcases hopens.calm TlsTrustStore.lawful Part.trust.local (hfinds .trust (by decide)) rfl x with
      hsame | hfactory
    · rw [hsame] at hx ⊢
      exact h.images x hx
    · rw [hfactory]
      exact TlsTrustStore.presentable_factory
  | request env request body fates =>
    simp only [Event.calm, step]
    split
    · exact h.images
    · rename_i ram hram
      exact images_request h.images request body (h.ram hram) he
  | check check fates =>
    simp only [Event.calm, step]
    split
    · exact h.images
    · rename_i ram _
      exact images_check h.images check ram
  | reset locked fates => exact hreset.elim

/-- An event of a device whose power may be lost. -/
def Shielded (d : Device) (e : Event) : Prop := (PowerOnly d e ∧ Unexhausted d e) ∧ e.Readable

theorem anchors_step (d : Device) (e : Event) (h : Anchored d) (he : Shielded d e) :
    Anchored (d.step e) where
  consistent := consistent_step h.consistent he.1
  images := h.images.torn (anchors_calm h he.2 he.1.1.steady) (he.1.1.torn .trust (by decide))

theorem anchors_start : Anchored start where
  consistent := consistent_start
  images := (Store.stocked_erased TlsTrustStore.lawful).images

/-- **The anchors can be shown in every state reached.** -/
theorem anchors_run {events : List Event} (h : Along step Shielded start events) {ram : Ram}
    (hram : (run step start events).ram = some ram) :
    ∀ anchor ∈ TlsTrustStore.list TlsTrustStore.maxAnchors ram.trust, Printable anchor.subject :=
  TlsTrustStore.printable_list ((keeps anchors_step anchors_start h).ram hram)

/-! ### When nothing goes wrong -/

/-- The banks of the trust store when nothing was cut short, and no factory reset is under way. -/
structure AnchorsAtRest (m : Cells) : Prop where
  unmarked : ¬Marked m
  stocked : Part.trust.store.Stocked TlsTrustStore.Presentable m

/-- The anchors in the banks and those of a running device can be shown. -/
structure Legible (d : Device) : Prop where
  banks : AnchorsAtRest d.cells
  loaded : ∀ ram, d.ram = some ram → TlsTrustStore.Loaded d.cells ram.trust

theorem Legible.ram (h : Legible d) {ram : Ram} (hram : d.ram = some ram) :
    TlsTrustStore.Presentable ram.trust.snapshot :=
  (h.loaded ram hram).presentable h.banks.stocked.images

section Banks

variable {c c' : Chip} {R : Set ℕ}

theorem AnchorsAtRest.elsewhere (h : AnchorsAtRest c.cells) (hsteps : Steps R c c')
    (hbanks : Disjoint Part.trust.store.span R) (hmarker : Disjoint markerRegion R) :
    AnchorsAtRest c'.cells where
  unmarked := by
    rw [Marked.congr fun i hi => hsteps.outside i (Set.disjoint_left.1 hmarker hi)]
    exact h.unmarked
  stocked := h.stocked.congr TlsTrustStore.lawful Part.trust.local fun i hi =>
    hsteps.outside i (Set.disjoint_left.1 hbanks hi)

theorem loaded_elsewhere {ram : TlsTrustStore.Ram} (h : TlsTrustStore.Loaded c.cells ram)
    (hsteps : Steps R c c') (hbanks : Disjoint Part.trust.store.span R) :
    TlsTrustStore.Loaded c'.cells ram :=
  h.congr fun i hi => hsteps.outside i (Set.disjoint_left.1 hbanks hi)

theorem disjoint_marker_log : Disjoint markerRegion HealthCheckLog.region :=
  Set.disjoint_left.2 fun _ => marker_notMem_log

/-- Every component comes up without harm to the anchors. -/
theorem anchorsAtRest_part (p : Part) : Preserves AnchorsAtRest p.store.init := by
  intro c hc h
  have hsteps := p.lawful.init_driven.steps c
  refine ⟨?_, (hc ▸ hsteps.fates).of_nil⟩
  by_cases hp : p = .trust
  · subst hp
    obtain ⟨ram, c', hinit, hcurrent⟩ :=
      h.stocked.boot TlsTrustStore.lawful TlsTrustStore.presentable_factory hc
    rw [show Part.trust.store.init c = _ from hinit] at hsteps ⊢
    refine ⟨?_, hcurrent.stocked Part.trust.local⟩
    rw [Marked.congr (kept_marker hsteps)]
    exact h.unmarked
  · exact h.elsewhere hsteps (Part.disjoint (Ne.symm hp)) p.disjoint_marker.symm

theorem anchorsAtRest_log : Preserves AnchorsAtRest HealthCheckLog.init := by
  intro c hc h
  have hsteps := HealthCheckLog.driven_init.steps c
  exact ⟨h.elsewhere hsteps Part.trust.disjoint_log disjoint_marker_log,
    (hc ▸ hsteps.fates).of_nil⟩

theorem anchorsAtRest_recover : Preserves AnchorsAtRest recover := by
  intro c hc h
  obtain ⟨c', hrecover, hcells, hfates⟩ := recover_calm h.unmarked hc
  rw [hrecover, hcells]
  exact ⟨h, hfates⟩

theorem anchorsAtRest_startup : Preserves AnchorsAtRest startup :=
  preserves_startup anchorsAtRest_recover anchorsAtRest_part anchorsAtRest_log

/-- What start-up loads stays in the bank in use while the other components come up. -/
theorem loaded_startup {ram : Ram} (h : startup c = (some (some ram), c')) :
    TlsTrustStore.Loaded c'.cells ram.trust := by
  obtain ⟨stores, c₀, c₁, c₂, c₃, c₄, c₅, -, htrust, hcallback, hhealth, hlog, hcredentials, husers,
    rfl⟩ := startup_eq_some h
  obtain ⟨hload, hvalid⟩ := TlsTrustStore.init_holds htrust
  have hpart {p : Part} {c c' : Chip} {r : Status × p.store.Ram} (hp : p ≠ .trust)
      (hm : TlsTrustStore.Loaded c.cells stores.trust) (hinit : p.store.init c = (some r, c')) :
      TlsTrustStore.Loaded c'.cells stores.trust := by
    have hsteps := p.lawful.init_driven.steps c
    rw [hinit] at hsteps
    exact loaded_elsewhere hm hsteps (Part.disjoint hp.symm)
  have h₂ := hpart (p := .callback) (by decide) ⟨hload, hvalid⟩ hcallback
  have h₃ := hpart (p := .health) (by decide) h₂ hhealth
  have hsteps := HealthCheckLog.driven_init.steps c₃
  rw [hlog] at hsteps
  have h₄ := loaded_elsewhere h₃ hsteps Part.trust.disjoint_log
  exact hpart (p := .users) (by decide)
    (hpart (p := .credentials) (by decide) h₄ hcredentials) husers

end Banks

/-- A request replaces the anchors in use by others that can be shown, or leaves them. -/
theorem legible_dispatch {m : Cells} {ram : Ram} (h : AnchorsAtRest m)
    (hram : TlsTrustStore.Loaded m ram.trust) {env : Env} (request : Request) (body : Bytes)
    (henv : Printable env.anchor.subject) :
    ∃ r c', dispatch env request body ram ⟨m, {}, []⟩ = (some r, c') ∧
      AnchorsAtRest c'.cells ∧ TlsTrustStore.Loaded c'.cells r.2.trust := by
  have himages := images_request h.stocked.images request body
    (hram.presentable h.stocked.images) henv
  rcases (dispatch_effect env request body ram).changes with hstill | ⟨p, op, -, hdrives⟩
  · obtain ⟨r, c', hr⟩ := hstill.driven.returns ⟨m, {}, []⟩ rfl
    have hsteps := hstill.driven.steps ⟨m, {}, []⟩
    rw [hr] at hsteps
    refine ⟨r, c', hr, h.elsewhere hsteps (Set.disjoint_empty _) (Set.disjoint_empty _), ?_⟩
    rw [show r.2.trust = ram.trust from hstill.parts _ r c' hr .trust]
    exact loaded_elsewhere hram hsteps (Set.disjoint_empty _)
  · have hdriven := Store.driven_exec p.lawful op (ram.part p)
    obtain ⟨⟨ok, part⟩, c', hexec⟩ := hdriven.returns ⟨m, {}, []⟩ rfl
    have hsteps := hdriven.steps ⟨m, {}, []⟩
    have hvars := hdrives.vars ⟨m, {}, []⟩
    have hchip := hdrives.chip ⟨m, {}, []⟩
    rw [hexec] at hsteps hvars hchip
    obtain ⟨r, hr, hpart⟩ := Option.map_eq_some_iff.1 hvars
    have hdispatch : dispatch env request body ram ⟨m, {}, []⟩ = (some r, c') := Prod.ext hr hchip
    rw [hdispatch] at himages
    refine ⟨r, c', hdispatch, ?_⟩
    by_cases hp : p = .trust
    · subst hp
      have hloaded : TlsTrustStore.Loaded c'.cells r.2.trust := by
        rw [show r.2.trust = part from hpart]
        exact TlsTrustStore.Loaded.exec (c := ⟨m, {}, []⟩) hram Fates.steady_nil.reads hexec
      refine ⟨⟨?_, himages, .inl ⟨r.2.trust.active, ?_⟩⟩, hloaded⟩
      · rw [Marked.congr (kept_marker hsteps)]
        exact h.unmarked
      · change TlsTrustStore.isSnapshotValid (TlsTrustStore.load c'.cells r.2.trust.active) = true
        rw [hloaded.load]
        exact hloaded.valid
    · have hbanks := Part.disjoint (Ne.symm hp)
      refine ⟨h.elsewhere hsteps hbanks p.disjoint_marker.symm, ?_⟩
      rw [show r.2.trust = ram.trust from (hdrives.kept _ r c' hdispatch).parts .trust (Ne.symm hp)]
      exact loaded_elsewhere hram hsteps hbanks

/-- **The anchors can be shown** after an event that nothing interrupts. -/
theorem legible_step (d : Device) (e : Event) (h : Legible d) (he : e.Calm ∧ e.Readable) :
    Legible (d.step e) := by
  obtain ⟨hcalm, hreadable⟩ := he
  cases e with
  | boot fates =>
    obtain rfl : fates = {} := hcalm
    exact ⟨(anchorsAtRest_startup ⟨d.cells, {}, []⟩ rfl h.banks).1, fun ram hram =>
      loaded_startup (Prod.ext (Option.join_eq_some_iff.1 hram) rfl :
        startup ⟨d.cells, {}, []⟩ = (some (some ram), _))⟩
  | request env request body fates =>
    obtain rfl : fates = {} := hcalm
    cases hram : d.ram with
    | none =>
      simp only [step, hram]
      exact h
    | some ram =>
      obtain ⟨r, c', hr, hbanks, hloaded⟩ :=
        legible_dispatch h.banks (h.loaded ram hram) request body hreadable
      simp only [step, hram, hr]
      exact ⟨hbanks, fun ram' hram' => (Option.some.inj hram') ▸ hloaded⟩
  | check check fates =>
    obtain rfl : fates = {} := hcalm
    cases hram : d.ram with
    | none =>
      simp only [step, hram]
      exact h
    | some ram =>
      have hdriven : Driven HealthCheckLog.region (checkResource check ram) :=
        (HealthCheckLog.driven_append ..).bind fun _ => .pure _
      obtain ⟨r, c', hr⟩ := hdriven.returns ⟨d.cells, {}, []⟩ rfl
      have hsteps := hdriven.steps ⟨d.cells, {}, []⟩
      rw [hr] at hsteps
      have htrust : r.2.trust = ram.trust := by
        obtain ⟨⟨_, _, log⟩, c₁, -, hret⟩ := bind_eq_some.1 hr
        cases hret
        rfl
      simp only [step, hram, hr]
      refine ⟨h.banks.elsewhere hsteps Part.trust.disjoint_log disjoint_marker_log,
        fun ram' hram' => ?_⟩
      rw [← Option.some.inj hram', htrust]
      exact loaded_elsewhere (h.loaded ram hram) hsteps Part.trust.disjoint_log
  | reset locked fates => exact hcalm.elim

theorem legible_start : Legible start where
  banks := ⟨not_marked_erased, Store.stocked_erased TlsTrustStore.lawful⟩
  loaded := nofun

/-- **So can those of every state reached** when no flash command fails, however many generations
there have been. -/
theorem legible_run {events : List Event} (hcalm : ∀ e ∈ events, e.Calm)
    (hreadable : ∀ e ∈ events, e.Readable) : Legible (run step start events) := by
  have hevents : Along step (fun _ e => e.Calm ∧ e.Readable) start events :=
    along_of_forall fun e he => ⟨hcalm e he, hreadable e he⟩
  exact keeps legible_step legible_start hevents

end Device

end HealthCheck
