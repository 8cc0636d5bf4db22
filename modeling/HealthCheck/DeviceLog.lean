import HealthCheck.AnchorReferences
import HealthCheck.HealthCheckLogKept

/-!
# The result log of a device

The log shares the flash with the stores, and start-ups and requests come between the health
checks. As long as no flash command fails, it gives back the results that the checks recorded,
the latest 170 at least, and they survive every start-up.

* `Device.Recorded` — the log against the entries that were handed out.
* `Device.recorded_run` — in every state reached.
* `Device.recent_run` — what `HealthCheckLog_GetRecent` finds there.
-/

namespace HealthCheck.Device

open Nor hiding read driven_read read_ok read_cases
open ApiService hiding Ram
open HealthCheckLog hiding Event
open CString FactoryReset Run TwoBank W25q64

/-- No flash command fails, and the button is not held. -/
def Event.Calm : Event → Prop
  | .boot fates | .request _ _ _ fates | .check _ fates => fates = {}
  | .reset .. => False

theorem calm_of_calm {e : Event} (h : e.Calm) : e.calm = e := by
  cases e with
  | reset => exact h.elim
  | boot fates | request env request body fates | check check fates =>
    obtain rfl : fates = {} := h
    rfl

/-- The sectors of the log when nothing was cut short, and no factory reset is under way. -/
structure Resting (hist : List Record) (m : Cells) : Prop where
  unmarked : ¬Marked m
  idle : Idle m hist
  kept : HealthCheckLog.Kept m hist

/-- What a device has recorded. -/
structure Recorded (d : Device) (hist : List Record) : Prop where
  numbered : Numbered hist
  entries : hist.map Record.entry = d.logged
  resting : Resting hist d.cells
  running : ∀ ram, d.ram = some ram → Running d.cells hist ram.log

section Flash

variable {hist : List Record} {c c' : Chip}

theorem Resting.elsewhere {m m' : Cells} (h : Resting hist m)
    (hlog : ∀ i ∈ region, m' i = m i) (hmarker : ∀ i ∈ markerRegion, m' i = m i) :
    Resting hist m' where
  unmarked := by
    rw [Marked.congr hmarker]
    exact h.unmarked
  idle := h.idle.elsewhere hlog
  kept := h.kept.elsewhere hlog

/-- The stores keep off the log and off the marker. -/
theorem Resting.store {p : Part} (h : Resting hist c.cells) (hsteps : Steps p.store.span c c') :
    Resting hist c'.cells :=
  h.elsewhere (kept_log hsteps) (kept_marker hsteps)

/-- The log keeps off the marker. -/
theorem unmarked_of_log (h : ¬Marked c.cells) (hsteps : Steps region c c') : ¬Marked c'.cells := by
  rwa [Marked.congr fun i hi => hsteps.outside i (marker_notMem_log hi)]

/-- Start-up of the log. -/
theorem Resting.init (h : Resting hist c.cells) (hnumbered : Numbered hist)
    (hfew : hist.length < 2 ^ 32 - 1) (hc : c.fates = {}) :
    ∃ ram c', HealthCheckLog.init c = (some (.ok, ram), c') ∧ c'.fates = {} ∧
      Running c'.cells hist ram ∧ Resting hist c'.cells := by
  obtain ⟨ram, c', hinit, hrunning⟩ := init_calm h.idle hnumbered hfew hc
  have hsteps := driven_init.steps c
  rw [hinit] at hsteps
  exact ⟨ram, c', hinit, (hc ▸ hsteps.fates).of_nil, hrunning,
    unmarked_of_log h.unmarked hsteps, hrunning.idle, h.kept.init h.idle hc hinit⟩

theorem preserves_part (p : Part) : Preserves (Resting hist) p.store.init := by
  intro c hc h
  have hsteps := p.lawful.init_driven.steps c
  exact ⟨h.store hsteps, (hc ▸ hsteps.fates).of_nil⟩

theorem preserves_log (hnumbered : Numbered hist) (hfew : hist.length < 2 ^ 32 - 1) :
    Preserves (Resting hist) HealthCheckLog.init := by
  intro c hc h
  obtain ⟨ram, c', hinit, hfates, -, hresting⟩ := h.init hnumbered hfew hc
  rw [hinit]
  exact ⟨hresting, hfates⟩

theorem preserves_recover : Preserves (Resting hist) recover := by
  intro c hc h
  obtain ⟨c', hrecover, hcells, hfates⟩ := recover_calm h.unmarked hc
  rw [hrecover, hcells]
  exact ⟨h, hfates⟩

theorem resting_startup (hnumbered : Numbered hist) (hfew : hist.length < 2 ^ 32 - 1) :
    Preserves (Resting hist) startup :=
  preserves_startup preserves_recover preserves_part (preserves_log hnumbered hfew)

/-- **Start-up finds the log as it was left.** -/
theorem running_startup {ram : ApiService.Ram} (h : Resting hist c.cells)
    (hnumbered : Numbered hist) (hfew : hist.length < 2 ^ 32 - 1) (hc : c.fates = {})
    (hstartup : startup c = (some (some ram), c')) : Running c'.cells hist ram.log := by
  obtain ⟨stores, c₀, c₁, c₂, c₃, c₄, c₅, hrecover, htrust, hcallback, hhealth, hlog, hcredentials,
    husers, rfl⟩ := startup_eq_some hstartup
  have hnext {α : Type} {x : FlashM α} {c c' : Chip} {a : α} (hx : Preserves (Resting hist) x)
      (hrest : Resting hist c.cells ∧ c.fates = {}) (hout : x c = (some a, c')) :
      Resting hist c'.cells ∧ c'.fates = {} := by
    have hkept := hx c hrest.2 hrest.1
    rwa [hout] at hkept
  have h₀ := hnext preserves_recover ⟨h, hc⟩ hrecover
  have h₁ := hnext (preserves_part .trust) h₀ htrust
  have h₂ := hnext (preserves_part .callback) h₁ hcallback
  have h₃ := hnext (preserves_part .health) h₂ hhealth
  obtain ⟨log, c₄', hinit, -, hrunning, -⟩ := h₃.1.init hnumbered hfew h₃.2
  obtain ⟨hout, rfl⟩ := Prod.mk.inj (hinit.symm.trans hlog)
  obtain rfl : log = stores.log := (Prod.mk.inj (Option.some.inj hout)).2
  have hs₅ := (Part.lawful .credentials).init_driven.steps c₄'
  have hs₆ := (Part.lawful .users).init_driven.steps c₅
  rw [show Part.credentials.store.init c₄' = _ from hcredentials] at hs₅
  rw [show Part.users.store.init c₅ = _ from husers] at hs₆
  exact (hrunning.elsewhere (kept_log hs₅)).elsewhere (kept_log hs₆)

end Flash

/-! ## One event -/

section Events

variable {d : Device} {hist : List Record}

theorem logged_boot (d : Device) (fates : Fates) : (d.step (.boot fates)).logged = d.logged := rfl

theorem length_logged (h : Recorded d hist) : hist.length = d.logged.length := by
  rw [← h.entries, List.length_map]

/-- The latest results can be read, up to a sector full of them. -/
theorem Recorded.recent (h : Recorded d hist) {ram : ApiService.Ram} (hram : d.ram = some ram)
    {n : ℕ} (hn : n ≤ slotsPerSector) (log : List Command) :
    getRecent n ram.log ⟨d.cells, {}, log⟩ = (some (d.logged.take n), ⟨d.cells, {}, log⟩) := by
  have hon := (h.running ram hram).on
  rw [(hon.getRecent n).calm (driven_getRecent Set.univ n ram.log) log,
    h.resting.kept.recent hon hn, List.map_take, h.entries]

theorem recorded_boot (h : Recorded d hist) (hfew : hist.length < 2 ^ 32 - 1) :
    Recorded (d.step (.boot {})) hist where
  numbered := h.numbered
  entries := h.entries
  resting := (resting_startup h.numbered hfew ⟨d.cells, {}, []⟩ rfl h.resting).1
  running ram hram := by
    change (startup ⟨d.cells, {}, []⟩).1.join = some ram at hram
    change Running (startup ⟨d.cells, {}, []⟩).2.cells hist ram.log
    have hstartup : startup ⟨d.cells, {}, []⟩ =
        (some (some ram), (startup ⟨d.cells, {}, []⟩).2) :=
      Prod.ext (Option.join_eq_some_iff.1 hram) rfl
    exact running_startup h.resting h.numbered hfew rfl hstartup

/-- A request stays off the log. -/
theorem recorded_request (h : Recorded d hist) (env : Env) (request : Request) (body : Bytes) :
    Recorded (d.step (.request env request body {})) hist := by
  cases hram : d.ram with
  | none =>
    simp only [step, hram]
    exact h
  | some ram =>
    obtain ⟨hcells, hmarker, hlog⟩ :
        (∀ i ∈ region, (dispatch env request body ram ⟨d.cells, {}, []⟩).2.cells i = d.cells i) ∧
        (∀ i ∈ markerRegion,
          (dispatch env request body ram ⟨d.cells, {}, []⟩).2.cells i = d.cells i) ∧
        ∀ r c', dispatch env request body ram ⟨d.cells, {}, []⟩ = (some r, c') →
          r.2.log = ram.log := by
      rcases (dispatch_effect env request body ram).changes with hstill | ⟨p, op, -, hdrives⟩
      · have hsteps := hstill.driven.steps ⟨d.cells, {}, []⟩
        exact ⟨fun i _ => hsteps.outside i (Set.notMem_empty i),
          fun i _ => hsteps.outside i (Set.notMem_empty i), fun r c' => hstill.log _ r c'⟩
      · rw [hdrives.chip]
        have hsteps := (Store.driven_exec p.lawful op (ram.part p)).steps ⟨d.cells, {}, []⟩
        exact ⟨kept_log hsteps, kept_marker hsteps, fun r c' hr => (hdrives.kept _ r c' hr).log⟩
    simp only [step, hram]
    refine ⟨h.numbered, h.entries, h.resting.elsewhere hcells hmarker, fun ram' hram' => ?_⟩
    obtain ⟨r, hr, rfl⟩ := Option.map_eq_some_iff.1 hram'
    rw [hlog r _ (Prod.ext hr rfl)]
    exact (h.running ram hram).elsewhere hcells

/-- A health check records its result. -/
theorem recorded_check (h : Recorded d hist) (check : Check)
    (hfew : (d.step (.check check {})).logged.length < 2 ^ 32 - 1) :
    ∃ hist', Recorded (d.step (.check check {})) hist' := by
  cases hram : d.ram with
  | none =>
    simp only [step, hram]
    exact ⟨hist, h⟩
  | some ram =>
    have hrunning := h.running ram hram
    obtain ⟨log, c', happend⟩ := append_ok check.resourceIndex check.result check.timestamp
      (c := ⟨d.cells, {}, []⟩) hrunning.on rfl
    have hrecords := bind_of_some (f := fun r => pure (r.2.1,
      { ram with buzzer := check.sounds ram.buzzer, log := r.2.2 })) happend
    have hcheck : checkResource check ram ⟨d.cells, {}, []⟩ = _ := hrecords
    have hwrap : ram.log.nextSequence.toNat + 1 < 2 ^ 32 := by
      simp only [step, hram, hcheck] at hfew
      have hmore : d.logged.length + 1 < 2 ^ 32 - 1 := hfew
      rw [hrunning.next, length_logged h]
      omega
    obtain ⟨log', c'', happend', hafter⟩ := append_calm check.resourceIndex check.result
      check.timestamp (c := ⟨d.cells, {}, []⟩) hrunning rfl hwrap
    cases happend.symm.trans happend'
    have hsteps := (driven_append check.resourceIndex check.result check.timestamp
      ram.log).steps ⟨d.cells, {}, []⟩
    rw [happend] at hsteps
    refine ⟨newRecord check.resourceIndex check.result check.timestamp ram.log.nextSequence :: hist,
      ?_⟩
    simp only [step, hram, hcheck]
    exact {
      numbered := ⟨hrunning.next, h.numbered⟩
      entries := congrArg (List.cons _) h.entries
      resting := ⟨unmarked_of_log h.resting.unmarked hsteps, hafter.idle,
        h.resting.kept.append hrunning rfl hwrap happend⟩
      running := fun ram' hram' => (Option.some.inj hram') ▸ hafter }

/-- **The log is kept** by everything that happens to a device, until a record gets the number of an
erased one. -/
theorem recorded_step {e : Event} (h : ∃ hist, Recorded d hist) (he : e.Calm)
    (hfew : (d.step e).logged.length < 2 ^ 32 - 1) : ∃ hist, Recorded (d.step e) hist := by
  obtain ⟨hist, h⟩ := h
  cases e with
  | boot fates =>
    obtain rfl : fates = {} := he
    rw [logged_boot, ← length_logged h] at hfew
    exact ⟨hist, recorded_boot h hfew⟩
  | request env request body fates =>
    obtain rfl : fates = {} := he
    exact ⟨hist, recorded_request h env request body⟩
  | check check fates =>
    obtain rfl : fates = {} := he
    exact recorded_check h check hfew
  | reset locked fates => exact he.elim

end Events

/-! ## Every state reached -/

theorem recorded_start : Recorded start [] where
  numbered := trivial
  entries := rfl
  resting := ⟨not_marked_erased,
    ⟨.inl (Sys.records_of_erased fun _ _ _ _ => rfl), fun _ => rfl⟩,
    kept_erased fun _ => used_zero fun _ _ _ => rfl⟩
  running := nofun

theorem logged_request (d : Device) (env : Env) (request : Request) (body : Bytes) (fates : Fates) :
    (d.step (.request env request body fates)).logged = d.logged := by
  cases hram : d.ram <;> simp only [step, hram]

theorem logged_reset (d : Device) (locked : Bool) (fates : Fates) :
    (d.step (.reset locked fates)).logged = d.logged := by
  cases hram : d.ram <;> simp only [step, hram]

/-- Results are never taken back. -/
theorem logged_grows (d : Device) (e : Event) : d.logged.length ≤ (d.step e).logged.length := by
  cases e with
  | boot fates => exact Nat.le_refl _
  | request env request body fates => rw [logged_request]
  | check check fates =>
    simp only [step]
    split
    · exact Nat.le_refl _
    · rw [List.length_append]
      exact Nat.le_add_left _ _
  | reset locked fates => rw [logged_reset]

theorem logged_step_le (d : Device) (e : Event) :
    (d.step e).logged.length ≤ d.logged.length + 1 := by
  cases e with
  | boot fates => exact Nat.le_succ _
  | request env request body fates =>
    rw [logged_request]
    exact Nat.le_succ _
  | check check fates =>
    simp only [step]
    split
    · exact Nat.le_succ _
    · rw [List.length_append, Nat.add_comm]
      exact Nat.add_le_add_left (Option.length_toList_le) _
  | reset locked fates =>
    rw [logged_reset]
    exact Nat.le_succ _

variable {events : List Event}

/-- **The log has what was recorded** in every state reached. -/
theorem recorded_run (hcalm : ∀ e ∈ events, e.Calm)
    (hfew : (run step start events).logged.length < 2 ^ 32 - 1) :
    ∃ hist, Recorded (run step start events) hist := by
  have hstep : ∀ d e, (∃ hist, Recorded d hist) →
      e.Calm ∧ (d.step e).logged.length < 2 ^ 32 - 1 → ∃ hist, Recorded (d.step e) hist :=
    fun d e h he => recorded_step h he.1 he.2
  exact keeps hstep ⟨[], recorded_start⟩
    ((along_of_forall hcalm).and (along_below logged_grows hfew))

/-- **The latest results can be read** in every state reached, up to a sector full of them. -/
theorem recent_run (hcalm : ∀ e ∈ events, e.Calm)
    (hfew : (run step start events).logged.length < 2 ^ 32 - 1) {ram : ApiService.Ram}
    (hram : (run step start events).ram = some ram) {n : ℕ} (hn : n ≤ slotsPerSector)
    (log : List Command) :
    getRecent n ram.log ⟨(run step start events).cells, {}, log⟩ =
      (some ((run step start events).logged.take n), ⟨(run step start events).cells, {}, log⟩) := by
  obtain ⟨hist, h⟩ := recorded_run hcalm hfew
  exact h.recent hram hn log

end HealthCheck.Device
