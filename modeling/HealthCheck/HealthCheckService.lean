import HealthCheck.CertificateTime
import HealthCheck.DeviceLog
import HealthCheck.DeviceRecovery
import HealthCheck.StatusLine
import HealthCheck.TlsTransportProof

/-!
# The health-check service

`healthCheckService_Task` copies the resources, checks those that are enabled one after the other,
and sleeps. Between two checks the management API goes on changing the resources, and a start-up
may end a round at any point.

* `HealthCheckService.step` — the task on its device.
* `enqueued_run` — the callback service is handed the logged results that are not healthy, and no
  others, whatever fails.
* `rounds_recorded` — as long as no flash command fails, the log holds the checks of the rounds,
  each enabled resource once and in order.
* `delay_run` — how long the task sleeps.
-/

namespace HealthCheck.HealthCheckService

open Nor hiding read driven_read read_ok read_cases
open ApiService hiding Ram
open CertificateTime (Warnings checkCertificateExpiry)
open CString HealthCheckConfig Run
open HealthCheckLog (Entry newRecord)

/-! ## The code -/

/-- `HEALTH_CHECK_WAIT_MS`. -/
def waitMs : UInt32 := 1000

/-- A slot and its resource, in the copy of a round. -/
abbrev Job := Fin maxResources × Resource

/-- The resources of a copy that the loop does not skip. -/
def jobs (resources : Vector Resource maxResources) : List Job :=
  ((List.finRange maxResources).map fun i => (i, resources.get i)).filter fun job =>
    job.2.occupied ≠ 0 && job.2.enabled ≠ 0

/-- What one check meets: the layers below `TlsTransport_Head`, what was in `result`, and what
`Rtc_GetUnixTime` stores for the expiry and, 0 when it fails, for the log. -/
structure Seen where
  lower : TlsTransport.Lower
  before : TlsTransport.Result
  now : Option UInt32
  timestamp : UInt32

/-- The result of a check. -/
def Seen.result (x : Seen) (r : Resource) : TlsTransport.Result :=
  (TlsTransport.head (cstr r.host.toList) r.port (cstr r.path.toList) x.lower x.before).2

/-- `TlsTransport_StatusTypeDef` as a number. -/
def statusCode : TlsTransport.Status → UInt8
  | .ok => 0
  | .dnsError => 1
  | .connectError => 2
  | .configError => 3
  | .certificateError => 4
  | .handshakeError => 5
  | .ioError => 6
  | .protocolError => 7

/-- What `HealthCheckLog_Append` takes from a result. -/
def logResult (result : TlsTransport.Result) : HealthCheckLog.Result :=
  ⟨statusCode result.status, result.httpStatus, result.elapsedMs, UInt32.ofInt result.detail⟩

/-- `healthCheckService_CheckCertificateExpiry` in a check: the tables behind it, and whether it
asks for a warning. -/
def expiry (w : Warnings) (job : Job) (x : Seen) (buzzer : BuzzerService.Ram) : Warnings × Bool :=
  checkCertificateExpiry w job.1 (x.result job.2).certificateNotAfterUnix x.now
    (BuzzerService.certificateExpiryWarning job.1 buzzer).1

/-- The rest of `healthCheckService_CheckResource`, as the device knows it. -/
def deviceCheck (job : Job) (x : Seen) (warning : Bool) : Device.Check where
  resourceIndex := UInt8.ofNat job.1
  result := logResult (x.result job.2)
  timestamp := x.timestamp
  warning := warning

/-- Where the task is: in `vTaskDelay`, or in a round with these resources to come. -/
inductive Phase
  | asleep
  | checking (pending : List Job)

/-- A round: its copy of the resources, the checks that came to their end, latest first, and whether
a start-up has ended it. -/
structure Round where
  resources : Vector Resource maxResources
  checks : List (Job × Seen)
  cut : Bool

/-- The device, the variables of the task, and what has happened so far. -/
structure State where
  device : Device
  warnings : Warnings
  phase : Phase
  /-- The milliseconds of the last `vTaskDelay` since the device was started. -/
  delay : Option UInt32
  /-- The entries handed to `CallbackService_Enqueue`, latest first. -/
  enqueued : List Entry
  /-- Latest first. -/
  rounds : List Round

/-- A start-up, a request or a factory reset between two steps of the task, or a step of the task:
at the head of its loop, with what `Lwip_IsReady` and `Rtc_IsSynchronized` say, in a check, or at
the end of a round. -/
inductive Event
  | boot (fates : Fates)
  | request (env : Env) (request : Request) (body : Bytes) (fates : Fates)
  | reset (locked : Bool) (fates : Fates)
  | wake (ready synchronized : Bool)
  | check (seen : Seen) (fates : Fates)
  | sleep

/-- A round that a start-up ends. -/
def cutShort : Phase → List Round → List Round
  | .checking _, r :: older => { r with cut := true } :: older
  | _, rounds => rounds

/-- A check has come to its end. -/
def noted (job : Job) (x : Seen) : List Round → List Round
  | [] => []
  | r :: older => { r with checks := (job, x) :: r.checks } :: older

/-- One check. A device that loses power in it comes to nothing. -/
def check (s : State) (ram : ApiService.Ram) (job : Job) (pending : List Job) (x : Seen)
    (fates : Fates) : State :=
  let (warnings, warning) := expiry s.warnings job x ram.buzzer
  let made := deviceCheck job x warning
  let device := s.device.step (.check made fates)
  match (Device.checkResource made ram ⟨s.device.cells, fates, []⟩).1 with
  | none => { s with device := device }
  | some (entry, _) =>
    { s with
      device := device
      warnings := warnings
      phase := .checking pending
      enqueued := if TlsTransport.resourceHealthy (x.result job.2) then s.enqueued
        else entry.toList ++ s.enqueued
      rounds := noted job x s.rounds }

/-- `healthCheckService_Task`, and what happens around it. -/
def step (s : State) : Event → State
  | .boot fates =>
    { s with
      device := s.device.step (.boot fates)
      warnings := ⟨.replicate _ 0, .replicate _ 0⟩
      phase := .asleep
      delay := none
      rounds := cutShort s.phase s.rounds }
  | .request env request body fates =>
    { s with device := s.device.step (.request env request body fates) }
  | .reset locked fates => { s with device := s.device.step (.reset locked fates) }
  | .wake ready synchronized =>
    match s.device.ram, s.phase with
    | some ram, .asleep =>
      if !ready || !synchronized then { s with delay := some waitMs }
      else
        let resources := getResources ram.health
        { s with
          phase := .checking (jobs resources)
          rounds := ⟨resources, [], false⟩ :: s.rounds }
    | _, _ => s
  | .check x fates =>
    match s.device.ram, s.phase with
    | some ram, .checking (job :: pending) => check s ram job pending x fates
    | _, _ => s
  | .sleep =>
    match s.device.ram, s.phase with
    | some ram, .checking [] =>
      { s with phase := .asleep, delay := some (getPeriodSeconds ram.health * 1000) }
    | _, _ => s

/-- A device that was never started. -/
def start : State := ⟨.start, ⟨.replicate _ 0, .replicate _ 0⟩, .asleep, none, [], []⟩

/-! ## The resources of a round -/

theorem mem_jobs {resources : Vector Resource maxResources} {job : Job} :
    job ∈ jobs resources ↔
      job.2 = resources.get job.1 ∧ job.2.occupied ≠ 0 ∧ job.2.enabled ≠ 0 := by
  obtain ⟨i, r⟩ := job
  simp only [jobs, List.mem_filter, List.mem_map, List.mem_finRange, true_and, Prod.mk.injEq,
    Bool.and_eq_true, decide_eq_true_eq]
  refine and_congr_left fun _ => ⟨?_, ?_⟩
  · rintro ⟨j, rfl, rfl⟩
    rfl
  · rintro rfl
    exact ⟨i, rfl, rfl⟩

/-- Each slot once, the lower ones first. -/
theorem jobs_sorted (resources : Vector Resource maxResources) :
    ((jobs resources).map Prod.fst).Pairwise (· < ·) := by
  have hslots : ((List.finRange maxResources).map fun i => (i, resources.get i)).map Prod.fst =
      List.finRange maxResources := by
    rw [List.map_map]
    exact List.map_id _
  have hsub := (List.filter_sublist (p := fun job : Job => job.2.occupied ≠ 0 && job.2.enabled ≠ 0)
    (l := (List.finRange maxResources).map fun i => (i, resources.get i))).map Prod.fst
  rw [hslots] at hsub
  exact (List.pairwise_lt_finRange _).sublist hsub

/-! ## The device of the task -/

/-- What a step asks of the device. -/
def asked (s : State) : Event → Option Device.Event
  | .boot fates => some (.boot fates)
  | .request env request body fates => some (.request env request body fates)
  | .reset locked fates => some (.reset locked fates)
  | .check x fates =>
    match s.device.ram, s.phase with
    | some ram, .checking (job :: _) =>
      some (.check (deviceCheck job x (expiry s.warnings job x ram.buzzer).2) fates)
    | _, _ => none
  | .wake .. | .sleep => none

section Checks

variable {s : State} {ram : ApiService.Ram} {job : Job} {pending : List Job} {x : Seen}
  {fates : Fates}

theorem check_device :
    (check s ram job pending x fates).device =
      s.device.step (.check (deviceCheck job x (expiry s.warnings job x ram.buzzer).2) fates) := by
  simp only [check]
  split <;> rfl

/-- The task takes the device along. -/
theorem step_device (s : State) (e : Event) :
    (step s e).device = (asked s e).elim s.device s.device.step := by
  cases e with
  | boot fates => rfl
  | request env request body fates => rfl
  | reset locked fates => rfl
  | wake ready synchronized =>
    simp only [step, asked, Option.elim]
    split
    · split <;> rfl
    · rfl
  | check x fates =>
    simp only [step, asked]
    split
    · exact check_device
    · rfl
  | sleep =>
    simp only [step, asked, Option.elim]
    split <;> rfl

/-- What the device keeps, it keeps under the task. -/
theorem device_kept (Inv : Device → Prop) {e : Event} (h : Inv s.device)
    (hstep : ∀ e', asked s e = some e' → Inv (s.device.step e')) : Inv (step s e).device := by
  rw [step_device]
  cases hasked : asked s e with
  | none => exact h
  | some e' => exact hstep e' hasked

/-! ## The entry of a check -/

/-- What a check leaves in an entry: everything but its number. -/
def written (c : Job × Seen) : UInt8 × HealthCheckLog.Result × UInt32 :=
  (UInt8.ofNat c.1.1, logResult (c.2.result c.1.2), c.2.timestamp)

/-- The same of an entry. -/
def contents (e : Entry) : UInt8 × HealthCheckLog.Result × UInt32 :=
  (e.resourceIndex, ⟨e.status, e.httpStatus, e.elapsedMs, e.detail⟩, e.timestampUnix)

/-- `TLS_TRANSPORT_OK` and `HEALTH_CHECK_OK_STATUS` in an entry. -/
def entryHealthy (e : Entry) : Bool := e.status = 0 && e.httpStatus = 200

theorem statusCode_eq_zero {status : TlsTransport.Status} :
    statusCode status = 0 ↔ status = .ok := by
  cases status <;> decide

theorem entryHealthy_of_contents {e : Entry} {c : Job × Seen} (h : contents e = written c) :
    entryHealthy e = TlsTransport.resourceHealthy (c.2.result c.1.2) := by
  simp only [contents, written, logResult, Prod.mk.injEq, HealthCheckLog.Result.mk.injEq] at h
  simp only [entryHealthy, TlsTransport.resourceHealthy, h.2.1.1, h.2.1.2.1, statusCode_eq_zero,
    TlsTransport.okStatus]
  rfl

end Checks

/-! ## One check -/

section Append

open HealthCheckLog

variable {resourceIndex : UInt8} {result : HealthCheckLog.Result} {timestamp : UInt32}
  {log log' : HealthCheckLog.Ram} {status : Status} {entry : Option Entry} {c c' : Chip}

/-- What an append hands out is what it was given. -/
theorem append_handed {e : Entry}
    (h : HealthCheckLog.append resourceIndex result timestamp log c =
      (some (status, some e, log'), c')) :
    contents e = (resourceIndex, result, timestamp) := by
  by_cases hstatus : status = .ok
  · subst hstatus
    rw [Option.some.inj (append_entry h)]
    rfl
  · cases append_refused hstatus h

end Append

section Checks

variable {s : State} {ram : ApiService.Ram} {job : Job} {pending : List Job} {x : Seen}
  {fates : Fates}

/-- What a check makes of the task: nothing when the device loses power, and else what follows from
the entry that was logged, if one was. -/
inductive Checked (s s' : State) (job : Job) (pending : List Job) (x : Seen) : Prop
  | lost (logged : s'.device.logged = s.device.logged) (enqueued : s'.enqueued = s.enqueued)
      (phase : s'.phase = s.phase) (rounds : s'.rounds = s.rounds)
  | done (entry : Option Entry) (handed : ∀ e, entry = some e → contents e = written (job, x))
      (logged : s'.device.logged = entry.toList ++ s.device.logged)
      (enqueued : s'.enqueued = if TlsTransport.resourceHealthy (x.result job.2) then s.enqueued
        else entry.toList ++ s.enqueued)
      (phase : s'.phase = .checking pending) (rounds : s'.rounds = noted job x s.rounds)

theorem check_checked (hram : s.device.ram = some ram) :
    Checked s (check s ram job pending x fates) job pending x := by
  have hdevice : (check s ram job pending x fates).device = _ := check_device
  have hlogged := congrArg Device.logged hdevice
  simp only [Device.step, hram] at hlogged
  simp only [check] at hlogged ⊢
  generalize hout : Device.checkResource (deviceCheck job x (expiry s.warnings job x ram.buzzer).2)
    ram ⟨s.device.cells, fates, []⟩ = out at hlogged ⊢
  obtain ⟨_ | ⟨entry, ram'⟩, c'⟩ := out
  · exact .lost hlogged rfl rfl rfl
  · refine .done entry (fun e he => ?_) hlogged rfl rfl rfl
    obtain ⟨⟨status, entry', log'⟩, c₁, happend, hpure⟩ := bind_eq_some.1 hout
    simp only [pure_apply, Prod.mk.injEq, Option.some.injEq] at hpure
    obtain ⟨⟨rfl, -⟩, -⟩ := hpure
    subst he
    exact append_handed happend

end Checks

/-! ## What the callback service is handed -/

/-- What is handed over is what was logged and is not healthy. -/
def Enqueues (s : State) : Prop :=
  s.enqueued = s.device.logged.filter fun e => !entryHealthy e

theorem Enqueues.congr {s s' : State} (h : Enqueues s) (henqueued : s'.enqueued = s.enqueued)
    (hlogged : s'.device.logged = s.device.logged) : Enqueues s' := by
  rw [Enqueues, henqueued, hlogged]
  exact h

theorem Checked.enqueues {s s' : State} {job : Job} {pending : List Job} {x : Seen}
    (h : Enqueues s) (hchecked : Checked s s' job pending x) : Enqueues s' := by
  cases hchecked with
  | lost hlogged henqueued => exact h.congr henqueued hlogged
  | done entry hhanded hlogged henqueued =>
    cases entry with
    | none =>
      refine h.congr (henqueued.trans ?_) hlogged
      split <;> rfl
    | some e =>
      have hhealthy := entryHealthy_of_contents (hhanded e rfl)
      rw [Enqueues, henqueued, hlogged, h, Option.toList_some, List.singleton_append,
        List.singleton_append, List.filter_cons, hhealthy]
      cases TlsTransport.resourceHealthy (x.result job.2) <;> rfl

theorem enqueues_step (s : State) (e : Event) (h : Enqueues s) : Enqueues (step s e) := by
  cases e with
  | boot fates => exact h.congr rfl rfl
  | request env request body fates =>
    exact h.congr rfl (Device.logged_request s.device env request body fates)
  | reset locked fates => exact h.congr rfl (Device.logged_reset s.device locked fates)
  | wake ready synchronized =>
    simp only [step]
    split
    · split <;> exact h.congr rfl rfl
    · exact h
  | check x fates =>
    simp only [step]
    split
    · rename_i hram hphase
      exact (check_checked hram).enqueues h
    · exact h
  | sleep =>
    simp only [step]
    split <;> exact h.congr rfl rfl

theorem enqueues_run (events : List Event) : Enqueues (run step start events) := by
  have hstart : Enqueues start := rfl
  exact invariant enqueues_step hstart events

/-- **The callback service is handed the logged results that are not healthy**, whatever fails. -/
theorem enqueued_run (events : List Event) :
    (run step start events).enqueued =
      (run step start events).device.logged.filter fun e => !entryHealthy e :=
  enqueues_run events

/-! ## The rounds -/

/-- The resources that a round has checked, in their order. -/
def Round.checked (r : Round) : List Job := r.checks.reverse.map Prod.fst

/-- A round that is over has checked what it was to check, or what came before the start-up that
ended it. -/
structure Round.Over (r : Round) : Prop where
  begins : r.checked <+: jobs r.resources
  whole : r.cut = false → r.checked = jobs r.resources

/-- The rounds behind a step: all are over, but the one under way. -/
def InOrder : Phase → List Round → Prop
  | .asleep, rounds => ∀ r ∈ rounds, r.Over
  | .checking pending, r :: older => r.checked ++ pending = jobs r.resources ∧ ∀ r ∈ older, r.Over
  | .checking _, [] => False

/-- A round checks resources that were enabled when it began, each once and the lower slots
first. -/
structure Round.Once (r : Round) : Prop where
  sorted : (r.checked.map Prod.fst).Pairwise (· < ·)
  enabled : ∀ job ∈ r.checked,
    job.2 = r.resources.get job.1 ∧ job.2.occupied ≠ 0 ∧ job.2.enabled ≠ 0

theorem Round.once_of_begins {r : Round} (h : r.checked <+: jobs r.resources) : r.Once where
  sorted := (jobs_sorted r.resources).sublist (h.sublist.map Prod.fst)
  enabled _ hjob := mem_jobs.1 (h.mem hjob)

theorem InOrder.once {phase : Phase} {rounds : List Round} (h : InOrder phase rounds) :
    ∀ r ∈ rounds, r.Once := by
  cases phase with
  | asleep => exact fun r hr => Round.once_of_begins (h r hr).begins
  | checking pending =>
    cases rounds with
    | nil => exact h.elim
    | cons r older =>
      exact List.forall_mem_cons.2 ⟨Round.once_of_begins ⟨pending, h.1⟩,
        fun r hr => Round.once_of_begins (h.2 r hr).begins⟩

theorem InOrder.cutShort {phase : Phase} {rounds : List Round} (h : InOrder phase rounds) :
    ∀ r ∈ cutShort phase rounds, r.Over := by
  cases phase with
  | asleep => exact h
  | checking pending =>
    cases rounds with
    | nil => exact h.elim
    | cons r older => exact List.forall_mem_cons.2 ⟨⟨⟨pending, h.1⟩, fun hcut => by cases hcut⟩, h.2⟩

theorem InOrder.noted {job : Job} {pending : List Job} {x : Seen} {rounds : List Round}
    (h : InOrder (.checking (job :: pending)) rounds) :
    InOrder (.checking pending) (noted job x rounds) := by
  cases rounds with
  | nil => exact h
  | cons r older =>
    refine ⟨?_, h.2⟩
    rw [← h.1]
    simp [Round.checked]

theorem inOrder_step (s : State) (e : Event) (h : InOrder s.phase s.rounds) :
    InOrder (step s e).phase (step s e).rounds := by
  cases e with
  | boot fates => exact h.cutShort
  | request env request body fates => exact h
  | reset locked fates => exact h
  | wake ready synchronized =>
    simp only [step]
    split
    · rename_i hphase
      rw [hphase] at h
      split
      · rw [hphase]
        exact h
      · exact ⟨rfl, h⟩
    · exact h
  | check x fates =>
    simp only [step]
    split
    · rename_i hram hphase
      cases check_checked hram with
      | lost _ _ hphase' hrounds =>
        rw [hphase', hrounds]
        exact h
      | done entry _ _ _ hphase' hrounds =>
        rw [hphase', hrounds]
        rw [hphase] at h
        exact h.noted
    · exact h
  | sleep =>
    simp only [step]
    split
    · rename_i hphase
      rw [hphase] at h
      cases hrounds : s.rounds with
      | nil =>
        rw [hrounds] at h
        exact h.elim
      | cons r older =>
        rw [hrounds] at h
        have hwhole : r.checked = jobs r.resources := by rw [← h.1, List.append_nil]
        exact List.forall_mem_cons.2 ⟨⟨⟨[], h.1⟩, fun _ => hwhole⟩, h.2⟩
    · exact h

/-! ## Nothing fails -/

/-- No flash command fails, and the button is not held. -/
def Event.Calm : Event → Prop
  | .boot fates | .request _ _ _ fates | .check _ fates => fates = {}
  | .reset .. => False
  | .wake .. | .sleep => True

/-- The checks that came to their end, latest first. -/
def State.checks (s : State) : List (Job × Seen) := s.rounds.flatMap Round.checks

theorem calm_of_asked {s : State} {e : Event} {e' : Device.Event} (h : e.Calm)
    (hasked : asked s e = some e') : e'.Calm := by
  cases e with
  | boot fates => exact Option.some.inj hasked ▸ h
  | request env request body fates => exact Option.some.inj hasked ▸ h
  | reset locked fates => exact h.elim
  | wake ready synchronized => cases hasked
  | check x fates =>
    simp only [asked] at hasked
    split at hasked
    · exact Option.some.inj hasked ▸ h
    · cases hasked
  | sleep => cases hasked

/-- The log against the checks of the rounds. -/
structure Kept (s : State) : Prop where
  recorded : ∃ hist, Device.Recorded s.device hist
  logged : s.device.logged.map contents = s.checks.map written

theorem Kept.congr {s s' : State} (h : Kept s) (hrecorded : ∃ hist, Device.Recorded s'.device hist)
    (hlogged : s'.device.logged = s.device.logged) (hchecks : s'.checks = s.checks) : Kept s' := by
  refine ⟨hrecorded, ?_⟩
  rw [hlogged, hchecks]
  exact h.logged

theorem checks_cutShort (phase : Phase) (rounds : List Round) :
    (cutShort phase rounds).flatMap Round.checks = rounds.flatMap Round.checks := by
  cases phase with
  | asleep => rfl
  | checking pending => cases rounds <;> rfl

theorem checks_noted {job : Job} {pending : List Job} {x : Seen} {rounds : List Round}
    (h : InOrder (.checking (job :: pending)) rounds) :
    (noted job x rounds).flatMap Round.checks = (job, x) :: rounds.flatMap Round.checks := by
  cases rounds with
  | nil => exact h.elim
  | cons r older => rfl

/-- A check records its result, and the device goes on. -/
theorem check_records {s : State} {ram : ApiService.Ram} (job : Job) (pending : List Job) (x : Seen)
    {hist : List HealthCheckLog.Record} (h : Device.Recorded s.device hist)
    (hfew : hist.length < 2 ^ 32 - 2) (hram : s.device.ram = some ram) :
    ∃ e, contents e = written (job, x) ∧
      (check s ram job pending x {}).device.logged = e :: s.device.logged ∧
      (check s ram job pending x {}).rounds = noted job x s.rounds ∧
      ∃ ram', (check s ram job pending x {}).device.ram = some ram' := by
  have hrunning := h.running ram hram
  have hwrap : ram.log.nextSequence.toNat + 1 < 2 ^ 32 := by
    rw [hrunning.next]
    omega
  let made := deviceCheck job x (expiry s.warnings job x ram.buzzer).2
  obtain ⟨log, c', happend, -⟩ := HealthCheckLog.append_calm made.resourceIndex made.result
    made.timestamp (c := ⟨s.device.cells, {}, []⟩) hrunning rfl hwrap
  have hcheck := bind_of_some (f := fun r => pure (r.2.1,
    { ram with buzzer := made.sounds ram.buzzer, log := r.2.2 })) happend
  have hout : Device.checkResource made ram ⟨s.device.cells, {}, []⟩ = _ := hcheck
  refine ⟨_, append_handed happend, ?_, ?_, ?_⟩
  · rw [check_device]
    simp only [Device.step, hram]
    rw [hout]
    rfl
  · simp only [check]
    rw [hout]
    rfl
  · rw [check_device]
    simp only [Device.step, hram]
    rw [hout]
    exact ⟨_, rfl⟩

theorem recorded_asked {s : State} {e : Event} (h : ∃ hist, Device.Recorded s.device hist)
    (he : e.Calm) (hfew : s.device.logged.length < 2 ^ 32 - 2) :
    ∃ hist, Device.Recorded (step s e).device hist :=
  device_kept (fun d => ∃ hist, Device.Recorded d hist) h fun _ hasked =>
    Device.recorded_step h (calm_of_asked he hasked)
      ((Device.logged_step_le _ _).trans_lt (by omega))

/-- **The log goes along with the rounds.** -/
theorem kept_step {s : State} {e : Event} (h : Kept s) (hrounds : InOrder s.phase s.rounds)
    (he : e.Calm) (hfew : s.device.logged.length < 2 ^ 32 - 2) : Kept (step s e) := by
  have hrecorded := recorded_asked h.recorded he hfew
  cases e with
  | boot fates => exact h.congr hrecorded rfl (checks_cutShort s.phase s.rounds)
  | request env request body fates =>
    exact h.congr hrecorded (Device.logged_request s.device env request body fates) rfl
  | reset locked fates => exact he.elim
  | wake ready synchronized =>
    refine h.congr hrecorded ?_ ?_ <;> simp only [step]
    · split
      · split <;> rfl
      · rfl
    · split
      · split <;> rfl
      · rfl
  | check x fates =>
    obtain rfl : fates = {} := he
    simp only [step] at hrecorded ⊢
    split at hrecorded
    · rename_i ram job pending hram hphase
      rw [hphase] at hrounds
      obtain ⟨hist, hhist⟩ := h.recorded
      obtain ⟨e, he, hlogged, hnoted, -⟩ := check_records job pending x hhist
        (by rwa [Device.length_logged hhist]) hram
      have hchecks : (check s ram job pending x {}).checks = (job, x) :: s.checks := by
        rw [State.checks, hnoted, checks_noted hrounds, State.checks]
      refine ⟨hrecorded, ?_⟩
      rw [hlogged, hchecks, List.map_cons, List.map_cons, he, h.logged]
    · exact h
  | sleep =>
    refine h.congr hrecorded ?_ ?_ <;> simp only [step] <;> split <;> rfl

theorem logged_grows (s : State) (e : Event) :
    s.device.logged.length ≤ (step s e).device.logged.length :=
  device_kept (fun d => s.device.logged.length ≤ d.logged.length) (Nat.le_refl _) fun e' _ =>
    Device.logged_grows s.device e'

/-- At most one entry a step. -/
theorem length_logged_step (s : State) (e : Event) :
    (step s e).device.logged.length ≤ s.device.logged.length + 1 := by
  refine device_kept (fun d => d.logged.length ≤ s.device.logged.length + 1) (Nat.le_succ _)
    fun e' _ => ?_
  cases e' with
  | boot fates => exact Nat.le_succ _
  | request env request body fates =>
    rw [Device.logged_request]
    exact Nat.le_succ _
  | check made fates =>
    simp only [Device.step]
    split
    · exact Nat.le_succ _
    · rw [List.length_append, Nat.add_comm]
      exact Nat.add_le_add_left Option.length_toList_le _
  | reset locked fates =>
    rw [Device.logged_reset]
    exact Nat.le_succ _

/-! ## Every state reached -/

variable {events : List Event}

theorem inOrder_start : InOrder start.phase start.rounds := by
  intro r hr
  cases hr

theorem inOrder_run (events : List Event) :
    InOrder (run step start events).phase (run step start events).rounds := by
  have hstep : ∀ s e, InOrder s.phase s.rounds → InOrder (step s e).phase (step s e).rounds :=
    inOrder_step
  exact invariant hstep inOrder_start events

theorem length_logged_run (events : List Event) :
    (run step start events).device.logged.length ≤ events.length := by
  have hrun (s : State) : (run step s events).device.logged.length ≤
      s.device.logged.length + events.length := by
    induction events generalizing s with
    | nil => exact Nat.le_refl _
    | cons e events ih =>
      have hstep := length_logged_step s e
      have hrest := ih (step s e)
      rw [run, List.foldl_cons, List.length_cons]
      rw [run] at hrest
      omega
  exact (hrun start).trans (Nat.le_of_eq (Nat.zero_add _))

theorem kept_start : Kept start := ⟨⟨[], Device.recorded_start⟩, rfl⟩

theorem kept_run (hcalm : ∀ e ∈ events, e.Calm)
    (hfew : (run step start events).device.logged.length < 2 ^ 32 - 2) :
    Kept (run step start events) := by
  have hstep : ∀ s e, Kept s ∧ InOrder s.phase s.rounds →
      e.Calm ∧ (step s e).device.logged.length < 2 ^ 32 - 2 →
        Kept (step s e) ∧ InOrder (step s e).phase (step s e).rounds := fun s e h he =>
    ⟨kept_step h.1 h.2 he.1 (Nat.lt_of_le_of_lt (logged_grows s e) he.2), inOrder_step s e h.2⟩
  exact (keeps hstep ⟨kept_start, inOrder_start⟩
    ((along_of_forall hcalm).and (along_below logged_grows hfew))).1

/-- An unhealthy check. -/
def unhealthy (c : Job × Seen) : Bool := !TlsTransport.resourceHealthy (c.2.result c.1.2)

theorem filter_unhealthy {entries : List Entry} {checks : List (Job × Seen)}
    (h : entries.map contents = checks.map written) :
    (entries.filter fun e => !entryHealthy e).map contents =
      (checks.filter unhealthy).map written := by
  induction entries generalizing checks with
  | nil =>
    obtain rfl : checks = [] := List.map_eq_nil_iff.1 h.symm
    rfl
  | cons e entries ih =>
    cases checks with
    | nil => cases h
    | cons c checks =>
      obtain ⟨hhead, htail⟩ := List.cons.inj h
      have hhealthy : (!entryHealthy e) = unhealthy c :=
        congrArg Bool.not (entryHealthy_of_contents hhead)
      rw [List.filter_cons, List.filter_cons, hhealthy]
      cases unhealthy c with
      | false => exact ih htail
      | true => exact congrArg₂ List.cons hhead (ih htail)

/-- **Every check is recorded, once and in order**, across start-ups: what the log gives back are
the latest checks of the rounds, and the callback service is handed those that are not healthy. -/
theorem rounds_recorded (hcalm : ∀ e ∈ events, e.Calm)
    (hfew : (run step start events).device.logged.length < 2 ^ 32 - 2) {ram : ApiService.Ram}
    (hram : (run step start events).device.ram = some ram) {n : ℕ}
    (hn : n ≤ HealthCheckLog.slotsPerSector) (log : List Command) :
    (∃ entries, HealthCheckLog.getRecent n ram.log ⟨(run step start events).device.cells, {}, log⟩ =
        (some entries, ⟨(run step start events).device.cells, {}, log⟩) ∧
      entries.map contents = ((run step start events).checks.take n).map written) ∧
    (run step start events).enqueued.map contents =
      ((run step start events).checks.filter unhealthy).map written ∧
    InOrder (run step start events).phase (run step start events).rounds ∧
    ∀ r ∈ (run step start events).rounds, r.Once := by
  obtain ⟨⟨hist, hrecorded⟩, hlogged⟩ := kept_run hcalm hfew
  have hinOrder := inOrder_run events
  refine ⟨⟨_, hrecorded.recent hram hn log, ?_⟩, ?_, hinOrder, hinOrder.once⟩
  · rw [List.map_take, hlogged, List.map_take]
  · rw [enqueues_run events]
    exact filter_unhealthy hlogged

theorem goes_on {s : State} {ram : ApiService.Ram} (x : Seen) (h : Kept s)
    (hfew : s.device.logged.length < 2 ^ 32 - 2) (hram : s.device.ram = some ram) :
    ∃ ram', (step s (.check x {})).device.ram = some ram' := by
  obtain ⟨hist, hhist⟩ := h.recorded
  simp only [step]
  split
  · rename_i hup hphase
    obtain ⟨e, -, -, -, hram'⟩ := check_records _ _ x hhist
      (by rwa [Device.length_logged hhist]) hup
    exact hram'
  · exact ⟨ram, hram⟩

/-- A device comes up for the first time and begins a round, -/
def firstLook : List Event := [.boot {}, .wake true true]

theorem calm_firstLook : ∀ e ∈ firstLook, e.Calm := by
  rw [firstLook, List.forall_mem_cons, List.forall_mem_cons]
  exact ⟨rfl, trivial, List.forall_mem_nil _⟩

theorem up_firstLook : ∃ ram, (run step start firstLook).device.ram = some ram := by
  obtain ⟨ram, hram, -⟩ := Device.comes_up Device.holds_start
  refine ⟨ram, ?_⟩
  rw [firstLook, run, List.foldl_cons, List.foldl_cons, List.foldl_nil, step_device]
  exact hram

/-- and its first check meets a server that closes the connection. -/
def closedCheck : Seen := ⟨TlsTransport.closedLower, TlsTransport.cleared, none, 0⟩

/-- The latest 50 results, as the management API asks for them. -/
theorem rounds_recorded_first : ∃ ram entries s,
    s = run step start (firstLook ++ [.check closedCheck {}]) ∧ s.device.ram = some ram ∧
      HealthCheckLog.getRecent 50 ram.log ⟨s.device.cells, {}, []⟩ =
        (some entries, ⟨s.device.cells, {}, []⟩) ∧
      entries.map contents = (s.checks.take 50).map written := by
  have hcalm : ∀ e ∈ firstLook ++ [.check closedCheck {}], e.Calm :=
    List.forall_mem_append.2 ⟨calm_firstLook, List.forall_mem_singleton.2 rfl⟩
  have hlook : firstLook.length < 2 ^ 32 - 2 := by decide
  have hround : (firstLook ++ [Event.check closedCheck {}]).length < 2 ^ 32 - 2 := by
    rw [List.length_append]
    decide
  have hrun : run step start (firstLook ++ [.check closedCheck {}]) =
      step (run step start firstLook) (.check closedCheck {}) := by
    rw [run_append, run, List.foldl_cons, List.foldl_nil]
  have hfew := Nat.lt_of_le_of_lt (length_logged_run firstLook) hlook
  obtain ⟨first, hfirst⟩ := up_firstLook
  obtain ⟨ram, hram⟩ := goes_on closedCheck (kept_run calm_firstLook hfew) hfew hfirst
  rw [← hrun] at hram
  have hn : 50 ≤ HealthCheckLog.slotsPerSector := by decide
  obtain ⟨entries, hrecent, hentries⟩ := (rounds_recorded hcalm
    (Nat.lt_of_le_of_lt (length_logged_run _) hround) hram hn []).1
  exact ⟨ram, entries, _, rfl, hram, hrecent, hentries⟩

/-! ## The sleep -/

/-- What a step has to do with the sleep. At the head of the loop the task sleeps for a second, if
the network or the time is missing; behind a round for one minute to half an hour; and nowhere
else. -/
def Sleeps (s : State) (e : Event) (delay : Option UInt32) : Prop :=
  match e, s.device.ram, s.phase with
  | .boot _, _, _ => delay = none
  | .wake ready synchronized, some _, .asleep =>
    delay = if ready && synchronized then s.delay else some 1000
  | .sleep, some _, .checking [] => ∃ ms, delay = some ms ∧ 60000 ≤ ms ∧ ms ≤ 1800000
  | _, _, _ => delay = s.delay

theorem sleeps_period {snapshot : Snapshot} (h : Fit snapshot) :
    60000 ≤ snapshot.periodSeconds * 1000 ∧ snapshot.periodSeconds * 1000 ≤ 1800000 := by
  have hlow : 60 ≤ snapshot.periodSeconds.toNat := UInt32.le_iff_toNat_le.1 h.period.1
  have hhigh : snapshot.periodSeconds.toNat ≤ 1800 := UInt32.le_iff_toNat_le.1 h.period.2
  have hms : (snapshot.periodSeconds * 1000).toNat = snapshot.periodSeconds.toNat * 1000 := by
    rw [UInt32.toNat_mul, show (1000 : UInt32).toNat = 1000 from rfl]
    exact Nat.mod_eq_of_lt (by omega)
  refine ⟨UInt32.le_iff_toNat_le.2 ?_, UInt32.le_iff_toNat_le.2 ?_⟩
  · rw [hms]
    exact Nat.mul_le_mul_right 1000 hlow
  · rw [hms]
    exact Nat.mul_le_mul_right 1000 hhigh

/-- A valid configuration of the health checks that is found behind a step is no torn one. -/
def Untorn (s : State) (e : Event) : Prop :=
  ∀ e', asked s e = some e' → Device.Untorn s.device e'

theorem check_delay (s : State) (ram : ApiService.Ram) (job : Job) (pending : List Job) (x : Seen)
    (fates : Fates) : (check s ram job pending x fates).delay = s.delay := by
  simp only [check]
  split <;> rfl

/-- The sleep of one step, on a device with a fit configuration. -/
theorem delay_step {s : State} (e : Event) (hconfigured : Device.Configured s.device) :
    Sleeps s e (step s e).delay := by
  unfold Sleeps step
  cases e with
  | boot fates => rfl
  | request env request body fates => rfl
  | reset locked fates => rfl
  | wake ready synchronized =>
    cases hram : s.device.ram with
    | none => rfl
    | some ram =>
      cases hphase : s.phase with
      | checking pending => rfl
      | asleep => cases ready <;> cases synchronized <;> rfl
  | check x fates =>
    cases hram : s.device.ram with
    | none => rfl
    | some ram =>
      cases hphase : s.phase with
      | asleep => rfl
      | checking pending =>
        cases pending with
        | nil => rfl
        | cons job pending => exact check_delay s ram job pending x fates
  | sleep =>
    cases hram : s.device.ram with
    | none => rfl
    | some ram =>
      cases hphase : s.phase with
      | asleep => rfl
      | checking pending =>
        cases pending with
        | nil => exact ⟨_, rfl, sleeps_period (hconfigured.health ram hram)⟩
        | cons job pending => rfl

/-- **How long the task sleeps**, at every step from every state reached. -/
theorem delay_run (h : Along step Untorn start events) (e : Event) :
    Sleeps (run step start events) e (step (run step start events) e).delay := by
  have hstep : ∀ s e, Device.Configured s.device → Untorn s e →
      Device.Configured (step s e).device := fun s e hs he =>
    device_kept Device.Configured hs fun e' hasked => Device.configured_step hs (he e' hasked)
  exact delay_step e (keeps hstep Device.configured_start h)

theorem untorn_of_calm {s : State} {e : Event} (h : e.Calm) : Untorn s e := fun _ hasked =>
  .of_calm (Device.calm_of_calm (calm_of_asked h hasked))

/-- A round of the compiled default is one check. -/
theorem wake_default {s : State} {ram : ApiService.Ram} (hram : s.device.ram = some ram)
    (hasleep : s.phase = .asleep)
    (hsnapshot : ram.health.snapshot = stamp HealthCheckConfig.default) :
    ∃ job, (step s (.wake true true)).phase = .checking [job] := by
  have hresources : getResources ram.health = HealthCheckConfig.default.resources := by
    rw [getResources, hsnapshot]
    rfl
  have hone : (jobs HealthCheckConfig.default.resources).length = 1 := by decide
  obtain ⟨job, hjob⟩ := List.length_eq_one_iff.1 hone
  refine ⟨job, ?_⟩
  simp only [step, hram, hasleep, hresources, hjob]
  rfl

theorem pending_firstLook : ∃ job, (run step start firstLook).phase = .checking [job] := by
  obtain ⟨ram, hram, himages⟩ := Device.comes_up Device.holds_start
  have hboot : (step start (.boot {})).device.ram = some ram := by
    rw [step_device]
    exact hram
  rw [firstLook, run, List.foldl_cons, List.foldl_cons, List.foldl_nil]
  exact wake_default hboot rfl (congrFun himages .health)

/-- A check in which nothing goes wrong goes on to the next resource. -/
theorem checked_calm {s : State} {ram : ApiService.Ram} {job : Job} {pending : List Job} (x : Seen)
    (h : Kept s) (hfew : s.device.logged.length < 2 ^ 32 - 2) (hram : s.device.ram = some ram)
    (hphase : s.phase = .checking (job :: pending)) :
    (step s (.check x {})).phase = .checking pending := by
  obtain ⟨hist, hhist⟩ := h.recorded
  obtain ⟨e, -, hlogged, -⟩ := check_records job pending x hhist
    (by rwa [Device.length_logged hhist]) hram
  simp only [step, hram, hphase]
  have hchecked : Checked s (check s ram job pending x {}) job pending x := check_checked hram
  cases hchecked with
  | lost hsame _ _ _ => exact absurd (hlogged.symm.trans hsame) (List.cons_ne_self _ _)
  | done _ _ _ _ hnext _ => exact hnext

/-- Behind a round the task sleeps. -/
theorem Sleeps.behind {s : State} {delay : Option UInt32} (h : Sleeps s .sleep delay)
    {ram : ApiService.Ram} (hram : s.device.ram = some ram) (hphase : s.phase = .checking []) :
    ∃ ms, delay = some ms ∧ 60000 ≤ ms ∧ ms ≤ 1800000 := by
  simpa only [Sleeps, hram, hphase] using h

/-- The sleep behind the first round. -/
theorem delay_run_first : ∃ ms,
    (step (run step start (firstLook ++ [.check closedCheck {}])) .sleep).delay = some ms ∧
      60000 ≤ ms ∧ ms ≤ 1800000 := by
  have hcalm : ∀ e ∈ firstLook ++ [.check closedCheck {}], e.Calm :=
    List.forall_mem_append.2 ⟨calm_firstLook, List.forall_mem_singleton.2 rfl⟩
  have hsleeps := delay_run ((along_of_forall hcalm).mono fun _ _ he => untorn_of_calm he) .sleep
  have hlook : firstLook.length < 2 ^ 32 - 2 := by decide
  have hfew := Nat.lt_of_le_of_lt (length_logged_run firstLook) hlook
  obtain ⟨ram, hram⟩ := up_firstLook
  obtain ⟨job, hjob⟩ := pending_firstLook
  have hkept := kept_run calm_firstLook hfew
  obtain ⟨ram', hram'⟩ := goes_on closedCheck hkept hfew hram
  have hphase := checked_calm closedCheck hkept hfew hram hjob
  have hrun : run step start (firstLook ++ [.check closedCheck {}]) =
      step (run step start firstLook) (.check closedCheck {}) := by
    rw [run_append, run, List.foldl_cons, List.foldl_nil]
  rw [hrun] at hsleeps ⊢
  exact hsleeps.behind hram' hphase

end HealthCheck.HealthCheckService
