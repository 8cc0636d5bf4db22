import HealthCheck.CallbackDelivery
import HealthCheck.HealthCheckService

/-!
# From a check to the receiver of callbacks

The health-check task hands its results to the queue, and the callback task takes them out and
sends them, while the management API changes the configuration of both. A start-up empties the
queue.

* `CallbackReports.step` — both tasks on their device.
* `reports_run` — a receiver reads logged results that are not healthy, each at most once and in
  the order of the log, whatever fails.
-/

namespace HealthCheck.CallbackReports

open CallbackConfig (Config)
open CallbackService (Consumer consumerStep producerStep)
open HealthCheckLog (Entry)
open Run

/-! ## The two tasks -/

/-- The health-check task with its device, the queue with both sides of it, and for each event that
came to be sent the configuration that `CallbackConfig_Get` gave, oldest first. -/
structure State where
  service : HealthCheckService.State
  queue : CallbackService.State
  deliveries : List (Config × Entry)

/-- A step on the side of the device, or a step of `CallbackService_Enqueue` or of
`callbackService_Task`. -/
inductive Event
  | service (event : HealthCheckService.Event)
  | producer
  | consumer

/-- The health-check task goes on behind `CallbackService_Enqueue` only. -/
def Busy (s : State) : HealthCheckService.Event → Prop
  | .wake .. | .check .. | .sleep => s.queue.producer ≠ .idle
  | .boot .. | .request .. | .reset .. => False

instance (s : State) (e : HealthCheckService.Event) : Decidable (Busy s e) := by
  cases e <;> unfold Busy <;> infer_instance

/-- `CallbackService_Enqueue` is called when an entry has come to the `enqueued` of the task. -/
def handOver (before after : List Entry) (queue : CallbackService.State) : CallbackService.State :=
  match after with
  | [] => queue
  | entry :: older => if older = before then CallbackService.enqueue entry queue else queue

/-- A start-up makes the queue anew. -/
def restart (queue : CallbackService.State) : CallbackService.State :=
  { queue with callbackQueue := .empty, producer := .idle, consumer := .receiving }

/-- The queue behind a step of the device. -/
def carried (s : State) (service : HealthCheckService.State) :
    HealthCheckService.Event → CallbackService.State
  | .boot _ => restart s.queue
  | _ => handOver s.service.enqueued service.enqueued s.queue

/-- What `callbackService_Task` is about to send. -/
def sent (config : Config) : Consumer → List (Config × Entry)
  | .receiving => []
  | .delivering event => if config.enabled = 0 then [] else [(config, event)]

/-- One step. A device that is not running takes none but a start-up. -/
def step (s : State) : Event → State
  | .service e =>
    if Busy s e then s
    else
      let service := HealthCheckService.step s.service e
      { s with service := service, queue := carried s service e }
  | .producer =>
    match s.service.device.ram with
    | none => s
    | some _ => { s with queue := producerStep s.queue }
  | .consumer =>
    match s.service.device.ram with
    | none => s
    | some ram =>
      { s with
        queue := consumerStep s.queue
        deliveries := s.deliveries ++ sent (CallbackConfig.get ram.callback) s.queue.consumer }

/-- A device that was never started. -/
def start : State := ⟨HealthCheckService.start, CallbackService.init, []⟩

/-! ## What is on its way -/

/-- The event in the hands of `callbackService_Task`. -/
def holds : Consumer → List Entry
  | .receiving => []
  | .delivering event => [event]

/-- The events on their way, the oldest first. -/
def pending (queue : CallbackService.State) : List Entry :=
  holds queue.consumer ++ queue.callbackQueue.items ++ queue.producer.carries

section Pending

variable (queue : CallbackService.State)

theorem pending_restart : pending (restart queue) = [] := rfl

theorem pending_enqueue (entry : Entry) (hidle : queue.producer = .idle) :
    pending (CallbackService.enqueue entry queue) = pending queue ++ [entry] := by
  simp only [CallbackService.enqueue, hidle, pending, CallbackService.Producer.carries,
    List.append_nil]

/-- An event in the queue may be thrown away. -/
theorem pending_producer : (pending (producerStep queue)).Sublist (pending queue) := by
  unfold producerStep
  split
  · exact List.Sublist.refl _
  · rename_i event hproducer
    simp only [pending, hproducer, CallbackService.Producer.carries]
    split
    · rename_i rest hsend
      rw [(Fifo.send_eq_some hsend).2, List.append_nil, List.append_assoc]
    · exact List.Sublist.refl _
  · rename_i event hproducer
    simp only [pending, hproducer, CallbackService.Producer.carries]
    split
    · rename_i discarded rest hreceive
      rw [Fifo.receive_eq_some hreceive]
      exact ((List.sublist_cons_self _ _).append_left _).append_right _
    · exact List.Sublist.refl _
  · rename_i event hproducer
    simp only [pending, hproducer, CallbackService.Producer.carries]
    split
    · rename_i rest hsend
      rw [(Fifo.send_eq_some hsend).2, List.append_nil, List.append_assoc]
    · simpa only [List.append_nil] using
        List.sublist_append_left (holds queue.consumer ++ queue.callbackQueue.items) [event]

/-- `callbackService_Task` goes on with the oldest one. -/
theorem pending_consumer :
    holds queue.consumer ++ pending (consumerStep queue) = pending queue := by
  unfold consumerStep
  split
  · rename_i hconsumer
    split
    · rename_i event rest hreceive
      simp only [pending, hconsumer, holds, Fifo.receive_eq_some hreceive, List.nil_append,
        List.cons_append]
    · rw [hconsumer]
      rfl
  · rename_i event hconsumer
    simp only [pending, hconsumer, holds, List.nil_append, List.append_assoc]

end Pending

/-! ## One step -/

/-- A step of the health-check task hands over one entry at most. -/
theorem enqueued_cases (s : HealthCheckService.State) (e : HealthCheckService.Event) :
    (HealthCheckService.step s e).enqueued = s.enqueued ∨
      (∃ x fates, e = .check x fates) ∧
        ∃ entry, (HealthCheckService.step s e).enqueued = entry :: s.enqueued := by
  cases e with
  | boot fates => exact .inl rfl
  | request env request body fates => exact .inl rfl
  | reset locked fates => exact .inl rfl
  | wake ready synchronized =>
    simp only [HealthCheckService.step]
    split
    · split <;> exact .inl rfl
    · exact .inl rfl
  | check x fates =>
    simp only [HealthCheckService.step]
    split
    · rename_i ram job later hram hphase
      have hchecked : HealthCheckService.Checked s
          (HealthCheckService.check s ram job later x fates) job later x :=
        HealthCheckService.check_checked hram
      cases hchecked with
      | lost _ henqueued => exact .inl henqueued
      | done entry _ _ henqueued =>
        rw [henqueued]
        split
        · exact .inl rfl
        · cases entry with
          | none => exact .inl rfl
          | some entry => exact .inr ⟨⟨x, fates, rfl⟩, entry, rfl⟩
    · exact .inl rfl
  | sleep =>
    simp only [HealthCheckService.step]
    split <;> exact .inl rfl

theorem handOver_same (entries : List Entry) (queue : CallbackService.State) :
    handOver entries entries queue = queue := by
  cases entries with
  | nil => rfl
  | cons entry older => exact if_neg (List.cons_ne_self entry older).symm

theorem handOver_cons (entry : Entry) (entries : List Entry) (queue : CallbackService.State) :
    handOver entries (entry :: entries) queue = CallbackService.enqueue entry queue :=
  if_pos rfl

/-- What was sent and what is on its way was handed over, in this order. -/
def Ordered (s : State) : Prop :=
  (s.deliveries.map Prod.snd ++ pending s.queue).Sublist s.service.enqueued.reverse

theorem ordered_service {s : State} {e : HealthCheckService.Event} (h : Ordered s)
    (hbusy : ¬Busy s e) :
    (s.deliveries.map Prod.snd ++
      pending (carried s (HealthCheckService.step s.service e) e)).Sublist
        (HealthCheckService.step s.service e).enqueued.reverse := by
  by_cases hboot : ∃ fates, e = .boot fates
  · obtain ⟨fates, rfl⟩ := hboot
    rw [carried, pending_restart]
    exact ((List.sublist_append_left _ _).append_left _).trans h
  · have hcarried : carried s (HealthCheckService.step s.service e) e =
        handOver s.service.enqueued (HealthCheckService.step s.service e).enqueued s.queue := by
      cases e with
      | boot fates => exact absurd ⟨fates, rfl⟩ hboot
      | request | reset | wake | check | sleep => rfl
    rw [hcarried]
    rcases enqueued_cases s.service e with hsame | ⟨⟨x, fates, rfl⟩, entry, hentry⟩
    · rw [hsame, handOver_same]
      exact h
    · have hidle : s.queue.producer = .idle := not_not.1 hbusy
      rw [hentry, handOver_cons, pending_enqueue s.queue entry hidle, List.reverse_cons,
        ← List.append_assoc]
      exact h.append_right [entry]

theorem sent_sublist (config : Config) (consumer : Consumer) :
    ((sent config consumer).map Prod.snd).Sublist (holds consumer) := by
  cases consumer with
  | receiving => exact List.Sublist.refl _
  | delivering event =>
    simp only [sent]
    split
    · exact List.nil_sublist _
    · exact List.Sublist.refl _

theorem ordered_step (s : State) (e : Event) (h : Ordered s) : Ordered (step s e) := by
  cases e with
  | service e =>
    simp only [step]
    split
    · exact h
    · rename_i hbusy
      exact ordered_service h hbusy
  | producer =>
    simp only [step]
    split
    · exact h
    · exact ((pending_producer s.queue).append_left _).trans h
  | consumer =>
    simp only [step]
    split
    · exact h
    · rw [Ordered, ← pending_consumer] at h
      rw [Ordered, List.map_append, List.append_assoc]
      exact (((sent_sublist _ _).append_right _).append_left _).trans h

theorem ordered_run (events : List Event) : Ordered (run step start events) := by
  have hstart : Ordered start := List.Sublist.refl []
  exact invariant ordered_step hstart events

/-! ## The messages -/

/-- A receiver of the message for an event reads the event. -/
def Delivered (config : Config) (event : Entry) : Prop :=
  ∃ delivery text message, CallbackService.deliver config event = some delivery ∧
    (∀ lower p, ∃ p', TlsTransport.buildRequest delivery.args lower p = .ok (text, p')) ∧
    Http.Request.read text = some message ∧
    CallbackService.received message = some (CallbackService.report event)

theorem delivered {config : Config} (hvalid : CallbackConfig.fieldsValid config)
    (henabled : config.enabled ≠ 0) (event : Entry) : Delivered config event := by
  obtain ⟨args, hdeliver, hbuild, hread, hconveys⟩ :=
    CallbackService.sent_read hvalid henabled event
  exact ⟨_, _, _, hdeliver, hbuild, hread, hconveys.report⟩

/-- A valid configuration of the health checks that is found behind a step is no torn one. -/
def Untorn (s : State) : Event → Prop
  | .service e => ¬Busy s e → HealthCheckService.Untorn s.service e
  | .producer | .consumer => True

/-- The configurations that were sent with. -/
structure Valid (s : State) : Prop where
  configured : Device.Configured s.service.device
  delivered : ∀ d ∈ s.deliveries, Delivered d.1 d.2

theorem valid_step (s : State) (e : Event) (h : Valid s) (he : Untorn s e) : Valid (step s e) := by
  cases e with
  | service e =>
    simp only [step]
    split
    · exact h
    · rename_i hbusy
      exact ⟨HealthCheckService.device_kept Device.Configured h.configured fun e' hasked =>
        Device.configured_step h.configured (he hbusy e' hasked), h.delivered⟩
  | producer =>
    simp only [step]
    split <;> exact ⟨h.configured, h.delivered⟩
  | consumer =>
    simp only [step]
    split
    · exact h
    · rename_i ram hram
      refine ⟨h.configured, List.forall_mem_append.2 ⟨h.delivered, ?_⟩⟩
      cases s.queue.consumer with
      | receiving => exact List.forall_mem_nil _
      | delivering event =>
        simp only [sent]
        split
        · exact List.forall_mem_nil _
        · rename_i henabled
          exact List.forall_mem_singleton.2
            (delivered (h.configured.callback ram hram) henabled event)

variable {events : List Event}

theorem valid_run (h : Along step Untorn start events) : Valid (run step start events) :=
  keeps valid_step ⟨Device.configured_start, List.forall_mem_nil _⟩ h

/-! ## The service under the queue -/

theorem enqueues_run (events : List Event) :
    HealthCheckService.Enqueues (run step start events).service := by
  have hstep : ∀ s e, HealthCheckService.Enqueues s.service →
      HealthCheckService.Enqueues (step s e).service := by
    intro s e h
    cases e with
    | service e =>
      simp only [step]
      split
      · exact h
      · exact HealthCheckService.enqueues_step s.service e h
    | producer =>
      simp only [step]
      split <;> exact h
    | consumer =>
      simp only [step]
      split <;> exact h
  have hstart : HealthCheckService.Enqueues start.service := rfl
  exact invariant hstep hstart events

/-- **From the log to the receiver**: the results that callbacks tell of are logged results that are
not healthy, each at most once and in the order of the log, and a receiver reads exactly them. -/
theorem reports_run (h : Along step Untorn start events) :
    ((run step start events).deliveries.map Prod.snd).Sublist
        ((run step start events).service.device.logged.reverse.filter fun e =>
          !HealthCheckService.entryHealthy e) ∧
      ∀ d ∈ (run step start events).deliveries, Delivered d.1 d.2 := by
  refine ⟨?_, (valid_run h).delivered⟩
  have hordered := ordered_run events
  rw [Ordered, enqueues_run events, ← List.filter_reverse] at hordered
  exact (List.sublist_append_left _ _).trans hordered

/-- The first round of a device, and both sides of the queue behind it. -/
def firstRound : List Event :=
  (HealthCheckService.firstLook.map .service) ++
    [.service (.check HealthCheckService.closedCheck {}), .producer, .consumer, .consumer]

theorem reports_run_first :
    ((run step start firstRound).deliveries.map Prod.snd).Sublist
      ((run step start firstRound).service.device.logged.reverse.filter fun e =>
        !HealthCheckService.entryHealthy e) := by
  have hcalm : ∀ e ∈ firstRound, ∀ s, Untorn s e := by
    rw [firstRound, List.forall_mem_append, List.forall_mem_map]
    refine ⟨fun e he s _ => HealthCheckService.untorn_of_calm
      (HealthCheckService.calm_firstLook e he), ?_⟩
    rw [List.forall_mem_cons, List.forall_mem_cons, List.forall_mem_cons, List.forall_mem_cons]
    exact ⟨fun s _ => HealthCheckService.untorn_of_calm rfl, fun _ => trivial, fun _ => trivial,
      fun _ => trivial, List.forall_mem_nil _⟩
  exact (reports_run ((along_of_forall hcalm).mono fun s _ he => he s)).1

end HealthCheck.CallbackReports
