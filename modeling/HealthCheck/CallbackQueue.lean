import HealthCheck.HealthCheckLog
import HealthCheck.Lib.Fifo
import HealthCheck.Lib.Run

/-!
# The queue of the callback service

`callback_service.c` as two tasks around one queue: the health check hands a result over with
`CallbackService_Enqueue`, and the callback task takes results one after the other. Each call of
the queue is one step, and the steps of the two tasks come in any order.

* `received_in_order`: what the task receives is a part of what was enqueued, in its order, and
  an event is never lost once `CallbackService_Enqueue` has returned.
* `discards_full_iff`: an event is discarded from a full queue only, if and only if the task
  never takes one or two events between the failed send and the discard.
-/

namespace HealthCheck.CallbackService

open Run

/-- `CallbackService_EventTypeDef`. -/
abbrev Event := HealthCheckLog.Entry

/-- `CALLBACK_QUEUE_LENGTH`. -/
def queueLength : ℕ := 3

/-- Where the health check is: outside of `CallbackService_Enqueue`, or before one of the three
calls of the queue in it. -/
inductive Producer
  | idle
  | send (event : Event)
  | discard (event : Event)
  | sendAgain (event : Event)
deriving DecidableEq

/-- Where `callbackService_Task` is: before its `xQueueReceive`, or with an event in hand. -/
inductive Consumer
  | receiving
  | delivering (event : Event)
deriving DecidableEq

/-- Both tasks with their queue, and what has happened so far. -/
structure State where
  callbackQueue : Fifo queueLength Event
  producer : Producer
  consumer : Consumer
  /-- The events of all calls of `CallbackService_Enqueue`. -/
  enqueued : List Event
  /-- The events that the callback task received. -/
  received : List Event
  /-- The events that `CallbackService_Enqueue` threw away. -/
  discarded : List Event
  /-- How many events had been received when a send failed last. -/
  receivedAtFailure : ℕ

/-- The state after `CallbackService_Init`. -/
def init : State := ⟨Fifo.empty, .idle, .receiving, [], [], [], 0⟩

/-- What can happen next. -/
inductive Action
  | enqueue (event : Event)
  | producer
  | consumer

/-- `CallbackService_Enqueue` is called, unless the health check is still in it. -/
def enqueue (event : Event) (s : State) : State :=
  match s.producer with
  | .idle => { s with producer := .send event, enqueued := s.enqueued ++ [event] }
  | _ => s

/-- The next step of `CallbackService_Enqueue`. -/
def producerStep (s : State) : State :=
  match s.producer with
  | .idle => s
  | .send event =>
    match s.callbackQueue.send event with
    | some queue => { s with callbackQueue := queue, producer := .idle }
    | none => { s with producer := .discard event, receivedAtFailure := s.received.length }
  | .discard event =>
    match s.callbackQueue.receive with
    | some (discarded, queue) =>
      { s with callbackQueue := queue, producer := .sendAgain event,
               discarded := s.discarded ++ [discarded] }
    | none => { s with producer := .sendAgain event }
  | .sendAgain event =>
    match s.callbackQueue.send event with
    | some queue => { s with callbackQueue := queue, producer := .idle }
    | none => { s with producer := .idle }

/-- The next step of `callbackService_Task`. It waits as long as the queue is empty. -/
def consumerStep (s : State) : State :=
  match s.consumer with
  | .receiving =>
    match s.callbackQueue.receive with
    | some (event, queue) =>
      { s with callbackQueue := queue, consumer := .delivering event,
               received := s.received ++ [event] }
    | none => s
  | .delivering _ => { s with consumer := .receiving }

def step (s : State) : Action → State
  | .enqueue event => enqueue event s
  | .producer => producerStep s
  | .consumer => consumerStep s

/-- What is on its way behind the queue. -/
def Producer.carries : Producer → List Event
  | .idle => []
  | .send event | .discard event | .sendAgain event => [event]

/-! ## One step -/

/-- What holds between any two steps. -/
structure Inv (s : State) : Prop where
  /-- Everything received, queued or being sent was enqueued, in this order. -/
  ordered : (s.received ++ s.callbackQueue.items ++ s.producer.carries).Sublist s.enqueued
  /-- The event of the latest call is the last of these. -/
  latest : (s.received ++ s.callbackQueue.items ++ s.producer.carries).getLast? =
    s.enqueued.getLast?
  /-- Since a failed send, what has left the full queue has been received. -/
  full : ∀ event, s.producer = .discard event → s.receivedAtFailure ≤ s.received.length ∧
    s.callbackQueue.items.length + (s.received.length - s.receivedAtFailure) = queueLength
  /-- The second send finds room. -/
  room : ∀ event, s.producer = .sendAgain event → s.callbackQueue.items.length < queueLength

theorem inv_init : Inv init :=
  ⟨List.Sublist.refl [], rfl, nofun, nofun⟩

theorem inv_enqueue {s : State} (hs : Inv s) (event : Event) : Inv (enqueue event s) := by
  unfold enqueue
  split
  · next hidle =>
    have hordered := hs.ordered
    rw [hidle, Producer.carries, List.append_nil] at hordered
    refine ⟨?_, ?_, nofun, nofun⟩
    · exact hordered.append (List.Sublist.refl [event])
    · simp [Producer.carries]
  · exact hs

theorem inv_producer {s : State} (hs : Inv s) : Inv (producerStep s) := by
  obtain ⟨hordered, hlatest, hfull, hroom⟩ := hs
  unfold producerStep
  split
  · exact ⟨hordered, hlatest, hfull, hroom⟩
  · next event hproducer =>
    rw [hproducer, Producer.carries] at hordered hlatest
    split
    · next queue hsend =>
      obtain ⟨-, hitems⟩ := Fifo.send_eq_some hsend
      refine ⟨?_, ?_, nofun, nofun⟩
      · simpa [hitems, Producer.carries] using hordered
      · simpa [hitems, Producer.carries] using hlatest
    · next hsend =>
      refine ⟨hordered, hlatest, fun _ _ => ⟨Nat.le_refl _, ?_⟩, nofun⟩
      show s.callbackQueue.items.length + (s.received.length - s.received.length) = queueLength
      rw [Fifo.send_eq_none hsend, Nat.sub_self, Nat.add_zero]
  · next event hproducer =>
    rw [hproducer, Producer.carries] at hordered hlatest
    obtain ⟨-, hlength⟩ := hfull event hproducer
    split
    · next discarded queue hreceive =>
      have hitems := Fifo.receive_eq_some hreceive
      rw [hitems] at hordered hlatest hlength
      refine ⟨?_, ?_, nofun, fun _ _ => ?_⟩
      · refine List.Sublist.trans ?_ hordered
        exact (((List.sublist_cons_self discarded _).append_left _).append_right _)
      · rw [← hlatest, Producer.carries, List.getLast?_concat, List.getLast?_concat]
      · rw [List.length_cons] at hlength
        show queue.items.length < queueLength
        omega
    · next hreceive =>
      refine ⟨hordered, hlatest, nofun, fun _ _ => ?_⟩
      rw [Fifo.receive_eq_none hreceive]
      exact Nat.zero_lt_succ 2
  · next event hproducer =>
    rw [hproducer, Producer.carries] at hordered hlatest
    split
    · next queue hsend =>
      obtain ⟨-, hitems⟩ := Fifo.send_eq_some hsend
      refine ⟨?_, ?_, nofun, nofun⟩
      · simpa [hitems, Producer.carries] using hordered
      · simpa [hitems, Producer.carries] using hlatest
    · next hsend =>
      -- the second send does not fail
      exact absurd (Fifo.send_eq_none hsend) (Nat.ne_of_lt (hroom event hproducer))

theorem inv_consumer {s : State} (hs : Inv s) : Inv (consumerStep s) := by
  obtain ⟨hordered, hlatest, hfull, hroom⟩ := hs
  unfold consumerStep
  split
  · split
    · next event queue hreceive =>
      have hitems := Fifo.receive_eq_some hreceive
      rw [hitems] at hordered hlatest hfull hroom
      refine ⟨?_, ?_, fun e he => ?_, fun e he => ?_⟩
      · simpa using hordered
      · simpa using hlatest
      · obtain ⟨hle, hlength⟩ := hfull e he
        rw [List.length_cons] at hlength
        show s.receivedAtFailure ≤ (s.received ++ [event]).length ∧
          queue.items.length + ((s.received ++ [event]).length - s.receivedAtFailure) = queueLength
        rw [List.length_append, List.length_singleton]
        omega
      · exact Nat.lt_of_succ_lt (hroom e he)
    · exact ⟨hordered, hlatest, hfull, hroom⟩
  · exact ⟨hordered, hlatest, hfull, hroom⟩

theorem inv_step (s : State) (a : Action) (hs : Inv s) : Inv (step s a) := by
  cases a with
  | enqueue event => exact inv_enqueue hs event
  | producer => exact inv_producer hs
  | consumer => exact inv_consumer hs

theorem inv_run (actions : List Action) : Inv (run step init actions) := by
  induction actions using List.reverseRecOn with
  | nil => exact inv_init
  | append_singleton actions a ih =>
    rw [run_append]
    exact inv_step _ a ih

/-! ## Order and freshness -/

/-- **In order.** After every run, the events received and, behind them, the events in the queue
are a part of the events enqueued, each at most as often as it was enqueued and in the same order.
Whenever no call of `CallbackService_Enqueue` is under way, the event of the latest call is the
last of these: it is in the queue, or it has been received. -/
theorem received_in_order (actions : List Action) :
    let s := run step init actions
    s.received.Sublist s.enqueued ∧
      (s.received ++ s.callbackQueue.items).Sublist s.enqueued ∧
      (s.producer = .idle → ∀ event, s.enqueued.getLast? = some event →
        (s.received ++ s.callbackQueue.items).getLast? = some event ∧
          (event ∈ s.callbackQueue.items ∨ event ∈ s.received)) := by
  intro s
  have hs : Inv s := inv_run actions
  have hqueued : (s.received ++ s.callbackQueue.items).Sublist s.enqueued :=
    (List.sublist_append_left _ _).trans hs.ordered
  refine ⟨(List.sublist_append_left _ _).trans hqueued, hqueued, fun hidle event hevent => ?_⟩
  have hlatest := hs.latest
  rw [hidle, Producer.carries, List.append_nil, hevent] at hlatest
  exact ⟨hlatest, (List.mem_append.mp (List.mem_of_getLast? hlatest)).symm⟩

/-! ## Loss -/

/-- `CallbackService_Enqueue` is at its discard and goes on. -/
def AtDiscard (s : State) : Action → Prop
  | .producer => ∃ event, s.producer = .discard event
  | _ => False

/-- An event is thrown away. -/
def Discards (s : State) (a : Action) : Prop :=
  (step s a).discarded ≠ s.discarded

/-- Only the receive in the middle of `CallbackService_Enqueue` throws an event away, and it does
so unless the queue is empty. -/
theorem discards_iff (s : State) (a : Action) :
    Discards s a ↔ AtDiscard s a ∧ s.callbackQueue.items ≠ [] := by
  unfold Discards AtDiscard
  cases a with
  | enqueue event =>
    show (enqueue event s).discarded ≠ s.discarded ↔ _
    unfold enqueue
    split <;> simp
  | consumer =>
    show (consumerStep s).discarded ≠ s.discarded ↔ _
    unfold consumerStep
    split
    · split <;> simp
    · simp
  | producer =>
    show (producerStep s).discarded ≠ s.discarded ↔ _
    unfold producerStep
    split
    · next h => simp [h]
    · next h => split <;> simp [h]
    · next h =>
      split
      · next hreceive => simp [h, Fifo.receive_eq_some hreceive]
      · next hreceive => simp [Fifo.receive_eq_none hreceive]
    · next h => split <;> simp [h]

/-- At a discard, the queue is full or empty if and only if the callback task has taken none or
all of its events. -/
theorem full_iff_taken {s : State} (hs : Inv s) (a : Action) :
    (Discards s a → s.callbackQueue.items.length = queueLength) ↔
      (AtDiscard s a → s.received.length = s.receivedAtFailure ∨
        s.received.length = s.receivedAtFailure + queueLength) := by
  rw [discards_iff, and_imp]
  refine forall_congr' fun hat => ?_
  cases a with
  | enqueue | consumer => exact hat.elim
  | producer =>
    obtain ⟨event, hproducer⟩ := hat
    obtain ⟨hle, hlength⟩ := hs.full event hproducer
    rw [← List.length_pos_iff]
    omega

/-- **Needless loss.** In a run, events are discarded at moments only at which three events are in
the queue, if and only if at every discard the callback task has taken none or all three of the
queued events since the send failed. -/
theorem discards_full_iff (actions : List Action) :
    Along step (fun s a => Discards s a → s.callbackQueue.items.length = queueLength) init actions ↔
      Along step (fun s a => AtDiscard s a → s.received.length = s.receivedAtFailure ∨
        s.received.length = s.receivedAtFailure + queueLength) init actions :=
  ⟨fun h => h.of_keeps (fun s a hs _ => inv_step s a hs) (fun _ a hs => (full_iff_taken hs a).mp)
      inv_init,
    fun h => h.of_keeps (fun s a hs _ => inv_step s a hs) (fun _ a hs => (full_iff_taken hs a).mpr)
      inv_init⟩

/-- The result of a check that failed with a status of 2. -/
def failure (sequence : UInt32) : Event := ⟨sequence, 0, 0, 0, 0, 0, 2⟩

/-- Four failed checks in a row, and the callback task takes the first event just before the
discard. -/
def overtaken : List Action :=
  [.enqueue (failure 1), .producer, .enqueue (failure 2), .producer, .enqueue (failure 3),
    .producer, .enqueue (failure 4), .producer, .consumer]

/-- In that run the second event is thrown away although there is room for the fourth one, and it
is never received. -/
theorem discards_with_room :
    (¬∀ actions, Along step
        (fun s a => Discards s a → s.callbackQueue.items.length = queueLength) init actions) ∧
      let s := run step (run step init overtaken)
        [.producer, .producer, .consumer, .consumer, .consumer, .consumer, .consumer]
      s.enqueued = [failure 1, failure 2, failure 3, failure 4] ∧
        s.received = [failure 1, failure 3, failure 4] ∧ s.callbackQueue.items = [] := by
  have hitems : (run step init overtaken).callbackQueue.items = [failure 2, failure 3] := rfl
  have hdiscards : Discards (run step init overtaken) .producer := by
    show [failure 2] ≠ []
    exact List.cons_ne_nil _ _
  refine ⟨fun h => ?_, rfl, rfl, rfl⟩
  have hfull := ((along_append.mp (h (overtaken ++ [.producer]))).2).1 hdiscards
  rw [hitems] at hfull
  cases hfull

end HealthCheck.CallbackService
