import HealthCheck.TimeService

/-!
# Replies and requests of the time service

A request is outstanding from the time the task marks it as pending until it times out or a datagram
answers it. `timeService_Receive` does not look at this.

* `answers_only_iff` — so the clock is set from answers only, and other datagrams change nothing,
  as long as every datagram comes while a request is outstanding or finds nothing to change.
* `late_sets` — a reply that comes behind the timeout of its request sets the clock.
-/

namespace HealthCheck.TimeService

open Run

/-- The time service, with what a bystander knows of its latest request. -/
structure Watched where
  service : State
  /-- It has neither timed out nor been answered. -/
  outstanding : Bool
  /-- The time of its answer. -/
  answer : Option UInt32

/-- What a bystander learns from an event. -/
def watch (copyPartial : CopyPartial) (w : Watched) (e : Event) : Watched :=
  let service := step copyPartial w.service e
  match e with
  | .task _ =>
    match w.service.place with
    | .request => ⟨service, true, none⟩
    | .timeout => ⟨service, false, w.answer⟩
    | _ => { w with service := service }
  | .receive d =>
    ⟨service, false, if w.outstanding then replyTime copyPartial d else w.answer⟩
  | .startRequest .. | .dnsCallback _ => { w with service := service }

/-- The service when it starts. -/
def watched (rtc : Rtc.Registers) : Watched := ⟨init rtc, false, none⟩

/-- `Rtc_SetUnixTime` is called with the time of the answer to the latest request, and a datagram
that comes when no request is outstanding changes nothing. -/
def AnswersOnly (copyPartial : CopyPartial) (w : Watched) : Event → Prop
  | .task _ => ∀ unixTime, w.service.place = .setTime unixTime → w.answer = some unixTime
  | .receive d => w.outstanding ∨ step copyPartial w.service (.receive d) = w.service
  | .startRequest .. | .dnsCallback _ => True

/-- A datagram comes while a request is outstanding, or it finds its own time or its own failure. -/
def Timely (copyPartial : CopyPartial) (w : Watched) : Event → Prop
  | .receive d => w.outstanding ∨
    match replyTime copyPartial d with
    | none => w.service.syncState = .failed
    | some unixTime =>
      w.service.syncState = .received ∧ w.service.receivedUnixTime = unixTime
  | _ => True

/-- A time that was received, or is on its way to the RTC, is the answer to the latest request. -/
structure Answered (w : Watched) : Prop where
  received : w.service.syncState = .received → w.service.place.Takes ∨
    w.outstanding = false ∧ w.answer = some w.service.receivedUnixTime
  seen : w.service.place = .testTime ∨ w.service.place = .readTime →
    w.outstanding = false ∧ w.answer = some w.service.receivedUnixTime
  taken : ∀ unixTime, w.service.place = .clearTime unixTime ∨ w.service.place = .setTime unixTime →
    w.outstanding = false ∧ w.answer = some unixTime

theorem answered_task (copyPartial : CopyPartial) (e : Surroundings) {w : Watched}
    (h : Answered w) : Answered (watch copyPartial w (.task e)) := by
  obtain ⟨s, outstanding, answer⟩ := w
  obtain ⟨hreceived, hseen, htaken⟩ := h
  simp only [watch, step, taskStep]
  cases hplace : s.place <;> simp only [hplace, Place.Takes] at hreceived hseen htaken <;>
    dsimp only <;> (repeat' split) <;> constructor <;> simp_all [Place.Takes]

/-- Sending a request leaves the answer to the latest one. -/
theorem Answered.sync {w : Watched} (h : Answered w) {v : Sync}
    (hkeeps : w.service.toSync.Keeps v) :
    Answered { w with service := { w.service with toSync := v } } := by
  obtain ⟨htime, hstate⟩ := hkeeps
  refine ⟨fun hreceived => ?_, fun hplace => ?_, h.taken⟩
  · rcases hstate with hsame | hfailed
    · exact (h.received (hsame ▸ hreceived)).imp_right (htime ▸ ·)
    · exact nomatch hfailed.symm.trans hreceived
  · exact htime ▸ h.seen hplace

theorem step_receive_eq_iff (copyPartial : CopyPartial) (s : State) (d : Datagram) :
    step copyPartial s (.receive d) = s ↔
      match replyTime copyPartial d with
      | none => s.syncState = .failed
      | some unixTime => s.syncState = .received ∧ s.receivedUnixTime = unixTime := by
  obtain ⟨⟨state, time, pcb⟩, place, retry, request, rtc, requests⟩ := s
  cases htime : replyTime copyPartial d <;> simp [step, receive, htime, Sync.fail, eq_comm]

/-- So does a datagram that comes in time. -/
theorem answered_receive {copyPartial : CopyPartial} {w : Watched} (h : Answered w) {d : Datagram}
    (htimely : Timely copyPartial w (.receive d)) : Answered (watch copyPartial w (.receive d)) := by
  obtain ⟨s, outstanding, answer⟩ := w
  cases outstanding with
  | false =>
    have hsame := (step_receive_eq_iff copyPartial s d).2 (htimely.resolve_left nofun)
    have hwatch : watch copyPartial ⟨s, false, answer⟩ (.receive d) = ⟨s, false, answer⟩ := by
      simp only [watch, hsame, Bool.false_eq_true, if_false]
    rw [hwatch]
    exact h
  | true =>
    -- no time is on its way, so what the datagram leaves is all there is
    refine ⟨fun hreceived => .inr ⟨rfl, ?_⟩, fun hseen => ?_, fun t htaken => ?_⟩
    · cases htime : replyTime copyPartial d with
      | none =>
        simp only [watch, step, receive, htime] at hreceived
        exact nomatch hreceived
      | some unixTime => simp only [watch, step, receive, htime, if_true]
    · exact nomatch (h.seen hseen).1
    · exact nomatch (h.taken t htaken).1

theorem answered_watch {copyPartial : CopyPartial} (w : Watched) (e : Event) (h : Answered w)
    (htimely : Timely copyPartial w e) : Answered (watch copyPartial w e) := by
  cases e with
  | task e => exact answered_task copyPartial e h
  | startRequest created lookup => exact h.sync (startRequest_keeps created lookup _)
  | dnsCallback address => exact h.sync (dnsCallback_keeps address _)
  | receive d => exact answered_receive h htimely

theorem answersOnly_of_timely {copyPartial : CopyPartial} (w : Watched) (e : Event)
    (h : Answered w) (htimely : Timely copyPartial w e) : AnswersOnly copyPartial w e := by
  cases e with
  | task e => exact fun unixTime hplace => (h.taken unixTime (.inr hplace)).2
  | startRequest | dnsCallback => trivial
  | receive d => exact htimely.imp_right (step_receive_eq_iff copyPartial w.service d).2

theorem timely_of_answersOnly {copyPartial : CopyPartial} (w : Watched) (e : Event)
    (h : AnswersOnly copyPartial w e) : Timely copyPartial w e := by
  cases e with
  | task | startRequest | dnsCallback => trivial
  | receive d => exact h.imp_right (step_receive_eq_iff copyPartial w.service d).1

/-- **When the clock is set from answers only**: in every run of the task and its callbacks, the
clock is set from the answer to the latest request, and any other datagram changes nothing, exactly
when every datagram comes while a request is outstanding, or finds a failure if it is malformed and
its own time if it is not. -/
theorem answers_only_iff (copyPartial : CopyPartial) (rtc : Rtc.Registers) (events : List Event) :
    Along (watch copyPartial) (AnswersOnly copyPartial) (watched rtc) events ↔
      Along (watch copyPartial) (Timely copyPartial) (watched rtc) events := by
  have hstart : Answered (watched rtc) :=
    ⟨nofun, by simp [watched, init], by simp [watched, init]⟩
  exact ⟨fun h => h.mono timely_of_answersOnly,
    fun h => h.of_keeps answered_watch answersOnly_of_timely hstart⟩

/-! ## A late reply -/

/-- What the service meets when nothing fails. -/
def calm : Surroundings := ⟨true, true, .ok, .ok⟩

/-- A request is sent and times out, and its reply comes behind the timeout. -/
def late : List Event :=
  List.replicate 7 (.task calm) ++ [.startRequest true (.known ⟨true, true, true⟩)] ++
    List.replicate 46 (.task calm) ++ [.receive ⟨some summerReply, ntpPort⟩] ++
    List.replicate 5 (.task calm)

/-- The task sets the clock from it. -/
theorem late_sets : ¬∀ copyPartial rtc events,
    Along (watch copyPartial) (AnswersOnly copyPartial) (watched rtc) events := by
  intro h
  have hset := (along_append.1 (h (fun packet size offset => (packet.drop offset).take size)
    ⟨0, 0, 0⟩ (late ++ [.task calm]))).2.1
  exact absurd (hset 1785456000 (by decide +kernel)) (by decide +kernel)

end HealthCheck.TimeService
