import HealthCheck.BuzzerService
import HealthCheck.Lib.Run
import Mathlib.Algebra.Order.Ring.Nat
import Mathlib.Data.List.Infix

/-!
# The buzzer task and its callers

`buzzer_service.c` as one task that plays tones and any number of calls that ask it to. A critical
section, an operation on the semaphore and a notification are one step each, and the steps come in
any order.

* `success_means_played`: `BuzzerService_FactoryResetWarning` and
  `BuzzerService_FactoryResetCancelled` return `SUCCESS` only after their own tones, as long as
  no such call drains the semaphore between the task's last critical section for a request and
  its `xSemaphoreGive`.
* `stale_completion`: a call that does so may be completed by the tones of another one.
-/

namespace HealthCheck.BuzzerService

open Run

/-- `BUZZER_DEFAULT_FREQUENCY_HZ`. -/
def defaultFrequencyHz : ℕ := 2500

/-- `BUZZER_ALERT_TONE_COUNT`. -/
def alertToneCount : ℕ := 3

/-- `BUZZER_RESET_WARNING_TONE_COUNT`. -/
def resetWarningToneCount : ℕ := 5

/-- The `melody` of `buzzerService_PlayCertificateWarning`. -/
def melody : List ℕ := [1600, 2100, 2800]

/-- What the task plays tones for. A synchronous request is told by the call that set it. -/
inductive Sound
  | selfTest
  | synchronous (call : ℕ)
  | certificate (resourceIndex : ℕ)
  | alert
  | nothing
deriving DecidableEq

/-- Where `buzzerService_Task` is; `left` are the frequencies of the tones it still has to play. -/
inductive Task
  | playing (sound : Sound) (left : List ℕ)
  | notifyTake
  | selecting
  | clearing
  | giving
  | checking
  | notifyGive
deriving DecidableEq

/-- The functions that ask for tones. -/
inductive Kind
  | factoryResetWarning
  | factoryResetCancelled
  | alert
  | certificateExpiryWarning (resourceIndex : ℕ)
deriving DecidableEq

/-- The argument of `buzzerService_PlayAndWait`, for the functions that call it. -/
def Kind.resetWarning : Kind → Option Bool
  | .factoryResetWarning => some true
  | .factoryResetCancelled => some false
  | .alert | .certificateExpiryWarning _ => none

/-- Where a call is. -/
inductive Place
  | entered
  | draining
  | notifying
  | waiting
  | returned (success : Bool)
deriving DecidableEq

structure Call where
  kind : Kind
  place : Place
deriving DecidableEq

/-- What can be told of a run: requests that were set, and tones. -/
inductive Event
  | requested (call : ℕ)
  | tone (sound : Sound) (frequencyHz : ℕ)
deriving DecidableEq

/-- The variables of the service, its task, and what has happened. -/
structure Shared where
  ram : Ram
  synchronousRequestActive : Bool
  resetWarningRequested : Bool
  /-- `synchronousCompletion`, a binary semaphore. -/
  synchronousCompletion : Bool
  /-- The notification value of `buzzerTask`. -/
  notifications : ℕ
  task : Task
  /-- The call that set the latest synchronous request. -/
  requester : ℕ
  trace : List Event

structure State extends Shared where
  calls : ℕ → Option Call

/-- The state after `BuzzerService_Init`. -/
def init : State where
  ram := ⟨true, 0, 0⟩
  synchronousRequestActive := false
  resetWarningRequested := false
  synchronousCompletion := false
  notifications := 0
  task := .playing .selfTest [defaultFrequencyHz]
  requester := 0
  trace := []
  calls := fun _ => none

/-! ## The task -/

/-- The tones of `buzzerService_PlayCount`. -/
def playCount (toneCount : ℕ) : List ℕ := List.replicate toneCount defaultFrequencyHz

/-- How many tones a synchronous request gets. -/
def synchronousToneCount (resetWarning : Bool) : ℕ :=
  if resetWarning then resetWarningToneCount else alertToneCount

/-- The first resource with a pending warning. -/
def pendingResource (mask : UInt8) : Option ℕ :=
  (List.range maxResources).find? fun i => mask &&& UInt8.ofNat (2 ^ i) ≠ 0

/-- The first critical section of the loop: which request is played. -/
def select (s : Shared) : Shared :=
  if s.synchronousRequestActive then
    { s with
      resetWarningRequested := false
      task := .playing (.synchronous s.requester)
        (playCount (synchronousToneCount s.resetWarningRequested)) }
  else if s.ram.certificateWarningMask ≠ 0 then
    match pendingResource s.ram.certificateWarningMask with
    | some i =>
      { s with
        ram := { s.ram with certificateWarningMask :=
          s.ram.certificateWarningMask &&& ~~~UInt8.ofNat (2 ^ i) }
        task := .playing (.certificate i) (melody ++ playCount (i + 1)) }
    | none => { s with task := .playing .nothing [] }
  else if s.ram.alertRequested ≠ 0 then
    { s with
      ram := { s.ram with alertRequested := 0 }
      task := .playing .alert (playCount alertToneCount) }
  else { s with task := .playing .nothing [] }

/-- `morePending`. -/
def Shared.morePending (s : Shared) : Bool :=
  s.synchronousRequestActive || s.ram.certificateWarningMask ≠ 0 || s.ram.alertRequested ≠ 0

/-- Behind the tones of a sound. -/
def afterSound : Sound → Task
  | .selfTest => .notifyTake
  | .synchronous _ => .clearing
  | _ => .checking

/-- The next step of `buzzerService_Task`. It waits for a notification. -/
def taskStep (s : Shared) : Shared :=
  match s.task with
  | .playing sound (frequencyHz :: left) =>
    { s with task := .playing sound left, trace := s.trace ++ [.tone sound frequencyHz] }
  | .playing sound [] => { s with task := afterSound sound }
  | .notifyTake => if s.notifications = 0 then s else { s with notifications := 0, task := .selecting }
  | .selecting => select s
  | .clearing => { s with synchronousRequestActive := false, task := .giving }
  | .giving => { s with synchronousCompletion := true, task := .checking }
  | .checking => { s with task := if s.morePending then .notifyGive else .notifyTake }
  | .notifyGive => { s with notifications := s.notifications + 1, task := .notifyTake }

/-! ## The calls -/

/-- The next step of `buzzerService_PlayAndWait`, for the call `id`. -/
def playAndWait (id : ℕ) (resetWarning : Bool) (s : Shared) : Place → Place × Shared
  | .entered =>
    if !s.ram.ready then (.returned false, s)
    else if s.synchronousRequestActive then (.returned false, s)
    else (.draining, { s with
      synchronousRequestActive := true
      resetWarningRequested := resetWarning
      requester := id
      trace := s.trace ++ [.requested id] })
  | .draining => (.notifying, { s with synchronousCompletion := false })
  | .notifying => (.waiting, { s with notifications := s.notifications + 1 })
  | .waiting =>
    if s.synchronousCompletion then (.returned true, { s with synchronousCompletion := false })
    else (.waiting, s)
  | .returned success => (.returned success, s)

/-- The next step of a function that sets a flag with `request` and does not wait. -/
def requestAndReturn (request : Ram → Bool × Ram) (s : Shared) : Place → Place × Shared
  | .entered =>
    let (success, ram) := request s.ram
    (if success then .notifying else .returned false, { s with ram := ram })
  | .notifying => (.returned true, { s with notifications := s.notifications + 1 })
  | place => (place, s)

/-- The next step of a call. -/
def callStep (id : ℕ) (call : Call) (s : Shared) : Place × Shared :=
  match call.kind with
  | .factoryResetWarning => playAndWait id true s call.place
  | .factoryResetCancelled => playAndWait id false s call.place
  | .alert => requestAndReturn alert s call.place
  | .certificateExpiryWarning resourceIndex =>
    requestAndReturn (certificateExpiryWarning resourceIndex) s call.place

/-! ## Runs -/

/-- What can happen next. A wait may end without the semaphore at any point. -/
inductive Action
  | task
  | call (id : ℕ) (kind : Kind)
  | caller (id : ℕ)
  | timeout (id : ℕ)
deriving DecidableEq

def step (s : State) : Action → State
  | .task => { s with toShared := taskStep s.toShared }
  | .call id kind =>
    match s.calls id with
    | none => { s with calls := Function.update s.calls id (some ⟨kind, .entered⟩) }
    | some _ => s
  | .caller id =>
    match s.calls id with
    | none => s
    | some call =>
      let (place, shared) := callStep id call s.toShared
      { toShared := shared, calls := Function.update s.calls id (some ⟨call.kind, place⟩) }
  | .timeout id =>
    match s.calls id with
    | some ⟨kind, .waiting⟩ =>
      { s with calls := Function.update s.calls id (some ⟨kind, .returned false⟩) }
    | _ => s

/-! ## What has been played -/

/-- The tones of a trace. -/
def tones (trace : List Event) : List (Sound × ℕ) :=
  trace.filterMap fun
    | .requested _ => none
    | .tone sound frequencyHz => some (sound, frequencyHz)

/-- The first tones for a call. -/
def tonesFor (id n : ℕ) : List (Sound × ℕ) := List.replicate n (.synchronous id, defaultFrequencyHz)

/-- All tones for a call have been played, in a row, after it set its request. -/
def Played (trace : List Event) (id : ℕ) (resetWarning : Bool) : Prop :=
  ∃ before after, trace = before ++ .requested id :: after ∧
    tonesFor id (synchronousToneCount resetWarning) <:+: tones after

/-- The latest tones are the first `n` for a call, after it set its request. -/
def Playing (trace : List Event) (id n : ℕ) : Prop :=
  ∃ before after, trace = before ++ .requested id :: after ∧ tonesFor id n <:+ tones after

theorem tones_append (trace later : List Event) :
    tones (trace ++ later) = tones trace ++ tones later :=
  List.filterMap_append

theorem Played.append {trace : List Event} {id : ℕ} {resetWarning : Bool}
    (h : Played trace id resetWarning) (later : List Event) :
    Played (trace ++ later) id resetWarning := by
  obtain ⟨before, after, rfl, htones⟩ := h
  refine ⟨before, after ++ later, by simp, ?_⟩
  rw [tones_append]
  exact htones.trans (List.prefix_append _ _).isInfix

theorem playing_requested (trace : List Event) (id : ℕ) :
    Playing (trace ++ [.requested id]) id 0 :=
  ⟨trace, [], rfl, List.nil_suffix⟩

theorem Playing.tone {trace : List Event} {id n : ℕ} (h : Playing trace id n) :
    Playing (trace ++ [.tone (.synchronous id) defaultFrequencyHz]) id (n + 1) := by
  obtain ⟨before, after, rfl, later, hlater⟩ := h
  refine ⟨before, after ++ [.tone (.synchronous id) defaultFrequencyHz], by simp, later, ?_⟩
  rw [tones_append, ← hlater, tonesFor, List.replicate_succ', List.append_assoc]
  rfl

theorem Playing.later {trace : List Event} {id n : ℕ} (h : Playing trace id n)
    (later : List Event) : Playing (trace ++ later) id 0 := by
  obtain ⟨before, after, rfl, -⟩ := h
  exact ⟨before, after ++ later, by simp, List.nil_suffix⟩

theorem Playing.played {trace : List Event} {id : ℕ} {resetWarning : Bool}
    (h : Playing trace id (synchronousToneCount resetWarning)) : Played trace id resetWarning := by
  obtain ⟨before, after, htrace, htones⟩ := h
  exact ⟨before, after, htrace, htones.isInfix⟩

/-! ## One request -/

/-- A call's request is the active one and its tones have not all been played. -/
def Pending (s : Shared) (id : ℕ) (resetWarning : Bool) : Prop :=
  s.synchronousRequestActive = true ∧ s.requester = id ∧
    match s.task with
    | .playing (.synchronous _) left =>
      ∃ n, n + left.length = synchronousToneCount resetWarning ∧
        left = playCount left.length ∧ Playing s.trace id n
    | .clearing => False
    | _ => s.resetWarningRequested = resetWarning ∧ Playing s.trace id 0

/-- No completion is there to be taken, nor about to come. -/
def Quiet (s : Shared) : Prop := s.synchronousCompletion = false ∧ s.task ≠ .giving

/-- The task is at a synchronous request only while this is the active one. -/
def Consistent (s : Shared) : Prop :=
  match s.task with
  | .playing (.synchronous call) _ => s.synchronousRequestActive = true ∧ call = s.requester
  | .clearing => s.synchronousRequestActive = true
  | _ => True

/-- What is known of a call of `buzzerService_PlayAndWait` at each place. -/
def Good (s : Shared) (id : ℕ) (resetWarning : Bool) : Place → Prop
  | .entered => True
  | .draining => Played s.trace id resetWarning ∨ Pending s id resetWarning
  | .notifying | .waiting =>
    Played s.trace id resetWarning ∨ Pending s id resetWarning ∧ Quiet s
  | .returned success => success = true → Played s.trace id resetWarning

/-- A step that neither sets a request nor moves the task, and completes nothing. -/
structure SameRequest (s s' : Shared) : Prop where
  active : s'.synchronousRequestActive = s.synchronousRequestActive
  resetWarning : s'.resetWarningRequested = s.resetWarningRequested
  requester : s'.requester = s.requester
  task : s'.task = s.task
  trace : s'.trace = s.trace
  completion : s.synchronousCompletion = false → s'.synchronousCompletion = false

theorem Consistent.same {s s' : Shared} (hs : Consistent s) (h : SameRequest s s') :
    Consistent s' := by
  unfold Consistent at hs ⊢
  rw [h.task, h.active, h.requester]
  exact hs

theorem Pending.same {s s' : Shared} {id : ℕ} {resetWarning : Bool}
    (hpending : Pending s id resetWarning) (h : SameRequest s s') :
    Pending s' id resetWarning := by
  unfold Pending at hpending ⊢
  rw [h.active, h.requester, h.task, h.resetWarning, h.trace]
  exact hpending

theorem Quiet.same {s s' : Shared} (hquiet : Quiet s) (h : SameRequest s s') : Quiet s' :=
  ⟨h.completion hquiet.1, h.task ▸ hquiet.2⟩

theorem Good.same {s s' : Shared} {id : ℕ} {resetWarning : Bool} {place : Place}
    (hgood : Good s id resetWarning place) (h : SameRequest s s') :
    Good s' id resetWarning place := by
  have hplayed : Played s.trace id resetWarning → Played s'.trace id resetWarning :=
    fun hplayed => h.trace ▸ hplayed
  cases place with
  | entered => trivial
  | draining => exact hgood.imp hplayed fun hpending => hpending.same h
  | notifying | waiting =>
    exact hgood.imp hplayed fun ⟨hpending, hquiet⟩ => ⟨hpending.same h, hquiet.same h⟩
  | returned success => exact fun hsuccess => hplayed (hgood hsuccess)

/-! ## The steps of the task -/

theorem consistent_taskStep {s : Shared} (hs : Consistent s) : Consistent (taskStep s) := by
  unfold taskStep
  unfold Consistent at hs
  split
  · next sound frequencyHz left htask =>
    rw [htask] at hs
    cases sound <;> exact hs
  · next sound htask =>
    rw [htask] at hs
    cases sound with
    | synchronous call => exact hs.1
    | selfTest | certificate | alert | nothing => trivial
  · split
    · next htask _ =>
      unfold Consistent
      rw [htask]
      trivial
    · trivial
  · unfold select
    split_ifs with hactive
    · exact ⟨hactive, rfl⟩
    · split <;> trivial
    · trivial
    · trivial
  · trivial
  · trivial
  · unfold Consistent
    dsimp only
    split_ifs <;> trivial
  · trivial

/-- A pending request is played to its end before the task completes anything. -/
theorem pending_taskStep {s : Shared} {id : ℕ} {resetWarning : Bool} (hs : Consistent s)
    (h : Pending s id resetWarning) : Played (taskStep s).trace id resetWarning ∨
      Pending (taskStep s) id resetWarning ∧ (Quiet s → Quiet (taskStep s)) := by
  obtain ⟨hactive, hrequester, hplace⟩ := h
  unfold Consistent at hs
  unfold taskStep
  split
  · next sound frequencyHz left htask =>
    rw [htask] at hs hplace
    refine Or.inr ⟨⟨hactive, hrequester, ?_⟩, fun hquiet => ⟨hquiet.1, nofun⟩⟩
    cases sound with
    | synchronous call =>
      obtain ⟨n, hn, hleft, hplaying⟩ := hplace
      have hfrequency : frequencyHz = defaultFrequencyHz ∧ left = playCount left.length :=
        List.cons.inj hleft
      refine ⟨n + 1, ?_, hfrequency.2, ?_⟩
      · rw [List.length_cons] at hn
        omega
      · rw [hs.2, hfrequency.1, hrequester]
        exact hplaying.tone
    | selfTest | certificate | alert | nothing => exact ⟨hplace.1, hplace.2.later _⟩
  · next sound htask =>
    rw [htask] at hs hplace
    cases sound with
    | synchronous call =>
      obtain ⟨n, hn, -, hplaying⟩ := hplace
      rw [List.length_nil, Nat.add_zero] at hn
      rw [hn] at hplaying
      exact Or.inl hplaying.played
    | selfTest | certificate | alert | nothing =>
      exact Or.inr ⟨⟨hactive, hrequester, hplace⟩, fun hquiet => ⟨hquiet.1, nofun⟩⟩
  · next htask =>
    rw [htask] at hplace
    split
    · refine Or.inr ⟨⟨hactive, hrequester, ?_⟩, fun hquiet => hquiet⟩
      rw [htask]
      exact hplace
    · exact Or.inr ⟨⟨hactive, hrequester, hplace⟩, fun hquiet => ⟨hquiet.1, nofun⟩⟩
  · next htask =>
    rw [htask] at hplace
    unfold select
    rw [if_pos hactive, hplace.1, hrequester]
    refine Or.inr ⟨⟨hactive, rfl, 0, ?_, ?_, hplace.2⟩, fun hquiet => ⟨hquiet.1, nofun⟩⟩
    · simp [playCount]
    · simp [playCount]
  · next htask =>
    rw [htask] at hplace
    exact hplace.elim
  · next htask =>
    rw [htask] at hplace
    exact Or.inr ⟨⟨hactive, hrequester, hplace⟩, fun hquiet => absurd htask hquiet.2⟩
  · next htask =>
    rw [htask] at hplace
    refine Or.inr ⟨⟨hactive, hrequester, ?_⟩, fun hquiet => ⟨hquiet.1, ?_⟩⟩
    · dsimp only
      split_ifs <;> exact hplace
    · dsimp only
      split_ifs <;> nofun
  · next htask =>
    rw [htask] at hplace
    exact Or.inr ⟨⟨hactive, hrequester, hplace⟩, fun hquiet => ⟨hquiet.1, nofun⟩⟩

theorem trace_taskStep (s : Shared) : ∃ later, (taskStep s).trace = s.trace ++ later := by
  unfold taskStep select
  split
  · exact ⟨_, rfl⟩
  all_goals refine ⟨[], ?_⟩
  all_goals rw [List.append_nil]
  · split_ifs <;> rfl
  · split_ifs
    · rfl
    · split <;> rfl
    · rfl
    · rfl

theorem good_taskStep {s : Shared} {id : ℕ} {resetWarning : Bool} {place : Place}
    (hs : Consistent s) (h : Good s id resetWarning place) :
    Good (taskStep s) id resetWarning place := by
  obtain ⟨later, htrace⟩ := trace_taskStep s
  have hplayed : Played s.trace id resetWarning → Played (taskStep s).trace id resetWarning :=
    fun h => htrace ▸ h.append later
  cases place with
  | entered => trivial
  | draining =>
    rcases h with h | h
    · exact Or.inl (hplayed h)
    · exact (pending_taskStep hs h).imp_right And.left
  | notifying | waiting =>
    rcases h with h | ⟨h, hquiet⟩
    · exact Or.inl (hplayed h)
    · exact (pending_taskStep hs h).imp_right fun ⟨h, hkept⟩ => ⟨h, hkept hquiet⟩
  | returned success => exact fun hsuccess => hplayed (h hsuccess)

/-! ## The steps of a call -/

/-- A request is set. -/
def Shared.request (s : Shared) (id : ℕ) (resetWarning : Bool) : Shared :=
  { s with
    synchronousRequestActive := true
    resetWarningRequested := resetWarning
    requester := id
    trace := s.trace ++ [.requested id] }

theorem playAndWait_cases (id : ℕ) (resetWarning : Bool) (s : Shared) (place : Place) :
    (place = .entered ∧ s.synchronousRequestActive = false ∧
        playAndWait id resetWarning s place = (.draining, s.request id resetWarning)) ∨
      (place = .entered → playAndWait id resetWarning s place = (.returned false, s)) ∧
        SameRequest s (playAndWait id resetWarning s place).2 := by
  have hsame : SameRequest s s := ⟨rfl, rfl, rfl, rfl, rfl, fun h => h⟩
  cases place with
  | entered =>
    by_cases hready : (!s.ram.ready) = true
    · simp only [playAndWait, hready, ↓reduceIte]
      exact Or.inr ⟨fun _ => trivial, hsame⟩
    · by_cases hactive : s.synchronousRequestActive = true
      · simp only [playAndWait, hready, hactive, ↓reduceIte]
        exact Or.inr ⟨fun _ => rfl, hsame⟩
      · simp only [playAndWait, hready, hactive]
        exact Or.inl ⟨trivial, trivial, rfl⟩
  | draining => exact Or.inr ⟨nofun, rfl, rfl, rfl, rfl, rfl, fun _ => rfl⟩
  | notifying => exact Or.inr ⟨nofun, rfl, rfl, rfl, rfl, rfl, fun h => h⟩
  | waiting =>
    by_cases hcompletion : s.synchronousCompletion = true
    · simp only [playAndWait, hcompletion, ↓reduceIte]
      exact Or.inr ⟨nofun, rfl, rfl, rfl, rfl, rfl, fun _ => rfl⟩
    · simp only [playAndWait, hcompletion, Bool.false_eq_true, ↓reduceIte]
      exact Or.inr ⟨nofun, hsame⟩
  | returned success => exact Or.inr ⟨nofun, hsame⟩

theorem requestAndReturn_same (request : Ram → Bool × Ram) (s : Shared) (place : Place) :
    SameRequest s (requestAndReturn request s place).2 := by
  cases place <;> exact ⟨rfl, rfl, rfl, rfl, rfl, fun h => h⟩

/-- No request is pending while none is active, so a new one takes nothing away. -/
theorem Good.request {s : Shared} {id id' : ℕ} {resetWarning resetWarning' : Bool} {place : Place}
    (hgood : Good s id resetWarning place) (hactive : s.synchronousRequestActive = false) :
    Good (s.request id' resetWarning') id resetWarning place := by
  have hplayed (h : Played s.trace id resetWarning) :
      Played (s.request id' resetWarning').trace id resetWarning := h.append _
  have hnone : ¬Pending s id resetWarning := fun h => by
    exact Bool.false_ne_true (hactive.symm.trans h.1)
  cases place with
  | entered => trivial
  | draining => exact Or.inl (hplayed (hgood.resolve_right hnone))
  | notifying | waiting => exact Or.inl (hplayed (hgood.resolve_right fun h => hnone h.1))
  | returned success => exact fun hsuccess => hplayed (hgood hsuccess)

theorem consistent_request {s : Shared} (hs : Consistent s)
    (hactive : s.synchronousRequestActive = false) (id : ℕ) (resetWarning : Bool) :
    Consistent (s.request id resetWarning) := by
  unfold Consistent at hs ⊢
  show match s.task with
    | .playing (.synchronous call) _ => true = true ∧ call = id
    | .clearing => true = true
    | _ => True
  split
  · next htask =>
    rw [htask, hactive] at hs
    exact absurd hs.1 Bool.false_ne_true
  · rfl
  · trivial

theorem pending_request {s : Shared} (hs : Consistent s)
    (hactive : s.synchronousRequestActive = false) (id : ℕ) (resetWarning : Bool) :
    Pending (s.request id resetWarning) id resetWarning := by
  unfold Consistent at hs
  refine ⟨rfl, rfl, ?_⟩
  show match s.task with
    | .playing (.synchronous _) left =>
      ∃ n, n + left.length = synchronousToneCount resetWarning ∧
        left = playCount left.length ∧ Playing (s.trace ++ [.requested id]) id n
    | .clearing => False
    | _ => resetWarning = resetWarning ∧ Playing (s.trace ++ [.requested id]) id 0
  split
  · next htask =>
    rw [htask, hactive] at hs
    exact absurd hs.1 Bool.false_ne_true
  · next htask =>
    rw [htask, hactive] at hs
    exact absurd hs Bool.false_ne_true
  · exact ⟨rfl, playing_requested s.trace id⟩

/-- What one step of a call of `buzzerService_PlayAndWait` makes of that call, if it does not
drain the semaphore just before the task gives it. -/
theorem good_playAndWait {s : Shared} {id : ℕ} {resetWarning : Bool} {place : Place}
    (hs : Consistent s) (hgood : Good s id resetWarning place)
    (hdrain : place = .draining → s.task ≠ .giving) :
    Good (playAndWait id resetWarning s place).2 id resetWarning
      (playAndWait id resetWarning s place).1 := by
  rcases playAndWait_cases id resetWarning s place with ⟨-, hactive, heq⟩ | ⟨hrefused, hsame⟩
  · rw [heq]
    exact Or.inr (pending_request hs hactive id resetWarning)
  · cases place with
    | entered =>
      rw [hrefused rfl]
      nofun
    | draining =>
      exact (hgood.same hsame).imp_right fun hpending => ⟨hpending, rfl, hdrain rfl⟩
    | notifying => exact hgood.same hsame
    | waiting =>
      by_cases hcompletion : s.synchronousCompletion = true
      · -- a completion is there, so the call is not pending any more
        have hplayed : Played s.trace id resetWarning := hgood.resolve_right fun ⟨_, hquiet⟩ => by
          rw [hquiet.1] at hcompletion
          exact Bool.false_ne_true hcompletion
        simp only [playAndWait, hcompletion, ↓reduceIte]
        exact fun _ => hplayed
      · simp only [playAndWait, hcompletion, Bool.false_eq_true, ↓reduceIte]
        exact hgood
    | returned success => exact hgood

/-! ## Runs -/

/-- What holds between any two steps. -/
structure Inv (s : State) : Prop where
  consistent : Consistent s.toShared
  calls : ∀ id call, s.calls id = some call → ∀ resetWarning,
    call.kind.resetWarning = some resetWarning → Good s.toShared id resetWarning call.place

/-- A call drains the semaphore while the task is about to give it. -/
def Overtakes (s : State) : Action → Prop
  | .caller id => s.task = .giving ∧ ∃ kind, s.calls id = some ⟨kind, .draining⟩
  | _ => False

theorem inv_init : Inv init := ⟨trivial, nofun⟩

/-- Calls that are not in the step stay as they are. -/
theorem Inv.update {s : State} {id : ℕ} {call : Call} {shared : Shared}
    (hconsistent : Consistent shared)
    (hself : ∀ resetWarning, call.kind.resetWarning = some resetWarning →
      Good shared id resetWarning call.place)
    (hothers : ∀ id' call', s.calls id' = some call' → ∀ resetWarning,
      call'.kind.resetWarning = some resetWarning → Good shared id' resetWarning call'.place) :
    Inv { toShared := shared, calls := Function.update s.calls id (some call) } := by
  refine ⟨hconsistent, fun id' call' hcall' => ?_⟩
  change Function.update s.calls id (some call) id' = some call' at hcall'
  by_cases hid : id' = id
  · subst hid
    rw [Function.update_self] at hcall'
    exact Option.some.inj hcall' ▸ hself
  · rw [Function.update_of_ne hid] at hcall'
    exact hothers id' call' hcall'

theorem inv_playAndWait {s : State} (hs : Inv s) {id : ℕ} {call : Call} {resetWarning : Bool}
    (hcall : s.calls id = some call) (hkind : call.kind.resetWarning = some resetWarning)
    (hok : ¬Overtakes s (.caller id)) :
    Inv { toShared := (playAndWait id resetWarning s.toShared call.place).2,
          calls := Function.update s.calls id
            (some ⟨call.kind, (playAndWait id resetWarning s.toShared call.place).1⟩) } := by
  have hdrain (hplace : call.place = .draining) : s.task ≠ .giving :=
    fun htask => hok ⟨htask, call.kind, by rw [hcall, ← hplace]⟩
  have hself := good_playAndWait hs.consistent (hs.calls id call hcall resetWarning hkind) hdrain
  have hself' : ∀ resetWarning', call.kind.resetWarning = some resetWarning' →
      Good (playAndWait id resetWarning s.toShared call.place).2 id resetWarning'
        (playAndWait id resetWarning s.toShared call.place).1 := by
    intro resetWarning' hkind'
    rw [hkind] at hkind'
    exact Option.some.inj hkind' ▸ hself
  rcases playAndWait_cases id resetWarning s.toShared call.place with
    ⟨-, hactive, heq⟩ | ⟨-, hsame⟩
  · refine Inv.update ?_ hself' ?_
    · rw [heq]
      exact consistent_request hs.consistent hactive id resetWarning
    · rw [heq]
      exact fun id' call' hcall' w hw => (hs.calls id' call' hcall' w hw).request hactive
  · exact Inv.update (hs.consistent.same hsame) hself' fun id' call' hcall' w hw =>
      (hs.calls id' call' hcall' w hw).same hsame

theorem inv_requestAndReturn {s : State} (hs : Inv s) {id : ℕ} {call : Call}
    (request : Ram → Bool × Ram) (hkind : call.kind.resetWarning = none) :
    Inv { toShared := (requestAndReturn request s.toShared call.place).2,
          calls := Function.update s.calls id
            (some ⟨call.kind, (requestAndReturn request s.toShared call.place).1⟩) } := by
  have hsame := requestAndReturn_same request s.toShared call.place
  refine Inv.update (hs.consistent.same hsame) (fun w hw => ?_) fun id' call' hcall' w hw =>
    (hs.calls id' call' hcall' w hw).same hsame
  rw [hkind] at hw
  cases hw

theorem inv_step (s : State) (a : Action) (hs : Inv s) (hok : ¬Overtakes s a) :
    Inv (step s a) := by
  cases a with
  | task =>
    exact ⟨consistent_taskStep hs.consistent, fun id call hcall w hw =>
      good_taskStep hs.consistent (hs.calls id call hcall w hw)⟩
  | call id kind =>
    simp only [step]
    split
    · exact Inv.update hs.consistent (fun _ _ => trivial) hs.calls
    · exact hs
  | caller id =>
    simp only [step]
    split
    · exact hs
    · next call hcall =>
      unfold callStep
      split
      · next hkind => exact inv_playAndWait hs hcall (by rw [hkind]; rfl) hok
      · next hkind => exact inv_playAndWait hs hcall (by rw [hkind]; rfl) hok
      · next hkind => exact inv_requestAndReturn hs _ (by rw [hkind]; rfl)
      · next hkind => exact inv_requestAndReturn hs _ (by rw [hkind]; rfl)
  | timeout id =>
    simp only [step]
    split
    · exact Inv.update hs.consistent (fun _ _ => nofun) hs.calls
    · exact hs

/-- **Its own tones.** In every run in which no call drains the semaphore between the task's
critical section for a finished request and its `xSemaphoreGive`: a call of
`BuzzerService_FactoryResetWarning` or `BuzzerService_FactoryResetCancelled` that has returned
`SUCCESS` has set its request, and after that the task has played all five or three tones of this
request in a row. -/
theorem success_means_played (actions : List Action)
    (hok : Along step (fun s a => ¬Overtakes s a) init actions) (id : ℕ) (kind : Kind)
    (resetWarning : Bool) (hkind : kind.resetWarning = some resetWarning)
    (hreturned : (run step init actions).calls id = some ⟨kind, .returned true⟩) :
    Played (run step init actions).trace id resetWarning :=
  (keeps inv_step inv_init hok).calls id _ hreturned resetWarning hkind rfl

/-- What was played for a call is among the tones. -/
theorem mem_of_played {trace : List Event} {id : ℕ} {resetWarning : Bool}
    (h : Played trace id resetWarning) :
    .tone (.synchronous id) defaultFrequencyHz ∈ trace := by
  obtain ⟨before, after, rfl, htones⟩ := h
  have hmem : (Sound.synchronous id, defaultFrequencyHz) ∈ tones after := by
    refine htones.subset (List.mem_replicate.mpr ⟨?_, rfl⟩)
    cases resetWarning <;> decide
  obtain ⟨event, hevent, htone⟩ := List.mem_filterMap.mp hmem
  cases event with
  | requested call => cases htone
  | tone sound frequencyHz =>
    cases htone
    exact List.mem_append_right before (List.mem_cons_of_mem _ hevent)

/-- A warning that is played to its end but whose caller gives up just then, and a cancellation
that is asked for before the task has given the semaphore. -/
def abandoned : List Action :=
  [.task, .task, .call 0 .factoryResetWarning, .caller 0, .caller 0, .caller 0] ++
    List.replicate 9 .task ++
    [.timeout 0, .call 1 .factoryResetCancelled, .caller 1, .caller 1, .task, .caller 1, .caller 1]

/-- In that run `BuzzerService_FactoryResetCancelled` returns `SUCCESS` without a tone. -/
theorem stale_completion :
    ¬∀ (actions : List Action) (id : ℕ) (kind : Kind) (resetWarning : Bool),
      kind.resetWarning = some resetWarning →
      (run step init actions).calls id = some ⟨kind, .returned true⟩ →
        Played (run step init actions).trace id resetWarning := by
  intro h
  have hplayed := mem_of_played (h abandoned 1 .factoryResetCancelled false rfl rfl)
  have htrace : (run step init abandoned).trace =
      [.tone .selfTest 2500, .requested 0] ++
        List.replicate 5 (.tone (.synchronous 0) 2500) ++ [.requested 1] := rfl
  rw [htrace] at hplayed
  exact absurd hplayed (by decide)

/-- A cancellation whose caller waits for its three tones. -/
theorem success_means_played_cancelled :
    Played (run step init
      ([.task, .task, .call 0 .factoryResetCancelled, .caller 0, .caller 0, .caller 0] ++
        List.replicate 8 .task ++ [.caller 0])).trace 0 false := by
  refine success_means_played _ ?_ 0 .factoryResetCancelled false rfl rfl
  repeat' first
    | exact trivial
    | exact fun h => h
    | exact fun h => nomatch h.1
    | apply And.intro

end HealthCheck.BuzzerService
