import HealthCheck.Lib.Run
import HealthCheck.Rtc
import Mathlib.Algebra.Order.Ring.Nat
import Mathlib.Data.Nat.Digits.Defs

/-!
# The time service

`time_service.c`: a task that asks an NTP server for the time, and the lwIP callbacks that send the
request and take the reply. Both sides share `syncState` and `receivedUnixTime`. A callback is one
step, and the task makes a step of its own for each access to a shared variable.

* `set_iff` — a valid reply sets the clock to its time until the seconds of NTP wrap in 2036.
-/

namespace HealthCheck.TimeService

open Nor (Status)
open Run

/-- `TIME_NTP_RETRY_SECONDS`. -/
def ntpRetrySeconds : ℕ := 60

/-- `TIME_NTP_RESYNC_SECONDS`. -/
def ntpResyncSeconds : ℕ := 3600

/-- `TIME_NTP_TIMEOUT_SECONDS`. -/
def ntpTimeoutSeconds : ℕ := 10

/-- `TIME_NTP_PORT`. -/
def ntpPort : UInt16 := 123

/-- `TIME_NTP_PACKET_SIZE`. -/
def ntpPacketSize : ℕ := 48

/-- `TIME_NTP_UNIX_EPOCH_OFFSET`. -/
def ntpUnixEpochOffset : UInt32 := 2208988800

/-- `TimeService_SyncStateTypeDef`. -/
inductive SyncState
  | idle
  | pending
  | received
  | failed
deriving DecidableEq

/-- The variables that the task shares with the callbacks; of `ntpPcb`, whether it is there. -/
structure Sync where
  syncState : SyncState
  receivedUnixTime : UInt32
  ntpPcb : Bool
deriving DecidableEq

/-- `syncState = TIME_SYNC_FAILED`. -/
def Sync.fail (v : Sync) : Sync := { v with syncState := .failed }

/-! ## The request -/

/-- What `udp_connect`, `pbuf_alloc` and `udp_send` come to. -/
structure Sending where
  connected : Bool
  allocated : Bool
  sent : Bool

/-- What `dns_gethostbyname` comes to. -/
inductive Lookup
  | known (sending : Sending)
  | inProgress
  | refused

/-- `timeService_SendRequest`. -/
def sendRequest (r : Sending) (v : Sync) : Sync :=
  if !r.connected then v.fail
  else if !r.allocated then v.fail
  else if !r.sent then v.fail
  else v

/-- `timeService_StartRequest`; `created` is whether `udp_new` gives a control block. -/
def startRequest (created : Bool) (lookup : Lookup) (v : Sync) : Sync :=
  let v := if v.ntpPcb then v else { v with ntpPcb := created }
  if !v.ntpPcb then v.fail
  else match lookup with
    | .known sending => sendRequest sending v
    | .inProgress => v
    | .refused => v.fail

/-- `timeService_DnsCallback`. -/
def dnsCallback (address : Option Sending) (v : Sync) : Sync :=
  match address with
  | none => v.fail
  | some sending => sendRequest sending v

/-! ## The reply -/

/-- `pbuf_copy_partial`, from a packet of these bytes: so many bytes, from there on. -/
abbrev CopyPartial := List UInt8 → ℕ → ℕ → List UInt8

/-- What the documentation of `pbuf_copy_partial` says of bytes that are there. -/
def Copies (copyPartial : CopyPartial) : Prop := ∀ packet size offset,
  offset + size ≤ packet.length → copyPartial packet size offset = (packet.drop offset).take size

/-- `lwip_ntohl` of the bytes that are copied to `networkSeconds`. -/
def ntohl (bytes : List UInt8) : UInt32 := bytes.foldl (fun n byte => n <<< 8 ||| byte.toUInt32) 0

/-- What `timeService_Receive` is called with. -/
structure Datagram where
  packet : Option (List UInt8)
  port : UInt16

section Receive

variable (copyPartial : CopyPartial)

/-- The `ntpSeconds` of `timeService_Receive`, if the datagram passes the checks before. -/
def ntpSeconds (d : Datagram) : Option UInt32 :=
  match d.packet with
  | none => none
  | some packet =>
    let header := copyPartial packet 4 0
    let networkSeconds := copyPartial packet 4 40
    if d.port ≠ ntpPort ∨ packet.length < ntpPacketSize ∨ header.length ≠ 4 ∨
        header.getD 0 0 >>> 6 = 3 ∨ header.getD 0 0 &&& 7 ≠ 4 ∨
        header.getD 1 0 = 0 ∨ header.getD 1 0 > 15 ∨ networkSeconds.length ≠ 4 then none
    else some (ntohl networkSeconds)

/-- The time that it takes from a datagram. -/
def replyTime (d : Datagram) : Option UInt32 :=
  (ntpSeconds copyPartial d).bind fun seconds =>
    if seconds ≤ ntpUnixEpochOffset then none else some (seconds - ntpUnixEpochOffset)

/-- `timeService_Receive`. -/
def receive (d : Datagram) (v : Sync) : Sync :=
  match replyTime copyPartial d with
  | none => v.fail
  | some unixTime => { v with receivedUnixTime := unixTime, syncState := .received }

end Receive

/-! ## The task -/

/-- Where `timeService_Task` is: the access to a shared variable or the call that comes next. -/
inductive Place
  | loopHead
  | testReceived
  | testTime
  | readTime
  | clearTime (unixTime : UInt32)
  | setTime (unixTime : UInt32)
  | synchronized
  | refused
  | testFailed
  | retry
  | testIdle
  | request
  | post
  | unposted
  | testPending
  | timeout
deriving DecidableEq

/-- Where the task has taken the time, and not yet left the state. -/
def Place.Takes (place : Place) : Prop :=
  (∃ unixTime, place = .setTime unixTime) ∨ place = .synchronized ∨ place = .refused

/-- The shared variables, the task with its counters, the RTC, and how many requests the task has
started. -/
structure State extends Sync where
  place : Place
  retrySeconds : ℕ
  requestSeconds : ℕ
  rtc : Rtc.Registers
  requests : ℕ
deriving DecidableEq

/-- What `TimeService_Init` leaves, and the task before its loop. -/
def init (rtc : Rtc.Registers) : State where
  syncState := .idle
  receivedUnixTime := 0
  ntpPcb := false
  place := .loopHead
  retrySeconds := 0
  requestSeconds := 0
  rtc := rtc
  requests := 0

/-- What the task meets in an iteration: `Lwip_IsReady`, whether `tcpip_callback` takes the
request, and how the RTC enters and leaves its initialization mode. -/
structure Surroundings where
  ready : Bool
  posted : Bool
  entered : Status
  left : Status

/-- The next step of `timeService_Task`. -/
def taskStep (e : Surroundings) (s : State) : State :=
  match s.place with
  | .loopHead => { s with place := if e.ready then .testReceived else .loopHead }
  | .testReceived =>
    { s with place := if s.syncState = .received then .testTime else .testFailed }
  | .testTime => { s with place := if s.receivedUnixTime ≠ 0 then .readTime else .testFailed }
  | .readTime => { s with place := .clearTime s.receivedUnixTime }
  | .clearTime unixTime => { s with receivedUnixTime := 0, place := .setTime unixTime }
  | .setTime unixTime =>
    let (status, rtc) := Rtc.setUnixTime unixTime e.entered e.left s.rtc
    { s with rtc := rtc, place := if status = .ok then .synchronized else .refused }
  | .synchronized =>
    { s with
      syncState := .idle
      retrySeconds := ntpResyncSeconds
      requestSeconds := 0
      place := .testFailed }
  | .refused => { s with syncState := .failed, place := .testFailed }
  | .testFailed => { s with place := if s.syncState = .failed then .retry else .testIdle }
  | .retry =>
    { s with
      syncState := .idle
      retrySeconds := ntpRetrySeconds
      requestSeconds := 0
      place := .testIdle }
  | .testIdle =>
    if s.retrySeconds = 0 then
      { s with place := if s.syncState = .idle then .request else .testPending }
    else { s with retrySeconds := s.retrySeconds - 1, place := .testPending }
  | .request =>
    { s with
      syncState := .pending
      requestSeconds := 0
      requests := s.requests + 1
      place := .post }
  | .post => { s with place := if e.posted then .testPending else .unposted }
  | .unposted => { s with syncState := .failed, place := .testPending }
  | .testPending =>
    if s.syncState = .pending then
      { s with
        requestSeconds := s.requestSeconds + 1
        place := if s.requestSeconds + 1 ≥ ntpTimeoutSeconds then .timeout else .loopHead }
    else { s with place := .loopHead }
  | .timeout => { s with syncState := .failed, place := .loopHead }

/-- A step of the task, or a callback. -/
inductive Event
  | task (surroundings : Surroundings)
  | startRequest (created : Bool) (lookup : Lookup)
  | dnsCallback (address : Option Sending)
  | receive (datagram : Datagram)

/-- What an event does. -/
def step (copyPartial : CopyPartial) (s : State) : Event → State
  | .task e => taskStep e s
  | .startRequest created lookup => { s with toSync := startRequest created lookup s.toSync }
  | .dnsCallback address => { s with toSync := dnsCallback address s.toSync }
  | .receive d => { s with toSync := receive copyPartial d s.toSync }

/-! ## Callbacks -/

/-- What sending a request can do: the state stays or becomes a failure. -/
structure Sync.Keeps (v v' : Sync) : Prop where
  receivedUnixTime : v'.receivedUnixTime = v.receivedUnixTime
  syncState : v'.syncState = v.syncState ∨ v'.syncState = .failed

theorem Sync.keeps_fail (v : Sync) : v.Keeps v.fail := ⟨rfl, .inr rfl⟩

theorem sendRequest_keeps (r : Sending) (v : Sync) : v.Keeps (sendRequest r v) := by
  unfold sendRequest
  split
  · exact v.keeps_fail
  split
  · exact v.keeps_fail
  split
  · exact v.keeps_fail
  · exact ⟨rfl, .inl rfl⟩

theorem startRequest_keeps (created : Bool) (lookup : Lookup) (v : Sync) :
    v.Keeps (startRequest created lookup v) := by
  have hpcb : v.Keeps (if v.ntpPcb then v else { v with ntpPcb := created }) := by
    split <;> exact ⟨rfl, .inl rfl⟩
  have hlookup (w : Sync) : w.Keeps (if !w.ntpPcb then w.fail else match lookup with
      | .known sending => sendRequest sending w
      | .inProgress => w
      | .refused => w.fail) := by
    split
    · exact w.keeps_fail
    · cases lookup with
      | known sending => exact sendRequest_keeps sending w
      | inProgress => exact ⟨rfl, .inl rfl⟩
      | refused => exact w.keeps_fail
  have hrest := hlookup (if v.ntpPcb then v else { v with ntpPcb := created })
  refine ⟨hrest.receivedUnixTime.trans hpcb.receivedUnixTime, ?_⟩
  rcases hrest.syncState with hsame | hfailed
  · exact hsame ▸ hpcb.syncState
  · exact .inr hfailed

theorem dnsCallback_keeps (address : Option Sending) (v : Sync) :
    v.Keeps (dnsCallback address v) := by
  cases address with
  | none => exact v.keeps_fail
  | some sending => exact sendRequest_keeps sending v

/-- A time of zero is never taken from a reply. -/
theorem replyTime_ne_zero {copyPartial : CopyPartial} {d : Datagram} {unixTime : UInt32}
    (h : replyTime copyPartial d = some unixTime) : unixTime ≠ 0 := by
  obtain ⟨seconds, -, htime⟩ := Option.bind_eq_some_iff.1 h
  split at htime
  · exact nomatch htime
  · rename_i hlate
    obtain rfl := Option.some.inj htime
    intro hzero
    have hle := UInt32.le_of_lt (UInt32.not_le.1 hlate)
    have hsub := UInt32.toNat_sub_of_le _ _ hle
    rw [hzero] at hsub
    rw [UInt32.le_iff_toNat_le] at hlate
    have : (0 : UInt32).toNat = 0 := rfl
    omega

/-! ## Iterations -/

/-- More steps than an iteration takes. -/
def iterationSteps : ℕ := 16

/-- The task on its own, until it is at the loop head. -/
def untilHead (e : Surroundings) : ℕ → State → State
  | 0, s => s
  | n + 1, s =>
    let s := taskStep e s
    if s.place = .loopHead then s else untilHead e n s

/-- The rest of an iteration of the loop, or a whole one from the loop head, without a callback. -/
def iteration (e : Surroundings) (s : State) : State := untilHead e iterationSteps s

/-- The most steps that are left of an iteration. -/
def Place.stepsLeft : Place → ℕ
  | .loopHead => 15
  | .testReceived => 14
  | .testTime => 13
  | .readTime => 12
  | .clearTime _ => 11
  | .setTime _ => 10
  | .synchronized | .refused => 9
  | .testFailed => 8
  | .retry => 7
  | .testIdle => 6
  | .request => 5
  | .post => 4
  | .unposted => 3
  | .testPending => 2
  | .timeout => 1

theorem taskStep_stepsLeft (e : Surroundings) (s : State) :
    (taskStep e s).place = .loopHead ∨ (taskStep e s).place.stepsLeft < s.place.stepsLeft := by
  unfold taskStep
  split <;> rename_i hplace <;> rw [hplace] <;> (repeat' split) <;> simp [Place.stepsLeft]

theorem untilHead_place (e : Surroundings) {n : ℕ} {s : State} (h : s.place.stepsLeft ≤ n) :
    (untilHead e n s).place = .loopHead := by
  induction n generalizing s with
  | zero => cases hplace : s.place <;> simp [hplace, Place.stepsLeft] at h
  | succ n ih =>
    rw [untilHead]
    split
    · assumption
    · rename_i haway
      have := (taskStep_stepsLeft e s).resolve_left haway
      exact ih (by omega)

/-- An iteration ends at the loop head. -/
theorem iteration_place (e : Surroundings) (s : State) : (iteration e s).place = .loopHead :=
  untilHead_place e (by cases s.place <;> simp [Place.stepsLeft, iterationSteps])

theorem untilHead_run (copyPartial : CopyPartial) (e : Surroundings) (n : ℕ) (s : State) :
    ∃ k, untilHead e n s = run (step copyPartial) s (List.replicate k (.task e)) := by
  induction n generalizing s with
  | zero => exact ⟨0, rfl⟩
  | succ n ih =>
    rw [untilHead]
    split
    · exact ⟨1, rfl⟩
    · obtain ⟨k, hk⟩ := ih (taskStep e s)
      exact ⟨k + 1, hk⟩

/-- An iteration is a run of the task. -/
theorem iteration_run (copyPartial : CopyPartial) (e : Surroundings) (s : State) :
    ∃ k, iteration e s = run (step copyPartial) s (List.replicate k (.task e)) :=
  untilHead_run copyPartial e iterationSteps s

section Iterations

variable {e : Surroundings} {s : State} (hready : e.ready) (hplace : s.place = .loopHead)

include hready hplace

/-- When nothing is under way, the task waits or starts a request. -/
theorem iteration_idle (hstate : s.syncState = .idle) : iteration e s =
    if s.retrySeconds = 0 then
      { s with
        syncState := if e.posted then .pending else .failed
        requestSeconds := if e.posted then 1 else 0
        requests := s.requests + 1 }
    else { s with retrySeconds := s.retrySeconds - 1 } := by
  obtain ⟨⟨state, time, pcb⟩, place, retry, request, rtc, requests⟩ := s
  cases hplace
  cases hstate
  have htest (n : ℕ) : untilHead e (n + 3)
      ⟨⟨.idle, time, pcb⟩, .loopHead, retry, request, rtc, requests⟩ =
        untilHead e n ⟨⟨.idle, time, pcb⟩, .testIdle, retry, request, rtc, requests⟩ := by
    simp [untilHead, taskStep, hready]
  rw [iteration, iterationSteps, htest 13]
  by_cases hretry : retry = 0
  · have hrequest (n : ℕ) : untilHead e (n + 2)
        ⟨⟨.idle, time, pcb⟩, .testIdle, retry, request, rtc, requests⟩ =
          untilHead e n ⟨⟨.pending, time, pcb⟩, .post, retry, 0, rtc, requests + 1⟩ := by
      simp [untilHead, taskStep, hretry]
    rw [hrequest 11]
    cases hposted : e.posted <;> simp [untilHead, taskStep, hretry, hposted, ntpTimeoutSeconds]
  · simp [untilHead, taskStep, hretry]

/-- While it waits for a reply, it counts up to the timeout. -/
theorem iteration_pending (hstate : s.syncState = .pending) : iteration e s =
    { s with
      syncState := if s.requestSeconds + 1 ≥ ntpTimeoutSeconds then .failed else .pending
      retrySeconds := s.retrySeconds - 1
      requestSeconds := s.requestSeconds + 1 } := by
  obtain ⟨⟨state, time, pcb⟩, place, retry, request, rtc, requests⟩ := s
  cases hplace
  cases hstate
  by_cases hretry : retry = 0 <;> by_cases htimeout : request + 1 ≥ ntpTimeoutSeconds <;>
    simp [iteration, iterationSteps, untilHead, taskStep, hready, hretry, htimeout]

/-- A reply sets the clock, and the wait begins, a long one if the RTC takes the time. -/
theorem iteration_received (hstate : s.syncState = .received) (htime : s.receivedUnixTime ≠ 0) :
    iteration e s =
      { s with
        syncState := .idle
        receivedUnixTime := 0
        retrySeconds :=
          if (Rtc.setUnixTime s.receivedUnixTime e.entered e.left s.rtc).1 = .ok then
            ntpResyncSeconds - 1
          else ntpRetrySeconds - 1
        requestSeconds := 0
        rtc := (Rtc.setUnixTime s.receivedUnixTime e.entered e.left s.rtc).2 } := by
  obtain ⟨⟨state, time, pcb⟩, place, retry, request, rtc, requests⟩ := s
  cases hplace
  cases hstate
  simp only at htime
  have htake (n : ℕ) : untilHead e (n + 5)
      ⟨⟨.received, time, pcb⟩, .loopHead, retry, request, rtc, requests⟩ =
        untilHead e n ⟨⟨.received, 0, pcb⟩, .setTime time, retry, request, rtc, requests⟩ := by
    simp [untilHead, taskStep, hready, htime]
  rw [iteration, iterationSteps, htake 11]
  by_cases hset : (Rtc.setUnixTime time e.entered e.left rtc).1 = .ok
  · have hleft (n : ℕ) : untilHead e (n + 2)
        ⟨⟨.received, 0, pcb⟩, .setTime time, retry, request, rtc, requests⟩ =
          untilHead e n ⟨⟨.idle, 0, pcb⟩, .testFailed, ntpResyncSeconds, 0,
            (Rtc.setUnixTime time e.entered e.left rtc).2, requests⟩ := by
      simp [untilHead, taskStep, hset]
    rw [hleft 9]
    simp [untilHead, taskStep, hset, ntpResyncSeconds]
  · have hleft (n : ℕ) : untilHead e (n + 2)
        ⟨⟨.received, 0, pcb⟩, .setTime time, retry, request, rtc, requests⟩ =
          untilHead e n ⟨⟨.failed, 0, pcb⟩, .testFailed, retry, request,
            (Rtc.setUnixTime time e.entered e.left rtc).2, requests⟩ := by
      simp [untilHead, taskStep, hset]
    rw [hleft 9]
    simp [untilHead, taskStep, hset, ntpRetrySeconds]

/-- Behind a failure a short wait begins. -/
theorem iteration_failed (hstate : s.syncState = .failed) : iteration e s =
    { s with syncState := .idle, retrySeconds := ntpRetrySeconds - 1, requestSeconds := 0 } := by
  obtain ⟨⟨state, time, pcb⟩, place, retry, request, rtc, requests⟩ := s
  cases hplace
  cases hstate
  simp [iteration, iterationSteps, untilHead, taskStep, hready, ntpRetrySeconds]

end Iterations

/-! ## The times of replies -/

/-- A reply of a synchronised server, of a stratum from 1 to 15. -/
structure ValidReply (packet : List UInt8) : Prop where
  size : 48 ≤ packet.length
  leapIndicator : (packet.getD 0 0).toNat / 64 ≠ 3
  mode : (packet.getD 0 0).toNat % 8 = 4
  stratum : 1 ≤ (packet.getD 1 0).toNat ∧ (packet.getD 1 0).toNat ≤ 15

/-- The seconds of its transmit timestamp, big-endian. -/
def transmitSeconds (packet : List UInt8) : ℕ :=
  Nat.ofDigits 256 (((packet.drop 40).take 4).reverse.map UInt8.toNat)

theorem toNat_shift_or {n : UInt32} {b : UInt8} (h : n.toNat < 2 ^ 24) :
    (n <<< 8 ||| b.toUInt32).toNat = n.toNat * 256 + b.toNat := by
  have hbyte := b.toNat_lt
  rw [UInt32.toNat_or, UInt32.toNat_shiftLeft, UInt8.toNat_toUInt32]
  show n.toNat <<< 8 % 2 ^ 32 ||| b.toNat = _
  rw [Nat.shiftLeft_eq, Nat.mod_eq_of_lt (by omega), Rtc.or_field hbyte]
  rfl

theorem toNat_ntohl {bytes : List UInt8} (h : bytes.length = 4) :
    (ntohl bytes).toNat = Nat.ofDigits 256 (bytes.reverse.map UInt8.toNat) := by
  obtain ⟨a, b, c, d, rfl⟩ : ∃ a b c d, bytes = [a, b, c, d] := by
    match bytes, h with
    | [a, b, c, d], _ => exact ⟨a, b, c, d, rfl⟩
  have ha := a.toNat_lt
  have hb := b.toNat_lt
  have hc := c.toNat_lt
  have hfirst : ((0 : UInt32) <<< 8 ||| a.toUInt32).toNat = a.toNat := by
    rw [toNat_shift_or (by decide)]
    simp
  have hsecond := toNat_shift_or (n := (0 : UInt32) <<< 8 ||| a.toUInt32) (b := b) (by omega)
  have hthird := toNat_shift_or
    (n := ((0 : UInt32) <<< 8 ||| a.toUInt32) <<< 8 ||| b.toUInt32) (b := c) (by omega)
  rw [ntohl, List.foldl, List.foldl, List.foldl, List.foldl, List.foldl,
    toNat_shift_or (by omega), hthird, hsecond, hfirst]
  simp only [List.reverse_cons, List.reverse_nil, List.nil_append, List.cons_append,
    List.map_cons, List.map_nil, Nat.ofDigits_cons, Nat.ofDigits_nil]
  omega

/-- A valid reply passes the checks. -/
theorem ntpSeconds_valid {copyPartial : CopyPartial} (hcopy : Copies copyPartial)
    {packet : List UInt8} (h : ValidReply packet) :
    ∃ seconds, ntpSeconds copyPartial ⟨some packet, ntpPort⟩ = some seconds ∧
      seconds.toNat = transmitSeconds packet := by
  have hsize := h.size
  have hheader : copyPartial packet 4 0 = packet.take 4 := hcopy packet 4 0 (by omega)
  have hnetwork : copyPartial packet 4 40 = (packet.drop 40).take 4 :=
    hcopy packet 4 40 (by omega)
  have hfirst : (packet.take 4).getD 0 0 = packet.getD 0 0 := by
    simp [List.getD_eq_getElem?_getD]
  have hsecond : (packet.take 4).getD 1 0 = packet.getD 1 0 := by
    simp [List.getD_eq_getElem?_getD]
  have hleap : packet.getD 0 0 >>> 6 ≠ 3 := by
    intro heq
    refine h.leapIndicator ?_
    have := congrArg UInt8.toNat heq
    rwa [UInt8.toNat_shiftRight, Nat.shiftRight_eq_div_pow] at this
  have hmode : packet.getD 0 0 &&& 7 = 4 := by
    rw [← UInt8.toNat_inj, UInt8.toNat_and]
    show (packet.getD 0 0).toNat &&& (2 ^ 3 - 1) = 4
    rw [Nat.and_two_pow_sub_one_eq_mod]
    exact h.mode
  have hstratum : packet.getD 1 0 ≠ 0 ∧ ¬packet.getD 1 0 > 15 := by
    constructor
    · intro hzero
      have := h.stratum.1
      rw [hzero] at this
      exact absurd this (by decide)
    · rw [gt_iff_lt, UInt8.lt_iff_toNat_lt]
      have := h.stratum.2
      show ¬15 < _
      omega
  refine ⟨ntohl ((packet.drop 40).take 4), ?_, toNat_ntohl ?_⟩
  · dsimp only [ntpSeconds]
    rw [hheader, hnetwork, hfirst, hsecond]
    refine if_neg ?_
    simp only [ntpPacketSize, List.length_take, List.length_drop]
    rintro (hport | hshort | hlength | h6 | h7 | h0 | h15 | hlength)
    · exact hport rfl
    · omega
    · omega
    · exact hleap h6
    · exact h7 hmode
    · exact hstratum.1 h0
    · exact hstratum.2 h15
    · omega
  · rw [List.length_take, List.length_drop]
    omega

/-- The clock is set to `u`: the reply is accepted, and the next iteration brings the RTC to `u`. -/
def SetsClock (copyPartial : CopyPartial) (packet : List UInt8) (u : ℕ) (s : State)
    (e : Surroundings) : Prop :=
  let s' := step copyPartial s (.receive ⟨some packet, ntpPort⟩)
  s'.syncState = .received ∧ (Rtc.getUnixTime (iteration e s').rtc).toNat = u

/-- **When a reply sets the clock**: for every time of the range of the RTC, and every valid reply
with the seconds of this time, the time service sets the clock to it exactly when the time is
before the wrap of the seconds, in 2036. -/
theorem set_iff {copyPartial : CopyPartial} (hcopy : Copies copyPartial) {u : ℕ}
    (hlow : 946684800 ≤ u) (hhigh : u < 4102444800) {packet : List UInt8}
    (hvalid : ValidReply packet) (hseconds : transmitSeconds packet = (u + 2208988800) % 2 ^ 32)
    {s : State} (hplace : s.place = .loopHead) {e : Surroundings} (hready : e.ready)
    (hentered : e.entered = .ok) :
    SetsClock copyPartial packet u s e ↔ u < 2085978496 := by
  obtain ⟨seconds, hcheck, htransmit⟩ := ntpSeconds_valid hcopy hvalid
  have htime : replyTime copyPartial ⟨some packet, ntpPort⟩ =
      if seconds ≤ ntpUnixEpochOffset then none else some (seconds - ntpUnixEpochOffset) := by
    rw [replyTime, hcheck]
    rfl
  rw [hseconds] at htransmit
  have hle : seconds ≤ ntpUnixEpochOffset ↔ 2085978496 ≤ u := by
    rw [UInt32.le_iff_toNat_le, htransmit]
    show _ ≤ 2208988800 ↔ _
    omega
  constructor
  · rintro ⟨hreceived, -⟩
    by_contra hlate
    have hfail : replyTime copyPartial ⟨some packet, ntpPort⟩ = none := by
      rw [htime, if_pos (hle.2 (by omega))]
    dsimp only [step, receive] at hreceived
    rw [hfail] at hreceived
    exact nomatch hreceived
  · intro hearly
    have hnot : ¬seconds ≤ ntpUnixEpochOffset := fun h => absurd (hle.1 h) (by omega)
    have hu : (seconds - ntpUnixEpochOffset).toNat = u := by
      rw [UInt32.toNat_sub_of_le _ _ (UInt32.le_of_lt (UInt32.not_le.1 hnot)), htransmit]
      show _ - 2208988800 = u
      omega
    have hpos : seconds - ntpUnixEpochOffset ≠ 0 := by
      intro hzero
      rw [hzero] at hu
      have : u = 0 := hu.symm
      omega
    have hreceived : step copyPartial s (.receive ⟨some packet, ntpPort⟩) =
        { s with
          syncState := .received
          receivedUnixTime := seconds - ntpUnixEpochOffset } := by
      dsimp only [step, receive]
      rw [htime, if_neg hnot]
    rw [SetsClock, hreceived]
    refine ⟨rfl, ?_⟩
    rw [iteration_received (s := { s with syncState := .received, receivedUnixTime := _ }) hready
      hplace rfl hpos, hentered]
    have hclock := (Rtc.clock_round_trip (seconds - ntpUnixEpochOffset) e.left s.rtc).1
      ⟨by omega, by omega⟩
    rw [hclock.2.2.2.2.2.1, hu]

/-- A reply of 2026-07-31. -/
def summerReply : List UInt8 :=
  [0x24, 2] ++ List.replicate 38 0 ++ [0xEE, 0x16, 0x64, 0x00] ++ List.replicate 4 0

theorem summer_set : SetsClock (fun packet size offset => (packet.drop offset).take size)
    summerReply 1785456000 (init ⟨0, 0, 0⟩) ⟨true, true, .ok, .ok⟩ :=
  (set_iff (fun _ _ _ _ => rfl) (by decide) (by decide)
    ⟨by decide, by decide, by decide, by decide⟩ (by decide) rfl rfl rfl).2 (by decide)

/-- The reply of a server at the wrap of the seconds, on 2036-02-07. -/
def wrappedReply : List UInt8 := [0x24, 1] ++ List.replicate 46 0

/-- It is refused, in every state. -/
theorem wrapped_refused : ¬∀ copyPartial, Copies copyPartial → ∀ u, 946684800 ≤ u →
    u < 4102444800 → ∀ packet, ValidReply packet →
      transmitSeconds packet = (u + 2208988800) % 2 ^ 32 →
        ∀ (s : State) (e : Surroundings), s.place = .loopHead → e.ready → e.entered = .ok →
          SetsClock copyPartial packet u s e := by
  intro h
  have hsets := h (fun packet size offset => (packet.drop offset).take size) (fun _ _ _ _ => rfl)
    2085978496 (by decide) (by decide) wrappedReply
    ⟨by decide, by decide, by decide, by decide⟩ (by decide) (init ⟨0, 0, 0⟩)
    ⟨true, true, .ok, .ok⟩ rfl rfl rfl
  exact absurd hsets.1 (by decide)

end HealthCheck.TimeService
