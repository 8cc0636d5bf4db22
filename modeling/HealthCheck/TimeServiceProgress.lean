import HealthCheck.TimeService

/-!
# The time service makes progress

The task shares two variables with the callbacks of lwIP, and the callbacks come between any two of
its accesses.

* `always_requests` — so they never bring it where it waits for ever: a rank of its state at the
  loop head shrinks with every iteration until it starts a new request.
-/

namespace HealthCheck.TimeService

open Run

/-- What the state is like at the loop head. -/
structure AtHead (s : State) : Prop where
  received : s.syncState = .received → s.receivedUnixTime ≠ 0
  pending : s.syncState = .pending → s.requestSeconds < ntpTimeoutSeconds
  retry : s.retrySeconds ≤ ntpResyncSeconds

/-- The iterations until the next request, at most. -/
def rank (s : State) : ℕ :=
  match s.syncState with
  | .idle => s.retrySeconds
  | .pending => ntpRetrySeconds + (ntpTimeoutSeconds - s.requestSeconds)
  | .received => ntpResyncSeconds
  | .failed => ntpRetrySeconds

/-! ## All places -/

/-- What the state is like at any place. -/
structure Inv (s : State) : Prop where
  received : s.syncState = .received → s.place.Takes ∨ s.receivedUnixTime ≠ 0
  pending : s.syncState = .pending → s.place = .timeout ∨ s.requestSeconds < ntpTimeoutSeconds
  retry : s.retrySeconds ≤ ntpResyncSeconds

theorem Inv.atHead {s : State} (h : Inv s) (hplace : s.place = .loopHead) : AtHead s where
  received hs := (h.received hs).resolve_left (by simp [hplace, Place.Takes])
  pending hs := (h.pending hs).resolve_left (by simp [hplace])
  retry := h.retry

theorem inv_init (rtc : Rtc.Registers) : Inv (init rtc) := ⟨nofun, nofun, Nat.zero_le _⟩

theorem inv_taskStep (e : Surroundings) {s : State} (h : Inv s) : Inv (taskStep e s) := by
  obtain ⟨hreceived, hpending, hretry⟩ := h
  unfold taskStep
  split <;> rename_i hplace <;> simp only [hplace, Place.Takes] at hreceived hpending <;>
    (repeat' split) <;> constructor <;>
    simp_all [Place.Takes, ntpResyncSeconds, ntpRetrySeconds, ntpTimeoutSeconds] <;> omega

/-- A request that is sent, or not, cannot make a time or a request appear. -/
theorem Inv.sync {s : State} (h : Inv s) {v : Sync} (hkeeps : s.toSync.Keeps v) :
    Inv { s with toSync := v } := by
  obtain ⟨htime, hstate⟩ := hkeeps
  refine ⟨fun hreceived => ?_, fun hpending => ?_, h.retry⟩
  · rcases hstate with hsame | hfailed
    · exact (h.received (hsame ▸ hreceived)).imp_right (htime ▸ ·)
    · exact nomatch hfailed.symm.trans hreceived
  · rcases hstate with hsame | hfailed
    · exact h.pending (hsame ▸ hpending)
    · exact nomatch hfailed.symm.trans hpending

/-- A datagram leaves a time with the state that says so. -/
theorem inv_receive (copyPartial : CopyPartial) (d : Datagram) {s : State} (h : Inv s) :
    Inv { s with toSync := receive copyPartial d s.toSync } := by
  unfold receive
  cases htime : replyTime copyPartial d with
  | none => exact h.sync s.toSync.keeps_fail
  | some unixTime => exact ⟨fun _ => .inr (replyTime_ne_zero htime), nofun, h.retry⟩

theorem inv_step (copyPartial : CopyPartial) (s : State) (e : Event) (h : Inv s) :
    Inv (step copyPartial s e) := by
  cases e with
  | task e => exact inv_taskStep e h
  | startRequest created lookup => exact h.sync (startRequest_keeps created lookup _)
  | dnsCallback address => exact h.sync (dnsCallback_keeps address _)
  | receive d => exact inv_receive copyPartial d h

theorem inv_run (copyPartial : CopyPartial) {s : State} (h : Inv s) (events : List Event) :
    Inv (run (step copyPartial) s events) :=
  invariant (fun s e => inv_step copyPartial s e) h events

/-! ## The rank -/

theorem inv_iteration (e : Surroundings) {s : State} (h : Inv s) : Inv (iteration e s) := by
  obtain ⟨k, hk⟩ := iteration_run (fun packet _ _ => packet) e s
  exact hk ▸ inv_run _ h _

/-- An iteration starts a request, or it lowers the rank. -/
theorem iteration_rank {e : Surroundings} {s : State} (h : AtHead s) (hready : e.ready)
    (hplace : s.place = .loopHead) :
    (iteration e s).requests = s.requests + 1 ∨
      (iteration e s).requests = s.requests ∧ rank (iteration e s) < rank s := by
  cases hstate : s.syncState with
  | idle =>
    rw [iteration_idle hready hplace hstate]
    split
    · exact .inl rfl
    · refine .inr ⟨rfl, ?_⟩
      simp only [rank, hstate]
      omega
  | pending =>
    rw [iteration_pending hready hplace hstate]
    refine .inr ⟨rfl, ?_⟩
    have hrequest := h.pending hstate
    simp only [rank, hstate]
    split <;> rename_i hnext <;> split at hnext <;> cases hnext <;> omega
  | received =>
    rw [iteration_received hready hplace hstate (h.received hstate)]
    refine .inr ⟨rfl, ?_⟩
    simp only [rank, hstate, ntpResyncSeconds, ntpRetrySeconds]
    split <;> decide
  | failed =>
    rw [iteration_failed hready hplace hstate]
    refine .inr ⟨rfl, ?_⟩
    simp only [rank, hstate, ntpRetrySeconds]
    decide

theorem step_requests (copyPartial : CopyPartial) (s : State) (e : Event) :
    s.requests ≤ (step copyPartial s e).requests := by
  cases e with
  | task e =>
    simp only [step, taskStep]
    split <;> (repeat' split) <;> simp
  | startRequest | dnsCallback | receive => exact Nat.le_refl _

theorem iteration_requests (e : Surroundings) (s : State) :
    s.requests ≤ (iteration e s).requests := by
  obtain ⟨k, hk⟩ := iteration_run (fun packet _ _ => packet) e s
  rw [hk]
  have hstep (s' : State) (e : Event) (hle : s.requests ≤ s'.requests) :
      s.requests ≤ (step (fun packet _ _ => packet) s' e).requests :=
    hle.trans (step_requests _ s' e)
  exact invariant hstep (Nat.le_refl _) _

/-- From any place, the task starts a request when it is left alone for long enough. -/
theorem request_starts {s : State} (h : Inv s) {e : ℕ → Surroundings} (hready : ∀ n, (e n).ready) :
    ∃ n, s.requests < (run (fun s e => iteration e s) s ((List.range n).map e)).requests := by
  have hstep (s : State) (e : Surroundings) (hs : Inv s ∧ s.place = .loopHead) (hready : e.ready) :
      (Inv (iteration e s) ∧ (iteration e s).place = .loopHead) ∧
        (s.requests < (iteration e s).requests ∨
          (iteration e s).requests = s.requests ∧ rank (iteration e s) < rank s) :=
    ⟨⟨inv_iteration e hs.1, iteration_place e s⟩,
      (iteration_rank (hs.1.atHead hs.2) hready hs.2).imp_left fun hnext => by omega⟩
  -- the iteration that is under way comes first
  obtain ⟨n, hn⟩ := grows hstep
    ⟨inv_iteration (e 0) h, iteration_place (e 0) s⟩ fun n => hready (n + 1)
  refine ⟨n + 1, ?_⟩
  rw [List.range_succ_eq_map, List.map_cons, List.map_map]
  exact (iteration_requests (e 0) s).trans_lt hn

/-- **The time service cannot get stuck**: in every run of the task with callbacks between any two
of its steps, at the loop head a received time is there, a request has time left, and the wait is
bounded, and an iteration with a network and without a callback, which ends at the loop head,
starts a request or lowers the rank. So such iterations start a request from every state of the
run. -/
theorem always_requests (copyPartial : CopyPartial) (rtc : Rtc.Registers) (events : List Event) :
    let s := run (step copyPartial) (init rtc) events
    (s.place = .loopHead → AtHead s ∧ ∀ e : Surroundings, e.ready →
      (iteration e s).place = .loopHead ∧
        ((iteration e s).requests = s.requests + 1 ∨
          (iteration e s).requests = s.requests ∧ rank (iteration e s) < rank s)) ∧
    ∀ e : ℕ → Surroundings, (∀ n, (e n).ready) →
      ∃ n, s.requests < (run (fun s e => iteration e s) s ((List.range n).map e)).requests := by
  intro s
  have hinv : Inv s := inv_run copyPartial (inv_init rtc) events
  refine ⟨fun hplace => ⟨hinv.atHead hplace, fun e hready => ?_⟩, fun e hready => ?_⟩
  · exact ⟨iteration_place e s, iteration_rank (hinv.atHead hplace) hready hplace⟩
  · exact request_starts hinv hready

end HealthCheck.TimeService
