import HealthCheck.BuzzerTask

/-!
# No request to the buzzer is lost

One notification value serves four kinds of requests, and it is cleared when the task wakes up.
The task looks at the flags once more before it waits, and a caller that sets a flag behind that
look still has its own notification to give.

* `owed_run` — the task never waits for good while a flag is set.
* `plays` — a pattern that is begun is played tone by tone.
* `no_request_lost` — both, and a flag that is cleared is one whose pattern is begun.
-/

namespace HealthCheck.BuzzerService

open Run

/-! ## Owed notifications -/

/-- The task does not look at the flags before it takes a notification. -/
def Task.Waits : Task → Prop
  | .playing .selfTest _ | .notifyTake => True
  | _ => False

/-- A call has set its flag and not yet given its notification. -/
def Place.Owes : Place → Prop
  | .draining | .notifying => True
  | _ => False

/-- Some call owes a notification. -/
def State.Owed (s : State) : Prop := ∃ id call, s.calls id = some call ∧ call.place.Owes

/-- **The invariant**: a task that waits while a flag is set has a notification, or is owed one. -/
def State.Awake (s : State) : Prop :=
  s.task.Waits → s.morePending = true → 0 < s.notifications ∨ s.Owed

/-- The task's own steps. Only the last look of the loop leads to a wait, and it finds no flag, or
it is followed by a notification. -/
theorem awake_taskStep {s : Shared} {owed : Prop}
    (h : s.task.Waits → s.morePending = true → 0 < s.notifications ∨ owed) :
    (taskStep s).task.Waits → (taskStep s).morePending = true →
      0 < (taskStep s).notifications ∨ owed := by
  unfold taskStep
  split
  · next sound frequencyHz left htask =>
    intro hwaits hpending
    refine h ?_ hpending
    rw [htask]
    cases sound with
    | selfTest => trivial
    | synchronous | certificate | alert | nothing => exact hwaits.elim
  · next sound htask =>
    intro hwaits hpending
    refine h ?_ hpending
    rw [htask]
    cases sound with
    | selfTest => trivial
    | synchronous | certificate | alert | nothing => exact hwaits.elim
  · split_ifs
    · exact h
    · exact False.elim
  · unfold select
    split_ifs
    · exact False.elim
    · split <;> exact False.elim
    · exact False.elim
    · exact False.elim
  · exact False.elim
  · exact False.elim
  · intro hwaits hpending
    -- the task waits when it has found no flag
    by_cases hmore : s.morePending = true
    · simp only [hmore, if_true] at hwaits
      exact hwaits.elim
    · exact absurd hpending hmore
  · exact fun _ _ => .inl (Nat.succ_pos _)

/-! ## The steps of a call -/

/-- What a step of a call can do to what the task sees. -/
structure Asks (before : Place) (s : Shared) (after : Place) (s' : Shared) : Prop where
  task : s'.task = s.task
  tones : tones s'.trace = tones s.trace
  notifications : s.notifications ≤ s'.notifications
  /-- A flag is set by a call that then owes a notification, -/
  pending : s'.morePending = true → s.morePending = true ∨ after.Owes
  /-- and it does so until it gives it. -/
  owes : before.Owes → after.Owes ∨ 0 < s'.notifications
  certificate : ∀ bit, s.ram.certificateWarningMask &&& bit ≠ 0 →
    s'.ram.certificateWarningMask &&& bit ≠ 0
  alert : s.ram.alertRequested ≠ 0 → s'.ram.alertRequested ≠ 0

theorem Asks.idle {s : Shared} {before after : Place} (h : ¬before.Owes) :
    Asks before s after s :=
  ⟨rfl, rfl, le_rfl, .inl, fun howes => absurd howes h, fun _ hbit => hbit, fun hset => hset⟩

theorem Asks.notify {s : Shared} {before after : Place} :
    Asks before s after { s with notifications := s.notifications + 1 } :=
  ⟨rfl, rfl, Nat.le_succ _, .inl, fun _ => .inr (Nat.succ_pos _), fun _ hbit => hbit,
    fun hset => hset⟩

theorem asks_playAndWait (id : ℕ) (resetWarning : Bool) (s : Shared) (place : Place) :
    Asks place s (playAndWait id resetWarning s place).1 (playAndWait id resetWarning s place).2 := by
  cases place with
  | entered =>
    dsimp only [playAndWait]
    split_ifs
    · exact .idle fun howes => howes
    · exact .idle fun howes => howes
    · refine ⟨rfl, ?_, le_rfl, fun _ => .inr trivial, nofun, fun _ hbit => hbit, fun hset => hset⟩
      simp [HealthCheck.BuzzerService.tones, List.filterMap_append]
  | draining =>
    exact ⟨rfl, rfl, le_rfl, .inl, fun _ => .inl trivial, fun _ hbit => hbit, fun hset => hset⟩
  | notifying => exact .notify
  | waiting =>
    dsimp only [playAndWait]
    split_ifs
    · exact ⟨rfl, rfl, le_rfl, .inl, nofun, fun _ hbit => hbit, fun hset => hset⟩
    · exact .idle fun howes => howes
  | returned success => exact .idle fun howes => howes

theorem and_or_bit (mask bit other : UInt8) :
    (mask ||| other) &&& bit = (mask &&& bit) ||| (other &&& bit) :=
  UInt8.toBitVec_inj.1 BitVec.and_or_distrib_right

/-- Setting a flag clears none. -/
theorem asks_request {request : Ram → Bool × Ram} {s : Shared}
    (hrefused : (request s.ram).1 = false → (request s.ram).2 = s.ram)
    (hcertificate : ∀ bit, s.ram.certificateWarningMask &&& bit ≠ 0 →
      (request s.ram).2.certificateWarningMask &&& bit ≠ 0)
    (halert : s.ram.alertRequested ≠ 0 → (request s.ram).2.alertRequested ≠ 0) (place : Place) :
    Asks place s (requestAndReturn request s place).1 (requestAndReturn request s place).2 := by
  cases place with
  | entered =>
    dsimp only [requestAndReturn]
    refine ⟨rfl, rfl, le_rfl, fun hpending => ?_, nofun, hcertificate, halert⟩
    by_cases hset : (request s.ram).1 = true
    · rw [if_pos hset]
      exact .inr trivial
    · have hsame := hrefused (Bool.eq_false_iff.2 hset)
      unfold Shared.morePending at hpending ⊢
      dsimp only at hpending
      rw [hsame] at hpending
      exact .inl hpending
  | notifying => exact .notify
  | draining => exact ⟨rfl, rfl, le_rfl, .inl, .inl, fun _ hbit => hbit, fun hset => hset⟩
  | waiting => exact .idle fun howes => howes
  | returned success => exact .idle fun howes => howes

theorem asks_callStep (id : ℕ) (call : Call) (s : Shared) :
    Asks call.place s (callStep id call s).1 (callStep id call s).2 := by
  unfold callStep
  split
  · exact asks_playAndWait ..
  · exact asks_playAndWait ..
  · refine asks_request (fun hrefused => ?_) (fun bit hbit => ?_) (fun hset => ?_) call.place
    · unfold alert at hrefused ⊢
      split_ifs at hrefused ⊢
      rfl
    · unfold alert
      split_ifs <;> exact hbit
    · unfold alert
      split_ifs
      · exact hset
      · exact (by decide : (1 : UInt8) ≠ 0)
  · next resourceIndex _ =>
    refine asks_request (fun hrefused => ?_) (fun bit hbit => ?_) (fun hset => ?_) call.place
    · unfold certificateExpiryWarning at hrefused ⊢
      split_ifs at hrefused ⊢
      rfl
    · unfold certificateExpiryWarning
      split_ifs
      · exact hbit
      · show (s.ram.certificateWarningMask ||| _) &&& bit ≠ 0
        rw [and_or_bit, ne_eq, UInt8.or_eq_zero_iff]
        exact fun hzero => hbit hzero.1
    · unfold certificateExpiryWarning
      split_ifs <;> exact hset

/-! ## Runs -/

/-- A call other than the one that steps owes what it owed. -/
theorem State.Owed.update {s : State} {id : ℕ} {call : Call} {shared : Shared} {n : ℕ}
    (h : s.Owed) (hself : ∀ before, s.calls id = some before → before.place.Owes →
      call.place.Owes ∨ 0 < n) :
    0 < n ∨ State.Owed { toShared := shared, calls := Function.update s.calls id (some call) } := by
  obtain ⟨id', before, hbefore, howes⟩ := h
  by_cases hid : id' = id
  · subst hid
    rcases hself before hbefore howes with hafter | hnotified
    · exact .inr ⟨id', call, Function.update_self .., hafter⟩
    · exact .inl hnotified
  · refine .inr ⟨id', before, ?_, howes⟩
    exact (Function.update_of_ne hid ..).trans hbefore

theorem awake_step (s : State) (action : Action) (h : s.Awake) : (step s action).Awake := by
  cases action with
  | task => exact awake_taskStep (s := s.toShared) h
  | call id kind =>
    dsimp only [step]
    split
    · next hnone =>
      intro hwaits hpending
      refine (h hwaits hpending).elim .inl fun howed => howed.update fun before hbefore => ?_
      rw [hnone] at hbefore
      cases hbefore
    · exact h
  | caller id =>
    dsimp only [step]
    split
    · exact h
    · next call hcall =>
      obtain ⟨htask, -, hnotifications, hset, howes, -, -⟩ := asks_callStep id call s.toShared
      intro hwaits hpending
      have hwaited : s.task.Waits := by
        rw [← htask]
        exact hwaits
      rcases hset hpending with hbefore | hafter
      · rcases h hwaited hbefore with hpositive | howed
        · exact .inl (hpositive.trans_le hnotifications)
        · refine howed.update fun before hsame hplace => howes ?_
          rw [hcall] at hsame
          rwa [Option.some.inj hsame]
      · exact .inr ⟨id, _, Function.update_self .., hafter⟩
  | timeout id =>
    dsimp only [step]
    split
    · next kind hcall =>
      intro hwaits hpending
      refine (h hwaits hpending).elim .inl fun howed => howed.update fun before hbefore hplace => ?_
      rw [hcall] at hbefore
      rw [← Option.some.inj hbefore] at hplace
      exact hplace.elim
    · exact h

theorem awake_init : init.Awake := fun _ hpending => absurd hpending (by decide)

/-- **No flag is left behind** in any interleaving. -/
theorem owed_run (actions : List Action) : (run step init actions).Awake := by
  induction actions using List.reverseRecOn with
  | nil => exact awake_init
  | append_singleton actions action ih =>
    rw [run_append]
    exact awake_step _ action ih

/-! ## Patterns -/

/-- The next tones are the ones of a pattern: one for each of the task's next steps. -/
def Plays (sound : Sound) (pattern : List ℕ) (s : State) : Prop :=
  ∀ more, tones s.trace ++ (pattern.take (more.count .task)).map (Prod.mk sound) <+:
      tones (run step s more).trace ∧
    (more.count .task ≤ pattern.length →
      tones (run step s more).trace =
        tones s.trace ++ (pattern.take (more.count .task)).map (Prod.mk sound) ∧
      (run step s more).task = .playing sound (pattern.drop (more.count .task)))

/-- What is not a step of the task leaves its place and the tones alone. -/
theorem step_other {s : State} {action : Action} (h : action ≠ .task) :
    (step s action).task = s.task ∧ tones (step s action).trace = tones s.trace := by
  cases action with
  | task => exact absurd rfl h
  | call id kind =>
    dsimp only [step]
    split <;> exact ⟨rfl, rfl⟩
  | caller id =>
    dsimp only [step]
    split
    · exact ⟨rfl, rfl⟩
    · next call _ =>
      have hasks := asks_callStep id call s.toShared
      exact ⟨hasks.task, hasks.tones⟩
  | timeout id =>
    dsimp only [step]
    split <;> exact ⟨rfl, rfl⟩

theorem tones_step (s : State) (action : Action) :
    tones s.trace <+: tones (step s action).trace := by
  by_cases htask : action = .task
  · subst htask
    obtain ⟨later, hlater⟩ := trace_taskStep s.toShared
    show tones s.trace <+: tones (taskStep s.toShared).trace
    rw [hlater, tones_append]
    exact List.prefix_append ..
  · rw [(step_other htask).2]

theorem tones_run (s : State) (more : List Action) :
    tones s.trace <+: tones (run step s more).trace := by
  induction more generalizing s with
  | nil => exact List.prefix_rfl
  | cons action more ih => exact (tones_step s action).trans (ih _)

/-- **A pattern that is begun is played**, whatever the callers do meanwhile. -/
theorem plays {s : State} {sound : Sound} {pattern : List ℕ}
    (h : s.task = .playing sound pattern) : Plays sound pattern s := by
  intro more
  induction more generalizing s pattern with
  | nil =>
    rw [List.count_nil, List.take_zero, List.map_nil, List.append_nil, List.drop_zero]
    exact ⟨List.prefix_rfl, fun _ => ⟨rfl, h⟩⟩
  | cons action more ih =>
    by_cases haction : action = .task
    · subst haction
      rw [List.count_cons_self]
      cases pattern with
      | nil =>
        rw [List.take_nil, List.map_nil, List.append_nil]
        exact ⟨tones_run s _, fun hle => absurd hle (Nat.not_succ_le_zero _)⟩
      | cons frequencyHz left =>
        have hstep : step s .task = { s with
            task := .playing sound left, trace := s.trace ++ [.tone sound frequencyHz] } := by
          simp only [step, taskStep, h]
        have htones : tones (step s .task).trace = tones s.trace ++ [(sound, frequencyHz)] := by
          rw [hstep]
          exact tones_append ..
        have htask : (step s .task).task = .playing sound left := by rw [hstep]
        obtain ⟨hplayed, hplaying⟩ := ih htask
        rw [htones, List.append_assoc] at hplayed hplaying
        exact ⟨hplayed, fun hle => hplaying (Nat.succ_le_succ_iff.1 hle)⟩
    · obtain ⟨htask, htones⟩ := step_other (s := s) haction
      obtain ⟨hplayed, hplaying⟩ := ih (htask.trans h)
      rw [List.count_cons_of_ne haction, ← htones]
      exact ⟨hplayed, hplaying⟩

/-! ## Cleared flags -/

/-- The bit of a resource. -/
def resourceBit (resourceIndex : ℕ) : UInt8 := UInt8.ofNat (2 ^ resourceIndex)

theorem resourceBit_other {i j : ℕ} (hi : resourceBit i ≠ 0) (hj : j < maxResources)
    (hne : i ≠ j) : ~~~resourceBit j &&& resourceBit i = resourceBit i := by
  have hsmall : i < 8 := by
    by_contra hlarge
    refine hi (UInt8.toNat_inj.1 ?_)
    have hdvd : 2 ^ 8 ∣ 2 ^ i := Nat.pow_dvd_pow 2 (Nat.not_lt.1 hlarge)
    exact Nat.mod_eq_zero_of_dvd hdvd
  have hall : ∀ i < 8, ∀ j < maxResources, i ≠ j →
      ~~~resourceBit j &&& resourceBit i = resourceBit i := by decide
  exact hall i hsmall j hj hne

/-- The first critical section clears the bit whose warning is played then. -/
theorem certificate_of_select {s : Shared} {i : ℕ}
    (hset : s.ram.certificateWarningMask &&& resourceBit i ≠ 0)
    (hcleared : (select s).ram.certificateWarningMask &&& resourceBit i = 0) :
    (select s).task = .playing (.certificate i) (melody ++ playCount (i + 1)) := by
  unfold select at hcleared ⊢
  split_ifs at hcleared ⊢
  · exact absurd hcleared hset
  · split at hcleared
    · next j hj =>
      have hlt : j < maxResources := List.mem_range.1 (List.mem_of_find?_eq_some hj)
      by_cases hij : i = j
      · rw [hij]
      · -- another bit is cleared
        have hbit : resourceBit i ≠ 0 := fun hzero => hset (by rw [hzero, UInt8.and_zero])
        change s.ram.certificateWarningMask &&& ~~~resourceBit j &&& resourceBit i = 0 at hcleared
        rw [UInt8.and_assoc, resourceBit_other hbit hlt hij] at hcleared
        exact absurd hcleared hset
    · exact absurd hcleared hset
  · exact absurd hcleared hset
  · exact absurd hcleared hset

/-- And it clears the alert that is played then. -/
theorem alert_of_select {s : Shared} (hset : s.ram.alertRequested ≠ 0)
    (hcleared : (select s).ram.alertRequested = 0) :
    (select s).task = .playing .alert (playCount alertToneCount) := by
  unfold select at hcleared ⊢
  split_ifs at hcleared ⊢
  · exact absurd hcleared hset
  · split at hcleared <;> exact absurd hcleared hset
  · rfl

/-- The other steps of the task leave the requests alone. -/
theorem ram_taskStep {s : Shared} (h : s.task ≠ .selecting) : (taskStep s).ram = s.ram := by
  unfold taskStep
  split
  · rfl
  · rfl
  · split_ifs <;> rfl
  · next htask => exact absurd htask h
  · rfl
  · rfl
  · rfl
  · rfl

/-- A flag is cleared in the first critical section of the task's loop only. -/
theorem cleared_at {s : State} {action : Action} {P : Ram → Prop}
    (hcalls : ∀ id call, P s.ram → P (callStep id call s.toShared).2.ram) (hset : P s.ram)
    (hcleared : ¬P (step s action).ram) : action = .task ∧ s.task = .selecting := by
  cases action with
  | task =>
    refine ⟨rfl, ?_⟩
    by_contra hother
    have hsame : (step s .task).ram = s.ram := ram_taskStep hother
    rw [hsame] at hcleared
    exact hcleared hset
  | call id kind =>
    dsimp only [step] at hcleared
    split at hcleared <;> exact absurd hset hcleared
  | caller id =>
    dsimp only [step] at hcleared
    split at hcleared
    · exact absurd hset hcleared
    · exact absurd (hcalls _ _ hset) hcleared
  | timeout id =>
    dsimp only [step] at hcleared
    split at hcleared <;> exact absurd hset hcleared

/-- **No request is lost.** When the task is blocked while a request is pending, a call has set its
flag and not yet given its notification; and a warning or an alert that is cleared is cleared by
the task, which plays its pattern next. -/
theorem no_request_lost (actions : List Action) :
    ((run step init actions).task = .notifyTake → (run step init actions).notifications = 0 →
      (run step init actions).morePending = true → (run step init actions).Owed) ∧
    (∀ action i, (run step init actions).ram.certificateWarningMask &&& resourceBit i ≠ 0 →
      (step (run step init actions) action).ram.certificateWarningMask &&& resourceBit i = 0 →
      (action = .task ∧ (run step init actions).task = .selecting) ∧
        Plays (.certificate i) (melody ++ playCount (i + 1))
          (step (run step init actions) action)) ∧
    ∀ action, (run step init actions).ram.alertRequested ≠ 0 →
      (step (run step init actions) action).ram.alertRequested = 0 →
      (action = .task ∧ (run step init actions).task = .selecting) ∧
        Plays .alert (playCount alertToneCount) (step (run step init actions) action) := by
  have howed := owed_run actions
  generalize run step init actions = s at howed ⊢
  have hselect : s.task = .selecting → (step s .task).toShared = select s.toShared := fun htask => by
    show taskStep s.toShared = _
    unfold taskStep
    rw [htask]
  refine ⟨fun htask hnone hpending => ?_, fun action i hset hcleared => ?_,
    fun action hset hcleared => ?_⟩
  · refine (howed (by rw [htask]; trivial) hpending).resolve_left fun hpositive => ?_
    rw [hnone] at hpositive
    exact Nat.lt_irrefl 0 hpositive
  · have hat := cleared_at (P := fun ram => ram.certificateWarningMask &&& resourceBit i ≠ 0)
      (fun id call => (asks_callStep id call s.toShared).certificate _) hset
      (not_not_intro hcleared)
    obtain ⟨rfl, htask⟩ := hat
    rw [hselect htask] at hcleared
    refine ⟨⟨rfl, htask⟩, plays ?_⟩
    rw [hselect htask]
    exact certificate_of_select hset hcleared
  · have hat := cleared_at (P := fun ram => ram.alertRequested ≠ 0)
      (fun id call => (asks_callStep id call s.toShared).alert) hset (not_not_intro hcleared)
    obtain ⟨rfl, htask⟩ := hat
    rw [hselect htask] at hcleared
    refine ⟨⟨rfl, htask⟩, plays ?_⟩
    rw [hselect htask]
    exact alert_of_select hset hcleared

end HealthCheck.BuzzerService
