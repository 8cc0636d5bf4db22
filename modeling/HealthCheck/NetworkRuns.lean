import HealthCheck.NetworkConfiguration

/-!
# How long the network waits for DHCP

* `no_gap` — while the link stays up, no two polls ten seconds apart find the interface without an
  address.
* `fixed_after` — behind the start, the fixed address waits for the ten seconds.
* `reconnected` — behind a lost link it does not. The poll that finds the link again compares the
  tick it began with to a later one, and the difference wraps.
-/

namespace HealthCheck.Lwip

open Run
open AuthService (tick toNat_tick_sub)

/-! ## A link that stays -/

/-- No poll finds the link down. -/
def Event.Linked : Event → Prop
  | .process _ w => w.link ≠ .linkDown
  | _ => True

section Linked

variable {w : Surroundings} {s : State} {now : UInt32}

theorem wait_applyStatic :
    (applyStaticConfiguration w s).dhcpWaitStartTick = s.dhcpWaitStartTick := by
  cases h : s.netif.linkUp with
  | true => rw [applyStatic_up h]; rfl
  | false => rw [applyStatic_down h]; rfl

theorem time_applyStatic : (applyStaticConfiguration w s).time = s.time := by
  cases h : s.netif.linkUp with
  | true => rw [applyStatic_up h]; rfl
  | false => rw [applyStatic_down h]; rfl

theorem wait_processConfiguration :
    (processConfiguration w now s).dhcpWaitStartTick = s.dhcpWaitStartTick ∧
      (processConfiguration w now s).time = s.time := by
  obtain heq | ⟨heq, -⟩ | heq := processConfiguration_cases w now s
  · rw [heq]
    exact ⟨rfl, rfl⟩
  · rw [heq]
    exact ⟨wait_applyStatic, time_applyStatic⟩
  · rw [heq]
    exact ⟨rfl, rfl⟩

/-- A poll that finds the link as it was changes nothing about it. -/
theorem poll_linked (hlink : s.netif.linkUp = true) (hw : w.link ≠ .linkDown) :
    poll w s = processConfiguration w (tick s.time)
      { s with linkPollTick := tick s.time, time := s.time + w.late } := by
  rw [poll, linkCheckState, if_neg fun h => hw h.2, if_pos (.inl hlink)]

/-- **On a link that stays** nothing moves the beginning of the wait. -/
theorem step_linked {e : Event} (hlink : s.netif.linkUp = true) (he : e.Linked) :
    (step s e).netif.linkUp = true ∧ (step s e).dhcpWaitStartTick = s.dhcpWaitStartTick ∧
      s.time ≤ (step s e).time := by
  cases e with
  | process waited w =>
    simp only [step, process]
    split
    · exact ⟨hlink, rfl, Nat.le_add_right _ _⟩
    · rw [poll_linked (s := s.later waited) hlink he, linkUp_processConfiguration,
        wait_processConfiguration.1, wait_processConfiguration.2]
      refine ⟨hlink, rfl, ?_⟩
      simp only [State.later]
      omega
  | lease address netmask gateway dns =>
    simp only [step]
    split <;> exact ⟨hlink, rfl, le_rfl⟩
  | expire =>
    simp only [step]
    split <;> exact ⟨hlink, rfl, le_rfl⟩

/-- The link is up, and the wait began at this tick. -/
def Since (start : UInt32) (s : State) : Prop :=
  s.netif.linkUp = true ∧ s.dhcpWaitStartTick = start

theorem since_step (start : UInt32) (s : State) (e : Event) (h : Since start s) (he : e.Linked) :
    Since start (step s e) := by
  obtain ⟨hlink, hwait, -⟩ := step_linked h.1 he
  exact ⟨hlink, hwait.trans h.2⟩

end Linked

/-! ## Ten seconds -/

/-- A difference of ticks, some milliseconds later. -/
theorem toNat_sub_later {start : UInt32} {time later : ℕ} (h : time ≤ later) :
    (tick later - start).toNat = ((tick time - start).toNat + (later - time)) % 2 ^ 32 := by
  have hstart := start.toNat_lt
  simp only [tick, UInt32.toNat_sub, UInt32.toNat_ofNat']
  omega

/-- **No gap of ten seconds.** Where the client still had time at a poll, a configuration is in use
behind every poll that comes ten seconds later, or more, on the same link. -/
theorem no_gap (w₀ : Surroundings) (time : ℕ) (before events : List Event) (waited waited' : ℕ)
    (w w' : Surroundings) :
    let s₀ := (run step (coreInit w₀ time) before).later waited
    let s₁ := process w s₀
    let s₂ := (run step s₁ events).later waited'
    let s₃ := process w' s₂
    Due s₀ → w.link ≠ .linkDown → Waiting s₁ (tick s₀.time) →
      (∀ e ∈ events, e.Linked) → Due s₂ → w'.link ≠ .linkDown →
      s₀.time + 10000 ≤ s₂.time → s₂.time + 10000 ≤ s₀.time + 2 ^ 32 →
      Leased s₃ ∨ Fixed s₃ := by
  intro s₀ s₁ s₂ s₃ hdue hw hwaiting hevents hdue' hw' hlater hwrap
  have hinv : Inv s₀ := (inv_run w₀ time before).clock _ _
  have hs₁ : s₁ = poll w s₀ := if_neg hdue
  have hlink : s₁.netif.linkUp = true := by
    rw [hs₁, linkUp_poll]
    exact decide_eq_true hw
  obtain ⟨hlink', hwait⟩ := keeps (since_step s₁.dhcpWaitStartTick) ⟨hlink, rfl⟩
    (along_of_forall hevents)
  have hinv' : Inv s₂ := (invariant inv_step (inv_process w hinv) events).clock _ _
  have hs₃ : s₃ = poll w' s₂ := if_neg hdue'
  have hphase := (poll_phase (w := w') hinv').2 hw'
  rw [← hs₃] at hphase
  obtain hleased | hfixed | hstill := hphase
  · exact .inl hleased
  · exact .inr hfixed
  · have hsame : s₃.dhcpWaitStartTick = s₁.dhcpWaitStartTick := by
      rw [hs₃, poll_linked (s := s₂) hlink' hw', wait_processConfiguration.1]
      exact hwait
    have htimeout := hwaiting.timeout
    have htimeout' := hstill.timeout
    rw [hsame] at htimeout'
    rw [UInt32.lt_iff_toNat_lt] at htimeout htimeout'
    rw [toNat_sub_later (by omega : s₀.time ≤ s₂.time)] at htimeout'
    have hlimit : dhcpTimeoutMs.toNat = 10000 := rfl
    omega

/-- A server that does not answer. -/
theorem no_gap_alone :
    let w : Surroundings := ⟨.full100, 0, true, true⟩
    let s := run step (coreInit w 0) [.process 100 w, .process 10000 w]
    Leased s ∨ Fixed s :=
  no_gap ⟨.full100, 0, true, true⟩ 0 [] [] 100 10000 ⟨.full100, 0, true, true⟩
    ⟨.full100, 0, true, true⟩ (by decide) (by decide) ⟨by decide, by decide, by decide⟩ (by simp)
    (by decide) (by decide) (by decide) (by decide)

/-! ## The start -/

/-- What stays of a start with a link, as long as the link does. -/
structure Started (started : ℕ) (s : State) : Prop where
  linkUp : s.netif.linkUp = true
  wait : s.dhcpWaitStartTick = tick started
  time : started ≤ s.time
  fallback : s.staticFallbackActive = true → started + 10000 ≤ s.time

theorem started_coreInit {w : Surroundings} {time : ℕ} (hw : w.link ≠ .linkDown)
    (hstarts : w.starts = true) : Started (coreInit w time).time (coreInit w time) := by
  have hcheck : linkCheckState id w.link (blank time) =
      { blank time with
        mac := ethernetStart (w.link.mode (blank time).mac)
        netif := ⟨true, true, .any, .any, .any⟩
        time := time + 3 } := by
    rw [linkCheckState, if_neg fun h => hw h.2, if_neg (by simp [blank, hw])]
    rfl
  have hinit : (coreInit w time).netif.linkUp = true ∧
      (coreInit w time).dhcpWaitStartTick = tick (coreInit w time).time ∧
      (coreInit w time).staticFallbackActive = false := by
    simp [coreInit, hcheck, startDhcp, hstarts, Netif.setAddr]
  exact ⟨hinit.1, hinit.2.1, le_rfl, fun hactive => absurd (hinit.2.2.symm.trans hactive) (by decide)⟩

theorem started_step {started : ℕ} {s : State} {e : Event} (h : Started started s)
    (he : e.Linked) : Started started (step s e) := by
  obtain ⟨hlink, hwait, htime⟩ := step_linked h.linkUp he
  refine ⟨hlink, hwait.trans h.wait, h.time.trans htime, fun hactive => ?_⟩
  cases e with
  | process waited w =>
    simp only [step, process] at hactive htime ⊢
    split at hactive
    · rename_i hearly
      rw [if_pos hearly] at htime ⊢
      exact (h.fallback hactive).trans htime
    · rename_i hdue
      rw [if_neg hdue] at htime ⊢
      rw [poll_linked (s := s.later waited) h.linkUp he] at hactive ⊢
      rw [wait_processConfiguration.2]
      have hold : started + 10000 ≤ s.time + waited := by
        obtain heq | ⟨-, hlate⟩ | heq := processConfiguration_cases w
          (tick (s.later waited).time) { s.later waited with
            linkPollTick := tick (s.later waited).time, time := (s.later waited).time + w.late }
        · rw [heq] at hactive
          exact (h.fallback hactive).trans (Nat.le_add_right _ _)
        · have helapsed : dhcpTimeoutMs ≤ tick (s.time + waited) - tick started := by
            rw [← h.wait]
            exact hlate
          rw [UInt32.le_iff_toNat_le, toNat_tick_sub (h.time.trans (Nat.le_add_right _ _))]
            at helapsed
          have hlimit : dhcpTimeoutMs.toNat = 10000 := rfl
          omega
        · rw [heq] at hactive
          cases hactive
      exact hold.trans (Nat.le_add_right _ _)
  | lease address netmask gateway dns =>
    refine (h.fallback ?_).trans htime
    simp only [step] at hactive
    split at hactive <;> exact hactive
  | expire =>
    refine (h.fallback ?_).trans htime
    simp only [step] at hactive
    split at hactive <;> exact hactive

/-- **Behind the start** the fixed address waits: it is not in use before ten seconds are over, as
long as the link stays. -/
theorem fixed_after {w : Surroundings} {time : ℕ} (events : List Event)
    (hw : w.link ≠ .linkDown) (hstarts : w.starts = true) (h : ∀ e ∈ events, e.Linked) :
    let start := coreInit w time
    let s := run step start events
    s.staticFallbackActive = true → start.time + 10000 ≤ s.time := by
  intro start s
  exact (keeps (fun _ _ => started_step) (started_coreInit hw hstarts) (along_of_forall h)).fallback

/-- The fixed address comes with the first poll behind the ten seconds. -/
theorem fixed_after_alone :
    let w : Surroundings := ⟨.full100, 0, true, true⟩
    (coreInit w 0).time + 10000 ≤ (run step (coreInit w 0) [.process 10000 w]).time :=
  fixed_after [.process 10000 ⟨.full100, 0, true, true⟩] (by decide) rfl
    (by simp [Event.Linked]) (by decide)

/-! ## A link that comes back -/

/-- A poll is not held up for 49 days. -/
def Event.Prompt : Event → Prop
  | .process _ w => w.late + 3 + 10000 ≤ 2 ^ 32
  | _ => True

/-- Every link has its configuration. -/
def Served (s : State) : Prop :=
  s.netif.linkUp = true → s.networkConfigurationReported = true

section Served

variable {w : Surroundings} {s : State} {now : UInt32}

theorem served_applyStatic : (applyStaticConfiguration w s).networkConfigurationReported = true := by
  cases h : s.netif.linkUp with
  | true => rw [applyStatic_up h]; rfl
  | false => rw [applyStatic_down h]; rfl

theorem served_processConfiguration (h : s.networkConfigurationReported = true) :
    (processConfiguration w now s).networkConfigurationReported = true := by
  obtain heq | ⟨heq, -⟩ | heq := processConfiguration_cases w now s
  · rw [heq, h]
  · rw [heq, served_applyStatic]
  · rw [heq]
    rfl

/-- The tick at the beginning of a poll is behind the one at which it starts the client. -/
theorem late_tick {time late : ℕ} (h : late + 3 + 10000 ≤ 2 ^ 32) :
    dhcpTimeoutMs ≤ tick time - tick (time + late + 3) := by
  have hlimit : dhcpTimeoutMs.toNat = 10000 := rfl
  rw [UInt32.le_iff_toNat_le, hlimit]
  simp only [tick, UInt32.toNat_sub, UInt32.toNat_ofNat']
  omega

/-- **A poll that finds a link** where there was none puts the fixed address to use at once, also
where the client was started. -/
theorem fixed_poll (hdown : s.netif.linkUp = false) (hw : w.link ≠ .linkDown)
    (hlate : w.late + 3 + 10000 ≤ 2 ^ 32) : Fixed (poll w s) := by
  rw [poll, linkCheckState, if_neg (by simp [hdown]), if_neg (by simp [hdown, hw]),
    linkStatusChanged, if_pos rfl, startDhcp]
  dsimp only
  split
  · rw [processConfiguration, if_neg (by simp [Netif.setAddr]), if_neg (by simp),
      if_neg (by simp [Netif.setAddr]), if_pos (late_tick hlate)]
    exact fixed_applyStatic rfl (by simp)
  · rw [applyStatic_up rfl, processConfiguration, if_neg (by simp [reportNetworkConfiguration,
      Netif.setAddr]), if_neg (by simp [reportNetworkConfiguration]),
    if_pos (by exact fallbackAddress_ne)]
    exact ⟨rfl, by simp [reportNetworkConfiguration], rfl, rfl⟩

end Served

theorem served_step (s : State) (e : Event) (h : Inv s ∧ Served s) (he : e.Prompt) :
    Inv (step s e) ∧ Served (step s e) := by
  refine ⟨inv_step s e h.1, ?_⟩
  cases e with
  | process waited w =>
    simp only [step, process]
    split
    · exact h.2
    · intro hlink
      have hw : w.link ≠ .linkDown := by
        rw [linkUp_poll] at hlink
        exact of_decide_eq_true hlink
      cases hup : s.netif.linkUp with
      | true =>
        rw [poll_linked (s := s.later waited) hup hw]
        exact served_processConfiguration (h.2 hup)
      | false =>
        have hfixed := fixed_poll (s := s.later waited) hup hw he
        have hinv : Inv (poll w (s.later waited)) :=
          inv_processConfiguration (inv_linkCheckState (h.1.clock _ _))
        exact hinv.fallback hfixed.fallback
  | lease address netmask gateway dns =>
    simp only [step]
    split <;> exact h.2
  | expire =>
    simp only [step]
    split <;> exact h.2

/-- **Behind a lost link** the network is ready whenever there is a link, whatever DHCP does: each
poll that finds a link again puts the fixed address to use. -/
theorem reconnected (w₀ : Surroundings) (time : ℕ) (before events : List Event) :
    let lost := run step (coreInit w₀ time) before
    let s := run step lost events
    lost.netif.linkUp = false → (∀ e ∈ events, e.Prompt) →
      isReady s = s.netif.linkUp ∧
      ∀ waited w, Due (s.later waited) → s.netif.linkUp = false → w.link ≠ .linkDown →
        (Event.process waited w).Prompt → Fixed (step s (.process waited w)) := by
  intro lost s hdown hprompt
  have hlost : Inv lost := inv_run w₀ time before
  obtain ⟨hinv, hserved⟩ := keeps served_step
    ⟨hlost, fun hup => absurd (hdown.symm.trans hup) (by decide)⟩ (along_of_forall hprompt)
  refine ⟨?_, fun waited w hdue hoff hw hlate => ?_⟩
  · rw [isReady, hinv.ready]
    cases hup : s.netif.linkUp with
    | true => rw [hserved hup]; rfl
    | false => rfl
  · have heq : step s (.process waited w) = poll w (s.later waited) := if_neg hdue
    rw [heq]
    exact fixed_poll hoff hw hlate

/-- A cable that is pulled and plugged in again, with a server that would answer. -/
theorem reconnected_cable :
    let plugged : Surroundings := ⟨.full100, 0, true, true⟩
    let pulled : Surroundings := ⟨.linkDown, 0, true, true⟩
    let s := run step (coreInit plugged 0) [.process 100 pulled]
    Fixed (step s (.process 100 plugged)) :=
  (reconnected ⟨.full100, 0, true, true⟩ 0 [.process 100 ⟨.linkDown, 0, true, true⟩] []
    (by decide) (by simp)).2 100 ⟨.full100, 0, true, true⟩ (by decide) (by decide) (by decide)
    (by simp [Event.Prompt])

end HealthCheck.Lwip
