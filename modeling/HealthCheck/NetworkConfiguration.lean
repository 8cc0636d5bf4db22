import HealthCheck.AuthServiceProof
import HealthCheck.Lib.Run

/-!
# The network configuration

`lwip.c` and `ethernet_link_check_state`: a task that looks at the PHY every 100 ms, starts DHCP
when a cable comes, and configures a fixed address where DHCP has none. The DHCP client is a part of
lwIP. It runs in a thread of its own and comes in between any two polls.

* `Lwip.step` — the machine: polls of the task, and what the client does to the interface.
* `Lwip.Inv` — what holds in every state of every run.
* `run_ready` — what `Lwip_IsReady` promises.
-/

namespace HealthCheck.Lwip

open Run
open AuthService (tick toNat_tick_sub)

/-! ## The interface -/

/-- An IPv4 address. -/
structure Address where
  addr1 : UInt8
  addr2 : UInt8
  addr3 : UInt8
  addr4 : UInt8
deriving DecidableEq

/-- `IP4_ADDR_ANY4`. -/
def Address.any : Address := ⟨0, 0, 0, 0⟩

/-- `gnetif`, as far as these functions use it. -/
structure Netif where
  up : Bool
  linkUp : Bool
  address : Address
  netmask : Address
  gateway : Address
deriving DecidableEq

/-- `netif_set_addr`. -/
def Netif.setAddr (address netmask gateway : Address) (netif : Netif) : Netif :=
  { netif with address, netmask, gateway }

/-- The bits of `MACCR` and of `DMAOMR` that follow the link. -/
structure Mac where
  fes : Bool
  dm : Bool
  te : Bool
  re : Bool
  st : Bool
  sr : Bool
deriving DecidableEq

/-- `ethernet_Start`, without its delays. -/
def ethernetStart (mac : Mac) : Mac := { mac with te := true, re := true, st := true, sr := true }

/-- `ethernet_Stop`. -/
def ethernetStop (mac : Mac) : Mac :=
  { mac with te := false, re := false, st := false, sr := false }

/-- `DP83848_GetLinkState`: no link, or an error, is `linkDown`; a link whose mode is none of the
four is `other`. -/
inductive LinkState
  | linkDown
  | full100
  | half100
  | full10
  | half10
  | other
deriving DecidableEq

/-- The mode of the link in `MACCR`. -/
def LinkState.mode (link : LinkState) (mac : Mac) : Mac :=
  { mac with
    fes := decide (link = .full100 ∨ link = .half100)
    dm := decide (link = .full100 ∨ link = .full10) }

/-- The DHCP client; `dhcp_supplied_address` is true when it is bound. -/
inductive Dhcp
  | off
  | searching
  | bound
deriving DecidableEq

/-! ## The task -/

/-- What `lwip_ReportNetworkConfiguration` prints. -/
structure Report where
  source : String
  address : Address
  netmask : Address
  gateway : Address
  dns : Address
deriving DecidableEq

/-- The variables of `lwip.c` and the interface. `time` is in milliseconds. -/
structure State where
  netif : Netif
  mac : Mac
  dns : Address
  dhcp : Dhcp
  linkPollTick : UInt32
  dhcpWaitStartTick : UInt32
  networkConfigurationReported : Bool
  staticFallbackActive : Bool
  networkReady : Bool
  console : List Report
  time : ℕ
deriving DecidableEq

/-- What a poll meets: what the PHY tells, the time from its first look at the clock to the next
one, whether `dhcp_start` works, and whether `dhcp_stop` leaves the address where it is. -/
structure Surroundings where
  link : LinkState
  late : ℕ
  starts : Bool
  keeps : Bool
deriving DecidableEq

/-- `LWIP_LINK_POLL_PERIOD_MS`. -/
def linkPollPeriodMs : UInt32 := 100

/-- `LWIP_DHCP_TIMEOUT_MS`. -/
def dhcpTimeoutMs : UInt32 := 10000

/-- The address of the static configuration. -/
def fallbackAddress : Address := ⟨192, 168, 0, 50⟩

/-- `lwip_ReportNetworkConfiguration`. -/
def reportNetworkConfiguration (source : String) (s : State) : State :=
  { s with
    networkConfigurationReported := true
    networkReady := s.netif.linkUp
    console := s.console ++
      [⟨source, s.netif.address, s.netif.netmask, s.netif.gateway, s.dns⟩] }

/-- `dhcp_stop`. -/
def dhcpStop (keeps : Bool) (s : State) : State :=
  { s with
    dhcp := .off
    netif := if keeps then s.netif else s.netif.setAddr .any .any .any }

/-- `lwip_ApplyStaticConfiguration`. -/
def applyStaticConfiguration (w : Surroundings) (s : State) : State :=
  let s := if s.netif.linkUp then s else dhcpStop w.keeps s
  reportNetworkConfiguration "static fallback"
    { s with
      netif := s.netif.setAddr fallbackAddress ⟨255, 255, 255, 0⟩ ⟨192, 168, 0, 1⟩
      dns := ⟨8, 8, 8, 8⟩
      staticFallbackActive := true }

/-- `lwip_StartDhcp`. -/
def startDhcp (w : Surroundings) (s : State) : State :=
  let s := { s with
    netif := s.netif.setAddr .any .any .any
    dns := .any
    dhcpWaitStartTick := tick s.time
    staticFallbackActive := false
    networkReady := false }
  if w.starts then { s with dhcp := .searching }
  else applyStaticConfiguration w { s with dhcp := .off }

/-- `lwip_LinkStatusChanged`. -/
def linkStatusChanged (w : Surroundings) (s : State) : State :=
  if s.netif.linkUp then startDhcp w { s with networkConfigurationReported := false }
  else { dhcpStop w.keeps s with
    dhcpWaitStartTick := tick s.time
    networkConfigurationReported := false
    staticFallbackActive := false
    networkReady := false }

/-- `ethernet_link_check_state`, with the link callback of the interface. The three calls of
`Platform_Delay` in `ethernet_Start` take a millisecond each. -/
def linkCheckState (callback : State → State) (link : LinkState) (s : State) : State :=
  if s.netif.linkUp ∧ link = .linkDown then
    callback { s with
      mac := ethernetStop s.mac
      netif := { s.netif with up := false, linkUp := false } }
  else if s.netif.linkUp ∨ link = .linkDown then s
  else
    callback { s with
      mac := ethernetStart (link.mode s.mac)
      netif := { s.netif with up := true, linkUp := true }
      time := s.time + 3 }

/-- `lwip_ProcessConfiguration`. -/
def processConfiguration (w : Surroundings) (now : UInt32) (s : State) : State :=
  if s.netif.linkUp = false then
    if s.netif.address = .any ∧ now - s.dhcpWaitStartTick ≥ dhcpTimeoutMs then
      applyStaticConfiguration w s
    else s
  else if s.dhcp = .bound then
    if s.networkConfigurationReported = false ∨ s.staticFallbackActive then
      reportNetworkConfiguration "DHCP" { s with staticFallbackActive := false }
    else s
  else if s.netif.address ≠ .any then s
  else if now - s.dhcpWaitStartTick ≥ dhcpTimeoutMs then applyStaticConfiguration w s
  else s

/-- The look of `Lwip_Process` at the link, 100 ms after the last one. -/
def poll (w : Surroundings) (s : State) : State :=
  processConfiguration w (tick s.time)
    (linkCheckState (linkStatusChanged w) w.link
      { s with linkPollTick := tick s.time, time := s.time + w.late })

/-- `Lwip_Process`, without the frames. -/
def process (w : Surroundings) (s : State) : State :=
  if tick s.time - s.linkPollTick < linkPollPeriodMs then s else poll w s

/-- The static variables before `lwip_CoreInit`, and the interface that `netif_add` makes. The MAC
is as `ethernet_HardwareInit` leaves it. -/
def blank (time : ℕ) : State where
  netif := ⟨false, false, .any, .any, .any⟩
  mac := ⟨true, true, false, false, false, false⟩
  dns := .any
  dhcp := .off
  linkPollTick := 0
  dhcpWaitStartTick := 0
  networkConfigurationReported := false
  staticFallbackActive := false
  networkReady := false
  console := []
  time := time

/-- `lwip_CoreInit`, where `netif_add` works. It looks at the link before there is a callback. -/
def coreInit (w : Surroundings) (time : ℕ) : State :=
  let s := linkCheckState id w.link (blank time)
  let s := { s with time := s.time + w.late, dhcpWaitStartTick := tick (s.time + w.late) }
  if s.netif.linkUp then startDhcp w { s with netif := { s.netif with up := true } }
  else { s with netif := { s.netif with up := false } }

/-- `Lwip_IsReady`. -/
def isReady (s : State) : Bool := s.networkReady

/-! ## Runs -/

/-- What comes next: a call of `Lwip_Process` some time later, or the client, which gets a lease,
loses it, or is refused the one it asks for. -/
inductive Event
  | process (waited : ℕ) (w : Surroundings)
  | lease (address netmask gateway : Address) (dns : Option Address)
  | expire
deriving DecidableEq

/-- The same, some milliseconds later. -/
def State.later (s : State) (ms : ℕ) : State := { s with time := s.time + ms }

/-- A client that is on takes an address to the interface; one that loses its lease or is refused
one takes the address away. -/
def step (s : State) : Event → State
  | .process waited w => process w (s.later waited)
  | .lease address netmask gateway dns =>
    if s.dhcp = .off ∨ address = .any then s
    else { s with
      dhcp := .bound
      netif := s.netif.setAddr address netmask gateway
      dns := dns.getD s.dns }
  | .expire =>
    if s.dhcp = .off then s
    else { s with dhcp := .searching, netif := s.netif.setAddr .any .any .any }

/-! ## What always holds -/

/-- The interface and the MAC follow the link. -/
structure Wired (s : State) : Prop where
  up : s.netif.up = s.netif.linkUp
  te : s.mac.te = s.netif.linkUp
  re : s.mac.re = s.netif.linkUp
  st : s.mac.st = s.netif.linkUp
  sr : s.mac.sr = s.netif.linkUp

/-- What holds in every state: the network is ready when a configuration is reported behind the
last change of the link, the client works only on a link, and an address on a link is a lease or
the fixed one. -/
structure Inv (s : State) : Prop where
  wired : Wired s
  ready : s.networkReady = (s.netif.linkUp && s.networkConfigurationReported)
  dhcp : s.dhcp ≠ .off → s.netif.linkUp
  bound : s.dhcp = .bound → s.netif.address ≠ .any
  fallback : s.staticFallbackActive → s.networkConfigurationReported
  started : s.netif.linkUp → s.dhcp = .off → s.netif.address ≠ .any
  address : s.netif.linkUp → s.netif.address ≠ .any →
    s.dhcp = .bound ∨ s.staticFallbackActive ∧ s.netif.address = fallbackAddress

section Functions

variable {w : Surroundings} {s : State}

theorem fallbackAddress_ne : fallbackAddress ≠ .any := by decide

/-! ### The static configuration -/

/-- On a link the static configuration leaves the client alone. -/
theorem applyStatic_up (h : s.netif.linkUp = true) : applyStaticConfiguration w s =
    reportNetworkConfiguration "static fallback"
      { s with
        netif := s.netif.setAddr fallbackAddress ⟨255, 255, 255, 0⟩ ⟨192, 168, 0, 1⟩
        dns := ⟨8, 8, 8, 8⟩
        staticFallbackActive := true } := by
  simp only [applyStaticConfiguration, h, if_true]

/-- Without a link it stops the client. -/
theorem applyStatic_down (h : s.netif.linkUp = false) : applyStaticConfiguration w s =
    reportNetworkConfiguration "static fallback"
      { s with
        dhcp := .off
        netif := s.netif.setAddr fallbackAddress ⟨255, 255, 255, 0⟩ ⟨192, 168, 0, 1⟩
        dns := ⟨8, 8, 8, 8⟩
        staticFallbackActive := true } := by
  cases hkeeps : w.keeps <;>
    simp [applyStaticConfiguration, h, dhcpStop, hkeeps, Netif.setAddr]

theorem inv_applyStatic (hwired : Wired s) (hdhcp : s.dhcp ≠ .off → s.netif.linkUp) :
    Inv (applyStaticConfiguration w s) := by
  cases h : s.netif.linkUp with
  | true =>
    rw [applyStatic_up h]
    exact {
      wired := ⟨hwired.up, hwired.te, hwired.re, hwired.st, hwired.sr⟩
      ready := by simp [reportNetworkConfiguration]
      dhcp := hdhcp
      bound := fun _ => fallbackAddress_ne
      fallback := fun _ => rfl
      started := fun _ _ => fallbackAddress_ne
      address := fun _ _ => .inr ⟨rfl, rfl⟩ }
  | false =>
    rw [applyStatic_down h]
    exact {
      wired := ⟨hwired.up, hwired.te, hwired.re, hwired.st, hwired.sr⟩
      ready := by simp [reportNetworkConfiguration]
      dhcp := fun hoff => absurd rfl hoff
      bound := fun _ => fallbackAddress_ne
      fallback := fun _ => rfl
      started := fun _ _ => fallbackAddress_ne
      address := fun _ _ => .inr ⟨rfl, rfl⟩ }

/-! ### The link -/

theorem inv_startDhcp (hwired : Wired s) (hlink : s.netif.linkUp = true)
    (hreported : s.networkConfigurationReported = false) : Inv (startDhcp w s) := by
  unfold startDhcp
  dsimp only
  split
  · exact {
      wired := ⟨hwired.up, hwired.te, hwired.re, hwired.st, hwired.sr⟩
      ready := by simp [hreported]
      dhcp := fun _ => hlink
      bound := by simp
      fallback := by simp
      started := by simp
      address := fun _ hne => absurd rfl hne }
  · exact inv_applyStatic ⟨hwired.up, hwired.te, hwired.re, hwired.st, hwired.sr⟩
      fun hoff => absurd rfl hoff

theorem linkUp_dhcpStop {keeps : Bool} : (dhcpStop keeps s).netif.linkUp = s.netif.linkUp := by
  cases keeps <;> rfl

theorem wired_dhcpStop {keeps : Bool} (h : Wired s) : Wired (dhcpStop keeps s) := by
  cases keeps <;> exact ⟨h.up, h.te, h.re, h.st, h.sr⟩

theorem inv_linkStatusChanged (hwired : Wired s) : Inv (linkStatusChanged w s) := by
  unfold linkStatusChanged
  split
  · rename_i hlink
    exact inv_startDhcp ⟨hwired.up, hwired.te, hwired.re, hwired.st, hwired.sr⟩ hlink rfl
  · rename_i hlink
    have hstopped : Wired (dhcpStop w.keeps s) := wired_dhcpStop hwired
    have hdown : (dhcpStop w.keeps s).netif.linkUp = false := by
      rw [linkUp_dhcpStop]
      exact Bool.eq_false_of_not_eq_true hlink
    exact {
      wired := ⟨hstopped.up, hstopped.te, hstopped.re, hstopped.st, hstopped.sr⟩
      ready := by simp [hdown]
      dhcp := fun hoff => absurd rfl hoff
      bound := by simp [dhcpStop]
      fallback := by simp
      started := fun hup => absurd hup (by simp [hdown])
      address := fun hup => absurd hup (by simp [hdown]) }

theorem inv_linkCheckState (h : Inv s) :
    Inv (linkCheckState (linkStatusChanged w) w.link s) := by
  unfold linkCheckState
  split_ifs
  · exact inv_linkStatusChanged ⟨rfl, rfl, rfl, rfl, rfl⟩
  · exact h
  · exact inv_linkStatusChanged ⟨rfl, rfl, rfl, rfl, rfl⟩

theorem inv_processConfiguration {now : UInt32} (h : Inv s) :
    Inv (processConfiguration w now s) := by
  have hstatic : Inv (applyStaticConfiguration w s) := inv_applyStatic h.wired h.dhcp
  unfold processConfiguration
  split_ifs with hlink hold hbound hreport hold
  · exact hstatic
  · exact h
  · exact {
      wired := ⟨h.wired.up, h.wired.te, h.wired.re, h.wired.st, h.wired.sr⟩
      ready := by simp [reportNetworkConfiguration]
      dhcp := h.dhcp
      bound := h.bound
      fallback := fun _ => rfl
      started := h.started
      address := fun _ _ => .inl hbound }
  all_goals first | exact h | exact hstatic

end Functions

/-! ### The machine -/

theorem inv_coreInit (w : Surroundings) (time : ℕ) : Inv (coreInit w time) := by
  have hwired : Wired (linkCheckState id w.link (blank time)) := by
    unfold linkCheckState
    split_ifs <;> exact ⟨rfl, rfl, rfl, rfl, rfl⟩
  have hreported : (linkCheckState id w.link (blank time)).networkConfigurationReported = false := by
    unfold linkCheckState
    split_ifs <;> rfl
  have hoff : (linkCheckState id w.link (blank time)).dhcp = .off ∧
      (linkCheckState id w.link (blank time)).staticFallbackActive = false ∧
      (linkCheckState id w.link (blank time)).networkReady = false := by
    unfold linkCheckState
    split_ifs <;> exact ⟨rfl, rfl, rfl⟩
  unfold coreInit
  dsimp only
  split
  · rename_i hlink
    exact inv_startDhcp ⟨hlink.symm, hwired.te, hwired.re, hwired.st, hwired.sr⟩ hlink hreported
  · rename_i hlink
    have hdown := Bool.eq_false_of_not_eq_true hlink
    exact {
      wired := ⟨hdown.symm, hwired.te, hwired.re, hwired.st, hwired.sr⟩
      ready := by
        rw [hoff.2.2]
        simp [hdown]
      dhcp := fun hne => absurd hoff.1 hne
      bound := fun hbound => absurd (hoff.1.symm.trans hbound) (by decide)
      fallback := fun hactive => absurd (hoff.2.1.symm.trans hactive) (by decide)
      started := fun hup => absurd hup hlink
      address := fun hup => absurd hup hlink }

/-- The clock is not part of it. -/
theorem Inv.clock {s : State} (h : Inv s) (linkPollTick : UInt32) (time : ℕ) :
    Inv { s with linkPollTick, time } :=
  ⟨⟨h.wired.up, h.wired.te, h.wired.re, h.wired.st, h.wired.sr⟩, h.ready, h.dhcp, h.bound,
    h.fallback, h.started, h.address⟩

theorem inv_process (w : Surroundings) {s : State} (h : Inv s) : Inv (process w s) := by
  unfold process
  split
  · exact h
  · exact inv_processConfiguration (inv_linkCheckState (h.clock _ _))

theorem inv_step (s : State) (e : Event) (h : Inv s) : Inv (step s e) := by
  cases e with
  | process waited w =>
    exact inv_process w (h.clock _ _)
  | lease address netmask gateway dns =>
    simp only [step]
    split
    · exact h
    · rename_i hon
      rw [not_or] at hon
      exact {
        wired := ⟨h.wired.up, h.wired.te, h.wired.re, h.wired.st, h.wired.sr⟩
        ready := h.ready
        dhcp := fun _ => h.dhcp hon.1
        bound := fun _ => hon.2
        fallback := h.fallback
        started := fun _ _ => hon.2
        address := fun _ _ => .inl rfl }
  | expire =>
    simp only [step]
    split
    · exact h
    · rename_i hon
      exact {
        wired := ⟨h.wired.up, h.wired.te, h.wired.re, h.wired.st, h.wired.sr⟩
        ready := h.ready
        dhcp := fun _ => h.dhcp hon
        bound := by simp
        fallback := h.fallback
        started := by simp
        address := fun _ hne => absurd rfl hne }

/-- **The invariant holds in every state of every run.** -/
theorem inv_run (w : Surroundings) (time : ℕ) (events : List Event) :
    Inv (run step (coreInit w time) events) :=
  invariant inv_step (inv_coreInit w time) events

/-! ## Behind a poll -/

/-- The task is due to look at the link. -/
def Due (s : State) : Prop := ¬tick s.time - s.linkPollTick < linkPollPeriodMs

instance (s : State) : Decidable (Due s) := inferInstanceAs (Decidable (¬_))

/-- The address of a lease is in use. -/
structure Leased (s : State) : Prop where
  ready : isReady s = true
  bound : s.dhcp = .bound
  address : s.netif.address ≠ .any
  fallback : s.staticFallbackActive = false

/-- The fixed address is in use. -/
structure Fixed (s : State) : Prop where
  ready : isReady s = true
  unbound : s.dhcp ≠ .bound
  address : s.netif.address = fallbackAddress
  fallback : s.staticFallbackActive = true

/-- The client still has time to get an address. -/
structure Waiting (s : State) (now : UInt32) : Prop where
  searching : s.dhcp = .searching
  address : s.netif.address = .any
  timeout : now - s.dhcpWaitStartTick < dhcpTimeoutMs

section Polls

variable {w : Surroundings} {s : State} {now : UInt32}

theorem linkUp_applyStatic : (applyStaticConfiguration w s).netif.linkUp = s.netif.linkUp := by
  cases h : s.netif.linkUp with
  | true => rw [applyStatic_up h]; exact h
  | false => rw [applyStatic_down h]; exact h

theorem linkUp_startDhcp : (startDhcp w s).netif.linkUp = s.netif.linkUp := by
  unfold startDhcp
  dsimp only
  split
  · rfl
  · exact linkUp_applyStatic

theorem linkUp_linkStatusChanged : (linkStatusChanged w s).netif.linkUp = s.netif.linkUp := by
  unfold linkStatusChanged
  split
  · exact linkUp_startDhcp
  · exact linkUp_dhcpStop

/-- What `lwip_ProcessConfiguration` may do. -/
theorem processConfiguration_cases (w : Surroundings) (now : UInt32) (s : State) :
    processConfiguration w now s = s ∨
    processConfiguration w now s = applyStaticConfiguration w s ∧
      now - s.dhcpWaitStartTick ≥ dhcpTimeoutMs ∨
    processConfiguration w now s =
      reportNetworkConfiguration "DHCP" { s with staticFallbackActive := false } := by
  unfold processConfiguration
  split_ifs with hlink hold hbound hreport hne hold
  · exact .inr (.inl ⟨rfl, hold.2⟩)
  · exact .inl rfl
  · exact .inr (.inr rfl)
  · exact .inl rfl
  · exact .inl rfl
  · exact .inr (.inl ⟨rfl, hold⟩)
  · exact .inl rfl

theorem linkUp_processConfiguration :
    (processConfiguration w now s).netif.linkUp = s.netif.linkUp := by
  obtain heq | ⟨heq, -⟩ | heq := processConfiguration_cases w now s
  · rw [heq]
  · rw [heq, linkUp_applyStatic]
  · rw [heq]
    rfl

/-- A poll finds out about the link. -/
theorem linkUp_poll : (poll w s).netif.linkUp = decide (w.link ≠ .linkDown) := by
  rw [poll, linkUp_processConfiguration, linkCheckState]
  split_ifs with hlost hsame
  · rw [linkUp_linkStatusChanged, hlost.2]
    rfl
  · by_cases hdown : w.link = .linkDown
    · simp_all
    · have hup : s.netif.linkUp = true := hsame.resolve_right hdown
      rw [hup]
      exact (decide_eq_true hdown).symm
  · rw [not_or] at hsame
    rw [linkUp_linkStatusChanged]
    exact (decide_eq_true hsame.2).symm

/-- The fixed address on a link. -/
theorem fixed_applyStatic (hlink : s.netif.linkUp = true) (hbound : s.dhcp ≠ .bound) :
    Fixed (applyStaticConfiguration w s) := by
  rw [applyStatic_up hlink]
  exact ⟨hlink, hbound, rfl, rfl⟩

/-- **On a link** a configuration is in use behind `lwip_ProcessConfiguration`, or there is still
time. -/
theorem processConfiguration_phase (h : Inv s) (hlink : s.netif.linkUp = true) :
    let s' := processConfiguration w now s
    Leased s' ∨ Fixed s' ∨ Waiting s' now := by
  have hready : isReady s = s.networkConfigurationReported := by
    rw [isReady, h.ready, hlink, Bool.true_and]
  unfold processConfiguration
  rw [if_neg (by simp [hlink])]
  dsimp only
  split_ifs with hbound hreport hne hold
  · exact .inl ⟨hlink, hbound, h.bound hbound, rfl⟩
  · rw [not_or, Bool.not_eq_false, Bool.not_eq_true] at hreport
    exact .inl ⟨hready.trans hreport.1, hbound, h.bound hbound, hreport.2⟩
  · obtain hsame | ⟨hactive, haddress⟩ := h.address hlink hne
    · exact absurd hsame hbound
    · exact .inr (.inl ⟨hready.trans (h.fallback hactive), hbound, haddress, hactive⟩)
  · exact .inr (.inl (fixed_applyStatic hlink hbound))
  · have hany : s.netif.address = .any := not_not.1 hne
    have hsearching : s.dhcp = .searching := by
      cases hdhcp : s.dhcp with
      | off => exact absurd hany (h.started hlink hdhcp)
      | searching => rfl
      | bound => exact absurd hdhcp hbound
    exact .inr (.inr ⟨hsearching, hany, UInt32.not_le.1 hold⟩)

/-- **Behind a poll**: without a link the network is not ready and the client is off; with one, a
configuration is in use, or there is still time. -/
theorem poll_phase (h : Inv s) :
    (w.link = .linkDown → isReady (poll w s) = false ∧ (poll w s).dhcp = .off) ∧
    (w.link ≠ .linkDown →
      Leased (poll w s) ∨ Fixed (poll w s) ∨ Waiting (poll w s) (tick s.time)) := by
  have hlink := linkUp_poll (w := w) (s := s)
  have hchecked := inv_linkCheckState (w := w)
    (h.clock (tick s.time) (s.time + w.late))
  have hinv : Inv (poll w s) := inv_processConfiguration hchecked
  refine ⟨fun hdown => ?_, fun hup => processConfiguration_phase hchecked ?_⟩
  · rw [hdown] at hlink
    refine ⟨?_, not_not.1 fun hon => ?_⟩
    · rw [isReady, hinv.ready, hlink]
      rfl
    · rw [hinv.dhcp hon] at hlink
      cases hlink
  · rw [poll, linkUp_processConfiguration] at hlink
    exact hlink.trans (decide_eq_true hup)

end Polls

/-- **In every run**, whenever the task looks at the link. -/
theorem run_poll (w₀ : Surroundings) (time : ℕ) (events : List Event) (waited : ℕ)
    (w : Surroundings) :
    let s := run step (coreInit w₀ time) events
    let now := tick (s.time + waited)
    let s' := step s (.process waited w)
    Due (s.later waited) →
      (w.link = .linkDown → isReady s' = false ∧ s'.dhcp = .off) ∧
      (w.link ≠ .linkDown → Leased s' ∨ Fixed s' ∨ Waiting s' now) := by
  intro s now s' hdue
  have h : Inv s := inv_run w₀ time events
  have heq : s' = poll w (s.later waited) := if_neg hdue
  rw [heq]
  exact poll_phase (h.clock _ _)

/-- A first poll. -/
theorem run_poll_first :
    let w : Surroundings := ⟨.full100, 0, true, true⟩
    let s := step (coreInit w 0) (.process 100 w)
    Leased s ∨ Fixed s ∨ Waiting s (tick 103) :=
  (run_poll ⟨.full100, 0, true, true⟩ 0 [] 100 ⟨.full100, 0, true, true⟩ (by decide)).2 (by decide)

end HealthCheck.Lwip
