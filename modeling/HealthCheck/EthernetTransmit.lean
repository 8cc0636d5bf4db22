import HealthCheck.Lib.Ring
import HealthCheck.Lib.Run
import Mathlib.Algebra.Order.Ring.Nat
import Mathlib.Data.List.Infix
import Mathlib.Data.Nat.Bitwise

/-!
# The Ethernet transmit ring

The transmit half of `ethernetif.c`: `ethernet_Write` hands the segments of a packet to the DMA in
a ring of four descriptors and waits for them. The DMA works through the ring on its own, in
steps that come in any order with the steps of the write.

* `ring_in_step`: as long as no write of fewer than four segments times out, the DMA is at
  `txIndex` whenever nothing is left to it, and it has transmitted the segments handed to it, in
  their order.
* `out_of_step`: a write that times out although the DMA goes on moves the DMA past `txIndex`.
-/

namespace HealthCheck.Ethernetif

open Run

/-- `ETH_TX_DESC_COUNT`. -/
def txDescCount : ℕ := 4

instance : NeZero txDescCount := ⟨by decide⟩

/-- `DESC_OWN`. -/
def descOwn : UInt32 := 0x80000000
/-- `TX_LS`. -/
def txLs : UInt32 := 0x20000000
/-- `TX_FS`. -/
def txFs : UInt32 := 0x10000000
/-- `TX_CIC_FULL`. -/
def txCicFull : UInt32 := 0x00C00000
/-- `TX_CHAINED`. -/
def txChained : UInt32 := 0x00100000
/-- `TX_ERROR`. -/
def txError : UInt32 := 0x00008000

/-- `EthernetDescriptor_TypeDef`, the words that `ethernet_Write` uses. -/
structure Descriptor where
  status : UInt32
  control : UInt32
  buffer : UInt32
deriving DecidableEq

def Descriptor.owned (d : Descriptor) : Bool := d.status &&& descOwn ≠ 0

/-- The `payload` and `len` of a `pbuf`. -/
structure Segment where
  payload : UInt32
  len : UInt16
deriving DecidableEq

/-- The results of `ethernet_Write`. -/
inductive Err
  | ok
  | mem
  | timeout
  | interface
deriving DecidableEq

/-- Where `ethernet_Write` is: outside, with the packet and result of the last call, or in a call
for a packet. -/
inductive Write
  | idle (last : Option (List Segment × Err))
  /-- The first loop, with its `count`. -/
  | filling (packet : List Segment) (count : ℕ)
  /-- Before `TX_FS` and `TX_LS` are set. -/
  | marking (packet : List Segment)
  /-- The second loop, with its `i`. -/
  | owning (packet : List Segment) (i : ℕ)
  /-- The loop that waits. -/
  | polling (packet : List Segment)
  /-- The last loop, with its `i`. -/
  | checking (packet : List Segment) (i : ℕ)
deriving DecidableEq

/-- The ring, the write, the DMA, and what has happened. -/
structure State where
  txDescriptors : Fin txDescCount → Descriptor
  txIndex : ℕ
  write : Write
  /-- The descriptor the DMA looks at next. -/
  position : Fin txDescCount
  /-- The segments that were handed to the DMA. -/
  accepted : List Segment
  /-- The buffers and lengths that the DMA took from its descriptors. -/
  transmitted : List (UInt32 × UInt32)
  /-- No descriptor was owned when the latest write began. -/
  startedFree : Bool

/-- The state after `ethernet_HardwareInit`. -/
def init : State :=
  ⟨fun _ => ⟨txChained, 0, 0⟩, 0, .idle none, 0, [], [], false⟩

/-- The descriptor at an index. -/
def State.descriptor (s : State) (index : ℕ) : Descriptor :=
  s.txDescriptors (Fin.ofNat txDescCount index)

def State.setDescriptor (s : State) (index : ℕ) (d : Descriptor) : State :=
  { s with txDescriptors := Function.update s.txDescriptors (Fin.ofNat txDescCount index) d }

/-- `status |= flag`. -/
def State.setFlag (s : State) (index : ℕ) (flag : UInt32) : State :=
  s.setDescriptor index { s.descriptor index with status := (s.descriptor index).status ||| flag }

/-- `lastIndex`. -/
def State.lastIndex (s : State) (packet : List Segment) : ℕ :=
  (s.txIndex + packet.length - 1) % txDescCount

/-- `ethernet_Write` returns. -/
def State.returns (s : State) (packet : List Segment) (result : Err) : State :=
  { s with write := .idle (some (packet, result)) }

/-- The next step of `ethernet_Write`; `expired` tells whether 20 ms have passed, where it
waits. -/
def writeStep (expired : Bool) (s : State) : State :=
  match s.write with
  | .idle _ => s
  | .filling packet count =>
    match packet[count]? with
    | some part =>
      if count = txDescCount ∨ (s.descriptor (s.txIndex + count)).owned then s.returns packet .mem
      else
        { s.setDescriptor (s.txIndex + count)
            ⟨txChained ||| txCicFull, part.len.toUInt32, part.payload⟩ with
          write := .filling packet (count + 1) }
    | none => if count = 0 then s.returns packet .ok else { s with write := .marking packet }
  | .marking packet =>
    { (s.setFlag s.txIndex txFs).setFlag (s.lastIndex packet) txLs with
      write := .owning packet packet.length }
  | .owning packet i =>
    let s' := s.setFlag (s.txIndex + i - 1) descOwn
    if i = 1 then { s' with write := .polling packet, accepted := s.accepted ++ packet }
    else { s' with write := .owning packet (i - 1) }
  | .polling packet =>
    if (s.descriptor (s.lastIndex packet)).owned then
      if expired then s.returns packet .timeout else s
    else { s with write := .checking packet 0 }
  | .checking packet i =>
    let nextIndex := (s.lastIndex packet + 1) % txDescCount
    if i < packet.length then
      if (s.descriptor (s.txIndex + i)).status &&& txError ≠ 0 then
        { s.returns packet .interface with txIndex := nextIndex }
      else { s with write := .checking packet (i + 1) }
    else { s.returns packet .ok with txIndex := nextIndex }

/-- The DMA gets to a descriptor that it owns, transmits its buffer and hands it back with the
bits of `status`. While it is stopped, it takes no such step. -/
def dmaStep (status : UInt32) (s : State) : State :=
  let d := s.txDescriptors s.position
  if d.owned then
    { s with
      txDescriptors :=
        Function.update s.txDescriptors s.position { d with status := status &&& ~~~descOwn }
      position := s.position + 1
      transmitted := s.transmitted ++ [(d.buffer, d.control)] }
  else s

/-- What can happen next. -/
inductive Action
  | call (packet : List Segment)
  | write (expired : Bool)
  | dma (status : UInt32)
deriving DecidableEq

/-- `low_level_output` is called, unless a call is under way. -/
def call (packet : List Segment) (s : State) : State :=
  match s.write with
  | .idle _ =>
    { s with
      write := .filling packet 0
      startedFree := decide (∀ i, (s.txDescriptors i).owned = false) }
  | _ => s

def step (s : State) : Action → State
  | .call packet => call packet s
  | .write expired => writeStep expired s
  | .dma status => dmaStep status s

/-! ## Ownership -/

theorem or_and_self (x m : UInt32) : (x ||| m) &&& m = m := by
  refine UInt32.toNat_inj.mp (Nat.eq_of_testBit_eq fun i => ?_)
  rw [UInt32.toNat_and, UInt32.toNat_or, Nat.testBit_and, Nat.testBit_or]
  cases x.toNat.testBit i <;> cases m.toNat.testBit i <;> rfl

theorem or_and_of_disjoint (x : UInt32) {a m : UInt32} (h : a &&& m = 0) :
    (x ||| a) &&& m = x &&& m := by
  refine UInt32.toNat_inj.mp ?_
  rw [UInt32.toNat_and, UInt32.toNat_or, UInt32.toNat_and, Nat.and_or_distrib_right,
    ← UInt32.toNat_and a, h]
  exact Nat.or_zero _

theorem owned_own (d : Descriptor) :
    ({ d with status := d.status ||| descOwn } : Descriptor).owned = true := by
  unfold Descriptor.owned
  rw [or_and_self]
  decide

theorem owned_flag (d : Descriptor) {flag : UInt32} (h : flag &&& descOwn = 0) :
    ({ d with status := d.status ||| flag } : Descriptor).owned = d.owned := by
  unfold Descriptor.owned
  rw [or_and_of_disjoint _ h]

theorem owned_handed_back (d : Descriptor) (status : UInt32) :
    ({ d with status := status &&& ~~~descOwn } : Descriptor).owned = false := by
  unfold Descriptor.owned
  rw [UInt32.and_assoc, show ~~~descOwn &&& descOwn = 0 from rfl, UInt32.and_zero]
  decide

theorem owned_filled (control buffer : UInt32) :
    (⟨txChained ||| txCicFull, control, buffer⟩ : Descriptor).owned = false := by
  show decide ((txChained ||| txCicFull) &&& descOwn ≠ 0) = false
  decide

/-! ## The ring -/

/-- What the DMA takes from a descriptor for a segment. -/
def Segment.frame (part : Segment) : UInt32 × UInt32 := (part.payload, part.len.toUInt32)

def Descriptor.frame (d : Descriptor) : UInt32 × UInt32 := (d.buffer, d.control)

/-- Behind the segments that were handed over, no descriptor is owned. -/
def Free (s : State) : Prop :=
  ∀ j, s.accepted.length ≤ j → j < s.transmitted.length + txDescCount →
    (s.descriptor j).owned = false

/-- Behind the segments that were handed over, the first `count` segments of a packet are filled
in, and there is a turn of the ring for them. -/
structure Filled (s : State) (packet : List Segment) (count : ℕ) : Prop where
  index : s.txIndex % txDescCount = s.accepted.length % txDescCount
  room : s.accepted.length + count ≤ s.transmitted.length + txDescCount
  frames : ∀ (i : ℕ) (hi : i < packet.length), i < count →
    (s.descriptor (s.accepted.length + i)).frame = packet[i].frame
  fresh : s.startedFree = true → s.accepted.length = s.transmitted.length

/-- The last segments that were handed over are a packet at `txIndex`. -/
structure Handed (s : State) (packet : List Segment) : Prop where
  index : (s.txIndex + packet.length) % txDescCount = s.accepted.length % txDescCount
  pos : 0 < packet.length
  le : packet.length ≤ txDescCount
  suffix : packet <:+ s.accepted
  free : Free s

/-- What a returned call leaves behind. -/
def Outcome (s : State) (packet : List Segment) : Err → Prop
  | .mem => s.startedFree = true → txDescCount < packet.length
  | .timeout => packet <:+ s.accepted
  | .ok | .interface =>
    packet = [] ∨ packet <:+ s.accepted ∧ s.transmitted.length = s.accepted.length

/-- What holds at each place of `ethernet_Write`. -/
def Stage (s : State) : Write → Prop
  | .idle last => s.txIndex % txDescCount = s.accepted.length % txDescCount ∧ Free s ∧
    ∀ packet result, last = some (packet, result) → Outcome s packet result
  | .filling packet count => Filled s packet count ∧ Free s ∧ count ≤ packet.length
  | .marking packet => Filled s packet packet.length ∧ Free s ∧ 0 < packet.length
  | .owning packet i => Filled s packet packet.length ∧ 0 < i ∧ i ≤ packet.length ∧
    ∀ j, s.accepted.length ≤ j → j < s.transmitted.length + txDescCount →
      ((s.descriptor j).owned = true ↔
        s.accepted.length + i ≤ j ∧ j < s.accepted.length + packet.length)
  | .polling packet => Handed s packet
  | .checking packet _ => Handed s packet ∧ s.transmitted.length = s.accepted.length

/-- What holds between any two steps: the DMA has transmitted a first part of the segments handed
to it, and owns the descriptors of the rest. -/
structure Inv (s : State) : Prop where
  transmitted : s.transmitted = (s.accepted.map Segment.frame).take s.transmitted.length
  le : s.transmitted.length ≤ s.accepted.length
  room : s.accepted.length ≤ s.transmitted.length + txDescCount
  position : s.position = Fin.ofNat txDescCount s.transmitted.length
  pending : ∀ (j : ℕ) (hj : j < s.accepted.length), s.transmitted.length ≤ j →
    (s.descriptor j).owned = true ∧ (s.descriptor j).frame = s.accepted[j].frame
  stage : Stage s s.write

theorem descriptor_congr (s : State) {i j : ℕ} (h : i % txDescCount = j % txDescCount) :
    s.descriptor i = s.descriptor j :=
  congrArg s.txDescriptors (Ring.slot_eq_iff.mpr h)

/-- The descriptors of one turn, after one of them has been written. -/
theorem descriptor_setDescriptor (s : State) (d : Descriptor) {low i j : ℕ} (hi : low ≤ i)
    (hin : i < low + txDescCount) (hj : low ≤ j) (hjn : j < low + txDescCount) :
    (s.setDescriptor i d).descriptor j = if j = i then d else s.descriptor j := by
  by_cases h : j = i
  · rw [if_pos h, h]
    exact Function.update_self _ _ _
  · rw [if_neg h]
    exact Ring.update_slot_of_ne s.txDescriptors d hi hin hj hjn h

theorem inv_init : Inv init := by
  refine ⟨rfl, Nat.le_refl 0, Nat.zero_le _, rfl, nofun, rfl, fun _ _ _ => ?_, nofun⟩
  show (⟨txChained, 0, 0⟩ : Descriptor).owned = false
  decide

/-! ## The steps of the DMA -/

/-- While nothing is left to the DMA, it does not own the descriptor it is at. -/
theorem lt_of_owned {s : State} (hs : Inv s) (h : (s.txDescriptors s.position).owned = true) :
    s.transmitted.length < s.accepted.length := by
  refine Nat.lt_of_le_of_ne hs.le fun heq => ?_
  have hturn : s.transmitted.length < s.transmitted.length + txDescCount :=
    Nat.lt_add_of_pos_right (by decide)
  rw [hs.position] at h
  change (s.descriptor s.transmitted.length).owned = true at h
  have hfree (hfree : Free s) : False := by
    rw [hfree _ (Nat.le_of_eq heq.symm) hturn] at h
    cases h
  have hstage := hs.stage
  cases hwrite : s.write with
  | idle last =>
    rw [hwrite] at hstage
    exact hfree hstage.2.1
  | filling packet count =>
    rw [hwrite] at hstage
    exact hfree hstage.2.1
  | marking packet =>
    rw [hwrite] at hstage
    exact hfree hstage.2.1
  | owning packet i =>
    rw [hwrite] at hstage
    obtain ⟨-, hi, -, howned⟩ := hstage
    have := ((howned _ (Nat.le_of_eq heq.symm) hturn).mp h).1
    omega
  | polling packet =>
    rw [hwrite] at hstage
    exact hfree hstage.free
  | checking packet i =>
    rw [hwrite] at hstage
    exact hfree hstage.1.free

/-- The DMA has handled the descriptor of the next segment. -/
structure Handled (s s' : State) : Prop where
  txIndex : s'.txIndex = s.txIndex
  write : s'.write = s.write
  accepted : s'.accepted = s.accepted
  startedFree : s'.startedFree = s.startedFree
  position : s'.position = Fin.ofNat txDescCount (s.transmitted.length + 1)
  transmitted : s'.transmitted = s.transmitted ++ [(s.descriptor s.transmitted.length).frame]
  kept : ∀ j, s.transmitted.length < j → j < s.transmitted.length + txDescCount →
    s'.descriptor j = s.descriptor j
  /-- The descriptor it has handed back is the last one of the turn that begins now. -/
  last : (s'.descriptor (s.transmitted.length + txDescCount)).owned = false

theorem dmaStep_owned {s : State} (hs : Inv s) (status : UInt32)
    (h : (s.txDescriptors s.position).owned = true) : Handled s (dmaStep status s) := by
  let d : Descriptor :=
    { s.descriptor s.transmitted.length with status := status &&& ~~~descOwn }
  have hposition : s.position + 1 = Fin.ofNat txDescCount (s.transmitted.length + 1) := by
    rw [hs.position]
    refine Fin.ext ?_
    show (s.transmitted.length % txDescCount + 1 % txDescCount) % txDescCount =
      (s.transmitted.length + 1) % txDescCount
    exact (Nat.add_mod _ _ _).symm
  have heq : dmaStep status s =
      { s.setDescriptor s.transmitted.length d with
        position := Fin.ofNat txDescCount (s.transmitted.length + 1)
        transmitted := s.transmitted ++ [(s.descriptor s.transmitted.length).frame] } := by
    unfold dmaStep
    rw [if_pos h, hposition, hs.position]
    rfl
  rw [heq]
  refine ⟨rfl, rfl, rfl, rfl, rfl, rfl, fun j hj hjn => ?_, ?_⟩
  · exact (descriptor_setDescriptor s d (Nat.le_refl _) (Nat.lt_add_of_pos_right (by decide))
      hj.le hjn).trans (if_neg hj.ne')
  · have hd : d.owned = false := owned_handed_back _ status
    refine Eq.trans (congrArg Descriptor.owned (?_ : _ = d)) hd
    refine (descriptor_congr _ (Nat.add_mod_right _ _)).trans ?_
    exact Function.update_self _ _ _

theorem Handled.length {s s' : State} (h : Handled s s') :
    s'.transmitted.length = s.transmitted.length + 1 := by
  rw [h.transmitted, List.length_append, List.length_singleton]

theorem Handled.owned {s s' : State} (h : Handled s s') {j : ℕ} (hj : s.transmitted.length < j)
    (hjn : j < s'.transmitted.length + txDescCount) :
    (s'.descriptor j).owned = true ↔
      j < s.transmitted.length + txDescCount ∧ (s.descriptor j).owned = true := by
  rw [h.length] at hjn
  by_cases hlast : j < s.transmitted.length + txDescCount
  · rw [h.kept j hj hlast]
    exact (and_iff_right hlast).symm
  · have hj' : j = s.transmitted.length + txDescCount := by omega
    rw [hj', h.last]
    simp

theorem Handled.free {s s' : State} (h : Handled s s')
    (hlt : s.transmitted.length < s.accepted.length) (hfree : Free s) : Free s' := by
  intro j hj hjn
  rw [h.accepted] at hj
  refine Bool.eq_false_iff.mpr fun howned => ?_
  obtain ⟨hjn', howned⟩ := (h.owned (by omega) hjn).mp howned
  rw [hfree j hj hjn'] at howned
  cases howned

theorem Handled.filled {s s' : State} (h : Handled s s')
    (hlt : s.transmitted.length < s.accepted.length) {packet : List Segment} {count : ℕ}
    (hfilled : Filled s packet count) : Filled s' packet count := by
  obtain ⟨hindex, hroom, hframes, hfresh⟩ := hfilled
  refine ⟨?_, ?_, fun i hi hcount => ?_, fun hstarted => ?_⟩
  · rw [h.txIndex, h.accepted]
    exact hindex
  · rw [h.accepted, h.length]
    omega
  · rw [h.accepted, h.kept _ (by omega) (by omega)]
    exact hframes i hi hcount
  · rw [h.startedFree] at hstarted
    exact absurd (hfresh hstarted) hlt.ne'

theorem Handled.handed {s s' : State} (h : Handled s s')
    (hlt : s.transmitted.length < s.accepted.length) {packet : List Segment}
    (hhanded : Handed s packet) : Handed s' packet := by
  obtain ⟨hindex, hpos, hle, hsuffix, hfree⟩ := hhanded
  refine ⟨?_, hpos, hle, ?_, h.free hlt hfree⟩
  · rw [h.txIndex, h.accepted]
    exact hindex
  · rw [h.accepted]
    exact hsuffix

theorem Handled.outcome {s s' : State} (h : Handled s s')
    (hlt : s.transmitted.length < s.accepted.length) {packet : List Segment} {result : Err}
    (houtcome : Outcome s packet result) : Outcome s' packet result := by
  cases result with
  | mem =>
    intro hstarted
    rw [h.startedFree] at hstarted
    exact houtcome hstarted
  | timeout =>
    show packet <:+ s'.accepted
    rw [h.accepted]
    exact houtcome
  | ok | interface => exact houtcome.imp_right fun ⟨_, heq⟩ => absurd heq hlt.ne

theorem Handled.stage {s s' : State} (h : Handled s s')
    (hlt : s.transmitted.length < s.accepted.length) {write : Write} (hstage : Stage s write) :
    Stage s' write := by
  cases write with
  | idle last =>
    obtain ⟨hindex, hfree, hlast⟩ := hstage
    refine ⟨?_, h.free hlt hfree, fun packet result hresult => ?_⟩
    · rw [h.txIndex, h.accepted]
      exact hindex
    · exact h.outcome hlt (hlast packet result hresult)
  | filling packet count => exact ⟨h.filled hlt hstage.1, h.free hlt hstage.2.1, hstage.2.2⟩
  | marking packet => exact ⟨h.filled hlt hstage.1, h.free hlt hstage.2.1, hstage.2.2⟩
  | owning packet i =>
    obtain ⟨hfilled, hi, hile, howned⟩ := hstage
    have hroom := hfilled.room
    refine ⟨h.filled hlt hfilled, hi, hile, fun j hj hjn => ?_⟩
    rw [h.accepted] at hj ⊢
    rw [h.owned (by omega) hjn]
    constructor
    · rintro ⟨hjn', hj'⟩
      exact (howned j hj hjn').mp hj'
    · rintro ⟨hij, hj'⟩
      exact ⟨by omega, (howned j hj (by omega)).mpr ⟨hij, hj'⟩⟩
  | polling packet => exact h.handed hlt hstage
  | checking packet i => exact absurd hstage.2 hlt.ne

theorem inv_dma (status : UInt32) {s : State} (hs : Inv s) : Inv (dmaStep status s) := by
  by_cases howned : (s.txDescriptors s.position).owned = true
  · have h := dmaStep_owned hs status howned
    have hlt := lt_of_owned hs howned
    have hroom := hs.room
    refine ⟨?_, ?_, ?_, ?_, fun j hj hjT => ?_, ?_⟩
    · have hmap : s.transmitted.length < (s.accepted.map Segment.frame).length := by
        rw [List.length_map]
        exact hlt
      rw [h.length, h.accepted, h.transmitted, List.take_add_one, ← hs.transmitted,
        List.getElem?_eq_getElem hmap, List.getElem_map,
        (hs.pending _ hlt (Nat.le_refl _)).2]
      rfl
    · rw [h.length, h.accepted]
      exact hlt
    · rw [h.length, h.accepted]
      omega
    · rw [h.length]
      exact h.position
    · rw [h.length] at hjT
      have hj' : j < s.accepted.length := by
        rw [← h.accepted]
        exact hj
      rw [h.kept j hjT (by omega)]
      simp only [h.accepted]
      exact hs.pending j hj' (by omega)
    · rw [h.write]
      exact h.stage hlt hs.stage
  · unfold dmaStep
    rw [if_neg howned]
    exact hs

/-! ## The steps of the write -/

theorem setDescriptor_congr (s : State) (d : Descriptor) {i j : ℕ}
    (h : i % txDescCount = j % txDescCount) : s.setDescriptor i d = s.setDescriptor j d := by
  unfold State.setDescriptor
  rw [Ring.slot_eq_iff.mpr h]

theorem setFlag_congr (s : State) (flag : UInt32) {i j : ℕ}
    (h : i % txDescCount = j % txDescCount) : s.setFlag i flag = s.setFlag j flag := by
  unfold State.setFlag
  rw [descriptor_congr s h, setDescriptor_congr s _ h]

theorem descriptor_setFlag (s : State) (flag : UInt32) (i j : ℕ) :
    (s.setFlag i flag).descriptor j = s.descriptor j ∨
      (s.setFlag i flag).descriptor j =
        { s.descriptor j with status := (s.descriptor j).status ||| flag } := by
  by_cases h : Fin.ofNat txDescCount j = Fin.ofNat txDescCount i
  · have hslot : s.descriptor i = s.descriptor j := descriptor_congr s (Ring.slot_eq_iff.mp h.symm)
    refine Or.inr ?_
    rw [← hslot]
    show Function.update s.txDescriptors _ _ _ = _
    rw [h]
    exact Function.update_self _ _ _
  · exact Or.inl (Function.update_of_ne h _ _)

theorem frame_setFlag (s : State) (flag : UInt32) (i j : ℕ) :
    ((s.setFlag i flag).descriptor j).frame = (s.descriptor j).frame := by
  rcases descriptor_setFlag s flag i j with h | h
  · rw [h]
  · rw [h]
    rfl

theorem owned_setFlag (s : State) {flag : UInt32} (hflag : flag &&& descOwn = 0) (i j : ℕ) :
    ((s.setFlag i flag).descriptor j).owned = (s.descriptor j).owned := by
  rcases descriptor_setFlag s flag i j with h | h
  · rw [h]
  · rw [h, owned_flag _ hflag]

/-- In one turn, setting `DESC_OWN` at a number shows there only. -/
theorem owned_setOwn (s : State) {low i j : ℕ} (hi : low ≤ i) (hin : i < low + txDescCount)
    (hj : low ≤ j) (hjn : j < low + txDescCount) :
    ((s.setFlag i descOwn).descriptor j).owned = true ↔
      j = i ∨ (s.descriptor j).owned = true := by
  unfold State.setFlag
  rw [descriptor_setDescriptor s _ hi hin hj hjn]
  by_cases h : j = i
  · rw [if_pos h, owned_own]
    simp [h]
  · rw [if_neg h]
    exact (or_iff_right h).symm

/-- What one step of the write makes of the state, apart from the places it has to reach. -/
structure Written (s s' : State) : Prop where
  accepted : s'.accepted = s.accepted
  transmitted : s'.transmitted = s.transmitted
  position : s'.position = s.position
  /-- The descriptors of the DMA are not touched. -/
  pending : ∀ j, s.transmitted.length ≤ j → j < s.accepted.length →
    (s'.descriptor j).owned = (s.descriptor j).owned ∧
      (s'.descriptor j).frame = (s.descriptor j).frame

theorem Written.inv {s s' : State} (h : Written s s') (hs : Inv s) (hstage : Stage s' s'.write) :
    Inv s' := by
  refine ⟨?_, ?_, ?_, ?_, fun j hj hjT => ?_, hstage⟩
  · rw [h.transmitted, h.accepted]
    exact hs.transmitted
  · rw [h.transmitted, h.accepted]
    exact hs.le
  · rw [h.transmitted, h.accepted]
    exact hs.room
  · rw [h.transmitted, h.position]
    exact hs.position
  · rw [h.transmitted] at hjT
    have hj' : j < s.accepted.length := by
      rw [← h.accepted]
      exact hj
    rw [(h.pending j hjT hj').1, (h.pending j hjT hj').2]
    simp only [h.accepted]
    exact hs.pending j hj' hjT

/-- The write goes to another place and leaves the ring alone. -/
theorem inv_move {s : State} (hs : Inv s) (write : Write) (txIndex : ℕ)
    (hstage : Stage { s with write := write, txIndex := txIndex } write) :
    Inv { s with write := write, txIndex := txIndex } :=
  Written.inv (s := s) ⟨rfl, rfl, rfl, fun _ _ _ => ⟨rfl, rfl⟩⟩ hs hstage

theorem inv_call (packet : List Segment) {s : State} (hs : Inv s) : Inv (call packet s) := by
  unfold call
  split
  · next last hwrite =>
    have hstage := hs.stage
    rw [hwrite] at hstage
    obtain ⟨hindex, hfree, -⟩ := hstage
    refine Written.inv (s := s) ⟨rfl, rfl, rfl, fun _ _ _ => ⟨rfl, rfl⟩⟩ hs
      ⟨⟨hindex, hs.room, fun _ _ h => absurd h (Nat.not_lt_zero _), fun hstarted => ?_⟩, hfree,
        Nat.zero_le _⟩
    refine Nat.le_antisymm (Nat.not_lt.mp fun hlt => ?_) hs.le
    have howned := (hs.pending _ hlt (Nat.le_refl _)).1
    exact absurd howned (Bool.eq_false_iff.mp (of_decide_eq_true hstarted _))
  · exact hs

/-- The slot behind the packet that is filled in is free, unless the ring is full. -/
theorem Filled.next {s : State} {packet : List Segment} {count : ℕ} (hs : Inv s)
    (h : Filled s packet count) (hcount : count ≠ txDescCount)
    (howned : (s.descriptor (s.accepted.length + count)).owned = false) :
    s.accepted.length + count < s.transmitted.length + txDescCount := by
  refine Nat.lt_of_le_of_ne h.room fun heq => ?_
  by_cases hlt : s.transmitted.length < s.accepted.length
  · -- then it is the slot of the next segment to be transmitted
    rw [heq, descriptor_congr s (Nat.add_mod_right _ _),
      (hs.pending _ hlt (Nat.le_refl _)).1] at howned
    cases howned
  · have hle := hs.le
    omega

theorem inv_filling (expired : Bool) {s : State} (hs : Inv s) {packet : List Segment} {count : ℕ}
    (hwrite : s.write = .filling packet count) : Inv (writeStep expired s) := by
  have hstage := hs.stage
  rw [hwrite] at hstage
  obtain ⟨hfilled, hfree, hle⟩ := hstage
  have hslot : (s.txIndex + count) % txDescCount = (s.accepted.length + count) % txDescCount := by
    rw [Nat.add_mod, hfilled.index, ← Nat.add_mod]
  simp only [writeStep, hwrite]
  split
  · next part hpart =>
    obtain ⟨hcount, hpart⟩ := List.getElem?_eq_some_iff.mp hpart
    rw [setDescriptor_congr s _ hslot, descriptor_congr s hslot]
    split_ifs with hmem
    · refine inv_move hs _ _ ⟨hfilled.index, hfree, fun packet' result hlast => ?_⟩
      cases hlast
      intro hstarted
      rcases hmem with hmem | hmem
      · exact hmem ▸ hcount
      · have hfresh := hfilled.fresh hstarted
        by_cases hfull : count < txDescCount
        · rw [hfree _ (Nat.le_add_right _ _) (by omega)] at hmem
          cases hmem
        · exact Nat.lt_of_le_of_lt (Nat.not_lt.mp hfull) hcount
    · obtain ⟨hne, howned⟩ := not_or.mp hmem
      have hnext := hfilled.next hs hne (Bool.eq_false_iff.mpr howned)
      have hlow := hs.le
      let d : Descriptor := ⟨txChained ||| txCicFull, part.len.toUInt32, part.payload⟩
      have hset (j : ℕ) (hj : s.transmitted.length ≤ j)
          (hjn : j < s.transmitted.length + txDescCount) :
          (s.setDescriptor (s.accepted.length + count) d).descriptor j =
            if j = s.accepted.length + count then d else s.descriptor j :=
        descriptor_setDescriptor s d (by omega) hnext hj hjn
      refine Written.inv (s := s) ⟨rfl, rfl, rfl, fun j hj hjA => ?_⟩ hs ⟨⟨hfilled.index, hnext,
        fun i hi hicount => ?_, hfilled.fresh⟩, fun j hj hjn => ?_, hcount⟩
      · have hj' := (hset j hj (by omega)).trans (if_neg (by omega))
        exact ⟨congrArg Descriptor.owned hj', congrArg Descriptor.frame hj'⟩
      · refine Eq.trans (congrArg Descriptor.frame (hset (s.accepted.length + i)
          (by omega) (by omega))) ?_
        by_cases hlast : i = count
        · subst hlast
          rw [if_pos rfl, hpart]
          rfl
        · rw [if_neg (by omega)]
          exact hfilled.frames i hi (by omega)
      · refine Eq.trans (congrArg Descriptor.owned (hset j (Nat.le_trans hlow hj) hjn)) ?_
        split_ifs
        · exact owned_filled _ _
        · exact hfree j hj hjn
  · next hnone =>
    have hlength : packet.length ≤ count := List.getElem?_eq_none_iff.mp hnone
    split_ifs with hzero
    · refine inv_move hs _ _ ⟨hfilled.index, hfree, fun packet' result hlast => ?_⟩
      cases hlast
      exact Or.inl (List.eq_nil_of_length_eq_zero (by omega))
    · have heq : count = packet.length := Nat.le_antisymm hle hlength
      subst heq
      exact inv_move hs _ _ ⟨⟨hfilled.index, hfilled.room, hfilled.frames, hfilled.fresh⟩, hfree,
        Nat.pos_of_ne_zero hzero⟩

theorem inv_marking (expired : Bool) {s : State} (hs : Inv s) {packet : List Segment}
    (hwrite : s.write = .marking packet) : Inv (writeStep expired s) := by
  have hstage := hs.stage
  rw [hwrite] at hstage
  obtain ⟨hfilled, hfree, hpos⟩ := hstage
  simp only [writeStep, hwrite]
  have howned (j : ℕ) : (((s.setFlag s.txIndex txFs).setFlag (s.lastIndex packet) txLs).descriptor
      j).owned = (s.descriptor j).owned := by
    rw [owned_setFlag _ (by decide), owned_setFlag _ (by decide)]
  have hframe (j : ℕ) : (((s.setFlag s.txIndex txFs).setFlag (s.lastIndex packet) txLs).descriptor
      j).frame = (s.descriptor j).frame := by
    rw [frame_setFlag, frame_setFlag]
  refine Written.inv (s := s) ⟨rfl, rfl, rfl, fun j _ _ => ⟨howned j, hframe j⟩⟩ hs
    ⟨⟨hfilled.index, hfilled.room, fun i hi hcount => ?_, hfilled.fresh⟩, hpos, Nat.le_refl _,
      fun j hj hjn => ?_⟩
  · exact (hframe _).trans (hfilled.frames i hi hcount)
  · have hfree' := (howned j).trans (hfree j hj hjn)
    constructor
    · intro h
      exact absurd (h.symm.trans hfree') Bool.noConfusion
    · intro h
      change s.accepted.length + packet.length ≤ j ∧ j < s.accepted.length + packet.length at h
      omega

theorem inv_owning (expired : Bool) {s : State} (hs : Inv s) {packet : List Segment} {i : ℕ}
    (hwrite : s.write = .owning packet i) : Inv (writeStep expired s) := by
  have hstage := hs.stage
  rw [hwrite] at hstage
  obtain ⟨hfilled, hi, hile, howned⟩ := hstage
  have hlow := hs.le
  have hroom := hfilled.room
  have hslot : (s.txIndex + i - 1) % txDescCount =
      (s.accepted.length + (i - 1)) % txDescCount := by
    rw [Nat.add_sub_assoc hi, Nat.add_mod, hfilled.index, ← Nat.add_mod]
  simp only [writeStep, hwrite]
  rw [setFlag_congr s _ hslot]
  have hset (j : ℕ) (hj : s.transmitted.length ≤ j)
      (hjn : j < s.transmitted.length + txDescCount) :
      ((s.setFlag (s.accepted.length + (i - 1)) descOwn).descriptor j).owned = true ↔
        j = s.accepted.length + (i - 1) ∨ (s.descriptor j).owned = true :=
    owned_setOwn s (by omega) (by omega) hj hjn
  have hframe (j : ℕ) : ((s.setFlag (s.accepted.length + (i - 1)) descOwn).descriptor j).frame =
      (s.descriptor j).frame := frame_setFlag s descOwn _ j
  have hkept (j : ℕ) (hj : s.transmitted.length ≤ j) (hjA : j < s.accepted.length) :
      ((s.setFlag (s.accepted.length + (i - 1)) descOwn).descriptor j).owned =
        (s.descriptor j).owned :=
    Bool.eq_iff_iff.mpr ((hset j hj (by omega)).trans (or_iff_right (by omega)))
  split_ifs with hlast
  · -- the first segment belongs to the DMA now, and the others with it
    subst hlast
    have hlength : (s.accepted ++ packet).length = s.accepted.length + packet.length :=
      List.length_append
    refine ⟨?_, ?_, ?_, hs.position, fun j hj hjT => ?_,
      ⟨?_, hile, by omega, List.suffix_append _ _, ?_⟩⟩
    · show s.transmitted = ((s.accepted ++ packet).map Segment.frame).take s.transmitted.length
      rw [List.map_append, List.take_append_of_le_length (by rw [List.length_map]; exact hlow)]
      exact hs.transmitted
    · show s.transmitted.length ≤ (s.accepted ++ packet).length
      omega
    · show (s.accepted ++ packet).length ≤ s.transmitted.length + txDescCount
      omega
    · change s.transmitted.length ≤ j at hjT
      change j < (s.accepted ++ packet).length at hj
      show ((s.setFlag (s.accepted.length + (1 - 1)) descOwn).descriptor j).owned = true ∧
        ((s.setFlag (s.accepted.length + (1 - 1)) descOwn).descriptor j).frame =
          (s.accepted ++ packet)[j].frame
      rw [hframe]
      by_cases hjA : j < s.accepted.length
      · rw [hkept j hjT hjA, List.getElem_append_left hjA]
        exact hs.pending j hjA hjT
      · rw [List.getElem_append_right (Nat.not_lt.mp hjA)]
        refine ⟨(hset j hjT (by omega)).mpr ?_, ?_⟩
        · by_cases hfirst : j = s.accepted.length
          · exact Or.inl hfirst
          · exact Or.inr ((howned j (by omega) (by omega)).mpr ⟨by omega, by omega⟩)
        · have hframes := hfilled.frames (j - s.accepted.length) (by omega) (by omega)
          rw [Nat.add_sub_cancel' (Nat.not_lt.mp hjA)] at hframes
          exact hframes
    · show (s.txIndex + packet.length) % txDescCount = (s.accepted ++ packet).length % txDescCount
      rw [hlength, Nat.add_mod, hfilled.index, ← Nat.add_mod]
    · intro j hj hjn
      change (s.accepted ++ packet).length ≤ j at hj
      refine Bool.eq_false_iff.mpr fun h => ?_
      rcases (hset j (by omega) hjn).mp h with h | h
      · omega
      · have := ((howned j (by omega) hjn).mp h).2
        omega
  · refine Written.inv (s := s) ⟨rfl, rfl, rfl, fun j hj hjA => ⟨hkept j hj hjA, hframe j⟩⟩ hs
      ⟨⟨hfilled.index, hroom, fun k hk hkn => ?_, hfilled.fresh⟩, by omega, by omega,
        fun j hj hjn => ?_⟩
    · exact (hframe _).trans (hfilled.frames k hk hkn)
    · change s.accepted.length ≤ j at hj
      refine (hset j (by omega) hjn).trans ?_
      rw [howned j hj hjn]
      show _ ↔ s.accepted.length + (i - 1) ≤ j ∧ j < s.accepted.length + packet.length
      omega

/-- The descriptor that a write waits for is owned as long as anything is left to the DMA. -/
theorem Handed.last {s : State} (hs : Inv s) {packet : List Segment} (h : Handed s packet)
    (howned : (s.descriptor (s.lastIndex packet)).owned = false) :
    s.transmitted.length = s.accepted.length := by
  refine Nat.le_antisymm hs.le (Nat.not_lt.mp fun hlt => ?_)
  have hpos := h.pos
  have hindex := h.index
  have hslot : s.lastIndex packet % txDescCount = (s.accepted.length - 1) % txDescCount := by
    unfold State.lastIndex
    simp only [txDescCount] at hindex ⊢
    omega
  rw [descriptor_congr s hslot, (hs.pending _ (by omega) (by omega)).1] at howned
  cases howned

theorem Handed.nextIndex {s : State} {packet : List Segment} (h : Handed s packet) :
    (s.lastIndex packet + 1) % txDescCount % txDescCount = s.accepted.length % txDescCount := by
  have hpos := h.pos
  have hindex := h.index
  unfold State.lastIndex
  simp only [txDescCount] at hindex ⊢
  omega

theorem inv_checking (expired : Bool) {s : State} (hs : Inv s) {packet : List Segment} {i : ℕ}
    (hwrite : s.write = .checking packet i) : Inv (writeStep expired s) := by
  have hstage := hs.stage
  rw [hwrite] at hstage
  obtain ⟨hhanded, hall⟩ := hstage
  have hdone (result : Err) (hresult : result = .ok ∨ result = .interface) :
      Inv { s.returns packet result with txIndex := (s.lastIndex packet + 1) % txDescCount } := by
    refine inv_move hs _ _ ⟨hhanded.nextIndex, hhanded.free, fun packet' result' hlast => ?_⟩
    cases hlast
    rcases hresult with rfl | rfl
    · exact Or.inr ⟨hhanded.suffix, hall⟩
    · exact Or.inr ⟨hhanded.suffix, hall⟩
  simp only [writeStep, hwrite]
  split_ifs
  · exact hdone .interface (Or.inr rfl)
  · exact inv_move hs _ _ ⟨⟨hhanded.index, hhanded.pos, hhanded.le, hhanded.suffix, hhanded.free⟩,
      hall⟩
  · exact hdone .ok (Or.inl rfl)

/-- A write of fewer segments than there are descriptors times out. -/
def TimesOutShort (s : State) : Action → Prop
  | .write true => ∃ packet, s.write = .polling packet ∧ packet.length < txDescCount ∧
    (s.descriptor (s.lastIndex packet)).owned = true
  | _ => False

theorem inv_polling (expired : Bool) {s : State} (hs : Inv s) {packet : List Segment}
    (hwrite : s.write = .polling packet) (hok : ¬TimesOutShort s (.write expired)) :
    Inv (writeStep expired s) := by
  have hhanded := hs.stage
  rw [hwrite] at hhanded
  change Handed s packet at hhanded
  simp only [writeStep, hwrite]
  split_ifs with howned hexpired
  · subst hexpired
    have hfull : packet.length = txDescCount :=
      Nat.le_antisymm hhanded.le (Nat.not_lt.mp fun h => hok ⟨packet, hwrite, h, howned⟩)
    -- a whole turn of the ring ends where it began
    have hindex := hhanded.index
    rw [hfull, Nat.add_mod_right] at hindex
    refine inv_move hs _ _ ⟨hindex, hhanded.free, fun packet' result hlast => ?_⟩
    cases hlast
    exact hhanded.suffix
  · exact hs
  · have hall := hhanded.last hs (Bool.eq_false_iff.mpr howned)
    exact inv_move hs _ _
      ⟨⟨hhanded.index, hhanded.pos, hhanded.le, hhanded.suffix, hhanded.free⟩, hall⟩

theorem inv_step (s : State) (a : Action) (hs : Inv s) (hok : ¬TimesOutShort s a) :
    Inv (step s a) := by
  cases a with
  | call packet => exact inv_call packet hs
  | dma status => exact inv_dma status hs
  | write expired =>
    show Inv (writeStep expired s)
    cases hwrite : s.write with
    | idle last =>
      simp only [writeStep, hwrite]
      exact hs
    | filling packet count => exact inv_filling expired hs hwrite
    | marking packet => exact inv_marking expired hs hwrite
    | owning packet i => exact inv_owning expired hs hwrite
    | polling packet => exact inv_polling expired hs hwrite hok
    | checking packet i => exact inv_checking expired hs hwrite

/-! ## Runs -/

/-- The segments handed over are transmitted when no descriptor is owned any more. -/
theorem Inv.all {s : State} (hs : Inv s) (hfree : ∀ i, (s.txDescriptors i).owned = false) :
    s.transmitted.length = s.accepted.length := by
  refine Nat.le_antisymm hs.le (Nat.not_lt.mp fun hlt => ?_)
  have howned : (s.txDescriptors (Fin.ofNat txDescCount s.transmitted.length)).owned = true :=
    (hs.pending _ hlt (Nat.le_refl _)).1
  rw [hfree] at howned
  cases howned

/-- **In step.** In every run in which only writes of four segments time out: what the DMA has
transmitted is a first part of the segments handed to it, in their order. When no call is under
way and no descriptor is owned, the DMA is at `txIndex` and has transmitted all of them. A write
that began so is refused only if it has more than four segments, and a write that returns `ERR_OK`
or `ERR_IF` has had its segments transmitted, as the last ones. -/
theorem ring_in_step (actions : List Action)
    (hok : Along step (fun s a => ¬TimesOutShort s a) init actions) :
    let s := run step init actions
    s.transmitted <+: s.accepted.map Segment.frame ∧
      ∀ last, s.write = .idle last →
        ((∀ i, (s.txDescriptors i).owned = false) →
          s.position = Fin.ofNat txDescCount s.txIndex ∧
            s.transmitted = s.accepted.map Segment.frame) ∧
        ∀ packet result, last = some (packet, result) →
          (result = .mem → s.startedFree = true → txDescCount < packet.length) ∧
          (result = .timeout → packet <:+ s.accepted) ∧
          (result = .ok ∨ result = .interface →
            packet.map Segment.frame <:+ s.transmitted) := by
  intro s
  have hs : Inv s := keeps inv_step inv_init hok
  have hall (h : s.transmitted.length = s.accepted.length) :
      s.transmitted = s.accepted.map Segment.frame := by
    rw [hs.transmitted, List.take_of_length_le]
    rw [List.length_map]
    exact h.ge
  refine ⟨hs.transmitted ▸ List.take_prefix _ _, fun last hidle => ?_⟩
  have hstage := hs.stage
  rw [hidle] at hstage
  obtain ⟨hindex, -, houtcome⟩ := hstage
  refine ⟨fun hfree => ⟨?_, hall (hs.all hfree)⟩, fun packet result hlast => ?_⟩
  · rw [hs.position, hs.all hfree]
    exact Ring.slot_eq_iff.mpr hindex.symm
  · have houtcome := houtcome packet result hlast
    refine ⟨fun h => ?_, fun h => ?_, fun h => ?_⟩
    · subst h
      exact houtcome
    · subst h
      exact houtcome
    · have hdone : packet = [] ∨
          packet <:+ s.accepted ∧ s.transmitted.length = s.accepted.length := by
        rcases h with rfl | rfl <;> exact houtcome
      rcases hdone with rfl | ⟨hsuffix, hlength⟩
      · exact List.nil_suffix
      · rw [hall hlength]
        exact hsuffix.map Segment.frame

/-- A packet of one segment that the DMA transmits while the write waits. -/
def delivered : List Action :=
  [.call [⟨0x20001000, 60⟩], .write false, .write false, .write false, .write false, .dma 0,
    .write false, .write false, .write false]

theorem ring_in_step_delivered :
    (run step init delivered).transmitted <+:
      (run step init delivered).accepted.map Segment.frame := by
  refine (ring_in_step delivered ?_).1
  exact ⟨id, id, id, id, id, id, id, id, id, trivial⟩

/-- A packet of one segment that the DMA transmits when the write has just given up. -/
def late : List Action :=
  [.call [⟨0x20001000, 60⟩], .write false, .write false, .write false, .write false, .write true,
    .dma 0]

/-- Behind that run no descriptor is owned, the DMA is at descriptor 1 and `txIndex` is 0: the
next packet is written to a descriptor that the DMA does not look at. -/
theorem out_of_step :
    (¬∀ (actions : List Action) (last : Option (List Segment × Err)),
      (run step init actions).write = .idle last →
      (∀ i, ((run step init actions).txDescriptors i).owned = false) →
        (run step init actions).position =
          Fin.ofNat txDescCount (run step init actions).txIndex) ∧
      ((run step init (late ++ delivered)).write = .polling [⟨0x20001000, 60⟩] ∧
        (run step init (late ++ delivered)).transmitted.length = 1) := by
  have hposition : (run step init late).position = 1 := rfl
  have hfree : ∀ i, ((run step init late).txDescriptors i).owned = false := by decide
  refine ⟨fun h => ?_, rfl, rfl⟩
  have hstep := h late (some ([⟨0x20001000, 60⟩], .timeout)) rfl hfree
  rw [hposition] at hstep
  exact absurd hstep (by decide)

end HealthCheck.Ethernetif
