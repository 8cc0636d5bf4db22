import HealthCheck.EthernetTransmit

/-!
# The receive buffers

The receive half of `ethernetif.c`: twelve buffers of a pool, four of them attached to the
descriptors that the DMA fills. `ethernet_Read` gives a filled buffer to the network stack and
attaches another one in its place, if it gets one. Frames, reads and frees come in any order, and
a read is two steps, between which the others come as well.

* `buffers_conserved` — every buffer is at one place, in every run.
-/

namespace HealthCheck.Ethernetif

open Run

/-- `ETH_RX_DESC_COUNT`. -/
def rxDescCount : ℕ := 4

/-- `ETH_RX_BUFFER_COUNT`. -/
def rxBufferCount : ℕ := 12

/-- `ETH_RX_BUFFER_SIZE`. -/
def rxBufferSize : UInt16 := 1536

/-- `RX_FRAME_LEN`. -/
def rxFrameLen : UInt32 := 0x3FFF0000
/-- `RX_ERROR`. -/
def rxError : UInt32 := 0x00008000
/-- `RX_FS`. -/
def rxFs : UInt32 := 0x00000200
/-- `RX_LS`. -/
def rxLs : UInt32 := 0x00000100

/-- `EthernetDescriptor_TypeDef`, the words that `ethernet_Read` uses. A buffer is named by its
element of `RX_POOL`. -/
structure RxDescriptor where
  status : UInt32
  buffer : ℕ
deriving DecidableEq

def RxDescriptor.owned (d : RxDescriptor) : Bool := d.status &&& descOwn ≠ 0

/-- A call of `ethernet_Read` that has allocated, or tried to: the status it has read and its
`replacement`. -/
structure Reading where
  status : UInt32
  replacement : Option ℕ
deriving DecidableEq

/-- The ring, the pool, the packets that were delivered and are not freed, and the call. -/
structure Rx where
  rxDescriptors : List RxDescriptor
  rxIndex : ℕ
  /-- The free elements of `RX_POOL`. -/
  pool : List ℕ
  held : List ℕ
  reading : Option Reading
deriving DecidableEq

/-- `ethernet_AllocateRxBuffer`: the pool gives what it picks, if that is free, or nothing. -/
def allocateRxBuffer (picked : Option ℕ) (pool : List ℕ) : Option ℕ × List ℕ :=
  match picked with
  | some buffer => if buffer ∈ pool then (some buffer, pool.erase buffer) else (none, pool)
  | none => (none, pool)

/-- The first loop of `ethernet_HardwareInit`, with the picks for the descriptors that are left:
their buffers and the pool. -/
def attachBuffers : List (Option ℕ) → List ℕ → Option (List ℕ × List ℕ)
  | [], pool => some ([], pool)
  | picked :: picks, pool =>
    match allocateRxBuffer picked pool with
    | (none, _) => none
    | (some buffer, pool) => (attachBuffers picks pool).map fun r => (buffer :: r.1, r.2)

/-- `ethernet_HardwareInit`, unless it fails. -/
def hardwareInit (picks : Fin rxDescCount → Option ℕ) : Option Rx :=
  (attachBuffers (List.ofFn picks) (List.range rxBufferCount)).map fun (buffers, pool) =>
    ⟨buffers.map fun buffer => ⟨descOwn, buffer⟩, 0, pool, [], none⟩

/-- `ethernet_Read` up to its allocation. -/
def beginRead (picked : Option ℕ) (s : Rx) : Rx :=
  match s.reading, s.rxDescriptors[s.rxIndex]? with
  | none, some descriptor =>
    if descriptor.owned then s
    else
      let (replacement, pool) := allocateRxBuffer picked s.pool
      { s with pool := pool, reading := some ⟨descriptor.status, replacement⟩ }
  | _, _ => s

/-- The frame is whole, without an error, and fits its buffer. -/
def goodFrame (status : UInt32) : Bool :=
  status &&& (rxError ||| rxFs ||| rxLs) = rxFs ||| rxLs &&
    ((status &&& rxFrameLen) >>> 16).toUInt16 ≤ rxBufferSize

/-- The rest of `ethernet_Read`: a good frame is delivered if there is a replacement, else the
replacement is freed. -/
def finishRead (s : Rx) : Rx :=
  match s.reading, s.rxDescriptors[s.rxIndex]? with
  | some ⟨status, replacement⟩, some descriptor =>
    let s := match replacement with
      | some buffer =>
        if goodFrame status then
          { s with
            rxDescriptors := s.rxDescriptors.set s.rxIndex { descriptor with buffer := buffer }
            held := descriptor.buffer :: s.held }
        else { s with pool := buffer :: s.pool }
      | none => s
    { s with
      rxDescriptors := s.rxDescriptors.modify s.rxIndex ({ · with status := descOwn })
      rxIndex := (s.rxIndex + 1) % rxDescCount
      reading := none }
  | _, _ => s

/-- The DMA hands back a descriptor that it owns, with the bits of `status`. -/
def completeFrame (index : ℕ) (status : UInt32) (s : Rx) : Rx :=
  match s.rxDescriptors[index]? with
  | some descriptor =>
    if descriptor.owned then
      { s with
        rxDescriptors :=
          s.rxDescriptors.set index { descriptor with status := status &&& ~~~descOwn } }
    else s
  | none => s

/-- `ethernet_FreeRxBuffer` for a packet that was delivered, when `pbuf_free` drops the last
reference to it. -/
def freePacket (buffer : ℕ) (s : Rx) : Rx :=
  if buffer ∈ s.held then { s with held := s.held.erase buffer, pool := buffer :: s.pool } else s

/-- What can happen next on the receive side. -/
inductive RxAction
  | begin (picked : Option ℕ)
  | finish
  | complete (index : ℕ) (status : UInt32)
  | free (buffer : ℕ)
deriving DecidableEq

def rxStep (s : Rx) : RxAction → Rx
  | .begin picked => beginRead picked s
  | .finish => finishRead s
  | .complete index status => completeFrame index status s
  | .free buffer => freePacket buffer s

/-! ## Where the buffers are -/

/-- The buffers of the descriptors. -/
def Rx.attached (s : Rx) : List ℕ := s.rxDescriptors.map RxDescriptor.buffer

/-- The replacement of the call. -/
def Rx.inHand (s : Rx) : List ℕ :=
  match s.reading with
  | some r => r.replacement.toList
  | none => []

/-- Every buffer is at one place: at a descriptor, with the network stack, with the call, or in
the pool. -/
structure Conserved (s : Rx) : Prop where
  ring : s.rxDescriptors.length = rxDescCount
  index : s.rxIndex < rxDescCount
  places : (s.attached ++ s.held ++ s.inHand ++ s.pool).Perm (List.range rxBufferCount)

theorem allocateRxBuffer_perm (picked : Option ℕ) (pool : List ℕ) :
    ((allocateRxBuffer picked pool).1.toList ++ (allocateRxBuffer picked pool).2).Perm pool := by
  unfold allocateRxBuffer
  cases picked with
  | none => exact .refl _
  | some buffer =>
    by_cases hfree : buffer ∈ pool
    · simp only [if_pos hfree]
      exact (List.perm_cons_erase hfree).symm
    · simp only [if_neg hfree]
      exact .refl _

theorem attachBuffers_spec {picks : List (Option ℕ)} {pool buffers pool' : List ℕ}
    (h : attachBuffers picks pool = some (buffers, pool')) :
    buffers.length = picks.length ∧ (buffers ++ pool').Perm pool := by
  induction picks generalizing pool buffers with
  | nil =>
    cases h
    exact ⟨rfl, .refl _⟩
  | cons picked picks ih =>
    have hperm := allocateRxBuffer_perm picked pool
    unfold attachBuffers at h
    split at h
    · cases h
    · rename_i buffer rest hallocate
      rw [hallocate] at hperm
      obtain ⟨⟨others, left⟩, hothers, hcons⟩ := Option.map_eq_some_iff.1 h
      obtain ⟨rfl, rfl⟩ := Prod.mk.inj hcons
      obtain ⟨hlength, hrest⟩ := ih hothers
      exact ⟨congrArg (· + 1) hlength, (hrest.cons buffer).trans hperm⟩

theorem attached_set {ring : List RxDescriptor} {i : ℕ} {d d' : RxDescriptor}
    (h : ring[i]? = some d) (hbuffer : d'.buffer = d.buffer) :
    (ring.set i d').map RxDescriptor.buffer = ring.map RxDescriptor.buffer := by
  rw [List.map_set, hbuffer]
  refine List.ext_getElem? fun j => ?_
  rw [List.getElem?_set]
  split
  · rename_i hij
    subst hij
    obtain ⟨hi, hd⟩ := List.getElem?_eq_some_iff.1 h
    simp [hi, hd]
  · rfl

/-- Writing a status word moves no buffer. -/
theorem attached_modify (ring : List RxDescriptor) (i : ℕ) (status : UInt32) :
    (ring.modify i ({ · with status := status })).map RxDescriptor.buffer =
      ring.map RxDescriptor.buffer := by
  induction ring generalizing i with
  | nil => rw [List.modify_nil]
  | cons d ring ih =>
    cases i with
    | zero => rfl
    | succ i => rw [List.modify_succ_cons, List.map_cons, List.map_cons, ih]

/-- An exchanged element is somewhere else. -/
theorem exchange_perm {l : List ℕ} {i a : ℕ} (b : ℕ) (h : l[i]? = some a) :
    (a :: l.set i b).Perm (b :: l) := by
  induction l generalizing i with
  | nil => cases h
  | cons c l ih =>
    cases i with
    | zero =>
      cases h
      exact .swap b _ l
    | succ i => exact (List.Perm.swap c a _).trans (((ih h).cons c).trans (.swap b c l))

/-! ## The steps -/

theorem conserved_begin {s : Rx} (h : Conserved s) (picked : Option ℕ) :
    Conserved (beginRead picked s) := by
  unfold beginRead
  split
  · rename_i descriptor hreading hdescriptor
    split
    · exact h
    · refine ⟨h.ring, h.index, ?_⟩
      have hempty : s.inHand = [] := by rw [Rx.inHand, hreading]
      have hplaces := h.places
      rw [hempty, List.append_nil] at hplaces
      show (s.attached ++ s.held ++ (allocateRxBuffer picked s.pool).1.toList ++
        (allocateRxBuffer picked s.pool).2).Perm _
      rw [List.append_assoc]
      exact ((allocateRxBuffer_perm picked s.pool).append_left _).trans hplaces
  · exact h

theorem conserved_finish {s : Rx} (h : Conserved s) : Conserved (finishRead s) := by
  unfold finishRead
  split
  swap
  · exact h
  rename_i status replacement descriptor hreading hdescriptor
  have hplaces := h.places
  rw [Rx.inHand, hreading] at hplaces
  have hindex : (s.rxIndex + 1) % rxDescCount < rxDescCount :=
    Nat.mod_lt _ (show 0 < rxDescCount by decide)
  cases replacement with
  | none =>
    refine ⟨(List.length_modify ..).trans h.ring, hindex, ?_⟩
    rw [Rx.attached, attached_modify]
    exact hplaces
  | some buffer =>
    change (s.attached ++ s.held ++ [buffer] ++ s.pool).Perm _ at hplaces
    cases hgood : goodFrame status with
    | false =>
      refine ⟨(List.length_modify ..).trans h.ring, hindex, ?_⟩
      rw [Rx.attached, attached_modify]
      show (s.attached ++ s.held ++ [] ++ buffer :: s.pool).Perm _
      rw [List.append_nil]
      rw [List.append_assoc _ _ s.pool] at hplaces
      exact hplaces
    | true =>
      refine ⟨?_, hindex, ?_⟩
      · show ((s.rxDescriptors.set _ _).modify _ _).length = _
        rw [List.length_modify, List.length_set]
        exact h.ring
      -- the delivered buffer and the replacement change places
      have hold : s.attached[s.rxIndex]? = some descriptor.buffer := by
        rw [Rx.attached, List.getElem?_map, hdescriptor]
        rfl
      have hexchange := exchange_perm buffer hold
      show (((s.rxDescriptors.set s.rxIndex { descriptor with buffer := buffer }).modify _ _).map _ ++
        descriptor.buffer :: s.held ++ [] ++ s.pool).Perm _
      rw [attached_modify, List.map_set, List.append_nil, List.append_assoc]
      refine List.perm_middle.trans ?_
      refine (hexchange.append_right (s.held ++ s.pool)).trans ?_
      refine List.Perm.trans ?_ hplaces
      rw [List.append_assoc _ [buffer], ← List.append_assoc]
      exact List.perm_middle.symm

theorem conserved_complete {s : Rx} (h : Conserved s) (index : ℕ) (status : UInt32) :
    Conserved (completeFrame index status s) := by
  unfold completeFrame
  split
  · rename_i descriptor hdescriptor
    split
    · refine ⟨(List.length_set ..).trans h.ring, h.index, ?_⟩
      have hattached : (s.rxDescriptors.set index
          { descriptor with status := status &&& ~~~descOwn }).map RxDescriptor.buffer =
            s.attached := attached_set hdescriptor rfl
      rw [Rx.attached, hattached]
      exact h.places
    · exact h
  · exact h

theorem conserved_free {s : Rx} (h : Conserved s) (buffer : ℕ) :
    Conserved (freePacket buffer s) := by
  unfold freePacket
  split
  · rename_i hheld
    refine ⟨h.ring, h.index, ?_⟩
    have hplaces := h.places
    have hmoved : (s.attached ++ s.held.erase buffer ++ s.inHand ++ buffer :: s.pool).Perm
        (s.attached ++ s.held ++ s.inHand ++ s.pool) := by
      refine List.perm_middle.trans ?_
      rw [List.append_assoc, List.append_assoc, List.append_assoc, List.append_assoc]
      refine List.perm_middle.symm.trans (List.Perm.append_left _ ?_)
      exact (List.perm_cons_erase hheld).symm.append_right _
    exact hmoved.trans hplaces
  · exact h

theorem conserved_step {s : Rx} (h : Conserved s) (a : RxAction) : Conserved (rxStep s a) := by
  cases a with
  | begin picked => exact conserved_begin h picked
  | finish => exact conserved_finish h
  | complete index status => exact conserved_complete h index status
  | free buffer => exact conserved_free h buffer

theorem conserved_init {picks : Fin rxDescCount → Option ℕ} {s : Rx}
    (h : hardwareInit picks = some s) : Conserved s := by
  obtain ⟨⟨buffers, pool⟩, hattach, rfl⟩ := Option.map_eq_some_iff.1 h
  obtain ⟨hlength, hperm⟩ := attachBuffers_spec hattach
  refine ⟨?_, show 0 < rxDescCount by decide, ?_⟩
  · show (buffers.map _).length = _
    rw [List.length_map, hlength, List.length_ofFn]
  · show ((buffers.map _).map RxDescriptor.buffer ++ [] ++ [] ++ pool).Perm _
    rw [List.map_map, List.append_nil, List.append_nil]
    exact (List.map_id buffers).symm ▸ hperm

/-- **No receive buffer is lost or at two places.** Behind a start that succeeds, in every run of
frames, reads and frees, with whatever the pool gives: the twelve buffers are those of the four
descriptors, the ones the network stack holds, the one a call has in its hand, and the free ones,
each of them once. -/
theorem buffers_conserved {picks : Fin rxDescCount → Option ℕ} {s : Rx}
    (h : hardwareInit picks = some s) (actions : List RxAction) :
    let s' := run rxStep s actions
    s'.attached.length = 4 ∧
      (s'.attached ++ s'.held ++ s'.inHand ++ s'.pool).Perm (List.range 12) ∧
      (s'.reading = none → s'.inHand = []) ∧
      ∀ buffer ∈ s'.held, buffer ∉ s'.attached ∧ buffer ∉ s'.pool := by
  intro s'
  have hconserved : Conserved (run rxStep s actions) :=
    @invariant _ _ rxStep Conserved (fun _ a hs => conserved_step hs a) _ (conserved_init h) actions
  have hnodup := hconserved.places.nodup_iff.2 List.nodup_range
  refine ⟨?_, hconserved.places, fun hreading => ?_, fun buffer hheld => ⟨?_, ?_⟩⟩
  · rw [Rx.attached, List.length_map]
    exact hconserved.ring
  · rw [Rx.inHand, hreading]
  · intro hattached
    rw [List.append_assoc, List.append_assoc] at hnodup
    exact (List.nodup_append.1 hnodup).2.2 _ hattached _ (List.mem_append_left _ hheld) rfl
  · intro hpool
    exact (List.nodup_append.1 hnodup).2.2 _ (List.mem_append_left _
      (List.mem_append_right _ hheld)) _ hpool rfl

/-- A good frame is delivered, and its buffer is freed. -/
theorem buffers_conserved_frame : ∃ s, hardwareInit (fun i => some i) = some s ∧
    let s' := run rxStep s [.complete 0 0x00400300, .begin (some 7), .finish, .free 0]
    s'.attached = [7, 1, 2, 3] ∧
      (s'.attached ++ s'.held ++ s'.inHand ++ s'.pool).Perm (List.range 12) := by
  have hinit : (hardwareInit fun i => some i).isSome = true := by decide
  obtain ⟨s, hs⟩ := Option.isSome_iff_exists.1 hinit
  refine ⟨s, hs, ?_, (buffers_conserved hs _).2.1⟩
  have hattached : ((hardwareInit fun i => some i).map fun s => (run rxStep s
      [.complete 0 0x00400300, .begin (some 7), .finish, .free 0]).attached) =
        some [7, 1, 2, 3] := by decide
  rw [hs] at hattached
  exact Option.some.inj hattached

end HealthCheck.Ethernetif
