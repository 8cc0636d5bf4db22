import HealthCheck.TlsTrustStoreProof

/-!
# The trust store as a map from ids to certificates

What callers see of `tls_trust_store.c`: `Exists`, `List` and `Parse` show a partial map from the
ids 0 to 3 to certificates (`Shows`), and each operation has an effect on that map alone
(`Op.effect`). `apply_ok` is the step of this refinement.

`persists` — over runs in which power losses are all that happens, a start-up shows the map of the
operations that reported success, or that map with the interrupted operation in full.
-/

namespace HealthCheck.TlsTrustStore

open Nor hiding read driven_read read_ok read_cases
open CString FlashLayout Memory TwoBank W25q64

/-! ## Maps -/

/-- A certificate as it is shown: its bytes and the text of its subject. -/
structure Certificate where
  der : Bytes
  subject : Bytes
deriving DecidableEq

/-- Which certificate an id stands for. -/
abbrev Anchors := ℕ → Option Certificate

/-- The entry of a certificate in the list. -/
def info (id : ℕ) (c : Certificate) : Info :=
  ⟨id, UInt16.ofNat c.der.length, c.subject.take (subjectSize - 1)⟩

/-- What `List` is to show. -/
def listing (m : Anchors) (capacity : ℕ) : List Info :=
  ((List.range maxAnchors).filterMap fun id => (m id).map (info id)).take capacity

/-- What `Parse` is to make of a certificate. -/
def parsed {Crt : Type} (crtParse : Bytes → Option Crt) : Option Certificate →
    TrustStatus × Option Crt
  | none => (.notFound, none)
  | some c =>
    match crtParse c.der with
    | some certificate => (.ok, some certificate)
    | none => (.invalidCertificate, none)

/-- The device shows `m`. -/
structure Shows (m : Anchors) (ram : Ram) : Prop where
  exists_eq : ∀ id, anchorExists id ram = (m id).isSome
  list_eq : ∀ capacity, list capacity ram = listing m capacity
  parse_eq : ∀ {Crt : Type} (crtParse : Bytes → Option Crt) (id : ℕ),
    parse crtParse id ram = parsed crtParse (m id)

/-- The certificate of a DER image that passes validation. -/
def certificate (der : Bytes) (mbed : MbedResults) : Option Certificate :=
  match validateDer der mbed with
  | .ok _ => some ⟨der, cstr (mbed.subject.take mbed.subjectLength.toNat)⟩
  | .error _ => none

def lowestFree (m : Anchors) : Option ℕ := (List.range maxAnchors).find? fun id => (m id).isNone

/-- What an operation does to the map. -/
def Op.effect : Op → Anchors → Anchors
  | .add der mbed, m =>
    match lowestFree m, certificate der mbed with
    | some id, some c => Function.update m id (some c)
    | _, _ => m
  | .replace id der mbed, m =>
    match m id, certificate der mbed with
    | some _, some c => Function.update m id (some c)
    | _, _ => m
  | .delete id, m => Function.update m id none
  | .reset, _ => fun _ => none

/-! ## The map in a snapshot -/

/-- The certificate in a slot. -/
def Anchor.certificate (a : Anchor) : Option Certificate :=
  if a.occupied = 0 then none
  else some ⟨a.der.toList.take a.derLength.toNat, cstr a.subject.toList⟩

/-- The map a snapshot holds. -/
def anchors (s : Snapshot) : Anchors := fun id => s.anchors[id]?.bind Anchor.certificate

theorem certificate_eq_none {a : Anchor} : a.certificate = none ↔ a.occupied = 0 := by
  unfold Anchor.certificate
  split <;> simp [*]

theorem isSome_certificate (a : Anchor) : a.certificate.isSome = decide (a.occupied ≠ 0) := by
  unfold Anchor.certificate
  split <;> simp [*]

theorem anchors_eq_none {s : Snapshot} {id : ℕ} :
    anchors s id = none ↔ ∀ a, s.anchors[id]? = some a → a.occupied = 0 := by
  simp only [anchors, Option.bind_eq_none_iff, certificate_eq_none]

theorem anchorExists_eq (id : ℕ) (ram : Ram) :
    anchorExists id ram = (anchors ram.snapshot id).isSome := by
  unfold anchorExists anchors
  cases h : ram.snapshot.anchors[id]? with
  | none => rfl
  | some a =>
    rw [Option.bind_some, isSome_certificate]

/-- A walk over the elements of a list with their indices. -/
theorem filterMap_zipIdx {α β γ : Type} (l : List α) (f : α → Option β) (g : ℕ → β → γ) :
    (l.zipIdx.filterMap fun x => (f x.1).map (g x.2)) =
      (List.range l.length).filterMap fun i => (l[i]?.bind f).map (g i) := by
  induction l using List.reverseRecOn with
  | nil => rfl
  | append_singleton l a ih =>
    have hfront : ((List.range l.length).filterMap fun i => ((l ++ [a])[i]?.bind f).map (g i)) =
        (List.range l.length).filterMap fun i => (l[i]?.bind f).map (g i) :=
      List.filterMap_congr fun i hi => by
        rw [List.getElem?_append_left (List.mem_range.1 hi)]
    rw [List.zipIdx_append, List.filterMap_append, ih, List.length_append, List.length_singleton,
      List.range_succ, List.filterMap_append, hfront]
    simp [List.filterMap_cons]

theorem length_der {a : Anchor} (h : a.wellFormed = true) (hoccupied : a.occupied ≠ 0) :
    (a.der.toList.take a.derLength.toNat).length = a.derLength.toNat := by
  simp only [Anchor.wellFormed, hoccupied, decide_false, Bool.false_or, Bool.and_eq_true,
    decide_eq_true_eq] at h
  rw [List.length_take, Vector.length_toList]
  exact Nat.min_eq_left h.1.2

/-- A device with a well-formed snapshot shows its map. -/
theorem shows_anchors {ram : Ram}
    (h : ram.snapshot.anchors.toList.all Anchor.wellFormed = true) :
    Shows (anchors ram.snapshot) ram where
  exists_eq id := anchorExists_eq id ram
  list_eq capacity := by
    have hslots : ∀ x ∈ ram.snapshot.anchors.toList.zipIdx,
        (if x.1.occupied = 0 then none
          else some (⟨x.2, x.1.derLength, (cstr x.1.subject.toList).take (subjectSize - 1)⟩ : Info))
        = x.1.certificate.map (info x.2) := by
      intro x hx
      have hwell := List.all_eq_true.1 h x.1 (List.fst_mem_of_mem_zipIdx hx)
      unfold Anchor.certificate
      split
      · rfl
      · rename_i hoccupied
        rw [Option.map_some, info, length_der hwell hoccupied, UInt16.ofNat_toNat]
    show (List.filterMap _ _).take capacity = _
    rw [List.filterMap_congr hslots, filterMap_zipIdx _ Anchor.certificate info,
      Vector.length_toList]
    simp only [Vector.getElem?_toList]
    rfl
  parse_eq crtParse id := by
    unfold parse parsed anchors Anchor.certificate
    cases h : ram.snapshot.anchors[id]? with
    | none => rfl
    | some a =>
      by_cases hoccupied : a.occupied = 0
      · simp [hoccupied]
      · cases hparse : crtParse (a.der.toList.take a.derLength.toNat) <;>
          simp [hoccupied, hparse]

/-! ## Operations and their effects -/

theorem validateDer_error {der : Bytes} {mbed : MbedResults} {s : TrustStatus}
    (h : validateDer der mbed = .error s) : s ≠ .ok := by
  unfold validateDer at h
  split_ifs at h <;> cases h <;> decide

theorem validateDer_ok {der : Bytes} {mbed : MbedResults} {a : Anchor}
    (h : validateDer der mbed = .ok a) :
    a.wellFormed = true ∧ a.certificate = TlsTrustStore.certificate der mbed ∧
      a.occupied ≠ 0 := by
  have hcertificate : TlsTrustStore.certificate der mbed =
      some ⟨der, cstr (mbed.subject.take mbed.subjectLength.toNat)⟩ := by
    rw [TlsTrustStore.certificate, h]
  rw [hcertificate]
  unfold validateDer at h
  split_ifs at h with hlength
  cases h
  have hlen : 0 < der.length ∧ der.length ≤ maxDerSize := by omega
  have hsize : (mbed.subject.take mbed.subjectLength.toNat).length < subjectSize := by
    rw [List.length_take]
    unfold subjectSize at *
    omega
  have hderLength : (UInt16.ofNat der.length).toNat = der.length := by
    rw [UInt16.toNat_ofNat']
    exact Nat.mod_eq_of_lt (hlen.2.trans_lt (by decide))
  have hne : UInt16.ofNat der.length ≠ 0 := by
    intro h
    rw [h] at hderLength
    exact absurd hderLength.symm hlen.1.ne'
  have hoccupied : (1 : UInt8) ≠ 0 := by decide
  refine ⟨?_, ?_, hoccupied⟩
  · have hzero : (0 : UInt8) ∈
        (byteArray subjectSize (mbed.subject.take mbed.subjectLength.toNat ++ [0])).toList :=
      zero_mem_byteArray hsize
    simp only [Anchor.wellFormed, hderLength, hne, hlen.2, ne_eq, not_false_eq_true, decide_true,
      Bool.true_and, List.contains_iff_mem.2 hzero, Bool.or_true]
  · have hder : (byteArray maxDerSize der).toList.take der.length = der := by
      rw [toList_byteArray hlen.2, List.take_left]
    rw [Anchor.certificate, if_neg hoccupied]
    simp only [hderLength, hder, cstr_byteArray hsize]

theorem anchors_setAnchor (ram : Ram) {id : ℕ} (hid : id < maxAnchors) (a : Anchor) :
    anchors (ram.setAnchor id a).snapshot =
      Function.update (anchors ram.snapshot) id a.certificate := by
  funext j
  unfold anchors Ram.setAnchor
  by_cases hj : j = id
  · subst hj
    rw [Function.update_self]
    simp [hid]
  · rw [Function.update_of_ne hj]
    simp [Ne.symm hj]

theorem lowestFree_eq {ram : Ram} {id : ℕ}
    (h : ram.snapshot.anchors.toList.findIdx? (·.occupied = 0) = some id) :
    lowestFree (anchors ram.snapshot) = some id ∧ id < maxAnchors := by
  obtain ⟨hid, hfree, hbelow⟩ := List.findIdx?_eq_some_iff_getElem.1 h
  rw [Vector.length_toList] at hid
  have hslot : ∀ j (hj : j < maxAnchors), (anchors ram.snapshot j).isNone =
      decide (ram.snapshot.anchors[j].occupied = 0) := by
    intro j hj
    rw [anchors, Vector.getElem?_eq_getElem hj, Option.bind_some, ← Option.not_isSome,
      isSome_certificate]
    simp
  refine ⟨List.find?_range_eq_some.2 ⟨?_, List.mem_range.2 hid, fun j hj => ?_⟩, hid⟩
  · rw [hslot id hid]
    simpa using hfree
  · rw [hslot j (hj.trans hid)]
    simpa using hbelow j hj

theorem occupied_of_exists {id : ℕ} {ram : Ram} (h : anchorExists id ram = true) :
    id < maxAnchors ∧ (anchors ram.snapshot id).isSome = true := by
  refine ⟨?_, (anchorExists_eq id ram).symm.trans h⟩
  by_contra hid
  rw [anchorExists, Vector.getElem?_eq_none (Nat.le_of_not_lt hid)] at h
  cases h

/-- What an operation hands to `commitCandidate`, or the status that refuses it. -/
def candidate : Op → Ram → Except TrustStatus Ram
  | .add der mbed, ram =>
    match ram.snapshot.anchors.toList.findIdx? (·.occupied = 0) with
    | none => .error .full
    | some index => (validateDer der mbed).map (ram.setAnchor index)
  | .replace id der mbed, ram =>
    if anchorExists id ram then (validateDer der mbed).map (ram.setAnchor id)
    else .error .notFound
  | .delete id, ram =>
    if anchorExists id ram then .ok (ram.setAnchor id zeroAnchor) else .error .notFound
  | .reset, ram =>
    .ok { ram with snapshot := { zero with generation := ram.snapshot.generation } }

theorem refused {op : Op} {ram : Ram} {s : TrustStatus} (h : candidate op ram = .error s) :
    s ≠ .ok := by
  have hvalidate : ∀ {der mbed f}, (validateDer der mbed).map f = (.error s : Except _ Ram) →
      s ≠ .ok := by
    intro der mbed f h
    cases hv : validateDer der mbed with
    | error s' =>
      rw [hv] at h
      cases h
      exact validateDer_error hv
    | ok a =>
      rw [hv] at h
      cases h
  cases op with
  | add der mbed =>
    simp only [candidate] at h
    split at h
    · cases h
      decide
    · exact hvalidate h
  | replace id der mbed =>
    simp only [candidate] at h
    split at h
    · exact hvalidate h
    · cases h
      decide
  | delete id =>
    simp only [candidate] at h
    split at h <;> cases h
    decide
  | reset => cases h

/-- An operation commits its candidate or is refused. -/
theorem apply_eq (op : Op) (ram : Ram) : apply op ram =
    match candidate op ram with
    | .ok ram' => commitCandidate ram'
    | .error s => pure (s, ram) := by
  cases op with
  | add der mbed =>
    simp only [apply, add, candidate]
    cases ram.snapshot.anchors.toList.findIdx? (·.occupied = 0) with
    | none => rfl
    | some index =>
      cases validateDer der mbed with
      | error s => rfl
      | ok a =>
        simp only [bind_assoc, pure_bind]
        exact bind_pure _
  | replace id der mbed =>
    simp only [apply, replace, candidate]
    cases anchorExists id ram with
    | false => rfl
    | true =>
      cases validateDer der mbed with
      | error s => rfl
      | ok a => rfl
  | delete id =>
    simp only [apply, delete, candidate]
    cases anchorExists id ram <;> rfl
  | reset => rfl

theorem all_setAnchor {ram : Ram} {a : Anchor} (id : ℕ)
    (h : ram.snapshot.anchors.toList.all Anchor.wellFormed = true) (ha : a.wellFormed = true) :
    (ram.setAnchor id a).snapshot.anchors.toList.all Anchor.wellFormed = true := by
  refine List.all_eq_true.2 fun b hb => ?_
  obtain ⟨j, hj⟩ := List.mem_iff_getElem?.1 hb
  rw [Vector.getElem?_toList, Ram.setAnchor, Vector.getElem?_setIfInBounds] at hj
  split_ifs at hj
  · cases hj
    exact ha
  · exact List.all_eq_true.1 h b (List.mem_of_getElem? ((Vector.getElem?_toList ..).trans hj))

/-- **A candidate holds the effect of its operation.** -/
theorem candidate_ok {op : Op} {ram ram' : Ram} (h : candidate op ram = .ok ram') :
    ram'.active = ram.active ∧
      anchors ram'.snapshot = op.effect (anchors ram.snapshot) ∧
      (ram.snapshot.anchors.toList.all Anchor.wellFormed = true →
        ram'.snapshot.anchors.toList.all Anchor.wellFormed = true) := by
  have hvalidate : ∀ {der mbed id}, (validateDer der mbed).map (ram.setAnchor id) = .ok ram' →
      ∃ a, ram' = ram.setAnchor id a ∧ a.wellFormed = true ∧
        a.certificate = certificate der mbed ∧ a.occupied ≠ 0 := by
    intro der mbed id h
    cases hv : validateDer der mbed with
    | error s =>
      rw [hv] at h
      cases h
    | ok a =>
      rw [hv] at h
      cases h
      exact ⟨a, rfl, validateDer_ok hv⟩
  have hsome : ∀ {a : Anchor}, a.occupied ≠ 0 → ∃ c, a.certificate = some c := fun ha =>
    Option.isSome_iff_exists.1 ((isSome_certificate _).trans (decide_eq_true ha))
  cases op with
  | add der mbed =>
    simp only [candidate] at h
    split at h
    · cases h
    · rename_i index hindex
      obtain ⟨a, rfl, hwell, hcertificate, hoccupied⟩ := hvalidate h
      obtain ⟨hfree, hlt⟩ := lowestFree_eq hindex
      obtain ⟨c, hc⟩ := hsome hoccupied
      refine ⟨rfl, ?_, fun hall => all_setAnchor index hall hwell⟩
      rw [anchors_setAnchor ram hlt, hc]
      simp only [Op.effect, hfree, ← hcertificate, hc]
  | replace id der mbed =>
    simp only [candidate] at h
    split at h
    · rename_i hexists
      obtain ⟨a, rfl, hwell, hcertificate, hoccupied⟩ := hvalidate h
      obtain ⟨hlt, hsome'⟩ := occupied_of_exists hexists
      obtain ⟨old, hold⟩ := Option.isSome_iff_exists.1 hsome'
      obtain ⟨c, hc⟩ := hsome hoccupied
      refine ⟨rfl, ?_, fun hall => all_setAnchor id hall hwell⟩
      rw [anchors_setAnchor ram hlt, hc]
      simp only [Op.effect, hold, ← hcertificate, hc]
    · cases h
  | delete id =>
    simp only [candidate] at h
    split at h
    · rename_i hexists
      cases h
      refine ⟨rfl, ?_, fun hall => all_setAnchor id hall wellFormed_zero⟩
      rw [anchors_setAnchor ram (occupied_of_exists hexists).1]
      rfl
    · cases h
  | reset =>
    cases h
    refine ⟨rfl, ?_, fun _ => ?_⟩
    · funext id
      refine anchors_eq_none.2 fun a ha => ?_
      have hmem := List.mem_of_getElem? ((Vector.getElem?_toList ..).trans ha)
      rw [zero, Vector.toList_replicate] at hmem
      rw [List.eq_of_mem_replicate hmem]
      rfl
    · show (Vector.replicate maxAnchors zeroAnchor).toList.all Anchor.wellFormed = true
      rw [Vector.toList_replicate]
      exact List.all_eq_true.2 fun a ha => List.eq_of_mem_replicate ha ▸ wellFormed_zero

theorem all_wellFormed {s : Snapshot} (h : isSnapshotValid s = true) :
    s.anchors.toList.all Anchor.wellFormed = true := by
  simp only [isSnapshotValid, Bool.and_eq_true] at h
  exact h.2

/-- **The step of the refinement**: an operation that reports success has had its effect. -/
theorem apply_ok {op : Op} {ram ram' : Ram} {c c' : Chip}
    (h : apply op ram c = (some (.ok, ram'), c')) :
    anchors ram'.snapshot = op.effect (anchors ram.snapshot) ∧
      isSnapshotValid ram'.snapshot = true ∧ load c'.cells ram'.active = ram'.snapshot := by
  rw [apply_eq] at h
  cases hc : candidate op ram with
  | error s =>
    rw [hc] at h
    simp only [pure_apply, Prod.mk.injEq, Option.some.injEq] at h
    exact absurd h.1.1 (refused hc)
  | ok ram₁ =>
    rw [hc] at h
    obtain ⟨-, heffect, -⟩ := candidate_ok hc
    rcases commit_cases h with ⟨-, rfl, hvalid, hload⟩ | ⟨hne, -⟩
    · exact ⟨heffect, hvalid, hload⟩
    · exact absurd rfl hne

theorem exec_eq_some {op : Op} {ram ram' : Ram} {ok : Bool} {c c' : Chip}
    (h : exec op ram c = (some (ok, ram'), c')) :
    ∃ s, apply op ram c = (some (s, ram'), c') ∧ ok = decide (s = .ok) := by
  obtain ⟨⟨s, r⟩, c₁, h₁, h₂⟩ := bind_eq_some.1 h
  simp only [pure_apply, Prod.mk.injEq, Option.some.injEq] at h₂
  obtain ⟨⟨rfl, rfl⟩, rfl⟩ := h₂
  exact ⟨s, h₁, rfl⟩

/-- An operation that power interrupts would have had its effect. -/
theorem complete_interrupted {op : Op} {ram : Ram} {c c' : Chip}
    (hvalid : isSnapshotValid ram.snapshot = true) (h : exec op ram c = (none, c')) :
    ∃ s, complete (S := store) op ram c.cells = some s ∧
      anchors s = op.effect (anchors ram.snapshot) := by
  have hrun : apply op ram c = (none, c') := by
    rcases bind_eq_none.1 h with h | ⟨_, _, _, h⟩
    · exact h
    · simp at h
  rw [apply_eq] at hrun
  cases hc : candidate op ram with
  | error s =>
    rw [hc] at hrun
    simp at hrun
  | ok ram₁ =>
    obtain ⟨-, -, hwell⟩ := candidate_ok hc
    obtain ⟨s, ram', d, hs, -, hok⟩ := commit_calm ram₁ c.cells []
    obtain rfl : s = .ok := by
      rw [hok, isSnapshotValid_stamp]
      exact hwell (all_wellFormed hvalid)
    have hcalm : apply op ram ⟨c.cells, {}, []⟩ = (some (.ok, ram'), d) := by
      rw [apply_eq, hc]
      exact hs
    have hexec : exec op ram ⟨c.cells, {}, []⟩ = (some (true, ram'), d) :=
      bind_eq_some.2 ⟨_, _, hcalm, rfl⟩
    exact ⟨ram'.snapshot, congrArg (fun r => r.1.map fun r => r.2.snapshot) hexec,
      (apply_ok hcalm).1⟩

/-- What the operations of a device that shows `m` do when they report success. -/
structure Serves (m : Anchors) (ram : Ram) (cells : Cells) : Prop where
  shows : Shows m ram
  /-- `Add` takes the lowest free id. -/
  add : ∀ der mbed fates id ram' c,
    TlsTrustStore.add der mbed ram ⟨cells, fates, []⟩ = (some ((.ok, some id), ram'), c) →
    id < maxAnchors ∧ m id = none ∧ (∀ j < id, m j ≠ none) ∧
      ∃ x, certificate der mbed = some x ∧ Shows (Function.update m id (some x)) ram'
  replace : ∀ id der mbed fates ram' c,
    TlsTrustStore.replace id der mbed ram ⟨cells, fates, []⟩ = (some (.ok, ram'), c) →
    ∃ x, certificate der mbed = some x ∧ Shows (Function.update m id (some x)) ram'
  delete : ∀ id fates ram' c,
    TlsTrustStore.delete id ram ⟨cells, fates, []⟩ = (some (.ok, ram'), c) →
    Shows (Function.update m id none) ram'
  reset : ∀ fates ram' c,
    TlsTrustStore.reset ram ⟨cells, fates, []⟩ = (some (.ok, ram'), c) →
    Shows (fun _ => none) ram'

theorem serves_anchors {ram : Ram} (hvalid : isSnapshotValid ram.snapshot = true)
    (cells : Cells) : Serves (anchors ram.snapshot) ram cells := by
  have hshows : ∀ {op fates ram' c}, apply op ram ⟨cells, fates, []⟩ = (some (.ok, ram'), c) →
      Shows (op.effect (anchors ram.snapshot)) ram' := by
    intro op fates ram' c h
    obtain ⟨heffect, hvalid', -⟩ := apply_ok h
    exact heffect ▸ shows_anchors (all_wellFormed hvalid')
  refine ⟨shows_anchors (all_wellFormed hvalid), ?_, ?_, ?_, ?_⟩
  · intro der mbed fates id ram' c h
    have hrun : apply (.add der mbed) ram ⟨cells, fates, []⟩ = (some (.ok, ram'), c) :=
      bind_eq_some.2 ⟨_, _, h, rfl⟩
    have hafter := hshows hrun
    simp only [TlsTrustStore.add] at h
    cases hindex : ram.snapshot.anchors.toList.findIdx? (·.occupied = 0) with
    | none =>
      rw [hindex] at h
      simp at h
    | some index =>
      cases hvalidate : validateDer der mbed with
      | error s =>
        rw [hindex, hvalidate] at h
        simp at h
      | ok a =>
        rw [hindex, hvalidate] at h
        obtain ⟨⟨s, r⟩, c₁, -, hret⟩ := bind_eq_some.1 h
        simp only [pure_apply, Prod.mk.injEq, Option.some.injEq] at hret
        obtain ⟨⟨⟨rfl, hid⟩, rfl⟩, rfl⟩ := hret
        obtain rfl : index = id := by simpa using hid
        obtain ⟨hfree, hlt⟩ := lowestFree_eq hindex
        obtain ⟨hnone, -, hbelow⟩ := List.find?_range_eq_some.1 hfree
        refine ⟨hlt, Option.isNone_iff_eq_none.1 hnone, fun j hj hj' => ?_, ?_⟩
        · have := hbelow j hj
          rw [hj'] at this
          cases this
        · have hx : certificate der mbed =
              some ⟨der, cstr (mbed.subject.take mbed.subjectLength.toNat)⟩ := by
            rw [certificate, hvalidate]
          refine ⟨_, hx, ?_⟩
          simpa only [Op.effect, hfree, hx] using hafter
  · intro id der mbed fates ram' c h
    have hafter := @hshows (.replace id der mbed) _ _ _ h
    simp only [TlsTrustStore.replace] at h
    cases hexists : anchorExists id ram with
    | false =>
      rw [hexists] at h
      simp at h
    | true =>
      obtain ⟨old, hold⟩ := Option.isSome_iff_exists.1 (occupied_of_exists hexists).2
      cases hvalidate : validateDer der mbed with
      | error s =>
        rw [hexists, hvalidate] at h
        simp only [Bool.not_true, Bool.false_eq_true, if_false, pure_apply, Prod.mk.injEq,
          Option.some.injEq] at h
        exact absurd h.1.1 (validateDer_error hvalidate)
      | ok a =>
        have hx : certificate der mbed =
            some ⟨der, cstr (mbed.subject.take mbed.subjectLength.toNat)⟩ := by
          rw [certificate, hvalidate]
        refine ⟨_, hx, ?_⟩
        simpa only [Op.effect, hold, hx] using hafter
  · exact fun id fates ram' c h => @hshows (.delete id) _ _ _ h
  · exact fun fates ram' c h => @hshows .reset _ _ _ h

/-! ## Runs with power losses -/

/-- The map the operations that reported success have produced, and the same with the operation
that power has interrupted since. -/
structure Account where
  done : Anchors
  cut : Option Anchors

/-- Before the first operation there is the compiled default. -/
def Account.start : Account :=
  ⟨Function.update (fun _ => none) 0 (some ⟨defaultPem, defaultSubject⟩), none⟩

open Classical in
/-- One event. A start-up settles whether the interrupted operation counts. -/
noncomputable def Account.step (a : Account) (s : Sys store) : Event store → Account
  | .boot fates =>
    match init ⟨s.cells, fates, []⟩ with
    | (some (.ok, ram), _) =>
      ⟨if a.cut = some (anchors ram.snapshot) then anchors ram.snapshot else a.done, none⟩
    | _ => a
  | .call op fates =>
    match s.ram with
    | none => a
    | some ram =>
      match exec op ram ⟨s.cells, fates, []⟩ with
      | (some (true, _), _) => ⟨op.effect a.done, none⟩
      | (some (false, _), _) => a
      | (none, _) => ⟨a.done, some (op.effect a.done)⟩

noncomputable def Account.run (a : Account) (s : Sys store) : List (Event store) → Account
  | [] => a
  | e :: events => (a.step s e).run (s.step e) events

theorem anchors_default : anchors (stamp default) = Account.start.done := by
  have hcertificate : defaultAnchor.certificate = some ⟨defaultPem, defaultSubject⟩ := by
    have hlength : defaultAnchor.derLength.toNat = defaultPem.length := by
      rw [defaultAnchor, UInt16.toNat_ofNat', length_defaultPem]
    have hder : defaultAnchor.der.toList.take defaultPem.length = defaultPem := by
      have hfits : defaultPem.length ≤ maxDerSize := by
        rw [length_defaultPem]
        decide
      rw [defaultAnchor, toList_byteArray hfits, List.take_left]
    have hsubject : cstr defaultAnchor.subject.toList = defaultSubject :=
      cstr_charArray (by decide +kernel) (by decide +kernel)
    have hoccupied : defaultAnchor.occupied ≠ 0 := by
      show (1 : UInt8) ≠ 0
      decide
    rw [Anchor.certificate, if_neg hoccupied, hlength, hder, hsubject]
  funext id
  have hslots : (stamp default).anchors = (zero.anchors.set 0 defaultAnchor (by decide)) := rfl
  rw [anchors, hslots, Vector.getElem?_set]
  by_cases hid : id = 0
  · subst hid
    rw [if_pos rfl, Option.bind_some, hcertificate]
    rfl
  · rw [if_neg (Ne.symm hid)]
    have hupdate : Account.start.done id = none := by
      show Function.update (fun _ => none) 0 _ id = none
      rw [Function.update_of_ne hid]
    rw [hupdate]
    refine anchors_eq_none.2 fun a ha => ?_
    have hmem := List.mem_of_getElem? ((Vector.getElem?_toList ..).trans ha)
    rw [zero, Vector.toList_replicate] at hmem
    rw [List.eq_of_mem_replicate hmem]
    rfl

/-- A running device has the snapshot of its active bank, and that is a valid one. -/
theorem valid_of_live {m : Cells} {ram : Ram} (h : store.Live m ram) :
    isSnapshotValid ram.snapshot = true ∧ load m ram.active = ram.snapshot := by
  cases h with
  | stored htop hload =>
    have hvalid : isSnapshotValid (load m ram.active) = true := htop.1
    have hsnapshot : load m ram.active = ram.snapshot := hload
    exact ⟨hsnapshot ▸ hvalid, hsnapshot⟩
  | fresh hlazy _ _ _ => cases hlazy

theorem live_of_running {s : Sys store} (hs : s.Inv) {ram : Ram} (hram : s.ram = some ram) :
    store.Live s.cells ram := by
  cases hs with
  | on ram' hram' hlive _ _ => rwa [Option.some.inj (hram.symm.trans hram')]
  | off hram' _ => cases hram'.symm.trans hram

/-- An interrupted start-up leaves nothing to migrate: it writes to the first bank only. -/
theorem unmigrated {s : Sys store} {e : Event store} (he : s.PowerOnly e) : s.Unmigrated e := by
  cases e with
  | boot fates =>
    intro c hr hfresh hnone
    refine ⟨hnone .a, fun i hi => ?_⟩
    have hsteps := (lawful.seeds rfl hfresh he.1.reads _ _ hr).1
    exact (hsteps.outside i fun hi' => Set.disjoint_left.1 disjoint_region hi' hi).trans
      (hfresh.2 i hi)
  | call op fates => trivial

theorem orderly {s : Sys store} (hs : s.Inv) {e : Event store} (he : s.PowerOnly e) :
    s.Orderly e :=
  orderly_of_powerOnly lawful hs he (unspoilt_step lawful rfl hs he (unmigrated he))

/-- The account is right about the last image and the one that was cut off. -/
structure Agrees (s : Sys store) (a : Account) : Prop where
  done : anchors s.last = a.done
  cut : s.cut.map anchors = a.cut

theorem agrees_start : Agrees (Sys.start store) Account.start := ⟨anchors_default, rfl⟩

theorem agrees_boot {s : Sys store} {a : Account} (hs : s.Inv) (ha : Agrees s a) {fates : Fates}
    (hsteady : fates.Steady) :
    Agrees (s.step (.boot fates)) (a.step s (.boot fates)) := by
  rcases hr : init ⟨s.cells, fates, []⟩ with ⟨_ | ⟨_ | _, ram⟩, c⟩
  case some.ok =>
    have hstep : s.step (.boot fates) =
        ⟨c.cells, some ram, ram.snapshot, none, s.saves + (c.log.any isErase).toNat⟩ :=
      step_booted hr
    rw [hstep]
    obtain ⟨-, hloads⟩ := loads_last_or_cut lawful hs.settled hsteady hr
    refine ⟨?_, ?_⟩
    · simp only [Account.step, hr]
      split
      · rfl
      · rename_i hcut
        rcases hloads with hlast | hcut'
        · exact (congrArg anchors hlast).trans ha.done
        · refine absurd ?_ hcut
          rw [← ha.cut, hcut']
          rfl
    · simp only [Account.step, hr]
      rfl
  all_goals
    have hstep : (s.step (.boot fates)).last = s.last ∧ (s.step (.boot fates)).cut = s.cut := by
      have hr' : store.init ⟨s.cells, fates, []⟩ = _ := hr
      simp only [Sys.step, hr', and_self]
    refine ⟨?_, ?_⟩
    · simp only [Account.step, hr, hstep.1, ha.done]
    · simp only [Account.step, hr, hstep.2, ha.cut]

theorem agrees_call {s : Sys store} {a : Account} (hs : s.Inv) (ha : Agrees s a) (op : Op)
    (fates : Fates) : Agrees (s.step (.call op fates)) (a.step s (.call op fates)) := by
  cases hram : s.ram with
  | none =>
    have hram' : s.ram = none := hram
    have hstep : s.step (.call op fates) = s := by simp only [Sys.step, hram']
    rw [hstep]
    simpa only [Account.step, hram'] using ha
  | some ram =>
    have hlast : s.last = ram.snapshot := last_of_running hs hram
    have hdone : a.done = anchors ram.snapshot := by rw [← ha.done, hlast]
    obtain ⟨hvalid, -⟩ := valid_of_live (live_of_running hs hram)
    rcases hr : exec op ram ⟨s.cells, fates, []⟩ with ⟨_ | ⟨_ | _, ram'⟩, c⟩
    all_goals have hr' : store.exec op ram ⟨s.cells, fates, []⟩ = _ := hr
    · obtain ⟨image, hcomplete, heffect⟩ := complete_interrupted hvalid hr
      refine ⟨?_, ?_⟩
      · simp only [Sys.step, Account.step, hram, hr, hr', ha.done]
      · simp only [Sys.step, Account.step, hram, hr, hr', hcomplete, hdone]
        exact congrArg some heffect
    · refine ⟨?_, ?_⟩
      · simp only [Sys.step, Account.step, hram, hr, hr', ha.done]
      · simp only [Sys.step, Account.step, hram, hr, hr', ha.cut]
    · obtain ⟨status, happly, hok⟩ := exec_eq_some hr
      obtain rfl : status = .ok := of_decide_eq_true hok.symm
      refine ⟨?_, ?_⟩
      · simp only [Sys.step, Account.step, hram, hr, hr', hdone]
        exact (apply_ok happly).1
      · simp only [Sys.step, Account.step, hram, hr, hr']
        rfl

theorem agrees_run {s : Sys store} {a : Account} (hs : s.Inv) (ha : Agrees s a)
    {events : List (Event store)} (h : s.Along Sys.PowerOnly events)
    (hsaves : (s.run events).saves < 2 ^ 32 - 1) :
    (s.run events).Inv ∧ Agrees (s.run events) (a.run s events) := by
  induction events generalizing s a with
  | nil => exact ⟨hs, ha⟩
  | cons e events ih =>
    have hstep : (s.step e).Inv := inv_step lawful hs (orderly hs h.1)
      ((saves_le_run _ events).trans_lt hsaves)
    refine ih hstep ?_ h.2 hsaves
    cases e with
    | boot fates => exact agrees_boot hs ha h.1.1
    | call op fates => exact agrees_call hs ha op fates

/-- **The map survives power losses**: after any run from erased flash in which power losses are
all that goes wrong, a start-up that is not itself cut off shows the map of the operations that
reported success, or that map with the interrupted operation in full; and a device that runs
shows the former, `Add` taking the lowest free id and every operation its own id alone. -/
theorem persists {events : List (Event store)} (h : (Sys.start store).Along Sys.PowerOnly events)
    (hsaves : ((Sys.start store).run events).saves < 2 ^ 32 - 1) :
    let s := (Sys.start store).run events
    let account := Account.start.run (Sys.start store) events
    (∀ fates status ram c, fates.Steady →
      init ⟨s.cells, fates, []⟩ = (some (status, ram), c) →
      status = .ok ∧ ∃ m, (m = account.done ∨ account.cut = some m) ∧ Serves m ram c.cells) ∧
    ∀ ram, s.ram = some ram → Serves account.done ram s.cells := by
  obtain ⟨hinv, hagrees⟩ := agrees_run (inv_start lawful) agrees_start h hsaves
  refine ⟨fun fates status ram c hsteady hinit => ?_, fun ram hram => ?_⟩
  · obtain ⟨rfl, hloads⟩ := loads_last_or_cut lawful hinv.settled hsteady hinit
    have hbooted := inv_boot lawful hinv.settled
      (orderly hinv ⟨hsteady, fun c' hlost => by cases hinit.symm.trans hlost⟩)
    rw [step_booted hinit] at hbooted
    obtain ⟨hvalid, -⟩ := valid_of_live (live_of_running hbooted rfl)
    refine ⟨rfl, anchors ram.snapshot, ?_, serves_anchors hvalid _⟩
    rcases hloads with hlast | hcut
    · exact .inl ((congrArg anchors hlast).trans hagrees.done)
    · refine .inr ?_
      rw [← hagrees.cut, hcut]
      rfl
  · obtain ⟨hvalid, -⟩ := valid_of_live (live_of_running hinv hram)
    have hlast : ((Sys.start store).run events).last = ram.snapshot := last_of_running hinv hram
    rw [← hagrees.done, hlast]
    exact serves_anchors hvalid _

/-- A root certificate that validates. -/
def rootMbed : MbedResults := ⟨0, 1, 0, 4, ascii "CN=a"⟩

theorem exec_reset_cut (ram : Ram) (m : Cells) : exec .reset ram ⟨m, cutSecond, []⟩ =
    (none, ⟨halfErased ram.active.other m, {},
      [.erase (address ram.active.other + sectorSize) sectorSize
        (blank (address ram.active.other) sectorSize m),
        .erase (address ram.active.other) sectorSize m]⟩) :=
  bind_of_none (bind_of_none (save_cut _ m))

/-- A reset that loses power is torn, and that is all that goes wrong. -/
theorem powerOnly_reset_cut (s : Sys store) : s.PowerOnly (.call .reset cutSecond) := by
  refine ⟨steady_cutSecond, fun ram c _ h => torn_of_invalid lawful h ?_ _⟩
  obtain rfl := (Prod.mk.inj ((exec_reset_cut ram s.cells).symm.trans h)).2
  exact isSnapshotValid_halfErased (Ram.active ram).other s.cells

theorem cut_reset (a : Account) {s : Sys store} {ram : Ram} (hram : s.ram = some ram) :
    (a.step s (.call .reset cutSecond)).cut = some fun _ => none := by
  have hcut := exec_reset_cut ram s.cells
  simp only [Account.step, hram, hcut]
  rfl

/-- The store started, a root added, and a reset that loses power. -/
def addReset : List (Event store) :=
  [.boot {}, .call (.add [0x30] rootMbed) {}, .call .reset cutSecond]

theorem persists_addReset :
    (Account.start.run (Sys.start store) addReset).cut = some (fun _ => none) ∧
    ∃ (ram : Ram) (c : Chip) (m : Anchors),
      init ⟨((Sys.start store).run addReset).cells, {}, []⟩ = (some (.ok, ram), c) ∧
      (m = (Account.start.run (Sys.start store) addReset).done ∨
        (Account.start.run (Sys.start store) addReset).cut = some m) ∧ Serves m ram c.cells := by
  have hrun : (Sys.start store).Along Sys.PowerOnly addReset :=
    ⟨powerOnly_boot lawful _, powerOnly_call lawful _ _, powerOnly_reset_cut _, trivial⟩
  obtain ⟨hinit, -⟩ := persists hrun ((saves_run_le _ _).trans_lt (by decide))
  obtain ⟨⟨status, ram⟩, c, h⟩ := lawful.init_driven.returns
    ⟨((Sys.start store).run addReset).cells, {}, []⟩ rfl
  obtain ⟨rfl, m, hm, hserves⟩ := hinit {} status ram c Fates.steady_nil h
  refine ⟨?_, ram, c, m, h, hm, hserves⟩
  obtain ⟨ram₁, hram₁⟩ := running_boot lawful (inv_start lawful).settled
  obtain ⟨ram₂, hram₂⟩ := running_call lawful hram₁ (.add [0x30] rootMbed)
  exact cut_reset _ hram₂

end HealthCheck.TlsTrustStore
