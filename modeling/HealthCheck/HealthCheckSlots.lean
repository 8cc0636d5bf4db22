import HealthCheck.HealthCheckMigration

/-!
# The slots of the health-check configuration

The health-check task and the protection of the trust anchors use the slots as they find them.
Every mutation edits a copy of the configuration and saves it; start-up loads a sector or the
compiled default.

* `edited`, `apply_eq` — a mutation is an edit that is refused, or an edit that is saved.
* `Fit` — the representation invariant.
* `representation` — it holds in every state reached, and each mutation changes only what is its
  own.
-/

namespace HealthCheck.HealthCheckConfig

open Nor hiding read driven_read read_ok read_cases
open CString Memory Run TwoBank

/-! ## Edits -/

/-- What a resource becomes with new arguments. -/
def filled (slot : Resource) (host : Bytes) (port : UInt16) (path : Bytes) (enabled : Bool)
    (trustAnchorId : UInt8) : Resource :=
  { slot with
    enabled := if enabled then 1 else 0
    trustAnchorId := trustAnchorId
    port := port
    host := charArray hostSize host
    path := charArray pathSize path }

/-- The lowest slot that is not occupied. -/
def freeSlot (s : Snapshot) : Option ℕ := s.resources.toList.findIdx? (·.occupied = 0)

/-- The candidate of a mutation, or why it is refused. -/
def edited (op : Op) (s : Snapshot) : Except ConfigStatus Snapshot :=
  match op with
  | .setPeriodSeconds periodSeconds =>
    if !periodValid periodSeconds then .error .invalidArgument
    else .ok { s with periodSeconds := periodSeconds }
  | .addResource host port path enabled trustAnchorId =>
    if !argumentsValid host port path trustAnchorId then .error .invalidArgument
    else match freeSlot s with
      | none => .error .full
      | some index => .ok { s with
        resources := s.resources.setIfInBounds index
          (filled { zeroResource with occupied := 1 } host port path enabled trustAnchorId) }
  | .updateResource index host port path enabled trustAnchorId =>
    if h : index < maxResources then
      if !argumentsValid host port path trustAnchorId then .error .invalidArgument
      else if s.resources[index].occupied = 0 then .error .notFound
      else .ok { s with
        resources := s.resources.set index
          (filled s.resources[index] host port path enabled trustAnchorId) }
    else .error .invalidArgument
  | .deleteResource index =>
    if h : index < maxResources then
      if s.resources[index].occupied = 0 then .error .notFound
      else .ok { s with resources := s.resources.set index zeroResource }
    else .error .invalidArgument

/-- **A mutation** is an edit of a copy, saved unless it is refused. -/
theorem apply_eq (op : Op) (ram : Ram) : apply op ram =
    match edited op ram.snapshot with
    | .error status => pure (status, ram)
    | .ok candidate => commit candidate ram := by
  cases op with
  | setPeriodSeconds periodSeconds =>
    simp only [apply, setPeriodSeconds, edited]
    split <;> rfl
  | addResource host port path enabled trustAnchorId =>
    simp only [apply, addResource, edited, freeSlot]
    split
    · rfl
    · cases ram.snapshot.resources.toList.findIdx? (·.occupied = 0) with
      | none => rfl
      | some index =>
        simp only [bind_assoc, pure_bind, Prod.mk.eta, bind_pure]
        rfl
  | updateResource index host port path enabled trustAnchorId =>
    simp only [apply, updateResource, edited]
    split
    · split
      · rfl
      · split <;> rfl
    · rfl
  | deleteResource index =>
    simp only [apply, deleteResource, edited]
    split
    · split <;> rfl
    · rfl

/-- What a save of a candidate does to the variables. -/
theorem commit_eq_some {candidate : Snapshot} {ram ram' : Ram} {c c' : Chip} {s : ConfigStatus}
    (h : commit candidate ram c = (some (s, ram'), c')) :
    s = .ok ∧ ram'.snapshot = stamp candidate ∨ s = .storageError ∧ ram' = ram := by
  obtain ⟨⟨status, x, ram₁⟩, c₁, hsave, hret⟩ := bind_eq_some.mp h
  simp only [pure_apply, Prod.mk.injEq, Option.some.injEq] at hret
  obtain ⟨⟨rfl, rfl⟩, -⟩ := hret
  rcases SectorStore.save_eq_some sound hsave with ⟨rfl, -, rfl, -⟩ | ⟨hs, hram⟩
  · exact .inl ⟨rfl, rfl⟩
  · exact .inr ⟨if_neg hs, hram⟩

theorem edited_error {op : Op} {s : Snapshot} {status : ConfigStatus}
    (h : edited op s = .error status) : status ≠ .ok := by
  rintro rfl
  cases op with
  | setPeriodSeconds periodSeconds =>
    simp only [edited] at h
    split at h <;> cases h
  | addResource host port path enabled trustAnchorId =>
    simp only [edited] at h
    split at h
    · cases h
    · split at h <;> cases h
  | updateResource index host port path enabled trustAnchorId =>
    simp only [edited] at h
    split at h
    · split at h
      · cases h
      · split at h <;> cases h
    · cases h
  | deleteResource index =>
    simp only [edited] at h
    split at h
    · split at h <;> cases h
    · cases h

/-- What a mutation reports, and what it leaves in RAM. -/
theorem apply_eq_some {op : Op} {ram ram' : Ram} {c c' : Chip} {s : ConfigStatus}
    (h : apply op ram c = (some (s, ram'), c')) :
    (∃ candidate, edited op ram.snapshot = .ok candidate ∧
      (s = .ok ∧ ram'.snapshot = stamp candidate ∨ s = .storageError ∧ ram' = ram)) ∨
    (edited op ram.snapshot = .error s ∧ s ≠ .ok ∧ ram' = ram) := by
  rw [apply_eq] at h
  cases hedit : edited op ram.snapshot with
  | ok candidate =>
    rw [hedit] at h
    exact .inl ⟨candidate, rfl, commit_eq_some h⟩
  | error status =>
    rw [hedit] at h
    simp only [pure_apply, Prod.mk.injEq, Option.some.injEq] at h
    obtain ⟨⟨rfl, rfl⟩, -⟩ := h
    exact .inr ⟨rfl, edited_error hedit, rfl⟩

/-- The same of the store's interface. -/
theorem exec_eq_some {op : Op} {ram ram' : Ram} {c c' : Chip} {ok : Bool}
    (h : exec op ram c = (some (ok, ram'), c')) :
    (∃ candidate, edited op ram.snapshot = .ok candidate ∧ ram'.snapshot = stamp candidate) ∨
      ram' = ram := by
  obtain ⟨⟨status, ram₁⟩, c₁, happly, hret⟩ := bind_eq_some.1 h
  simp only [pure_apply, Prod.mk.injEq, Option.some.injEq] at hret
  obtain ⟨⟨-, rfl⟩, -⟩ := hret
  rcases apply_eq_some happly with ⟨candidate, hedit, ⟨-, hsnapshot⟩ | ⟨-, rfl⟩⟩ | ⟨-, -, rfl⟩
  · exact .inl ⟨candidate, hedit, hsnapshot⟩
  · exact .inr rfl
  · exact .inr rfl

/-- A slot that is free while all lower ones are occupied. -/
structure Lowest (s : Snapshot) (i : ℕ) : Prop where
  lt : i < maxResources
  free : s.resources[i].occupied = 0
  below : ∀ j (h : j < i), s.resources[j].occupied ≠ 0

theorem freeSlot_eq_some {s : Snapshot} {i : ℕ} (h : freeSlot s = some i) : Lowest s i := by
  obtain ⟨hlt, hfree, hbelow⟩ := List.findIdx?_eq_some_iff_getElem.1 h
  rw [Vector.length_toList] at hlt
  refine ⟨hlt, ?_, fun j hj => ?_⟩
  · simpa using hfree
  · simpa using hbelow j hj

theorem freeSlot_eq_none {s : Snapshot} :
    freeSlot s = none ↔ ∀ i (h : i < maxResources), s.resources[i].occupied ≠ 0 := by
  rw [freeSlot, List.findIdx?_eq_none_iff]
  constructor
  · intro h i hi
    simpa using h s.resources[i] (by simp)
  · intro h r hr
    obtain ⟨i, hi, rfl⟩ := List.getElem_of_mem hr
    rw [Vector.length_toList] at hi
    simpa using h i hi

/-- The slot of a mutation. -/
def Op.Own (op : Op) (s : Snapshot) (i : ℕ) : Prop :=
  match op with
  | .setPeriodSeconds _ => False
  | .addResource .. => freeSlot s = some i
  | .updateResource index .. => i = index
  | .deleteResource index => i = index

/-- What a mutation makes of its slot. -/
def Op.Makes (op : Op) (before after : Resource) : Prop :=
  match op with
  | .setPeriodSeconds _ => False
  | .addResource host port path enabled trustAnchorId =>
    argumentsValid host port path trustAnchorId = true ∧ before.occupied = 0 ∧
      after = filled { zeroResource with occupied := 1 } host port path enabled trustAnchorId
  | .updateResource _ host port path enabled trustAnchorId =>
    argumentsValid host port path trustAnchorId = true ∧ before.occupied ≠ 0 ∧
      after = filled before host port path enabled trustAnchorId
  | .deleteResource _ => before.occupied ≠ 0 ∧ after = zeroResource

/-- **What an edit does**: it sets the period, or it replaces one slot. -/
theorem edited_ok {op : Op} {s candidate : Snapshot} (h : edited op s = .ok candidate) :
    (∃ periodSeconds, op = .setPeriodSeconds periodSeconds ∧ periodValid periodSeconds = true ∧
      candidate = { s with periodSeconds := periodSeconds }) ∨
    ∃ (index : ℕ) (hindex : index < maxResources) (slot : Resource), op.Own s index ∧
      op.Makes s.resources[index] slot ∧
      candidate = { s with resources := s.resources.set index slot } := by
  cases op with
  | setPeriodSeconds periodSeconds =>
    simp only [edited] at h
    split at h
    · cases h
    · rename_i hvalid
      cases h
      exact .inl ⟨periodSeconds, rfl, by simpa using hvalid, rfl⟩
  | addResource host port path enabled trustAnchorId =>
    simp only [edited] at h
    split at h
    · cases h
    · rename_i hvalid
      split at h
      · cases h
      · rename_i index hfree
        cases h
        have hlow := freeSlot_eq_some hfree
        refine .inr ⟨index, hlow.lt, _, hfree, ⟨by simpa using hvalid, hlow.free, rfl⟩, ?_⟩
        refine congrArg (fun slots => { s with resources := slots }) (Vector.ext fun i hi => ?_)
        rw [Vector.getElem_setIfInBounds hi, Vector.getElem_set]
  | updateResource index host port path enabled trustAnchorId =>
    simp only [edited] at h
    split at h
    · rename_i hindex
      split at h
      · cases h
      · rename_i hvalid
        split at h
        · cases h
        · rename_i hoccupied
          cases h
          exact .inr ⟨index, hindex, _, rfl, ⟨by simpa using hvalid, hoccupied, rfl⟩, rfl⟩
    · cases h
  | deleteResource index =>
    simp only [edited] at h
    split at h
    · rename_i hindex
      split at h
      · cases h
      · rename_i hoccupied
        cases h
        exact .inr ⟨index, hindex, _, rfl, ⟨hoccupied, rfl⟩, rfl⟩
    · cases h

/-- A mutation that is not refused is a commit of the edited copy. -/
theorem commits_edited {op : Op} {ram : Ram} {candidate : Snapshot}
    (h : edited op ram.snapshot = .ok candidate) :
    store.Commits ram (stamp candidate) (exec op ram) := by
  have hgeneration : candidate.generation = ram.snapshot.generation := by
    rcases edited_ok h with ⟨_, -, -, rfl⟩ | ⟨_, _, _, -, -, rfl⟩
    · rfl
    · rfl
  have hexec : exec op ram = commit candidate ram >>= fun r => pure (decide (r.1 = .ok), r.2) := by
    rw [exec, apply_eq, h]
  rw [hexec]
  exact commits_commit hgeneration fun _ _ => rfl

/-! ## The invariant -/

/-- A text in an array. -/
def Terminated {n : ℕ} (text : Vector UInt8 n) : Prop := 0 ∈ text.toList

/-- An occupied slot. -/
structure Resource.Occupied (r : Resource) : Prop where
  host : Terminated r.host ∧ cstr r.host.toList ≠ []
  path : Terminated r.path ∧ (cstr r.path.toList).head? = some 0x2F
  port : r.port ≠ 0
  enabled : r.enabled = 0 ∨ r.enabled = 1
  anchor : r.trustAnchorId.toNat ≤ TlsTrustStore.maxPersisted

/-- **The representation invariant.** -/
structure Fit (s : Snapshot) : Prop where
  period : minPeriodSeconds ≤ s.periodSeconds ∧ s.periodSeconds ≤ maxPeriodSeconds
  free : ∀ i (h : i < maxResources), s.resources[i].occupied = 0 → s.resources[i] = zeroResource
  occupied : ∀ i (h : i < maxResources), s.resources[i].occupied ≠ 0 → s.resources[i].Occupied

/-- The texts a mutation is called with are C strings. -/
def Op.Texts : Op → Prop
  | .addResource host _ path _ _ => 0 ∉ host ∧ 0 ∉ path
  | .updateResource _ host _ path _ _ => 0 ∉ host ∧ 0 ∉ path
  | _ => True

theorem periodValid_iff {periodSeconds : UInt32} : periodValid periodSeconds = true ↔
    minPeriodSeconds ≤ periodSeconds ∧ periodSeconds ≤ maxPeriodSeconds := by
  simp [periodValid]

/-- What accepted arguments make of a slot. -/
theorem occupied_filled {slot : Resource} {host path : Bytes} {port : UInt16} {enabled : Bool}
    {trustAnchorId : UInt8} (hhost : 0 ∉ host) (hpath : 0 ∉ path)
    (h : argumentsValid host port path trustAnchorId = true) :
    (filled slot host port path enabled trustAnchorId).Occupied := by
  simp only [argumentsValid, Bool.and_eq_true, decide_eq_true_eq] at h
  obtain ⟨⟨⟨⟨⟨hne, hslash⟩, hport⟩, hanchor⟩, hhostLength⟩, hpathLength⟩ := h
  have hhostText : cstr (charArray hostSize host).toList = host := cstr_charArray hhostLength hhost
  have hpathText : cstr (charArray pathSize path).toList = path := cstr_charArray hpathLength hpath
  have hhostField : (filled slot host port path enabled trustAnchorId).host =
      charArray hostSize host := rfl
  have hpathField : (filled slot host port path enabled trustAnchorId).path =
      charArray pathSize path := rfl
  refine ⟨?_, ?_, hport, ?_, hanchor⟩
  · rw [hhostField, Terminated, hhostText]
    exact ⟨zero_mem_charArray (by decide) _, hne⟩
  · rw [hpathField, Terminated, hpathText]
    exact ⟨zero_mem_charArray (by decide) _, hslash⟩
  · cases enabled with
    | true => exact .inr rfl
    | false => exact .inl rfl

/-- Only a slot that is there is occupied. -/
theorem getD_occupied {ram : Ram} {index : ℕ}
    (h : ¬((getResources ram).getD index zeroResource).occupied = 0) :
    ∃ hindex : index < maxResources,
      (getResources ram).getD index zeroResource = ram.snapshot.resources[index] := by
  have hindex : index < maxResources := by
    by_contra hout
    refine h ?_
    simp [Vector.getD, hout, zeroResource]
  exact ⟨hindex, by simp [Vector.getD, hindex, getResources]⟩

/-- A configuration in which one slot is replaced. -/
theorem Fit.replace {s s' : Snapshot} (h : Fit s) (slot : Resource)
    (hperiod : s'.periodSeconds = s.periodSeconds) (hfree : slot.occupied = 0 → slot = zeroResource)
    (hoccupied : slot.occupied ≠ 0 → slot.Occupied)
    (hslots : ∀ i (hi : i < maxResources), s'.resources[i] = s.resources[i] ∨
      s'.resources[i] = slot) : Fit s' where
  period := by
    rw [hperiod]
    exact h.period
  free i hi := by
    rcases hslots i hi with hsame | hnew
    · rw [hsame]
      exact h.free i hi
    · rw [hnew]
      exact hfree
  occupied i hi := by
    rcases hslots i hi with hsame | hnew
    · rw [hsame]
      exact h.occupied i hi
    · rw [hnew]
      exact hoccupied

theorem Fit.stamp {s : Snapshot} (h : Fit s) : Fit (stamp s) := ⟨h.period, h.free, h.occupied⟩

/-- What a mutation leaves in its slot. -/
theorem Op.Makes.fit {op : Op} {before after : Resource} (h : op.Makes before after)
    (htexts : op.Texts) : (after.occupied = 0 → after = zeroResource) ∧
      (after.occupied ≠ 0 → after.Occupied) := by
  cases op with
  | setPeriodSeconds _ => exact h.elim
  | addResource host port path enabled trustAnchorId =>
    obtain ⟨hvalid, -, rfl⟩ := h
    have hone : (1 : UInt8) ≠ 0 := by decide
    exact ⟨fun hzero => absurd hzero hone, fun _ => occupied_filled htexts.1 htexts.2 hvalid⟩
  | updateResource index host port path enabled trustAnchorId =>
    obtain ⟨hvalid, hbefore, rfl⟩ := h
    exact ⟨fun hzero => absurd hzero hbefore, fun _ => occupied_filled htexts.1 htexts.2 hvalid⟩
  | deleteResource index =>
    obtain ⟨-, rfl⟩ := h
    exact ⟨fun _ => rfl, fun hne => absurd rfl hne⟩

/-- **Every edit keeps the invariant.** -/
theorem Fit.edited {op : Op} {s candidate : Snapshot} (h : Fit s) (htexts : op.Texts)
    (hedit : edited op s = .ok candidate) : Fit candidate := by
  rcases edited_ok hedit with ⟨periodSeconds, -, hvalid, rfl⟩ |
    ⟨index, hindex, slot, -, hmakes, rfl⟩
  · exact ⟨periodValid_iff.1 hvalid, h.free, h.occupied⟩
  · obtain ⟨hfree, hoccupied⟩ := hmakes.fit htexts
    refine h.replace slot rfl hfree hoccupied fun i hi => ?_
    rw [Vector.getElem_set]
    split
    · exact .inr rfl
    · exact .inl rfl

/-! ## What an edit leaves alone -/

/-- Only the slot of the mutation differs, or the period. -/
structure Confined (op : Op) (s s' : Snapshot) : Prop where
  period : s'.periodSeconds = s.periodSeconds ∨ op = .setPeriodSeconds s'.periodSeconds
  slots : ∀ i (h : i < maxResources), ¬op.Own s i → s'.resources[i] = s.resources[i]

theorem confined_edited {op : Op} {s candidate : Snapshot} (h : edited op s = .ok candidate) :
    Confined op s (stamp candidate) := by
  rcases edited_ok h with ⟨periodSeconds, rfl, -, rfl⟩ | ⟨index, hindex, slot, hown, -, rfl⟩
  · exact ⟨.inr rfl, fun _ _ _ => rfl⟩
  · refine ⟨.inl rfl, fun i hi hother => ?_⟩
    exact Vector.getElem_set_ne hindex hi fun heq => hother (heq ▸ hown)

/-- **What `HealthCheckConfig_AddResource` reports**, and where the resource is then. -/
theorem addResource_eq_some {host path : Bytes} {port : UInt16} {enabled : Bool}
    {trustAnchorId : UInt8} {ram ram' : Ram} {c c' : Chip} {status : ConfigStatus}
    {assigned : Option ℕ} (h : addResource host port path enabled trustAnchorId ram c =
      (some ((status, assigned), ram'), c')) :
    (status = .full ↔ argumentsValid host port path trustAnchorId = true ∧
      ∀ i (h : i < maxResources), ram.snapshot.resources[i].occupied ≠ 0) ∧
    (status = .ok → argumentsValid host port path trustAnchorId = true ∧
      ∃ (i : ℕ) (_ : i < maxResources), assigned = some i ∧ Lowest ram.snapshot i ∧
        ram'.snapshot.resources[i] =
          filled { zeroResource with occupied := 1 } host port path enabled trustAnchorId) := by
  have hpure {s : ConfigStatus} (hs : s ≠ .ok) (h : (pure ((s, none), ram) :
      FlashM ((ConfigStatus × Option ℕ) × Ram)) c = (some ((status, assigned), ram'), c')) :
      status = s := by
    simp only [pure_apply, Prod.mk.injEq, Option.some.injEq] at h
    exact h.1.1.1.symm
  unfold addResource at h
  cases hvalid : argumentsValid host port path trustAnchorId with
  | false =>
    rw [hvalid, Bool.not_false, if_pos rfl] at h
    rw [hpure (by decide) h]
    simp
  | true =>
    rw [hvalid, Bool.not_true, if_neg Bool.false_ne_true] at h
    rw [show ram.snapshot.resources.toList.findIdx? (·.occupied = 0) = freeSlot ram.snapshot
      from rfl] at h
    cases hfree : freeSlot ram.snapshot with
    | none =>
      rw [hfree] at h
      rw [hpure (by decide) h]
      simp only [true_and, reduceCtorEq, false_implies, and_true, true_iff]
      exact freeSlot_eq_none.1 hfree
    | some index =>
      rw [hfree] at h
      obtain ⟨⟨s, ram₁⟩, c₁, hcommit, hret⟩ := bind_eq_some.1 h
      simp only [pure_apply, Prod.mk.injEq, Option.some.injEq] at hret
      obtain ⟨⟨⟨rfl, rfl⟩, rfl⟩, rfl⟩ := hret
      have hlow := freeSlot_eq_some hfree
      have hnotAll : ¬∀ i (h : i < maxResources), ram.snapshot.resources[i].occupied ≠ 0 :=
        fun hall => hall index hlow.lt hlow.free
      rcases commit_eq_some hcommit with ⟨rfl, hsnapshot⟩ | ⟨rfl, rfl⟩
      · refine ⟨iff_of_false nofun fun hall => hnotAll hall.2, fun _ => ⟨rfl, index, hlow.lt,
          if_pos rfl, hlow, ?_⟩⟩
        rw [hsnapshot]
        exact Vector.getElem_setIfInBounds_self hlow.lt
      · exact ⟨iff_of_false nofun fun hall => hnotAll hall.2, nofun⟩

/-! ## Start-up -/

/-- The slot of the compiled default. -/
def defaultResource : Resource :=
  filled { zeroResource with occupied := 1 } (ascii "pgw.intraclear.com") 443 (ascii "/") true 0

theorem fit_default : Fit (stamp default) := by
  have hempty : Fit { zero with periodSeconds := 60 } := by
    refine ⟨by decide, fun i hi _ => ?_, fun i hi hne => absurd ?_ hne⟩
    · exact Vector.getElem_replicate hi
    · exact congrArg Resource.occupied (Vector.getElem_replicate hi)
  have hdefault : defaultResource.Occupied :=
    occupied_filled (by decide +kernel) (by decide +kernel) (by decide +kernel)
  refine Fit.stamp (hempty.replace defaultResource rfl
    (fun hzero => absurd (show (1 : UInt8) = 0 from hzero) (by decide)) (fun _ => hdefault)
    fun i hi => ?_)
  have hset : default.resources[i] =
      ((Vector.replicate maxResources zeroResource).set 0 defaultResource)[i] := rfl
  rw [hset, Vector.getElem_set]
  split
  · exact .inr rfl
  · exact .inl rfl

theorem saveInPlace_snapshot {ram ram' : Ram} {c c' : Chip} {status : Status}
    (h : saveInPlace ram c = (some (status, ram'), c')) : ram'.snapshot = stamp ram.snapshot := by
  obtain ⟨⟨s, candidate, ram₁⟩, c₁, hsave, hret⟩ := bind_eq_some.1 h
  simp only [pure_apply, Prod.mk.injEq, Option.some.injEq] at hret
  obtain ⟨⟨-, rfl⟩, -⟩ := hret
  exact SectorStore.save_candidate hsave

theorem chooseLegacy_some {firstValid secondValid : Bool} {first second legacy : LegacySnapshot}
    {address : ℕ} (h : chooseLegacy firstValid secondValid first second = some (legacy, address)) :
    firstValid = true ∨ secondValid = true := by
  unfold chooseLegacy at h
  split at h
  · rename_i hfirst
    exact .inl (Bool.and_eq_true_iff.1 hfirst).1
  · split at h
    · exact .inr ‹_›
    · cases h

/-- **What start-up loads**: a valid snapshot of either sector, which it leaves there, a version-1
snapshot that is there, or the compiled default. -/
theorem init_eq_some {c c' : Chip} {status : Status} {ram : Ram}
    (h : init c = (some (status, ram), c')) :
    (∃ x, isValid (sectorStore.load c.cells x) = true ∧
      ram.snapshot = sectorStore.load c.cells x ∧ c'.cells = c.cells) ∨
    (∃ x, isLegacyValid (legacyLoad c.cells x) = true) ∨ ram.snapshot = stamp default := by
  rw [init_eq] at h
  obtain ⟨found, c₁, hfound, h⟩ := bind_eq_some.1 h
  obtain ⟨rfl, hchoice⟩ := SectorStore.newestSnapshot_returns sound hfound
  cases found with
  | some loaded =>
    obtain ⟨x, hx, hvalid⟩ := SectorStore.choose_eq_some hchoice.symm
    simp only [resume, pure_apply, Prod.mk.injEq, Option.some.injEq] at h
    obtain ⟨⟨-, rfl⟩, rfl⟩ := h
    exact .inl ⟨x, hvalid, by rw [hx], rfl⟩
  | none =>
    have hrange : ∀ x, W25q64.inRange (sectorStore.address x) legacyLayout.size = true := fun x =>
      W25q64.inRange_of_sector (by decide) (by decide) (sound.aligned x) (sound.below x)
    rw [resume, initLegacy] at h
    obtain ⟨⟨firstStatus, firstBytes⟩, c₂, hfirst, h⟩ := bind_eq_some.1 h
    obtain ⟨⟨secondStatus, secondBytes⟩, c₃, hsecond, h⟩ := bind_eq_some.1 h
    obtain ⟨rfl, hfirstRead⟩ := W25q64.read_returns (hrange .a) hfirst
    obtain ⟨rfl, hsecondRead⟩ := W25q64.read_returns (hrange .b) hsecond
    dsimp only at h
    cases hchosen : chooseLegacy
        (decide (firstStatus = .ok) && isLegacyValid (legacyLayout.decode firstBytes))
        (decide (secondStatus = .ok) && isLegacyValid (legacyLayout.decode secondBytes))
        (legacyLayout.decode firstBytes) (legacyLayout.decode secondBytes) with
    | none =>
      rw [hchosen] at h
      exact .inr (.inr (saveInPlace_snapshot h))
    | some chosen =>
      refine .inr (.inl ?_)
      rcases chooseLegacy_some hchosen with hvalid | hvalid
      · rw [Bool.and_eq_true, decide_eq_true_iff] at hvalid
        rcases hfirstRead with ⟨-, -, hbytes⟩ | ⟨-, hfailed, -⟩
        · exact ⟨.a, by rw [legacyLoad, ← hvalid.2, hbytes]⟩
        · exact absurd hvalid.1 hfailed
      · rw [Bool.and_eq_true, decide_eq_true_iff] at hvalid
        rcases hsecondRead with ⟨-, -, hbytes⟩ | ⟨-, hfailed, -⟩
        · exact ⟨.b, by rw [legacyLoad, ← hvalid.2, hbytes]⟩
        · exact absurd hvalid.1 hfailed

/-! ## Runs -/

/-- The configuration in flash and, once start-up has returned, in RAM. -/
structure State where
  cells : Cells
  ram : Option Ram

/-- A call with its arguments. -/
structure Call where
  op : Op
  texts : op.Texts

/-- What happens to the store, and the fate of every flash command. -/
inductive Event where
  | boot (fates : Fates)
  | call (call : Call) (fates : Fates)

def State.step (s : State) : Event → State
  | .boot fates =>
    match init ⟨s.cells, fates, []⟩ with
    | (some (_, ram), c) => ⟨c.cells, some ram⟩
    | (none, c) => ⟨c.cells, none⟩
  | .call call fates =>
    match s.ram with
    | none => s
    | some ram =>
      match apply call.op ram ⟨s.cells, fates, []⟩ with
      | (some (_, ram), c) => ⟨c.cells, some ram⟩
      | (none, c) => ⟨c.cells, none⟩

/-- A chip that was never written to. -/
def State.start : State := ⟨fun _ => 0xFF, none⟩

/-- The snapshot that an event writes. -/
def State.Aimed (s : State) (e : Event) (image : Snapshot) : Prop :=
  match e with
  | .boot _ => image = stamp default
  | .call call _ => ∃ ram candidate, s.ram = some ram ∧
    edited call.op ram.snapshot = .ok candidate ∧ image = stamp candidate

/-- The checksum tells a sector that was written in part: a valid snapshot behind an event was
there before, or is the one that was written. -/
def State.Detected (s : State) (e : Event) : Prop :=
  ∀ x, (isValid (sectorStore.load (s.step e).cells x) = true →
      sectorStore.load (s.step e).cells x = sectorStore.load s.cells x ∨
        s.Aimed e (sectorStore.load (s.step e).cells x)) ∧
    (isLegacyValid (legacyLoad (s.step e).cells x) = true →
      isLegacyValid (legacyLoad s.cells x) = true)

/-- What holds in every state. -/
structure State.Inv (s : State) : Prop where
  images : ∀ x, isValid (sectorStore.load s.cells x) = true → Fit (sectorStore.load s.cells x)
  legacy : ∀ x, isLegacyValid (legacyLoad s.cells x) = false
  ram : ∀ ram, s.ram = some ram → Fit ram.snapshot

namespace State

theorem fit_aimed {s : State} (h : s.Inv) {e : Event} {image : Snapshot} (himage : s.Aimed e image) :
    Fit image := by
  cases e with
  | boot fates =>
    rw [show image = stamp default from himage]
    exact fit_default
  | call call fates =>
    obtain ⟨ram, candidate, hram, hedit, rfl⟩ := himage
    exact ((h.ram ram hram).edited call.texts hedit).stamp

/-- **Every event keeps the invariant.** -/
theorem inv_step (s : State) (e : Event) (h : s.Inv) (he : s.Detected e) : (s.step e).Inv where
  images x hx := by
    rcases (he x).1 hx with hsame | haimed
    · rw [hsame] at hx ⊢
      exact h.images x hx
    · exact fit_aimed h haimed
  legacy x := by
    refine Bool.eq_false_iff.2 fun hx => ?_
    have hbefore := (he x).2 hx
    rw [h.legacy x] at hbefore
    cases hbefore
  ram ram' hram' := by
    cases e with
    | boot fates =>
      rcases hinit : init ⟨s.cells, fates, []⟩ with ⟨_ | ⟨status, ram⟩, c⟩
      · simp only [step, hinit] at hram'
        cases hram'
      · simp only [step, hinit] at hram'
        obtain rfl := Option.some.inj hram'
        rcases init_eq_some hinit with ⟨x, hvalid, hload, -⟩ | ⟨x, hlegacy⟩ | hdefault
        · rw [hload]
          exact h.images x hvalid
        · rw [h.legacy x] at hlegacy
          cases hlegacy
        · rw [hdefault]
          exact fit_default
    | call call fates =>
      cases hram : s.ram with
      | none =>
        simp only [step, hram] at hram'
        cases hram'
      | some ram =>
        have hfit := h.ram ram hram
        rcases happly : apply call.op ram ⟨s.cells, fates, []⟩ with ⟨_ | ⟨status, ram₁⟩, c⟩
        · simp only [step, hram, happly] at hram'
          cases hram'
        · simp only [step, hram, happly] at hram'
          obtain rfl := Option.some.inj hram'
          rcases apply_eq_some happly with ⟨candidate, hedit, ⟨-, hsnapshot⟩ | ⟨-, rfl⟩⟩ |
            ⟨-, -, rfl⟩
          · rw [hsnapshot]
            exact (hfit.edited call.texts hedit).stamp
          · exact hfit
          · exact hfit

theorem inv_start : start.Inv where
  images x hx := by
    have herased := isValid_erased x
    change isValid (sectorStore.load (fun _ => 0xFF) x) = false at herased
    rw [show start.cells = fun _ => 0xFF from rfl, herased] at hx
    cases hx
  legacy := unmigratable_erased
  ram := nofun

theorem inv_run {events : List Event} (h : Along step Detected start events) :
    (run step start events).Inv :=
  keeps inv_step inv_start h

end State

/-! ## The invariant and the mutations -/

/-- **Representation**: in every state reached, however saves fail, the configuration in RAM is
fit. A mutation that succeeds changes nothing but its own slot or the period, any other nothing at
all, and an addition takes the lowest free slot and is refused as full only when there is none. -/
theorem representation {events : List Event}
    (h : Along State.step State.Detected State.start events) {ram : Ram}
    (hram : (run State.step State.start events).ram = some ram) :
    Fit ram.snapshot ∧
    (∀ op c status ram' c', apply op ram c = (some (status, ram'), c') →
      (status = .ok → Confined op ram.snapshot ram'.snapshot) ∧ (status ≠ .ok → ram' = ram)) ∧
    ∀ host port path enabled trustAnchorId c status assigned ram' c',
      addResource host port path enabled trustAnchorId ram c =
        (some ((status, assigned), ram'), c') →
      (status = .full ↔ argumentsValid host port path trustAnchorId = true ∧
        ∀ i (h : i < maxResources), ram.snapshot.resources[i].occupied ≠ 0) ∧
      (status = .ok → argumentsValid host port path trustAnchorId = true ∧
        ∃ (i : ℕ) (_ : i < maxResources), assigned = some i ∧ Lowest ram.snapshot i ∧
          ram'.snapshot.resources[i] =
            filled { zeroResource with occupied := 1 } host port path enabled trustAnchorId) := by
  refine ⟨(State.inv_run h).ram ram hram, fun op c status ram' c' happly => ?_,
    fun host port path enabled trustAnchorId c status assigned ram' c' hadd =>
      addResource_eq_some hadd⟩
  rcases apply_eq_some happly with ⟨candidate, hedit, ⟨rfl, hsnapshot⟩ | ⟨rfl, rfl⟩⟩ |
    ⟨-, hne, rfl⟩
  · refine ⟨fun _ => ?_, fun hne => absurd rfl hne⟩
    rw [hsnapshot]
    exact confined_edited hedit
  · exact ⟨nofun, fun _ => rfl⟩
  · exact ⟨fun hok => absurd hok hne, fun _ => rfl⟩

/-! ## A run -/

open W25q64 (cutErase zeroed)

/-- While every command completes, an edit with a valid period is saved. -/
theorem apply_stored {op : Op} {candidate : Snapshot} {ram : Ram}
    (hedit : edited op ram.snapshot = .ok candidate)
    (hperiod : periodValid candidate.periodSeconds = true) (m : Cells) (log : List Command) :
    ∃ ram' log', apply op ram ⟨m, {}, log⟩ = (some (.ok, ram'),
      ⟨sectorStore.stored (sectorStore.target ram) (stamp candidate) m, {}, log'⟩) ∧
      ram'.snapshot = stamp candidate := by
  obtain ⟨status, ram', log', hsave, hok⟩ := SectorStore.save_calm sound candidate ram m log
  obtain rfl : status = .ok := hok.mpr ((isValid_stamp candidate).trans hperiod)
  have hcommit : commit candidate ram ⟨m, {}, log⟩ = (some (.ok, ram'), _) := bind_of_some hsave
  have happly : apply op ram = commit candidate ram := by rw [apply_eq, hedit]
  rw [happly]
  exact ⟨ram', log', hcommit, (commit_eq_some hcommit).elim And.right fun h => nomatch h.1⟩

namespace State

variable {s : State} {ram : Ram}

/-- The first start-up saves the default to the first bank. -/
theorem first_boot : start.Detected (.boot {}) ∧ ∃ ram,
    (start.step (.boot {})).ram = some ram ∧ sectorStore.activeBank ram = .a ∧
      sectorStore.load (start.step (.boot {})).cells .a = stamp default := by
  obtain ⟨⟨status, ram⟩, c, hinit⟩ := lawful.init_driven.returns ⟨start.cells, {}, []⟩ rfl
  change init ⟨start.cells, {}, []⟩ = (some (status, ram), c) at hinit
  have hstep : start.step (.boot {}) = ⟨c.cells, some ram⟩ := by
    rw [step, hinit]
  obtain ⟨hsteps, -, hdone, hok⟩ :=
    lawful.seeds rfl lawful.fresh_erased Fates.steady_nil.reads _ _ hinit
  obtain rfl := hok Fates.steady_nil _ _ rfl
  obtain ⟨-, -, hload, -, hactive⟩ := hdone _ rfl
  change sectorStore.load c.cells .a = stamp default at hload
  rw [hstep]
  refine ⟨fun x => ?_, ram, rfl, hactive, hload⟩
  rw [hstep]
  cases x with
  | a =>
    refine ⟨fun _ => .inr hload, fun hlegacy => ?_⟩
    rw [show isLegacyValid (legacyLoad c.cells .a) = false from
      unmigratable_of_load hload] at hlegacy
    cases hlegacy
  | b =>
    have hother : ∀ i ∈ sectorStore.region .b, c.cells i = start.cells i := fun i hi =>
      hsteps.outside i fun ha => Set.disjoint_left.1 lawful.disjoint ha hi
    rw [SectorStore.load_congr sound hother, legacyLoad_congr hother]
    exact ⟨fun _ => .inl rfl, id⟩

/-- A start-up that finds the default in the first bank only. -/
theorem later_boot (hload : sectorStore.load s.cells .a = stamp default)
    (hother : isValid (sectorStore.load s.cells .b) = false) : s.Detected (.boot {}) ∧ ∃ ram,
      (s.step (.boot {})).ram = some ram ∧ ram.snapshot = stamp default := by
  obtain ⟨⟨status, ram⟩, c, hinit⟩ := lawful.init_driven.returns ⟨s.cells, {}, []⟩ rfl
  change init ⟨s.cells, {}, []⟩ = (some (status, ram), c) at hinit
  have htop : store.Top s.cells .a := by
    refine ⟨?_, fun hvalid => ?_⟩
    · change isValid (sectorStore.load s.cells .a) = true
      rw [hload, isValid_stamp]
      decide
    · change isValid (sectorStore.load s.cells .b) = true at hvalid
      rw [hother] at hvalid
      cases hvalid
  obtain ⟨hcells, hloaded⟩ := lawful.loads (newest_of_top htop) Fates.steady_nil.reads hinit
  obtain ⟨-, hsnapshot, -⟩ := hloaded status ram rfl
  have hstep : s.step (.boot {}) = ⟨s.cells, some ram⟩ := by
    rw [step, hinit]
    dsimp only
    rw [show c.cells = s.cells from hcells]
  refine ⟨fun x => ?_, ram, by rw [hstep], hsnapshot.trans hload⟩
  rw [hstep]
  exact ⟨fun _ => .inl rfl, id⟩

/-- A new period. -/
def newPeriod : Call := ⟨.setPeriodSeconds 300, trivial⟩

/-- Power is lost while it is saved. -/
theorem step_cut (hram : s.ram = some ram) : s.step (.call newPeriod cutErase) =
    ⟨zeroed (sectorStore.address (sectorStore.activeBank ram).other) s.cells, none⟩ := by
  have hperiod : periodValid 300 = true := by decide
  have happly := apply_cut hperiod ram s.cells
  rw [step]
  dsimp only [newPeriod]
  rw [hram]
  dsimp only
  rw [happly, SectorStore.target_eq_address]

theorem detected_cut (hram : s.ram = some ram) : s.Detected (.call newPeriod cutErase) := by
  intro x
  rw [step_cut hram]
  rcases Bank.eq_or_other x (sectorStore.activeBank ram).other with rfl | rfl
  · refine ⟨fun hvalid => ?_, fun hlegacy => ?_⟩
    · rw [SectorStore.load_zeroed sound] at hvalid
      exact absurd hvalid (ne_true_of_eq_false isValid_zeros)
    · have hzeroed := unmigratable_zeroed (sectorStore.activeBank ram).other s.cells
      exact absurd hlegacy (ne_true_of_eq_false hzeroed)
  · have hother := SectorStore.zeroed_other sound (sectorStore.activeBank ram).other s.cells
    rw [SectorStore.load_congr sound hother, legacyLoad_congr hother]
    exact ⟨fun _ => .inl rfl, id⟩

/-- A mutation in which nothing goes wrong. -/
theorem step_call {call : Call} {candidate : Snapshot} (hram : s.ram = some ram)
    (hedit : edited call.op ram.snapshot = .ok candidate)
    (hperiod : periodValid candidate.periodSeconds = true) : s.Detected (.call call {}) ∧
      ∃ ram', (s.step (.call call {})).ram = some ram' ∧ ram'.snapshot = stamp candidate := by
  obtain ⟨ram', log', happly, hsnapshot⟩ := apply_stored hedit hperiod s.cells []
  rw [SectorStore.target_eq_address] at happly
  have hstep : s.step (.call call {}) = ⟨sectorStore.stored
      (sectorStore.address (sectorStore.activeBank ram).other) (stamp candidate) s.cells,
      some ram'⟩ := by
    rw [step, hram]
    dsimp only
    rw [happly]
  rw [hstep]
  refine ⟨fun x => ?_, ram', rfl, hsnapshot⟩
  rw [hstep]
  rcases Bank.eq_or_other x (sectorStore.activeBank ram).other with rfl | rfl
  · have hload := SectorStore.load_stored sound (sectorStore.activeBank ram).other (stamp candidate)
      s.cells
    refine ⟨fun _ => .inr ⟨ram, candidate, hram, hedit, hload⟩, fun hlegacy => ?_⟩
    exact absurd hlegacy (ne_true_of_eq_false (unmigratable_of_load hload))
  · have hother := SectorStore.stored_other sound (sectorStore.activeBank ram).other
      (stamp candidate) s.cells
    rw [SectorStore.load_congr sound hother, legacyLoad_congr hother]
    exact ⟨fun _ => .inl rfl, id⟩

end State

/-- A second resource. -/
def addition : Call :=
  ⟨.addResource (ascii "example.org") 443 (ascii "/") true 0,
    show 0 ∉ ascii "example.org" ∧ 0 ∉ ascii "/" by decide⟩

/-- The default, a save that loses power, and an addition behind the next start-up. -/
def updates : List Event :=
  [.boot {}, .call State.newPeriod cutErase, .boot {}, .call addition {}]

theorem edited_addition : ∃ candidate, edited addition.op (stamp default) = .ok candidate ∧
    periodValid candidate.periodSeconds = true ∧ (stamp candidate).resources[1].occupied = 1 := by
  have hvalid : argumentsValid (ascii "example.org") 443 (ascii "/") 0 = true := by decide
  have hfree : freeSlot (stamp default) = some 1 := by decide
  refine ⟨{ stamp default with
    resources := (stamp default).resources.setIfInBounds 1 (filled { zeroResource with occupied := 1 }
      (ascii "example.org") 443 (ascii "/") true 0) }, ?_, by decide, rfl⟩
  rw [addition, edited, hvalid]
  dsimp only
  rw [hfree, if_neg (by decide)]

theorem representation_updates : ∃ ram, (run State.step State.start updates).ram = some ram ∧
    Fit ram.snapshot ∧ ram.snapshot.resources[1].occupied = 1 := by
  obtain ⟨hfirst, ram₁, hram₁, hactive, hload⟩ := State.first_boot
  have hcut := State.step_cut hram₁
  rw [hactive] at hcut
  have hkept : sectorStore.load
      ((State.start.step (.boot {})).step (.call State.newPeriod cutErase)).cells .a =
        stamp default := by
    rw [hcut]
    exact (SectorStore.load_congr sound (SectorStore.zeroed_other sound .b _)).trans hload
  have hzeros : isValid (sectorStore.load
      ((State.start.step (.boot {})).step (.call State.newPeriod cutErase)).cells .b) = false := by
    rw [hcut]
    exact (congrArg isValid (SectorStore.load_zeroed sound .b _)).trans isValid_zeros
  obtain ⟨hlater, ram₂, hram₂, hsnapshot⟩ := State.later_boot hkept hzeros
  obtain ⟨candidate, hedit, hperiod, hslot⟩ := edited_addition
  rw [← hsnapshot] at hedit
  obtain ⟨hadded, ram₃, hram₃, hsaved⟩ := State.step_call hram₂ hedit hperiod
  have halong : Along State.step State.Detected State.start updates :=
    ⟨hfirst, State.detected_cut hram₁, hlater, hadded, trivial⟩
  have hrun : (run State.step State.start updates).ram = some ram₃ := by
    rw [updates, run, List.foldl_cons, List.foldl_cons, List.foldl_cons, List.foldl_cons,
      List.foldl_nil]
    exact hram₃
  refine ⟨ram₃, hrun, (representation halong hrun).1, ?_⟩
  simp only [hsaved]
  exact hslot

end HealthCheck.HealthCheckConfig
