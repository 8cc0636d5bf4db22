import HealthCheck.Lib.CString
import HealthCheck.SectorStore

/-!
# The management-user database

`user_store.c`: up to eight user records in a one-sector A/B store. An empty store is not
written; a first `UserStore_Put` does that.
-/

namespace HealthCheck.UserStore

open Nor hiding read driven_read read_ok read_cases
open CString Crc32 Memory TwoBank

/-- `USER_STORE_MAX_USERS`. -/
def maxUsers : ℕ := 8

/-- `USER_STORE_USERNAME_SIZE`. -/
def usernameSize : ℕ := 25

/-- `USER_ROLE_USER`. -/
def roleUser : UInt8 := 0

/-- `USER_ROLE_ADMINISTRATOR`. -/
def roleAdministrator : UInt8 := 1

/-- `UserStore_RecordTypeDef`, with the byte the compiler puts before `iterations`. -/
structure Record where
  enabled : UInt8
  role : UInt8
  username : Vector UInt8 usernameSize
  salt : Vector UInt8 16
  verifier : Vector UInt8 32
  padding : UInt8
  iterations : UInt32
deriving DecidableEq

/-- `UserStore_SnapshotTypeDef`. -/
structure Snapshot where
  magic : UInt32
  version : UInt16
  count : UInt16
  generation : UInt32
  users : Vector Record maxUsers
  crc : UInt32
deriving DecidableEq

def recordLayout : Layout Record :=
  (pair u8 (pair u8 (pair (array u8 usernameSize) (pair (array u8 16) (pair (array u8 32)
    (pair u8 u32)))))).as
    (fun r => (r.enabled, r.role, r.username, r.salt, r.verifier, r.padding, r.iterations))
    (fun ⟨enabled, role, username, salt, verifier, padding, iterations⟩ =>
      ⟨enabled, role, username, salt, verifier, padding, iterations⟩)
    fun _ => rfl

/-- Everything before the CRC. -/
def bodyLayout : Layout (UInt32 × UInt16 × UInt16 × UInt32 × Vector Record maxUsers) :=
  pair u32 (pair u16 (pair u16 (pair u32 (array recordLayout maxUsers))))

def Snapshot.body (s : Snapshot) : UInt32 × UInt16 × UInt16 × UInt32 × Vector Record maxUsers :=
  (s.magic, s.version, s.count, s.generation, s.users)

def layout : Layout Snapshot :=
  (pair bodyLayout u32).as (fun s => (s.body, s.crc))
    (fun ⟨⟨magic, version, count, generation, users⟩, crc⟩ =>
      ⟨magic, version, count, generation, users, crc⟩)
    fun _ => rfl

/-- `userStore_Crc` up to the `crc` field. -/
def crcOf (s : Snapshot) : UInt32 := crc32 (bodyLayout.encode s.body)

def magic : UInt32 := 0x55534552
def version : UInt16 := 1

/-- `userStore_IsValid`. -/
def isValid (s : Snapshot) : Bool :=
  s.magic = magic && s.version = version && s.count.toNat ≤ maxUsers && s.crc = crcOf s

/-- The header `userStore_Save` writes. -/
def stamp (s : Snapshot) : Snapshot :=
  let s := { s with magic := magic, version := version, generation := s.generation + 1 }
  { s with crc := crcOf s }

def sectorStore : SectorStore Snapshot where
  sectorA := FlashLayout.userStoreSectorA
  sectorB := FlashLayout.userStoreSectorB
  layout := layout
  stamp := stamp
  isValid := isValid
  generation := Snapshot.generation

abbrev Ram := SectorRam Snapshot

/-- `userStore_Save`. -/
def save (candidate : Snapshot) (ram : Ram) : FlashM (Status × Snapshot × Ram) :=
  sectorStore.save candidate ram

def zeroRecord : Record :=
  ⟨0, 0, .replicate _ 0, .replicate _ 0, .replicate _ 0, 0, 0⟩

/-- The snapshot of an empty store. -/
def empty : Snapshot := ⟨0, 0, 0, 0, .replicate _ zeroRecord, 0⟩

/-- `UserStore_Init`. -/
def init : FlashM (Status × Ram) := do
  match ← sectorStore.newestSnapshot with
  | some ram => pure (.ok, ram)
  | none => pure (.ok, ⟨empty, FlashLayout.userStoreSectorB⟩)

/-- The text of a record's username. -/
def Record.name (r : Record) : Bytes := cstr r.username.toList

/-- The records in use. -/
def Snapshot.records (s : Snapshot) : List Record := s.users.toList.take s.count.toNat

/-- The loop that looks for a username. -/
def Snapshot.position (s : Snapshot) (name : Bytes) : Option ℕ :=
  s.records.findIdx? (·.name = name)

/-- `UserStore_Find`: the record and its slot. -/
def find (name : Bytes) (ram : Ram) : Option (Record × ℕ) := do
  let p ← ram.snapshot.position name
  let record ← ram.snapshot.users[p]?
  pure (record, p)

/-- The snapshot `UserStore_Put` saves, unless the store is full. -/
def Snapshot.put (s : Snapshot) (record : Record) : Option Snapshot :=
  match s.position record.name with
  | some p => some { s with users := s.users.setIfInBounds p record }
  | none =>
    if s.count.toNat ≥ maxUsers then none
    else some { s with
      count := s.count + 1, users := s.users.setIfInBounds s.count.toNat record }

/-- `UserStore_Put`. -/
def put (record : Record) (ram : Ram) : FlashM (Status × Ram) :=
  if record.username[0] = 0 then pure (.error, ram)
  else
    match ram.snapshot.put record with
    | none => pure (.error, ram)
    | some candidate => do
      let (status, _, ram) ← save candidate ram
      pure (status, ram)

/-- The snapshot `UserStore_Delete` saves: the records behind slot `p` move down and the last
one is cleared. -/
def Snapshot.delete (s : Snapshot) (p : ℕ) : Snapshot :=
  { s with
    count := s.count - 1
    users := .ofFn fun i =>
      if i.val + 1 = s.count.toNat then zeroRecord
      else if p ≤ i.val ∧ i.val + 1 < s.count.toNat then s.users.getD (i.val + 1) zeroRecord
      else s.users[i] }

/-- `UserStore_Delete`. -/
def delete (name : Bytes) (ram : Ram) : FlashM (Status × Ram) :=
  match ram.snapshot.position name with
  | none => pure (.error, ram)
  | some p => do
    let (status, _, ram) ← save (ram.snapshot.delete p) ram
    pure (status, ram)

/-- `UserStore_List`. -/
def list (capacity : ℕ) (ram : Ram) : List Record := ram.snapshot.records.take capacity

/-! ## The database as a list of records -/

/-- The records in use fit the array, and their usernames end in it. -/
structure Snapshot.Wellformed (s : Snapshot) : Prop where
  count : s.count.toNat ≤ maxUsers
  terminated : ∀ r ∈ s.records, 0 ∈ r.username.toList

theorem wellformed_empty : empty.Wellformed where
  count := by decide
  terminated := fun _ h => by cases h

@[simp] theorem records_stamp (s : Snapshot) : (stamp s).records = s.records := rfl

theorem wellformed_stamp {s : Snapshot} : (stamp s).Wellformed ↔ s.Wellformed :=
  ⟨fun h => ⟨h.count, h.terminated⟩, fun h => ⟨h.count, h.terminated⟩⟩

theorem length_records {s : Snapshot} (h : s.count.toNat ≤ maxUsers) :
    s.records.length = s.count.toNat := by
  rw [Snapshot.records, List.length_take, Vector.length_toList, Nat.min_eq_left h]

theorem getElem_records (s : Snapshot) {i : ℕ} (h : i < s.records.length) (h' : i < maxUsers) :
    s.records[i] = s.users[i] := by
  simp [Snapshot.records]

theorem position_lt {s : Snapshot} {name : Bytes} {p : ℕ} (h : s.position name = some p) :
    ∃ hp : p < s.records.length, s.records[p].name = name := by
  obtain ⟨hp, hname, -⟩ := List.findIdx?_eq_some_iff_getElem.1 h
  exact ⟨hp, of_decide_eq_true hname⟩

theorem find_eq_some {name : Bytes} {ram : Ram} {record : Record} {p : ℕ}
    (h : find name ram = some (record, p)) :
    record ∈ ram.snapshot.records ∧ record.name = name := by
  simp only [find, Option.bind_eq_bind, Option.bind_eq_some_iff, Option.pure_def,
    Option.some.injEq, Prod.mk.injEq] at h
  obtain ⟨q, hq, record', hrecord, rfl, rfl⟩ := h
  obtain ⟨hlt, hname⟩ := position_lt hq
  obtain ⟨hq8, rfl⟩ := Vector.getElem?_eq_some_iff.1 hrecord
  rw [← getElem_records _ hlt hq8]
  exact ⟨List.getElem_mem hlt, hname⟩

/-- A name is found when a record has it. -/
theorem find_isSome {name : Bytes} {ram : Ram} {record : Record}
    (hmem : record ∈ ram.snapshot.records) (hname : record.name = name) :
    (find name ram).isSome = true := by
  have hpos : (ram.snapshot.position name).isSome = true := by
    rw [Snapshot.position, List.findIdx?_isSome]
    exact List.any_eq_true.2 ⟨record, hmem, decide_eq_true hname⟩
  obtain ⟨p, hp⟩ := Option.isSome_iff_exists.1 hpos
  obtain ⟨hlt, -⟩ := position_lt hp
  have hp8 : p < maxUsers := by
    rw [Snapshot.records, List.length_take, Vector.length_toList] at hlt
    omega
  simp [find, hp, Vector.getElem?_eq_getElem hp8]

/-- A put replaces the record of the name, or adds one at the end. -/
theorem records_put {s candidate : Snapshot} {record : Record} (hs : s.count.toNat ≤ maxUsers)
    (h : s.put record = some candidate) : candidate.count.toNat ≤ maxUsers ∧
      candidate.records = match s.position record.name with
        | some p => s.records.set p record
        | none => s.records ++ [record] := by
  unfold Snapshot.put at h
  split at h
  · rename_i p hp
    cases h
    refine ⟨hs, ?_⟩
    simp only [Snapshot.records, Vector.toList_setIfInBounds, List.take_set]
  · rename_i hp
    split at h
    · cases h
    · rename_i hlt
      cases h
      have hcount : (s.count + 1).toNat = s.count.toNat + 1 := by
        rw [UInt16.toNat_add]
        simp only [maxUsers] at hs
        have : (1 : UInt16).toNat = 1 := rfl
        omega
      refine ⟨by show (s.count + 1).toNat ≤ _; omega, ?_⟩
      simp only [Snapshot.records, hcount, Vector.toList_setIfInBounds]
      rw [List.take_set, List.take_succ_eq_append_getElem (by simp; omega),
        List.set_append_right _ _ (by simp)]
      simp [Nat.min_eq_left hs]

/-- A delete removes the record. -/
theorem records_delete {s : Snapshot} {name : Bytes} {p : ℕ} (hs : s.count.toNat ≤ maxUsers)
    (hp : s.position name = some p) : (s.delete p).count.toNat ≤ maxUsers ∧
      (s.delete p).records = s.records.eraseIdx p := by
  obtain ⟨hlt, -⟩ := position_lt hp
  rw [length_records hs] at hlt
  have hcount : (s.count - 1).toNat = s.count.toNat - 1 := by
    rw [UInt16.toNat_sub_of_le _ _ (UInt16.le_iff_toNat_le.2 (by
      show 1 ≤ s.count.toNat
      omega))]
    rfl
  refine ⟨by show (s.count - 1).toNat ≤ _; omega, ?_⟩
  have hlen : (s.delete p).records.length = s.count.toNat - 1 := by
    rw [length_records (by show (s.count - 1).toNat ≤ _; omega)]
    exact hcount
  refine List.ext_getElem ?_ fun i hi hi' => ?_
  · rw [hlen, List.length_eraseIdx_of_lt (by rw [length_records hs]; exact hlt), length_records hs]
  · rw [hlen] at hi
    rw [getElem_records _ _ (by omega), List.getElem_eraseIdx]
    have hdelete : (s.delete p).users[i] =
        if i + 1 = s.count.toNat then zeroRecord
        else if p ≤ i ∧ i + 1 < s.count.toNat then s.users.getD (i + 1) zeroRecord
        else s.users[i] := by
      simp [Snapshot.delete]
    rw [hdelete, if_neg (by omega)]
    by_cases hpi : p ≤ i
    · rw [if_pos ⟨hpi, by omega⟩, dif_neg (by omega), getElem_records _ _ (by omega)]
      simp [Vector.getD, show i + 1 < maxUsers by omega]
    · rw [if_neg (by omega), dif_pos (by omega), getElem_records _ _ (by omega)]

/-! ## The two-bank scheme -/

/-- The mutations of the store. -/
inductive Op where
  | put (record : Record)
  | delete (name : Bytes)

/-- A mutation, and whether it reports success. -/
def exec (op : Op) (ram : Ram) : FlashM (Bool × Ram) := do
  let (status, ram) ← match op with
    | .put record => put record ram
    | .delete name => delete name ram
  pure (status = .ok, ram)

/-- The user store as a two-bank store. -/
def store : Store :=
  sectorStore.store Ram Op id init exec (fun _ _ => True) empty true

theorem sound : sectorStore.Sound where
  aligned x := by cases x <;> decide
  below x := by cases x <;> decide
  ne := by decide
  pos := by decide
  fits := by decide
  generation_stamp _ := rfl

theorem load_erased (x : Bank) : (sectorStore.load (fun _ => 0xFF) x).magic = 0xFFFFFFFF := by
  rw [SectorStore.load, slice_const]
  rfl

theorem isValid_erased (x : Bank) :
    sectorStore.isValid (sectorStore.load (fun _ => 0xFF) x) = false := by
  have h : sectorStore.isValid = isValid := rfl
  simp [h, isValid, load_erased, magic]

theorem isValid_stamp (s : Snapshot) : isValid (stamp s) = true ↔ s.count.toNat ≤ maxUsers := by
  have hcrc : (stamp s).crc = crcOf (stamp s) := rfl
  have hcount : (stamp s).count = s.count := rfl
  simp only [isValid, hcrc, hcount, Bool.and_eq_true, decide_eq_true_eq, and_true]
  exact ⟨fun h => h.2, fun h => ⟨⟨rfl, rfl⟩, h⟩⟩

/-- A put that returns has stored the candidate, or failed and changed nothing. -/
theorem put_eq_some {record : Record} {ram ram' : Ram} {c c' : Chip} {s : Status}
    (h : put record ram c = (some (s, ram'), c')) :
    (s = .ok ∧ ∃ candidate, ram.snapshot.put record = some candidate ∧
      ram'.snapshot = stamp candidate) ∨ (s ≠ .ok ∧ ram' = ram) := by
  have hfail : ∀ {d : Chip}, (pure (.error, ram) : FlashM _) d = (some (s, ram'), c') →
      s ≠ .ok ∧ ram' = ram := fun h => by
    simp only [pure_apply, Prod.mk.injEq, Option.some.injEq] at h
    obtain ⟨⟨rfl, rfl⟩, -⟩ := h
    exact ⟨by decide, rfl⟩
  unfold put at h
  split at h
  · exact .inr (hfail h)
  · rcases hput : ram.snapshot.put record with _ | candidate
    · rw [hput] at h
      exact .inr (hfail h)
    · rw [hput] at h
      obtain ⟨⟨s', x, ram₁⟩, c₁, hsave, h⟩ := bind_eq_some.1 h
      simp only [pure_apply, Prod.mk.injEq, Option.some.injEq] at h
      obtain ⟨⟨rfl, rfl⟩, -⟩ := h
      rcases SectorStore.save_eq_some sound hsave with ⟨rfl, -, rfl, -⟩ | hsame
      · exact .inl ⟨rfl, candidate, rfl, rfl⟩
      · exact .inr hsame

/-- The same for a delete. -/
theorem delete_eq_some {name : Bytes} {ram ram' : Ram} {c c' : Chip} {s : Status}
    (h : delete name ram c = (some (s, ram'), c')) :
    (s = .ok ∧ ∃ p, ram.snapshot.position name = some p ∧
      ram'.snapshot = stamp (ram.snapshot.delete p)) ∨ (s ≠ .ok ∧ ram' = ram) := by
  unfold delete at h
  rcases hp : ram.snapshot.position name with _ | p
  · rw [hp] at h
    simp only [pure_apply, Prod.mk.injEq, Option.some.injEq] at h
    obtain ⟨⟨rfl, rfl⟩, -⟩ := h
    exact .inr ⟨by decide, rfl⟩
  · rw [hp] at h
    obtain ⟨⟨s', x, ram₁⟩, c₁, hsave, h⟩ := bind_eq_some.1 h
    simp only [pure_apply, Prod.mk.injEq, Option.some.injEq] at h
    obtain ⟨⟨rfl, rfl⟩, -⟩ := h
    rcases SectorStore.save_eq_some sound hsave with ⟨rfl, -, rfl, -⟩ | hsame
    · exact .inl ⟨rfl, p, rfl, rfl⟩
    · exact .inr hsame

theorem wellformed_put {s candidate : Snapshot} {record : Record} (hs : s.Wellformed)
    (hrecord : 0 ∈ record.username.toList) (h : s.put record = some candidate) :
    candidate.Wellformed := by
  obtain ⟨hcount, hrecords⟩ := records_put hs.count h
  refine ⟨hcount, fun r hr => ?_⟩
  rw [hrecords] at hr
  split at hr
  · rcases List.mem_or_eq_of_mem_set hr with hr | rfl
    · exact hs.terminated r hr
    · exact hrecord
  · rcases List.mem_append.1 hr with hr | hr
    · exact hs.terminated r hr
    · rw [List.mem_singleton.1 hr]
      exact hrecord

theorem wellformed_delete {s : Snapshot} {name : Bytes} {p : ℕ} (hs : s.Wellformed)
    (hp : s.position name = some p) : (s.delete p).Wellformed := by
  obtain ⟨hcount, hrecords⟩ := records_delete hs.count hp
  refine ⟨hcount, fun r hr => ?_⟩
  rw [hrecords] at hr
  exact hs.terminated r (List.mem_of_mem_eraseIdx hr)

theorem shape_save {candidate : Snapshot} {ram : Ram}
    (h : candidate.generation = ram.snapshot.generation) :
    store.Shape ram (save candidate ram >>= fun r => pure (decide (r.1 = .ok), r.2.2)) := by
  have hreports : SectorStore.Reports (id : Ram → Ram)
      fun r : Status × Snapshot × Ram => (decide (r.1 = .ok), r.2.2) := fun _ _ _ => ⟨rfl, rfl⟩
  refine .commits (stamp candidate) (SectorStore.commits_save sound ?_ hreports)
  exact h

theorem exec_put {record : Record} {ram : Ram} {candidate : Snapshot}
    (hname : record.username[0] ≠ 0) (h : ram.snapshot.put record = some candidate) :
    exec (.put record) ram =
      save candidate ram >>= fun r => pure (decide (r.1 = .ok), r.2.2) := by
  simp only [exec, put, if_neg hname, h, bind_assoc, pure_bind]

theorem shape_exec (op : Op) (ram : Ram) : store.Shape ram (exec op ram) := by
  have hidle : store.Shape ram (pure (false, ram)) := .idle false ram rfl rfl rfl
  cases op with
  | put record =>
    simp only [exec, put]
    split
    · exact hidle
    · split
      · exact hidle
      · rename_i candidate h
        simp only [bind_assoc, pure_bind]
        refine shape_save ?_
        unfold Snapshot.put at h
        split at h
        · rw [← Option.some.inj h]
        · split at h
          · simp at h
          · rw [← Option.some.inj h]
  | delete name =>
    simp only [exec, delete]
    split
    · exact hidle
    · simp only [bind_assoc, pure_bind]
      exact shape_save rfl

/-- What start-up does with the newest snapshot. -/
def resume : Option Ram → FlashM (Status × Ram)
  | some ram => pure (.ok, ram)
  | none => pure (.ok, ⟨empty, FlashLayout.userStoreSectorB⟩)

theorem init_eq : init = sectorStore.newestSnapshot >>= resume := rfl

theorem resume_some (ram : Ram) : resume (some ram) = pure (.ok, ram) := rfl
theorem resume_none : resume none = pure (.ok, ⟨empty, FlashLayout.userStoreSectorB⟩) := rfl

/-- Start-up when every command completes. -/
theorem init_calm (m : Cells) (log : List Command) : init ⟨m, {}, log⟩ =
    (some (.ok, (sectorStore.newestRam m).getD ⟨empty, FlashLayout.userStoreSectorB⟩),
      ⟨m, {}, log⟩) := by
  rw [init_eq, bind_of_some (SectorStore.newestSnapshot_calm sound m log)]
  cases sectorStore.newestRam m <;> rfl

theorem lawful : store.Lawful := by
  rw [store, init_eq]
  refine SectorStore.lawful sound resume id resume_some (fun _ => rfl) (fun _ => ?_) ?_ ?_
    (fun x => ⟨isValid_erased x, trivial⟩) ?_ ?_
  · exact ⟨_, rfl, rfl⟩
  · intro h
    cases h
  · exact .pure _
  · rfl
  · rw [← init_eq]
    exact shape_exec

end HealthCheck.UserStore
