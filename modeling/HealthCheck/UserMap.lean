import HealthCheck.Lib.KeyedList
import HealthCheck.UserStore

/-!
# The user database as a bounded map

A counted array of eight records stands for a map from usernames to accounts. A put updates the
map at one name, whether it replaces a record or adds one; a delete removes one name, wherever
the record stood; and what fails leaves the map alone.

* `find_put`, `find_delete`: other names do not notice.
* `bounded_map`: the database after any sequence of calls, whatever became of the saves.
-/

namespace HealthCheck.UserStore

open Nor hiding read driven_read read_ok read_cases
open CString KeyedList

/-- The stored account of each name. -/
def Snapshot.accounts (s : Snapshot) : Bytes → Option Record := lookup Record.name s.records

/-- The array stands for a map: the count is within it and no name is in it twice. -/
structure Snapshot.Keyed (s : Snapshot) : Prop where
  count : s.count.toNat ≤ maxUsers
  distinct : Distinct Record.name s.records

/-! ## The record of a name -/

theorem position_eq_none {s : Snapshot} {name : Bytes} :
    s.position name = none ↔ s.accounts name = none := by
  rw [Snapshot.accounts, lookup_eq_none, Snapshot.position, List.findIdx?_eq_none_iff]
  simp

/-- `UserStore_Find` finds the first record of a name. -/
theorem find_map_fst (name : Bytes) (ram : Ram) :
    (find name ram).map Prod.fst = ram.snapshot.accounts name := by
  unfold Snapshot.accounts lookup
  rw [List.find?_eq_bind_findIdx?_getElem?]
  unfold find
  show Option.map Prod.fst ((ram.snapshot.position name).bind fun p =>
    (ram.snapshot.users[p]?).bind fun record => some (record, p)) =
      (ram.snapshot.position name).bind fun p => ram.snapshot.records[p]?
  cases hp : ram.snapshot.position name with
  | none => rfl
  | some p =>
    obtain ⟨hlt, -⟩ := position_lt hp
    have hlt8 : p < maxUsers := by
      rw [Snapshot.records, List.length_take, Vector.length_toList] at hlt
      omega
    simp only [Option.bind_some, Vector.getElem?_eq_getElem hlt8, Option.map_some,
      List.getElem?_eq_getElem hlt, getElem_records _ hlt hlt8]

/-- Another account's put leaves a name as it is. -/
theorem find_put {record : Record} {name : Bytes} {ram ram' : Ram} {c c' : Chip}
    (hcount : ram.snapshot.count.toNat ≤ maxUsers) (hne : record.name ≠ name)
    (h : put record ram c = (some (Status.ok, ram'), c')) :
    (find name ram').map Prod.fst = (find name ram).map Prod.fst := by
  obtain ⟨-, candidate, hcandidate, hsnapshot⟩ := (put_eq_some h).resolve_right fun h => h.1 rfl
  obtain ⟨-, hrecords⟩ := records_put hcount hcandidate
  rw [find_map_fst, find_map_fst, Snapshot.accounts, hsnapshot, records_stamp, hrecords]
  cases hp : ram.snapshot.position record.name with
  | none =>
    show lookup _ (ram.snapshot.records ++ [record]) name = _
    rw [lookup_append (lookup_eq_none.mp (position_eq_none.mp hp)), Function.update_of_ne hne.symm]
    rfl
  | some p =>
    obtain ⟨hlt, hname⟩ := position_lt hp
    refine lookup_set_of_ne (fun b hb => ?_) hne
    rw [List.getElem?_eq_getElem hlt, Option.mem_some_iff] at hb
    rw [← hb, hname]
    exact hne

/-- So does another account's delete. -/
theorem find_delete {u name : Bytes} {ram ram' : Ram} {c c' : Chip}
    (hcount : ram.snapshot.count.toNat ≤ maxUsers) (hne : u ≠ name)
    (h : delete u ram c = (some (Status.ok, ram'), c')) :
    (find name ram').map Prod.fst = (find name ram).map Prod.fst := by
  obtain ⟨-, p, hp, hsnapshot⟩ := (delete_eq_some h).resolve_right fun h => h.1 rfl
  obtain ⟨-, hrecords⟩ := records_delete hcount hp
  rw [find_map_fst, find_map_fst, Snapshot.accounts, hsnapshot, records_stamp, hrecords]
  obtain ⟨hlt, hname⟩ := position_lt hp
  refine lookup_eraseIdx_of_ne fun b hb => ?_
  rw [List.getElem?_eq_getElem hlt, Option.mem_some_iff] at hb
  rw [← hb, hname]
  exact hne

/-! ## The snapshots the operations save -/

variable {s candidate : Snapshot}

theorem Snapshot.Keyed.stamp (h : s.Keyed) : (stamp s).Keyed := ⟨h.count, h.distinct⟩

theorem keyed_empty (h : s.count = 0) : s.Keyed where
  count := by simp [h]
  distinct := by simp [Snapshot.records, h, Distinct]

/-- A put updates the map at the name of the record. -/
theorem keyed_put {record : Record} (hs : s.Keyed) (h : s.put record = some candidate) :
    candidate.Keyed ∧
      candidate.accounts = Function.update s.accounts record.name (some record) := by
  obtain ⟨hcount, hrecords⟩ := records_put hs.count h
  unfold Snapshot.accounts
  cases hp : s.position record.name with
  | none =>
    rw [hp] at hrecords
    have hfresh := lookup_eq_none.mp (position_eq_none.mp hp)
    rw [hrecords, lookup_append hfresh]
    exact ⟨⟨hcount, hrecords ▸ hs.distinct.append hfresh⟩, rfl⟩
  | some p =>
    rw [hp] at hrecords
    obtain ⟨hlt, hname⟩ := position_lt hp
    rw [hrecords, lookup_set hs.distinct hlt hname]
    exact ⟨⟨hcount, hrecords ▸ hs.distinct.set hlt hname⟩, rfl⟩

/-- A put is refused for a new name when eight accounts exist. -/
theorem put_eq_none {record : Record} : s.put record = none ↔
    s.accounts record.name = none ∧ maxUsers ≤ s.count.toNat := by
  rw [← position_eq_none]
  unfold Snapshot.put
  cases s.position record.name with
  | none =>
    show (if s.count.toNat ≥ maxUsers then none else some _) = none ↔ none = none ∧ _
    by_cases hfull : s.count.toNat ≥ maxUsers
    · rw [if_pos hfull]
      exact iff_of_true rfl ⟨rfl, hfull⟩
    · rw [if_neg hfull]
      exact iff_of_false nofun fun h => hfull h.2
  | some p => exact iff_of_false nofun nofun

/-- A delete removes the name from the map. -/
theorem keyed_delete {name : Bytes} {p : ℕ} (hs : s.Keyed) (hp : s.position name = some p) :
    (s.delete p).Keyed ∧ (s.delete p).accounts = Function.update s.accounts name none := by
  obtain ⟨hcount, hrecords⟩ := records_delete hs.count hp
  obtain ⟨hlt, hname⟩ := position_lt hp
  unfold Snapshot.accounts
  rw [hrecords, lookup_eraseIdx hs.distinct hlt, hname]
  exact ⟨⟨hcount, hrecords ▸ hs.distinct.eraseIdx⟩, rfl⟩

/-! ## Calls -/

theorem usernameSize_pos : 0 < usernameSize := by decide

/-- The snapshot a call saves, unless it is refused. -/
def Op.saved (s : Snapshot) : Op → Option Snapshot
  | .put record => if record.username.get ⟨0, usernameSize_pos⟩ = 0 then none else s.put record
  | .delete name => (s.position name).map s.delete

/-- What a successful call does to the map. -/
def Op.update (m : Bytes → Option Record) : Op → Bytes → Option Record
  | .put record => Function.update m record.name (some record)
  | .delete name => Function.update m name none

theorem keyed_saved {op : Op} (hs : s.Keyed) (h : op.saved s = some candidate) :
    candidate.Keyed ∧ candidate.accounts = op.update s.accounts := by
  cases op with
  | put record =>
    rw [Op.saved] at h
    split at h
    · cases h
    · exact keyed_put hs h
  | delete name =>
    obtain ⟨p, hp, rfl⟩ := Option.map_eq_some_iff.mp h
    exact keyed_delete hs hp

/-- A call saves its snapshot, or refuses. -/
theorem exec_eq (op : Op) (ram : Ram) : exec op ram = match op.saved ram.snapshot with
    | none => pure (false, ram)
    | some candidate => save candidate ram >>= fun r => pure (decide (r.1 = .ok), r.2.2) := by
  cases op with
  | put record =>
    simp only [exec, put, Op.saved]
    by_cases hname : record.username[0] = 0
    · have hfirst : record.username.get ⟨0, usernameSize_pos⟩ = 0 := hname
      rw [if_pos hname, if_pos hfirst]
      rfl
    · have hfirst : ¬record.username.get ⟨0, usernameSize_pos⟩ = 0 := hname
      rw [if_neg hname, if_neg hfirst]
      cases ram.snapshot.put record with
      | none => rfl
      | some candidate => simp only [bind_assoc, pure_bind]
  | delete name =>
    simp only [exec, delete, Op.saved]
    cases ram.snapshot.position name with
    | none => rfl
    | some p => simp only [Option.map_some, bind_assoc, pure_bind]

/-- A call that returns has stored its snapshot, or failed and changed nothing. -/
theorem exec_eq_some {op : Op} {ram ram' : Ram} {c c' : Chip} {ok : Bool}
    (h : exec op ram c = (some (ok, ram'), c')) :
    (ok = true ∧ ∃ candidate, op.saved ram.snapshot = some candidate ∧
      ram'.snapshot = stamp candidate) ∨ (ok = false ∧ ram' = ram) := by
  rw [exec_eq] at h
  cases hcandidate : op.saved ram.snapshot with
  | none =>
    rw [hcandidate] at h
    simp only [pure_apply, Prod.mk.injEq, Option.some.injEq] at h
    exact .inr ⟨h.1.1.symm, h.1.2.symm⟩
  | some candidate =>
    rw [hcandidate] at h
    obtain ⟨⟨status, x, ram₁⟩, c₁, hsave, h⟩ := bind_eq_some.1 h
    simp only [pure_apply, Prod.mk.injEq, Option.some.injEq] at h
    obtain ⟨⟨rfl, rfl⟩, -⟩ := h
    rcases SectorStore.save_eq_some sound hsave with ⟨rfl, -, rfl, -⟩ | ⟨hne, hsame⟩
    · exact .inl ⟨rfl, candidate, rfl, rfl⟩
    · exact .inr ⟨decide_eq_false hne, hsame⟩

/-- While every command completes, a call succeeds unless it is refused. -/
theorem exec_calm (op : Op) {ram : Ram} (hs : ram.snapshot.Keyed) (m : Cells)
    (log : List Command) : ∃ ram' c', exec op ram ⟨m, {}, log⟩ =
      (some ((op.saved ram.snapshot).isSome, ram'), c') := by
  rw [exec_eq]
  cases hcandidate : op.saved ram.snapshot with
  | none => exact ⟨ram, ⟨m, {}, log⟩, rfl⟩
  | some candidate =>
    obtain ⟨hkeyed, -⟩ := keyed_saved hs hcandidate
    obtain ⟨status, ram', log', hsave, hok⟩ := SectorStore.save_calm sound candidate ram m log
    obtain rfl : status = .ok := hok.mpr ((isValid_stamp candidate).mpr hkeyed.count)
    exact ⟨ram', _, bind_of_some hsave⟩

/-! ## Sequences of calls -/

/-- What a sequence of calls, the newest first, has reported and left in the variables. At each
call the chip holds anything and fails in any way. -/
inductive Called (start : Ram) : List (Op × Bool) → Ram → Prop
  | nil : Called start [] start
  | cons {calls : List (Op × Bool)} {ram ram' : Ram} {op : Op} {ok : Bool} {c c' : Chip} :
      Called start calls ram → exec op ram c = (some (ok, ram'), c') →
      Called start ((op, ok) :: calls) ram'

/-- The record of the last successful put of a name that no successful delete of it followed. -/
def lastPut (name : Bytes) : List (Op × Bool) → Option Record
  | [] => none
  | (.put record, true) :: earlier =>
    if name = record.name then some record else lastPut name earlier
  | (.delete u, true) :: earlier => if name = u then none else lastPut name earlier
  | (_, false) :: earlier => lastPut name earlier

/-- A call is to be refused: a put of a new name when eight accounts exist, a delete of a name
that has none. -/
def Op.Refused (accounts : Bytes → Option Record) (n : ℕ) : Op → Prop
  | .put record => accounts record.name = none ∧ n = maxUsers
  | .delete name => accounts name = none

/-- A record to put has a username. -/
def Op.Named : Op → Prop
  | .put record => record.username.get ⟨0, usernameSize_pos⟩ ≠ 0
  | .delete _ => True

theorem saved_isSome {op : Op} (hs : s.Keyed) (hnamed : op.Named) :
    (op.saved s).isSome = true ↔ ¬op.Refused s.accounts s.count.toNat := by
  rw [← Option.not_isNone, Bool.not_eq_true', ← Bool.not_eq_true, Option.isNone_iff_eq_none,
    not_iff_not]
  cases op with
  | put record =>
    show (if record.username.get ⟨0, usernameSize_pos⟩ = 0 then none else s.put record) = none ↔
      _ ∧ _
    have hcount : maxUsers ≤ s.count.toNat ↔ s.count.toNat = maxUsers :=
      ⟨fun h => le_antisymm hs.count h, fun h => h.ge⟩
    rw [if_neg hnamed, put_eq_none, hcount]
  | delete name =>
    show (s.position name).map s.delete = none ↔ s.accounts name = none
    rw [Option.map_eq_none_iff, position_eq_none]

/-- The calls keep the array a map, and it is the map of the last puts. -/
theorem Called.keyed {start ram : Ram} {calls : List (Op × Bool)}
    (hempty : start.snapshot.count = 0) (h : Called start calls ram) :
    ram.snapshot.Keyed ∧ ∀ name, ram.snapshot.accounts name = lastPut name calls := by
  induction h with
  | nil =>
    refine ⟨keyed_empty hempty, fun name => lookup_eq_none.mpr fun record hrecord => ?_⟩
    simp [Snapshot.records, hempty] at hrecord
  | @cons calls ram ram' op ok c c' _ hcall ih =>
    obtain ⟨hkeyed, haccounts⟩ := ih
    rcases exec_eq_some hcall with ⟨rfl, candidate, hsaved, hsnapshot⟩ | ⟨rfl, rfl⟩
    · obtain ⟨hkeyed', hupdate⟩ := keyed_saved hkeyed hsaved
      refine ⟨hsnapshot ▸ hkeyed'.stamp, fun name => ?_⟩
      rw [hsnapshot]
      show candidate.accounts name = _
      rw [hupdate]
      cases op with
      | put record =>
        show Function.update _ _ _ name = if name = record.name then _ else _
        rw [Function.update_apply, haccounts]
      | delete u =>
        show Function.update _ _ _ name = if name = u then _ else _
        rw [Function.update_apply, haccounts]
    · refine ⟨hkeyed, fun name => (haccounts name).trans ?_⟩
      cases op <;> rfl

/-- **The user store is a bounded map.** After any calls on an empty store, a name has the record
of its last successful put; the list has every account once; and the next call, while the flash
works, fails exactly when it is to be refused, and changes nothing whenever it fails. -/
theorem bounded_map {start ram : Ram} {calls : List (Op × Bool)}
    (hempty : start.snapshot.count = 0) (h : Called start calls ram) :
    (∀ name, (find name ram).map Prod.fst = lastPut name calls) ∧
    (∀ record, record ∈ list maxUsers ram ↔ lastPut record.name calls = some record) ∧
    ((list maxUsers ram).map Record.name).Nodup ∧
    (list maxUsers ram).length = ram.snapshot.count.toNat ∧
    ram.snapshot.count.toNat ≤ maxUsers ∧
    (∀ op : Op, op.Named → ∀ m log, ∃ ok ram' c', exec op ram ⟨m, {}, log⟩ =
      (some (ok, ram'), c') ∧
      (ok = false ↔ op.Refused (fun name => lastPut name calls) ram.snapshot.count.toNat)) ∧
    ∀ op c ram' c', exec op ram c = (some (false, ram'), c') → ram' = ram := by
  obtain ⟨hkeyed, haccounts⟩ := h.keyed hempty
  have hlength := length_records hkeyed.count
  have hlist : list maxUsers ram = ram.snapshot.records :=
    List.take_of_length_le (hlength ▸ hkeyed.count)
  refine ⟨fun name => ?_, fun record => ?_, ?_, ?_, hkeyed.count, fun op hnamed m log => ?_,
    fun op c ram' c' hcall => ?_⟩
  · rw [find_map_fst, haccounts]
  · rw [hlist, ← haccounts, Snapshot.accounts, lookup_iff hkeyed.distinct]
    exact (and_iff_left rfl).symm
  · exact hlist ▸ hkeyed.distinct
  · rw [hlist, hlength]
  · obtain ⟨ram', c', hcall⟩ := exec_calm op hkeyed m log
    refine ⟨_, ram', c', hcall, ?_⟩
    rw [← funext haccounts, ← not_iff_not, Bool.not_eq_false]
    exact saved_isSome hkeyed hnamed
  · rcases exec_eq_some hcall with ⟨hok, -⟩ | ⟨-, hsame⟩
    · cases hok
    · exact hsame

/-! ## Some calls -/

theorem count_saved {op : Op} (hs : s.Keyed) (h : op.saved s = some candidate) :
    candidate.count.toNat ≤ s.count.toNat + 1 := by
  rw [← length_records (keyed_saved hs h).1.count, ← length_records hs.count]
  cases op with
  | put record =>
    rw [Op.saved] at h
    split at h
    · cases h
    · obtain ⟨-, hrecords⟩ := records_put hs.count h
      rw [hrecords]
      split
      · rw [List.length_set]
        exact Nat.le_succ _
      · rw [List.length_append, List.length_singleton]
  | delete name =>
    obtain ⟨p, hp, rfl⟩ := Option.map_eq_some_iff.mp h
    rw [(records_delete hs.count hp).2]
    exact (List.length_eraseIdx_le _ _).trans (Nat.le_succ _)

section Calls

variable {start ram : Ram} {calls : List (Op × Bool)} {op : Op}
  (hempty : start.snapshot.count = 0) (h : Called start calls ram) (hnamed : op.Named)
  (hkeep : ¬op.Refused (fun name => lastPut name calls) ram.snapshot.count.toNat)
include hempty h hnamed hkeep

theorem saved_of_called : ∃ candidate, op.saved ram.snapshot = some candidate := by
  obtain ⟨hkeyed, haccounts⟩ := h.keyed hempty
  rw [← funext haccounts] at hkeep
  exact Option.isSome_iff_exists.1 ((saved_isSome hkeyed hnamed).2 hkeep)

/-- A call that is not refused and in which nothing goes wrong. -/
theorem called_calm : ∃ ram', Called start ((op, true) :: calls) ram' ∧
    ram'.snapshot.count.toNat ≤ ram.snapshot.count.toNat + 1 := by
  obtain ⟨hkeyed, -⟩ := h.keyed hempty
  obtain ⟨candidate, hsaved⟩ := saved_of_called hempty h hnamed hkeep
  obtain ⟨ram', c', hcall⟩ := exec_calm op hkeyed (fun _ => 0xFF) []
  rw [hsaved, Option.isSome_some] at hcall
  refine ⟨ram', h.cons hcall, ?_⟩
  rcases exec_eq_some hcall with ⟨-, candidate', hsaved', hsnapshot⟩ | ⟨hok, -⟩
  · rw [hsnapshot]
    exact (count_saved hkeyed hsaved' : candidate'.count.toNat ≤ _)
  · cases hok

/-- A call whose erase fails. -/
theorem called_unerased : Called start ((op, false) :: calls) ram := by
  obtain ⟨candidate, hsaved⟩ := saved_of_called hempty h hnamed hkeep
  obtain ⟨log, hsave⟩ := SectorStore.save_unerased sound candidate ram (fun _ => 0xFF) true
    fun _ => 0xFF
  have hcall : exec op ram ⟨fun _ => 0xFF, { erases := [.fails true fun _ => 0xFF] }, []⟩ =
      (some (false, ram), ⟨overwrite (sectorStore.target ram) W25q64.sectorSize (fun _ => 0xFF)
        fun _ => 0xFF, {}, log⟩) := by
    rw [exec_eq, hsaved]
    exact bind_of_some hsave
  exact h.cons hcall

end Calls

/-- A record with a username of one character. -/
def named (letter role : UInt8) : Record :=
  { zeroRecord with role := role, username := (Vector.replicate _ 0).set 0 letter usernameSize_pos }

/-- An account is added and another one, the first is replaced, the second is deleted, and the erase
for a third one fails. -/
def someCalls : List (Op × Bool) :=
  [(.put (named 0x63 roleUser), false), (.delete [0x62], true),
    (.put (named 0x61 roleAdministrator), true), (.put (named 0x62 roleUser), true),
    (.put (named 0x61 roleUser), true)]

theorem named_put (letter role : UInt8) (h : letter ≠ 0) : (Op.put (named letter role)).Named := by
  have hpos := usernameSize_pos
  show ((Vector.replicate usernameSize 0).set 0 letter hpos)[0] ≠ 0
  rwa [Vector.getElem_set_self]

theorem bounded_map_someCalls : ∃ ram,
    Called ⟨empty, FlashLayout.userStoreSectorB⟩ someCalls ram ∧
    (find [0x61] ram).map Prod.fst = some (named 0x61 roleAdministrator) ∧
    (find [0x62] ram).map Prod.fst = none ∧ (find [0x63] ram).map Prod.fst = none := by
  have hempty : (SectorRam.snapshot ⟨empty, FlashLayout.userStoreSectorB⟩).count = 0 := rfl
  have hcount : (SectorRam.snapshot ⟨empty, FlashLayout.userStoreSectorB⟩).count.toNat = 0 := rfl
  obtain ⟨ram₁, h₁, hcount₁⟩ := called_calm hempty .nil
    (named_put 0x61 roleUser (by decide)) fun hrefused => absurd hrefused.2 (by rw [hcount]; decide)
  obtain ⟨ram₂, h₂, hcount₂⟩ := called_calm hempty h₁
    (named_put 0x62 roleUser (by decide)) fun hrefused => absurd hrefused.2 (by rw [maxUsers]; omega)
  obtain ⟨ram₃, h₃, hcount₃⟩ := called_calm hempty h₂
    (named_put 0x61 roleAdministrator (by decide)) fun hrefused =>
      absurd hrefused.2 (by rw [maxUsers]; omega)
  have hdelete : (Op.delete [0x62]).Named := trivial
  obtain ⟨ram₄, h₄, hcount₄⟩ := called_calm hempty h₃ hdelete
    (by show lastPut [0x62] _ ≠ none; decide +kernel)
  have h₅ := called_unerased hempty h₄ (named_put 0x63 roleUser (by decide))
    fun hrefused => absurd hrefused.2 (by rw [maxUsers]; omega)
  have hfind := (bounded_map hempty h₅).1
  exact ⟨ram₄, h₅, (hfind _).trans (by decide +kernel), (hfind _).trans (by decide +kernel),
    (hfind _).trans (by decide +kernel)⟩

end HealthCheck.UserStore
