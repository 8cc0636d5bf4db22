import HealthCheck.Api.Lists
import HealthCheck.HealthCheckService

/-!
# What is reported is what is stored

The accounts, the trust anchors, both configurations and the recent results: each body that the
management API sends for one of them is complete, and a general reader of JSON finds in it all that
the device holds. There is one exception. The result behind 2³² − 2 others gets the number of an
erased record, and the list leaves it out.

* `Device.Truthful`, `Device.TruthfulLog` — what a device says of itself is true.
* `Device.truthful_run` — in every state reached when no flash command fails.
* `Device.newest_missing` — the exception.
-/

namespace HealthCheck

open Nor hiding read driven_read read_ok read_cases
open ApiService CString FactoryReset FlashLayout Run TwoBank
open HealthCheckLog (Entry erasedSequence)
open HealthCheckService (statusCode)
open JsonText (Json)

namespace ApiService

/-! ## The results, read back -/

/-- The values of `TlsTransport_StatusTypeDef`. -/
def statuses : List TlsTransport.Status :=
  [.ok, .dnsError, .connectError, .configError, .certificateError, .handshakeError, .ioError,
    .protocolError]

/-- `transportStatusText`, read back. -/
def statusOf (text : Bytes) : Option UInt8 :=
  (statuses.map statusCode).find? fun status => transportStatusText status = text

theorem statusOf_transportStatusText (status : TlsTransport.Status) :
    statusOf (transportStatusText (statusCode status)) = some (statusCode status) := by
  cases status <;> decide

/-- The entry that a client has read. -/
def Outcome.entry (o : Outcome) : Option Entry :=
  (statusOf o.status).map fun status =>
    { sequence := UInt32.ofNat o.sequence
      timestampUnix := UInt32.ofNat o.timestamp
      elapsedMs := UInt32.ofNat o.elapsedMs
      detail := ⟨BitVec.ofInt 32 o.detail⟩
      httpStatus := UInt16.ofNat o.httpStatus
      resourceIndex := UInt8.ofNat o.resourceIndex
      status := status }

def entryOfJson (value : Json) : Option Entry := (Outcome.ofJson value).bind Outcome.entry

/-- The status of an entry is one of the transport's. -/
def Transported (entry : Entry) : Prop := ∃ status, entry.status = statusCode status

/-- All fields come back. -/
theorem entry_of {entry : Entry} (h : Transported entry) :
    (Outcome.of entry).entry = some entry := by
  obtain ⟨status, hstatus⟩ := h
  have hread : statusOf (transportStatusText entry.status) = some entry.status := by
    rw [hstatus, statusOf_transportStatusText]
  simp only [Outcome.entry, Outcome.of, hread, Option.map_some, UInt32.ofNat_toNat,
    UInt16.ofNat_toNat, UInt8.ofNat_toNat, BitVec.ofInt_toInt]

section Lists

variable {α β γ : Type} {item : α → Option β} {next : β → Option γ}

theorem mapM_cons_eq_some {x : α} {xs : List α} {zs : List β} :
    (x :: xs).mapM item = some zs ↔
      ∃ z zs', item x = some z ∧ xs.mapM item = some zs' ∧ zs = z :: zs' := by
  rw [List.mapM_cons]
  change ((item x).bind fun z => (xs.mapM item).bind fun zs' => some (z :: zs')) = some zs ↔ _
  simp only [Option.bind_eq_some_iff, Option.some.injEq]
  constructor
  · rintro ⟨z, hz, zs', hzs, rfl⟩
    exact ⟨z, zs', hz, hzs, rfl⟩
  · rintro ⟨z, zs', hz, hzs, rfl⟩
    exact ⟨z, hz, zs', hzs, rfl⟩

/-- A list whose elements are read in two steps. -/
theorem mapM_bind {f : γ → β} {xs : List α} {ys : List γ} (h : xs.mapM item = some (ys.map f))
    (hnext : ∀ y ∈ ys, next (f y) = some y) :
    xs.mapM (fun x => (item x).bind next) = some ys := by
  induction xs generalizing ys with
  | nil =>
    obtain rfl : ys = [] := List.map_eq_nil_iff.1 (Option.some.inj h).symm
    rfl
  | cons x xs ih =>
    obtain ⟨z, zs, hz, hzs, hys⟩ := mapM_cons_eq_some.1 h
    obtain ⟨y, ys, rfl, rfl, rfl⟩ := List.map_eq_cons_iff.1 hys
    obtain ⟨hy, hrest⟩ := List.forall_mem_cons.1 hnext
    exact mapM_cons_eq_some.2 ⟨y, ys, by rw [hz, Option.bind_some, hy], ih hzs hrest, rfl⟩

/-- What both steps find is what the first one does. -/
theorem map_of_mapM {δ : Type} {p : β → δ} {q : γ → δ}
    (hnext : ∀ z y, next z = some y → q y = p z) {xs : List α} {zs : List β} {ys : List γ}
    (h : xs.mapM item = some zs) (h' : xs.mapM (fun x => (item x).bind next) = some ys) :
    ys.map q = zs.map p := by
  induction xs generalizing zs ys with
  | nil =>
    cases h
    cases h'
    rfl
  | cons x xs ih =>
    obtain ⟨z, zs, hz, hzs, rfl⟩ := mapM_cons_eq_some.1 h
    obtain ⟨y, ys, hy, hys, rfl⟩ := mapM_cons_eq_some.1 h'
    rw [hz, Option.bind_some] at hy
    rw [List.map_cons, List.map_cons, hnext z y hy, ih hzs hys]

end Lists

section Members

variable {name : String} {value : Json}

theorem listMember_eq_some {β : Type} {item : Json → Option β} {zs : List β} :
    listMember name item value = some zs ↔
      ∃ elements, value = .object [(ascii name, .array elements)] ∧
        elements.mapM item = some zs := by
  constructor
  · intro h
    unfold listMember at h
    split at h
    · split at h
      · rename_i elements hname
        exact ⟨elements, by rw [hname], h⟩
      · cases h
    · cases h
  · rintro ⟨elements, rfl, h⟩
    rw [listMember, if_pos rfl, h]

theorem listMember_entries {entries : List Entry} (hentries : ∀ entry ∈ entries, Transported entry)
    (h : listMember name Outcome.ofJson value = some (entries.map Outcome.of)) :
    listMember name entryOfJson value = some entries := by
  obtain ⟨elements, rfl, hmap⟩ := listMember_eq_some.1 h
  exact listMember_eq_some.2 ⟨elements, rfl, mapM_bind hmap fun _ hentry =>
    entry_of (hentries _ hentry)⟩

end Members

/-- A response that shows results shows the entries themselves. -/
theorem Response.Reports.entries {response : Response} {entries : List Entry}
    (h : response.Reports (listMember "logs" Outcome.ofJson) (entries.map Outcome.of))
    (hentries : ∀ entry ∈ entries, Transported entry) :
    response.Reports (listMember "logs" entryOfJson) entries where
  ok := h.ok
  complete := h.complete
  body := by
    obtain ⟨value, hparse, hvalue⟩ := Option.bind_eq_some_iff.1 h.body
    rw [hparse, Option.bind_some, listMember_entries hentries hvalue]

/-- It shows no others. -/
theorem Response.Reports.sequences {response : Response} {found entries : List Entry}
    (h : response.Reports (listMember "logs" Outcome.ofJson) (found.map Outcome.of))
    (h' : response.Reports (listMember "logs" entryOfJson) entries) :
    entries.map Entry.sequence = found.map Entry.sequence := by
  obtain ⟨value, hparse, hvalue⟩ := Option.bind_eq_some_iff.1 h.body
  have hentries := h'.body
  rw [hparse, Option.bind_some] at hentries
  obtain ⟨elements, rfl, hfound⟩ := listMember_eq_some.1 hvalue
  obtain ⟨elements', heq, hread⟩ := listMember_eq_some.1 hentries
  obtain rfl : elements = elements' := by
    injection heq with hmembers
    injection hmembers with hmember
    injection hmember with _ harray
    injection harray
  have hsequences := map_of_mapM (p := fun o => UInt32.ofNat o.sequence) (q := Entry.sequence)
    (fun o entry ho => ?_) hfound hread
  · rw [hsequences, List.map_map]
    exact List.map_congr_left fun entry _ => UInt32.ofNat_toNat
  · obtain ⟨status, -, rfl⟩ := Option.map_eq_some_iff.1 ho
    rfl

/-! ## The anchors -/

/-- The anchors of a map, in the order of their ids. -/
def anchorsOf (m : TlsTrustStore.Anchors) : List Anchor :=
  (List.range TlsTrustStore.maxAnchors).filterMap fun id =>
    (m id).map fun x => ⟨id, x.der.length, x.subject⟩

/-- The bounds that an anchor of a valid snapshot keeps. -/
theorem bounded_anchor {s : TlsTrustStore.Snapshot} (h : TlsTrustStore.isSnapshotValid s = true)
    {id : ℕ} {x : TlsTrustStore.Certificate} (hx : TlsTrustStore.anchors s id = some x) :
    x.der.length < 2 ^ 16 ∧ x.subject.length ≤ TlsTrustStore.subjectSize - 1 := by
  obtain ⟨a, ha, hcertificate⟩ := Option.bind_eq_some_iff.1 hx
  have hwell := List.all_eq_true.1 (TlsTrustStore.all_wellFormed h) a
    (Vector.mem_toList_iff.2 (Vector.mem_of_getElem? ha))
  unfold TlsTrustStore.Anchor.certificate at hcertificate
  split at hcertificate
  · cases hcertificate
  · rename_i hoccupied
    obtain rfl := Option.some.inj hcertificate
    have hlength := TlsTrustStore.length_der hwell hoccupied
    simp only [TlsTrustStore.Anchor.wellFormed, hoccupied, decide_false, Bool.false_or,
      Bool.and_eq_true, decide_eq_true_eq] at hwell
    have hsubject := length_cstr_lt (List.contains_iff_mem.1 hwell.2)
    exact ⟨hlength.trans_lt a.derLength.toNat_lt, Nat.le_sub_one_of_lt hsubject⟩

/-- The list has the whole map. -/
theorem map_list {ram : TlsTrustStore.Ram} (h : TlsTrustStore.isSnapshotValid ram.snapshot = true) :
    (TlsTrustStore.list TlsTrustStore.maxAnchors ram).map Anchor.of =
      anchorsOf (TlsTrustStore.anchors ram.snapshot) := by
  rw [(TlsTrustStore.shows_anchors (TlsTrustStore.all_wellFormed h)).list_eq,
    TlsTrustStore.listing, List.take_of_length_le, List.map_filterMap, anchorsOf]
  · refine List.filterMap_congr fun id _ => ?_
    cases hx : TlsTrustStore.anchors ram.snapshot id with
    | none => rfl
    | some x =>
      obtain ⟨hder, hsubject⟩ := bounded_anchor h hx
      have hlength : (UInt16.ofNat x.der.length).toNat = x.der.length :=
        UInt16.toNat_ofNat_of_lt' hder
      simp only [Option.map_some, TlsTrustStore.info, Anchor.of, hlength,
        List.take_of_length_le hsubject]
  · exact (List.length_filterMap_le _ _).trans_eq List.length_range

/-! ## The results in the log -/

/-- What is in the log under the number of an erased record is not found. -/
theorem recentFrom_sequence {sector : Bank} {remaining room : ℕ} {c c' : Chip}
    {entries : List Entry}
    (h : HealthCheckLog.recentFrom sector remaining room c = (some entries, c')) :
    ∀ entry ∈ entries, entry.sequence ≠ erasedSequence := by
  induction remaining generalizing room c entries with
  | zero =>
    cases h
    exact List.forall_mem_nil _
  | succ remaining ih =>
    cases room with
    | zero =>
      cases h
      exact List.forall_mem_nil _
    | succ room =>
      rw [HealthCheckLog.recentFrom] at h
      obtain ⟨⟨status, bytes⟩, c₁, -, h⟩ := bind_eq_some.1 h
      dsimp only at h
      split at h
      · cases h
        exact List.forall_mem_nil _
      · split at h
        · exact ih h
        · rename_i hkept
          obtain ⟨rest, c₂, hrest, h⟩ := bind_eq_some.1 h
          cases h
          exact List.forall_mem_cons.2 ⟨fun herased => hkept (.inl herased), ih hrest⟩

theorem getRecent_sequence {capacity : ℕ} {ram : HealthCheckLog.Ram} {c c' : Chip}
    {entries : List Entry}
    (h : HealthCheckLog.getRecent capacity ram c = (some entries, c')) :
    ∀ entry ∈ entries, entry.sequence ≠ erasedSequence := by
  obtain ⟨scan, c₁, -, h⟩ := bind_eq_some.1 h
  obtain ⟨newer, c₂, hnewer, h⟩ := bind_eq_some.1 h
  obtain ⟨older, c₃, holder, h⟩ := bind_eq_some.1 h
  cases h
  exact List.forall_mem_append.2 ⟨recentFrom_sequence hnewer, recentFrom_sequence holder⟩

end ApiService

namespace Device

variable {d : Device} {events : List Event}

/-! ## What a device says of itself -/

/-- What `GET target` tells the holder of a token of `role`, when no flash command fails. -/
def Tells {α : Type} (d : Device) (role : UInt8) (target : String) (read : Json → Option α)
    (value : Ram → α) : Prop :=
  ∀ env request body ram principal, d.ram = some ram →
    authorize env request ram = some principal → principal.role = role →
    request.is "GET" target = true →
    ∃ response, dispatch env request body ram ⟨d.cells, {}, []⟩ =
        (some (response, ram), ⟨d.cells, {}, []⟩) ∧ response.Reports read (value ram)

/-- The accounts, the trust anchors and the configurations are reported as they are held. -/
structure Truthful (d : Device) : Prop where
  users : d.Tells UserStore.roleAdministrator "/api/v1/users"
    (listMember "users" Account.ofJson)
    fun ram => master :: ram.auth.users.snapshot.records.map Account.of
  anchors : ∀ role, d.Tells role "/api/v1/trust-anchors"
    (listMember "trust_anchors" Anchor.ofJson)
    fun ram => anchorsOf (TlsTrustStore.anchors ram.trust.snapshot)
  callback : ∀ role, d.Tells role "/api/v1/callback/config" Callback.ofJson
    fun ram => .of ram.callback.snapshot.config
  health : ∀ role, d.Tells role "/api/v1/health-check/config" Monitoring.ofJson
    fun ram => .of ram.health.snapshot

/-- So are the latest results that were recorded. -/
def TruthfulLog (d : Device) : Prop :=
  ∀ role, d.Tells role "/api/v1/health-check/logs" (listMember "logs" entryOfJson)
    fun _ => d.logged.take maxLogResults

theorem truthful (hpresentable : d.Presentable) (hlegible : d.Legible) : d.Truthful where
  users env request body ram principal hram hprincipal hadmin hroute := by
    have haccounts := (shown_of_presentable hpresentable hram).accounts
    have hreports := getUsers_reports (decide_eq_true hadmin) haccounts
    have hlist : UserStore.list UserStore.maxUsers ram.auth.users =
        ram.auth.users.snapshot.records := by
      refine List.take_of_length_le ?_
      rw [UserStore.length_records haccounts.count]
      exact haccounts.count
    rw [hlist] at hreports
    exact ⟨_, congrFun (dispatch_getUsers hprincipal hadmin hroute) _, hreports⟩
  anchors role env request body ram principal hram hprincipal _ hroute := by
    have hreports := getTrustAnchors_reports (TlsTrustStore.printable_list (hlegible.ram hram))
    rw [map_list (hlegible.loaded ram hram).valid] at hreports
    exact ⟨_, congrFun (dispatch_getTrustAnchors hprincipal hroute) _, hreports⟩
  callback role env request body ram principal hram hprincipal _ hroute :=
    ⟨_, congrFun (dispatch_getCallbackConfig hprincipal hroute) _,
      getCallbackConfig_reports (shown_of_presentable hpresentable hram).callback⟩
  health role env request body ram principal hram hprincipal _ hroute :=
    ⟨_, congrFun (dispatch_getHealthCheckConfig hprincipal hroute) _,
      getHealthCheckConfig_reports (shown_of_presentable hpresentable hram).fit
        (shown_of_presentable hpresentable hram).resources⟩

theorem truthfulLog (hrecorded : ∃ hist, Recorded d hist)
    (htransported : ∀ entry ∈ d.logged, Transported entry) : d.TruthfulLog := by
  intro role env request body ram principal hram hprincipal _ hroute
  obtain ⟨hist, hhist⟩ := hrecorded
  have hrecent := hhist.recent hram (n := maxLogResults) (by decide) []
  have hlogs : getLogs ram ⟨d.cells, {}, []⟩ =
      (some (logsResponse (d.logged.take maxLogResults), ram), ⟨d.cells, {}, []⟩) := by
    rw [getLogs_eq, bind_of_some hrecent]
    rfl
  obtain ⟨entries, hfound, -, hreports⟩ := getLogs_reports hlogs
  obtain rfl : d.logged.take maxLogResults = entries :=
    Option.some.inj (Prod.mk.inj (hrecent.symm.trans hfound)).1
  exact ⟨_, (congrFun (dispatch_getLogs hprincipal hroute) _).trans hlogs,
    hreports.entries fun entry hentry => htransported entry (List.mem_of_mem_take hentry)⟩

/-! ## Every state reached -/

/-- The status of a result is one of the transport's. -/
def Event.Transported : Event → Prop
  | .check c _ => ∃ status, c.result.status = statusCode status
  | _ => True

theorem transported_step (d : Device) (e : Event) (h : ∀ entry ∈ d.logged, Transported entry)
    (he : e.Transported) : ∀ entry ∈ (d.step e).logged, Transported entry := by
  cases e with
  | boot fates => exact h
  | request env request body fates => rwa [logged_request]
  | check check fates =>
    simp only [step]
    split
    · exact h
    · rename_i ram _
      refine List.forall_mem_append.2 ⟨fun entry hentry => ?_, h⟩
      obtain ⟨r, hr, hentry⟩ := Option.bind_eq_some_iff.1 (Option.mem_toList.1 hentry)
      obtain ⟨⟨status, handed, log⟩, c₁, happend, hret⟩ := bind_eq_some.1
        (Prod.ext hr rfl : checkResource check ram ⟨d.cells, fates, []⟩ = (some r, _))
      simp only [pure_apply, Prod.mk.injEq, Option.some.injEq] at hret
      obtain ⟨⟨rfl, -⟩, -⟩ := hret
      obtain rfl : handed = some entry := hentry
      have hcontents := HealthCheckService.append_handed happend
      simp only [HealthCheckService.contents, Prod.mk.injEq] at hcontents
      obtain ⟨code, hcode⟩ := he
      exact ⟨code, (congrArg HealthCheckLog.Result.status hcontents.2.1).trans hcode⟩
  | reset locked fates => rwa [logged_reset]

/-- **What is reported is what is stored** in every state reached, when no flash command fails and
the subjects of anchors are as Mbed TLS writes them: the accounts, the anchors and the
configurations, and the results as long as no record gets the number of an erased one. -/
theorem truthful_run (hcalm : ∀ e ∈ events, e.Calm) (hreadable : ∀ e ∈ events, e.Readable)
    (htransported : ∀ e ∈ events, e.Transported) :
    (run step start events).Truthful ∧
      ((run step start events).logged.length < 2 ^ 32 - 1 →
        (run step start events).TruthfulLog) := by
  refine ⟨truthful (presentable_run (whole_of_calm hcalm)) (legible_run hcalm hreadable),
    fun hfew => truthfulLog (recorded_run hcalm hfew) ?_⟩
  exact keeps transported_step (List.forall_mem_nil _) (along_of_forall htransported)

/-! ### The master's results -/

/-- A check that finds nothing wrong. -/
def fineCheck : Check := ⟨0, ⟨0, 200, 0, 0⟩, 0, false⟩

/-- The first start-up, a login of the master, and checks. -/
def checked (n : ℕ) : List Event := .boot {} :: masterLogin :: .replicate n (.check fineCheck {})

/-- What they record. -/
def results : ℕ → List Entry
  | 0 => []
  | n + 1 =>
    (HealthCheckLog.newRecord 0 fineCheck.result 0 (UInt32.ofNat (n + 1))).entry :: results n

theorem length_results (n : ℕ) : (results n).length = n := by
  induction n with
  | zero => rfl
  | succ n ih => rw [results, List.length_cons, ih]

theorem checked_zero : run step start (checked 0) = (start.step (.boot {})).step masterLogin := by
  rw [checked, List.replicate_zero, run, List.foldl_cons, List.foldl_cons, List.foldl_nil]

theorem checked_succ (n : ℕ) : run step start (checked (n + 1)) =
    (run step start (checked n)).step (.check fineCheck {}) := by
  have hsplit : checked (n + 1) = checked n ++ [.check fineCheck {}] := by
    rw [checked, List.replicate_succ']
    rfl
  rw [hsplit, Run.run_append]
  rfl

theorem forall_checked {P : Event → Prop} (hboot : P (.boot {})) (hlogin : P masterLogin)
    (hcheck : P (.check fineCheck {})) (n : ℕ) : ∀ e ∈ checked n, P e := by
  refine List.forall_mem_cons.2 ⟨hboot, List.forall_mem_cons.2 ⟨hlogin, fun e he => ?_⟩⟩
  rwa [List.eq_of_mem_replicate he]

theorem calm_checked : ∀ n, ∀ e ∈ checked n, e.Calm := forall_checked rfl rfl rfl

theorem readable_checked : ∀ n, ∀ e ∈ checked n, e.Readable :=
  forall_checked trivial (List.forall_mem_nil _) trivial

theorem transported_checked : ∀ n, ∀ e ∈ checked n, e.Transported :=
  forall_checked trivial trivial ⟨.ok, rfl⟩

/-- A check records its result, whatever number it gets. -/
theorem step_fineCheck {hist : List HealthCheckLog.Record} {ram : Ram} (h : Recorded d hist)
    (hram : d.ram = some ram) :
    ∃ ram', (d.step (.check fineCheck {})).ram = some ram' ∧ ram'.auth = ram.auth ∧
      (d.step (.check fineCheck {})).logged = (HealthCheckLog.newRecord 0 fineCheck.result 0
        (UInt32.ofNat (hist.length + 1))).entry :: d.logged := by
  have hrunning := h.running ram hram
  obtain ⟨log, c', happend⟩ := HealthCheckLog.append_ok fineCheck.resourceIndex fineCheck.result
    fineCheck.timestamp (c := ⟨d.cells, {}, []⟩) hrunning.on rfl
  have hrecords := bind_of_some (f := fun r => pure (r.2.1,
    { ram with buzzer := fineCheck.sounds ram.buzzer, log := r.2.2 })) happend
  have hcheck : checkResource fineCheck ram ⟨d.cells, {}, []⟩ = _ := hrecords
  have hnext : ram.log.nextSequence = UInt32.ofNat (hist.length + 1) := by
    rw [← hrunning.next, UInt32.ofNat_toNat]
  simp only [step, hram, hcheck, hnext]
  exact ⟨_, rfl, rfl, rfl⟩

/-- They are recorded up to the last number. -/
theorem run_checked {n : ℕ} (h : n ≤ 2 ^ 32 - 1) : ∃ ram,
    (run step start (checked n)).ram = some ram ∧ ram.auth.sessions = masterSessions ∧
      (run step start (checked n)).logged = results n := by
  induction n with
  | zero =>
    obtain ⟨-, -, ram, hram, hsessions⟩ := compiled_session compiled_start
    rw [checked_zero]
    refine ⟨ram, hram, hsessions, ?_⟩
    rw [masterLogin, logged_request, logged_boot, start, results]
  | succ n ih =>
    obtain ⟨ram, hram, hsessions, hlogged⟩ := ih (Nat.le_of_succ_le h)
    have hlength : (run step start (checked n)).logged.length = n := by
      rw [hlogged, length_results]
    obtain ⟨hist, hrecorded⟩ := recorded_run (calm_checked n) (hlength.trans_lt h)
    obtain ⟨ram', hram', hauth, hnew⟩ := step_fineCheck hrecorded hram
    rw [checked_succ]
    refine ⟨ram', hram', by rw [hauth, hsessions], ?_⟩
    rw [hnew, length_logged hrecorded, hlength, hlogged, results]

/-- The master finds the account that is compiled in, and the results of two checks. -/
theorem truthful_session : ∃ ram users logs,
    dispatch masterEnv (masterRequest "GET" "/api/v1/users") [] ram
        ⟨(run step start (checked 2)).cells, {}, []⟩ =
      (some (users, ram), ⟨(run step start (checked 2)).cells, {}, []⟩) ∧
    users.Reports (listMember "users" Account.ofJson)
      (master :: ram.auth.users.snapshot.records.map Account.of) ∧
    dispatch masterEnv (masterRequest "GET" "/api/v1/health-check/logs") [] ram
        ⟨(run step start (checked 2)).cells, {}, []⟩ =
      (some (logs, ram), ⟨(run step start (checked 2)).cells, {}, []⟩) ∧
    logs.Reports (listMember "logs" entryOfJson)
      [⟨2, 0, 0, 0, 200, 0, 0⟩, ⟨1, 0, 0, 0, 200, 0, 0⟩] := by
  obtain ⟨ram, hram, hsessions, hlogged⟩ := run_checked (n := 2) (by decide)
  obtain ⟨htruthful, hlog⟩ :=
    truthful_run (calm_checked 2) (readable_checked 2) (transported_checked 2)
  obtain ⟨users, husers, haccounts⟩ := htruthful.users masterEnv
    (masterRequest "GET" "/api/v1/users") [] ram _ hram (authorize_master rfl hsessions) rfl
    (by decide)
  obtain ⟨logs, hlogs, hresults⟩ := hlog (by rw [hlogged]; decide) UserStore.roleAdministrator
    masterEnv (masterRequest "GET" "/api/v1/health-check/logs") [] ram _ hram
    (authorize_master rfl hsessions) rfl (by decide)
  rw [hlogged] at hresults
  exact ⟨ram, users, logs, husers, haccounts, hlogs, hresults⟩

/-! ### The number of an erased record -/

/-- The result that gets the number of an erased record is not in the list. -/
theorem missing_of_erased {n : ℕ} (hn : n + 1 = 2 ^ 32 - 1) :
    ¬(run step start (checked (n + 1))).TruthfulLog := by
  intro htruthful
  obtain ⟨ram, hram, hsessions, hlogged⟩ := run_checked hn.le
  obtain ⟨response, hdispatch, hreports⟩ := htruthful UserStore.roleAdministrator masterEnv
    (masterRequest "GET" "/api/v1/health-check/logs") [] ram _ hram
    (authorize_master rfl hsessions) rfl (by decide)
  rw [dispatch_getLogs (authorize_master rfl hsessions) (by decide)] at hdispatch
  obtain ⟨found, hrecent, -, hfound⟩ := getLogs_reports hdispatch
  have hsequences := hfound.sequences hreports
  have hnewest : erasedSequence ∈
      ((run step start (checked (n + 1))).logged.take maxLogResults).map Entry.sequence := by
    rw [hlogged, results, hn]
    exact List.mem_cons_self
  rw [hsequences] at hnewest
  obtain ⟨entry, hentry, herased⟩ := List.mem_map.1 hnewest
  exact getRecent_sequence hrecent entry hentry herased

/-- **The newest result is missing** behind 2³² − 1 checks, though each was recorded. -/
theorem newest_missing :
    (∀ e ∈ checked (2 ^ 32 - 1), e.Calm ∧ e.Readable ∧ e.Transported) ∧
      ¬(run step start (checked (2 ^ 32 - 1))).TruthfulLog :=
  ⟨fun e he => ⟨calm_checked _ e he, readable_checked _ e he, transported_checked _ e he⟩,
    missing_of_erased rfl⟩

end Device

end HealthCheck
