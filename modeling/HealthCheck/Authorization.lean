import HealthCheck.AuthRoles
import HealthCheck.MasterSession
import HealthCheck.StoreErasure

/-!
# Who may do what

A request whose token does not carry the administrator's role changes nothing that outlasts a
reboot, and does not sound the buzzer. Tokens come and go with the three token routes and with an
administrator's changes of accounts: the creation of an account closes no session, because an
active session is always for the master or for an account that is already there. That is the one
thing here that depends on how the device got to where it is.

* `Accounted` — what is kept over every run of the device, with any failing flash commands.
* `authorization` — what a request can change in any state reached, and what an unaccepted token
  is told.
-/

namespace HealthCheck.Device

open Nor hiding read driven_read read_ok read_cases
open ApiService FactoryReset FlashLayout TwoBank W25q64 CString Run

/-! ## The users' sectors -/

/-- A bank of the users is as it was, or erased. -/
def Wiped (m m' : Cells) : Prop :=
  ∀ x, (∀ i ∈ UserStore.sectorStore.region x, m' i = m i) ∨
    ∀ i ∈ UserStore.sectorStore.region x, m' i = 0xFF

theorem Wiped.of_same {m m' : Cells} (h : ∀ i ∈ Part.users.store.span, m' i = m i) :
    Wiped m m' :=
  Store.Wiped.of_same (S := UserStore.store) h

/-- When nothing goes wrong, `x` leaves the users' banks as they were, or erases them. -/
def Wipes {α : Type} (x : FlashM α) : Prop :=
  ∀ c : Chip, c.fates = {} → Wiped c.cells (x c).2.cells ∧ (x c).2.fates = {}

theorem Wipes.of_driven {α : Type} {x : FlashM α} {R : Set ℕ} (h : Driven R x)
    (hR : Disjoint Part.users.store.span R) : Wipes x :=
  FactoryReset.Wipes.of_driven (S := UserStore.store) h hR

theorem Wipes.pure {α : Type} (a : α) : Wipes (Pure.pure a : FlashM α) :=
  FactoryReset.Wipes.pure (S := UserStore.store) a

theorem Wipes.bind {α β : Type} {x : FlashM α} {f : α → FlashM β} (hx : Wipes x)
    (hf : ∀ a, Wipes (f a)) : Wipes (x >>= f) :=
  FactoryReset.Wipes.bind (S := UserStore.store) hx hf

theorem Wipes.ite {α : Type} {p : Prop} [Decidable p] {x y : FlashM α} (hx : Wipes x)
    (hy : Wipes y) : Wipes (if p then x else y) :=
  FactoryReset.Wipes.ite (S := UserStore.store) hx hy

theorem banksAreSectors_users : BanksAreSectors UserStore.store := fun x =>
  ⟨_, UserStore.sound.aligned x, rfl⟩

theorem wipes_recover : Wipes recover := FactoryReset.wipes_recover banksAreSectors_users

theorem wipes_execute (locked : Bool) : Wipes (execute locked) :=
  FactoryReset.wipes_execute banksAreSectors_users Part.users.disjoint_marker locked

/-- Whatever the reads of its start-up code report, the user store comes up with a valid
snapshot from its banks, or empty. -/
theorem users_init {c c' : Chip} {status : Status} {ram : UserStore.Ram}
    (h : UserStore.init c = (some (status, ram), c')) : c'.cells = c.cells ∧
      (ram.snapshot = UserStore.empty ∨ ∃ x, ram.snapshot = UserStore.store.load c.cells x ∧
        UserStore.store.valid (UserStore.store.load c.cells x) = true) := by
  rw [UserStore.init_eq] at h
  obtain ⟨found, c₁, hfound, h⟩ := bind_eq_some.1 h
  obtain ⟨rfl, hchoose⟩ := SectorStore.newestSnapshot_returns UserStore.sound hfound
  cases found with
  | none =>
    rw [UserStore.resume_none, pure_apply, Prod.mk.injEq, Option.some.injEq, Prod.mk.injEq] at h
    obtain ⟨⟨-, rfl⟩, rfl⟩ := h
    exact ⟨rfl, .inl rfl⟩
  | some found =>
    rw [UserStore.resume_some, pure_apply, Prod.mk.injEq, Option.some.injEq, Prod.mk.injEq] at h
    obtain ⟨⟨-, rfl⟩, rfl⟩ := h
    obtain ⟨x, rfl, hvalid⟩ := SectorStore.choose_eq_some hchoose.symm
    exact ⟨rfl, .inr ⟨x, rfl, hvalid⟩⟩

theorem driven_users_init : Driven ∅ UserStore.init := by
  rw [UserStore.init_eq]
  refine (SectorStore.driven_newestSnapshot _).bind fun found => ?_
  cases found <;> exact .pure _

theorem wipes_openStores : Wipes openStores := by
  have hpart : ∀ p : Part, p ≠ .users → Wipes p.store.init := fun p hp =>
    .of_driven p.lawful.init_driven (Part.disjoint hp.symm)
  refine (hpart .trust (by decide)).bind fun _ => (Wipes.pure _).ite ?_
  refine (hpart .callback (by decide)).bind fun _ => (Wipes.pure _).ite ?_
  refine (hpart .health (by decide)).bind fun _ => (Wipes.pure _).ite ?_
  refine (Wipes.of_driven HealthCheckLog.driven_init Part.users.disjoint_log).bind fun _ =>
    (Wipes.pure _).ite ?_
  refine (hpart .credentials (by decide)).bind fun _ => (Wipes.pure _).ite ?_
  exact (Wipes.of_driven driven_users_init (Set.disjoint_empty _)).bind fun _ =>
    (Wipes.pure _).ite (.pure _)

theorem wipes_startup : Wipes startup :=
  wipes_recover.bind fun _ => (Wipes.pure _).ite (wipes_openStores.bind fun _ => .pure _)

/-- No session is active after start-up, and the users are those in a bank, or none. -/
theorem startup_users {c c' : Chip} {ram : Ram} (h : startup c = (some (some ram), c')) :
    ram.auth.sessions = .replicate _ AuthService.zeroSession ∧
      (ram.auth.users.snapshot = UserStore.empty ∨
        ∃ x, ram.auth.users.snapshot = UserStore.store.load c'.cells x ∧
          UserStore.store.valid (UserStore.store.load c'.cells x) = true) := by
  obtain ⟨stores, _, _, _, _, _, _, -, -, -, -, -, -, husers, rfl⟩ := startup_eq_some h
  refine ⟨rfl, ?_⟩
  obtain ⟨hcells, hsnapshot⟩ := users_init husers
  rw [hcells]
  exact hsnapshot

/-! ## The accounts behind the sessions -/

/-- The names of the accounts end in their arrays, and none is the master's. -/
structure Accounts (s : UserStore.Snapshot) : Prop where
  wellformed : s.Wellformed
  noMaster : ∀ r ∈ s.records, r.name ≠ AuthService.masterUsername

theorem accounts_empty : Accounts UserStore.empty :=
  ⟨UserStore.wellformed_empty, fun _ h => by cases h⟩

theorem accounts_stamp {s : UserStore.Snapshot} : Accounts (UserStore.stamp s) ↔ Accounts s :=
  ⟨fun h => ⟨UserStore.wellformed_stamp.1 h.1, h.2⟩,
    fun h => ⟨UserStore.wellformed_stamp.2 h.1, h.2⟩⟩

theorem accounts_put {s candidate : UserStore.Snapshot} {record : UserStore.Record}
    (hs : Accounts s) (hzero : 0 ∈ record.username.toList)
    (hmaster : record.name ≠ AuthService.masterUsername) (h : s.put record = some candidate) :
    Accounts candidate := by
  refine ⟨UserStore.wellformed_put hs.1 hzero h, fun r hr => ?_⟩
  rw [(UserStore.records_put hs.1.count h).2] at hr
  split at hr
  · rcases List.mem_or_eq_of_mem_set hr with hr | rfl
    · exact hs.2 r hr
    · exact hmaster
  · rcases List.mem_append.1 hr with hr | hr
    · exact hs.2 r hr
    · rw [List.mem_singleton.1 hr]
      exact hmaster

theorem accounts_delete {s : UserStore.Snapshot} {name : Bytes} {p : ℕ} (hs : Accounts s)
    (hp : s.position name = some p) : Accounts (s.delete p) := by
  refine ⟨UserStore.wellformed_delete hs.1 hp, fun r hr => ?_⟩
  rw [(UserStore.records_delete hs.1.count hp).2] at hr
  exact hs.2 r (List.mem_of_mem_eraseIdx hr)

theorem find_master {users : UserStore.Ram} (h : Accounts users.snapshot) :
    UserStore.find AuthService.masterUsername users = none := by
  refine Option.map_eq_none_iff.1 ((UserStore.find_map_fst _ users).trans ?_)
  exact List.find?_eq_none.2 fun r hr => by simpa using h.noMaster r hr

theorem accounts_of_coupled {auth : AuthService.Ram} (h : AuthService.Coupled auth) :
    Accounts auth.users.snapshot := by
  refine ⟨h.wellformed, fun r hr hname => ?_⟩
  have hfound := UserStore.find_isSome hr hname
  rw [h.noMaster] at hfound
  cases hfound

/-- What a request can store keeps them. -/
theorem accounts_exec {request : Request} {ram : Ram} {op : UserStore.Op}
    (h : Accounts ram.auth.users.snapshot) (hop : UserChanges request ram op) {ok : Bool}
    {users : UserStore.Ram} {c c' : Chip}
    (hexec : UserStore.exec op ram.auth.users c = (some (ok, users), c')) :
    Accounts users.snapshot ∧ (ok = false → users = ram.auth.users) := by
  cases op with
  | put record =>
    obtain ⟨-, -, hzero, hmaster, -⟩ := hop
    obtain ⟨⟨status, users'⟩, c₁, hcall, hret⟩ := bind_eq_some.1 hexec
    simp only [pure_apply, Prod.mk.injEq, Option.some.injEq] at hret
    obtain ⟨⟨rfl, rfl⟩, rfl⟩ := hret
    rcases UserStore.put_eq_some hcall with ⟨rfl, candidate, hcandidate, hsnapshot⟩ | ⟨-, rfl⟩
    · refine ⟨?_, nofun⟩
      rw [hsnapshot, accounts_stamp]
      exact accounts_put h hzero hmaster hcandidate
    · exact ⟨h, fun _ => rfl⟩
  | delete name =>
    obtain ⟨⟨status, users'⟩, c₁, hcall, hret⟩ := bind_eq_some.1 hexec
    simp only [pure_apply, Prod.mk.injEq, Option.some.injEq] at hret
    obtain ⟨⟨rfl, rfl⟩, rfl⟩ := hret
    rcases UserStore.delete_eq_some hcall with ⟨rfl, p, hp, hsnapshot⟩ | ⟨-, rfl⟩
    · refine ⟨?_, nofun⟩
      rw [hsnapshot, accounts_stamp]
      exact accounts_delete h hp
    · exact ⟨h, fun _ => rfl⟩

/-- Valid snapshots of the users in the banks have no account of the master, and the sessions of
a running device agree with the users. -/
structure Accounted (d : Device) : Prop where
  images : UserStore.store.Images Accounts d.cells
  coupled : ∀ ram, d.ram = some ram → AuthService.Coupled ram.auth

theorem images_wiped {m m' : Cells} (h : UserStore.store.Images Accounts m) (hm : Wiped m m') :
    UserStore.store.Images Accounts m' :=
  h.wiped UserStore.lawful hm

/-- The variables after a request. -/
theorem coupled_dispatch {env : Env} {request : Request} {ram : Ram} {x : Route}
    (h : AuthService.Coupled ram.auth) (heffect : Effect env request ram x) {c c' : Chip}
    {r : Response × Ram} (hx : x c = (some r, c')) : AuthService.Coupled r.2.auth := by
  cases heffect with
  | quiet hquiet => rwa [hquiet.same c r c' hx]
  | session _ _ auth hgranted _ hroute =>
    rw [hroute, pure_apply, Prod.mk.injEq, Option.some.injEq] at hx
    rw [← hx.1]
    show AuthService.Coupled auth
    cases hgranted with
    | login => exact h.login
    | refresh => exact h.refresh
    | revoke => exact h.revoke
  | buzzer _ _ _ hroute =>
    rw [hroute, pure_apply, Prod.mk.injEq, Option.some.injEq] at hx
    rwa [← hx.1]
  | putUser _ _ _ _ _ _ _ _ _ _ _ hroute =>
    rw [hroute] at hx
    obtain ⟨⟨status, auth⟩, c₁, hput, hx⟩ := bind_eq_some.1 hx
    rw [pure_apply, Prod.mk.injEq, Option.some.injEq] at hx
    rw [← hx.1]
    exact h.putUser hput
  | deleteUser _ _ _ _ _ hroute =>
    rw [hroute] at hx
    obtain ⟨⟨status, auth⟩, c₁, hdelete, hx⟩ := bind_eq_some.1 hx
    rw [pure_apply, Prod.mk.injEq, Option.some.injEq] at hx
    rw [← hx.1]
    exact h.deleteUser hdelete
  | drives _ p op hasked hdrives =>
    have hp : p ≠ .users := by
      rintro rfl
      exact hasked
    have hkept := hdrives.kept c r c' hx
    have hauth : r.2.auth = ram.auth :=
      congrArg₂ AuthService.Ram.mk (hkept.sessions hp) (hkept.parts .users hp.symm)
    rwa [hauth]

/-- The users' banks after a request that nothing interrupts. -/
theorem images_dispatch {env : Env} {request : Request} {ram : Ram} {x : Route} {m : Cells}
    (h : UserStore.store.Images Accounts m) (hram : AuthService.Coupled ram.auth)
    (heffect : Effect env request ram x) :
    UserStore.store.Images Accounts (x ⟨m, {}, []⟩).2.cells := by
  rcases heffect.changes with hstill | ⟨p, op, hop, hdrives⟩
  · exact images_wiped h (.of_same fun i _ =>
      (hstill.driven.steps ⟨m, {}, []⟩).outside i (Set.notMem_empty i))
  · rw [hdrives.chip]
    by_cases hp : p = .users
    · subst hp
      refine Store.Images.call UserStore.lawful rfl h fun users c' hexec => ?_
      exact (accounts_exec (accounts_of_coupled hram) hop hexec).1
    · have hdriven : Driven p.store.span (p.store.exec op (ram.part p)) :=
        Store.driven_exec p.lawful op _
      exact images_wiped h (.of_same fun i hi => (hdriven.steps ⟨m, {}, []⟩).outside i
        (Set.disjoint_left.1 (Part.disjoint (Ne.symm hp)) hi))

/-- A valid snapshot of the users that is found after an event is one from before it, or the one
it was to leave. -/
def Intact (d : Device) (e : Event) : Prop :=
  Torn (S := UserStore.store) d.cells (d.step e).cells (d.step e.calm).cells

theorem images_calm {d : Device} (h : Accounted d) (e : Event) :
    UserStore.store.Images Accounts (d.step e.calm).cells := by
  cases e with
  | boot => exact images_wiped h.images (wipes_startup ⟨d.cells, {}, []⟩ rfl).1
  | request env request body =>
    simp only [Event.calm, step]
    split
    · exact h.images
    · rename_i ram hram
      exact images_dispatch h.images (h.coupled ram hram) (dispatch_effect env request body ram)
  | check check =>
    simp only [Event.calm, step]
    split
    · exact h.images
    · rename_i ram _
      have hwipes : Wipes (checkResource check ram) :=
        (Wipes.of_driven (HealthCheckLog.driven_append ..) Part.users.disjoint_log).bind
          fun _ => .pure _
      exact images_wiped h.images (hwipes ⟨d.cells, {}, []⟩ rfl).1
  | reset locked =>
    simp only [Event.calm, step]
    split
    · exact h.images
    · exact images_wiped h.images (wipes_execute locked ⟨d.cells, {}, []⟩ rfl).1

/-- **Sessions and users agree in every state reached.** -/
theorem accounted_step {d : Device} {e : Event} (h : Accounted d) (he : Intact d e) :
    Accounted (d.step e) := by
  have himages : UserStore.store.Images Accounts (d.step e).cells :=
    h.images.torn (images_calm h e) he
  refine ⟨himages, fun ram hram => ?_⟩
  rcases ram_step hram with ⟨fates, c', hstartup, hcells⟩ |
    ⟨before, env, request, body, response, fates, c', hbefore, hdispatch⟩ |
    ⟨before, log, buzzer, hbefore, rfl⟩
  · rw [hcells] at himages
    obtain ⟨hsessions, husers⟩ := startup_users hstartup
    have haccounts : Accounts ram.auth.users.snapshot := by
      rcases husers with hempty | ⟨x, hload, hvalid⟩
      · rw [hempty]
        exact accounts_empty
      · rw [hload]
        exact himages x hvalid
    have hauth : ram.auth = ⟨.replicate _ AuthService.zeroSession, ram.auth.users⟩ :=
      congrArg (AuthService.Ram.mk · _) hsessions
    rw [hauth]
    exact AuthService.coupled_start haccounts.wellformed (find_master haccounts)
  · exact coupled_dispatch (h.coupled before hbefore) (dispatch_effect env request body before)
      hdispatch
  · exact h.coupled before hbefore

theorem accounted_start : Accounted start where
  images := (Store.stocked_erased UserStore.lawful).images
  coupled := nofun

theorem accounted_run {events : List Event} (h : Along step Intact start events) :
    Accounted (run step start events) :=
  keeps (fun _ _ => accounted_step) accounted_start h

/-! ## What requests change -/

/-- Without the administrator's role nothing changes that outlasts a reboot, nor the buzzer. -/
theorem unprivileged {env : Env} {request : Request} {ram : Ram} {x : Route}
    (heffect : Effect env request ram x) (hno : ¬Administrator env request ram) (c : Chip) :
    (x c).2.cells = c.cells ∧ ∀ r c', x c = (some r, c') →
      (∀ p, r.2.part p = ram.part p) ∧ r.2.buzzer = ram.buzzer := by
  cases heffect with
  | quiet hquiet =>
    refine ⟨funext fun i => (hquiet.driven.steps c).outside i (Set.notMem_empty i), ?_⟩
    intro r c' hx
    rw [hquiet.same c r c' hx]
    exact ⟨fun _ => rfl, rfl⟩
  | session _ _ auth hgranted _ hroute =>
    subst hroute
    refine ⟨rfl, fun r c' hx => ?_⟩
    rw [pure_apply, Prod.mk.injEq, Option.some.injEq] at hx
    rw [← hx.1]
    refine ⟨fun p => ?_, rfl⟩
    cases p with
    | users => exact hgranted.users
    | _ => rfl
  | buzzer hadmin => exact absurd hadmin hno
  | putUser principal hprincipal hadmin => exact absurd ⟨principal, hprincipal, hadmin⟩ hno
  | deleteUser principal hprincipal hadmin => exact absurd ⟨principal, hprincipal, hadmin⟩ hno
  | drives hadmin => exact absurd hadmin hno

/-- There is no session to close for a name without an account. -/
theorem closeSession_unknown {auth : AuthService.Ram} (h : AuthService.Coupled auth) {u : Bytes}
    (hmaster : u ≠ AuthService.masterUsername) (hfind : UserStore.find u auth.users = none) :
    AuthService.closeSession u auth.sessions = auth.sessions := by
  unfold AuthService.closeSession
  split
  · rfl
  · rename_i i _
    refine if_neg fun hmine => ?_
    rcases h.backed i u (AuthService.user_eq_some.2 hmine) with ⟨hu, -⟩ | ⟨record, p, hfound, -⟩
    · exact hmaster hu
    · rw [hfind] at hfound
      cases hfound

/-- Sessions change with the token routes, or when an administrator changes or deletes an
account. -/
theorem sessions_changed {env : Env} {request : Request} {ram : Ram} {x : Route}
    (h : AuthService.Coupled ram.auth) (heffect : Effect env request ram x) {c c' : Chip}
    {r : Response × Ram} (hx : x c = (some r, c'))
    (hchanged : r.2.auth.sessions ≠ ram.auth.sessions) :
    request.IsToken ∧ r.1.status = 200 ∨ Administrator env request ram ∧
      (request.under "PUT" "/api/v1/users/" ∨ request.under "DELETE" "/api/v1/users/") := by
  cases heffect with
  | quiet hquiet => exact absurd (by rw [hquiet.same c r c' hx]) hchanged
  | session htoken response auth _ hstatus hroute =>
    rw [hroute, pure_apply, Prod.mk.injEq, Option.some.injEq] at hx
    rw [← hx.1] at hchanged ⊢
    exact .inl ⟨htoken, hstatus hchanged⟩
  | buzzer _ _ _ hroute =>
    rw [hroute, pure_apply, Prod.mk.injEq, Option.some.injEq] at hx
    exact absurd (by rw [← hx.1]) hchanged
  | putUser principal hprincipal hadmin username password role enabled mustExist _ hasked _
      hroute =>
    refine .inr ⟨⟨principal, hprincipal, hadmin⟩, ?_⟩
    rcases hasked with ⟨rfl, -⟩ | ⟨-, hput, -⟩
    · -- a new account has no session
      rw [hroute] at hx
      obtain ⟨⟨status, auth⟩, c₁, hput, hx⟩ := bind_eq_some.1 hx
      rw [pure_apply, Prod.mk.injEq, Option.some.injEq] at hx
      rw [← hx.1] at hchanged
      refine absurd ?_ hchanged
      show auth.sessions = ram.auth.sessions
      rcases AuthService.putUser_new hput with ⟨hsessions, hmaster, hfind⟩ | hsame
      · rw [hsessions, closeSession_unknown h hmaster hfind]
      · rw [hsame]
    · exact .inl hput
  | deleteUser principal hprincipal hadmin hasked =>
    exact .inr ⟨⟨principal, hprincipal, hadmin⟩, .inr hasked⟩
  | drives _ p op hasked hdrives =>
    have hp : p ≠ .users := by
      rintro rfl
      exact hasked
    exact absurd ((hdrives.kept c r c' hx).sessions hp) hchanged

/-- The routes that need no access token. -/
def Open (request : Request) : Prop :=
  request.is "GET" "/health" ∨ request.is "HEAD" "/health" ∨
    request.is "POST" "/api/v1/auth/token" ∨ request.is "POST" "/api/v1/auth/refresh"

/-- An unaccepted token is told so before anything else. -/
theorem dispatch_rejected {env : Env} {request : Request} (body : Bytes) {ram : Ram}
    (hrejected : authorize env request ram = none) (hopen : ¬Open request) :
    dispatch env request body ram = pure (invalidAccessToken, ram) := by
  simp only [Open, not_or] at hopen
  obtain ⟨hget, hhead, htoken, hrefresh⟩ := hopen
  unfold dispatch
  rw [if_neg (not_or.2 ⟨hget, hhead⟩), if_neg htoken, if_neg hrefresh, hrejected]

/-- **Authorization of the management API**, in every state that a device reaches from erased
flash, whatever flash commands fail or lose power on the way, while what is cut off fails its
checksum, and for every request. Without an accepted token of an administrator nothing is written
and no store and no flag of the buzzer changes. Sessions change with a token route that succeeds,
or with an administrator's update or deletion of an account. A token that is not accepted gets
401 on all but the open routes, and the same answer in any state that does not accept it. -/
theorem authorization {events : List Event} (hevents : Along step Intact start events) {ram : Ram}
    (hram : (run step start events).ram = some ram) (env : Env) (request : Request)
    (body : Bytes) :
    (¬Administrator env request ram → ∀ c, (dispatch env request body ram c).2.cells = c.cells ∧
      ∀ r c', dispatch env request body ram c = (some r, c') →
        (∀ p, r.2.part p = ram.part p) ∧ r.2.buzzer = ram.buzzer) ∧
    (∀ c r c', dispatch env request body ram c = (some r, c') →
      r.2.auth.sessions ≠ ram.auth.sessions →
      request.IsToken ∧ r.1.status = 200 ∨ Administrator env request ram ∧
        (request.under "PUT" "/api/v1/users/" ∨ request.under "DELETE" "/api/v1/users/")) ∧
    (authorize env request ram = none → ¬Open request → ∀ c,
      dispatch env request body ram c = (some (invalidAccessToken, ram), c) ∧
      invalidAccessToken.status = 401 ∧ ∀ other, authorize env request other = none →
        (dispatch env request body other c).1.map Prod.fst =
          (dispatch env request body ram c).1.map Prod.fst) := by
  have heffect := dispatch_effect env request body ram
  have hcoupled := (accounted_run hevents).coupled ram hram
  refine ⟨fun hno c => unprivileged heffect hno c,
    fun c r c' hx hchanged => sessions_changed hcoupled heffect hx hchanged,
    fun hrejected hopen c => ?_⟩
  rw [dispatch_rejected body hrejected hopen]
  refine ⟨rfl, rfl, fun other hother => ?_⟩
  rw [dispatch_rejected body hother hopen]
  rfl

/-- A request to delete an account, with the master's refresh token. -/
def refreshRequest : Request :=
  { masterRequest "DELETE" "/api/v1/users/bob" with authorization := threeToken }

/-- The master has logged in again behind a save that lost power. With its access token it is the
administrator, with its refresh token it gets 401. -/
theorem authorization_master : ∃ ram, (run step start masterRun).ram = some ram ∧
    Administrator masterEnv (masterRequest "DELETE" "/api/v1/users/bob") ram ∧ ∀ c,
      dispatch masterEnv refreshRequest [] ram c = (some (invalidAccessToken, ram), c) := by
  obtain ⟨-, ram, hram, hsessions⟩ := run_masterRun
  have hevents : Along step Intact start masterRun :=
    along_masterRun (fun d e he _ _ _ _ => .inr (by rw [calm_master he]))
      fun d ram _ _ hram hsessions => torn_cutPeriod hram hsessions .users _
  have hrejected : authorize masterEnv refreshRequest ram = none := by
    have htoken : AuthService.authorize masterEnv.sha256 refreshRequest.authorization
        masterEnv.authorizedAt masterSessions = (.invalidPassword, none) := by
      decide +kernel
    rw [authorize, hsessions, htoken]
  have hopen : ¬Open refreshRequest := by
    unfold Open
    decide
  exact ⟨ram, hram, administrator_master rfl hsessions, fun c =>
    ((authorization hevents hram masterEnv refreshRequest []).2.2 hrejected hopen c).1⟩

end HealthCheck.Device
