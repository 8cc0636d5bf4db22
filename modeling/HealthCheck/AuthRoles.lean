import HealthCheck.AuthSessions
import HealthCheck.UserMap

/-!
# Sessions and the accounts behind them

The session table and the user store change in separate steps: an account is saved first, then
its session is closed. Between any two calls they agree all the same, whatever failed: an active
session is for the master account, or for a stored and enabled account, and carries its role. So
nine slots are enough for eight accounts and the master.

* `sessions_coupled`: the agreement in every reachable state, and what follows from it.
-/

namespace HealthCheck.AuthService

open Nor hiding read driven_read read_ok read_cases
open CString SlotTable

/-! ## Accounts -/

/-- An account that can log in, with its role: the master, or a stored and enabled user. -/
def Account (users : UserStore.Ram) (u : Bytes) (role : UInt8) : Prop :=
  u = masterUsername ∧ role = UserStore.roleAdministrator ∨
    ∃ record p, UserStore.find u users = some (record, p) ∧ record.enabled ≠ 0 ∧
      record.role = role

theorem account_iff {users : UserStore.Ram} {u : Bytes} {role : UInt8} :
    Account users u role ↔ u = masterUsername ∧ role = UserStore.roleAdministrator ∨
      ∃ record ∈ (UserStore.find u users).map Prod.fst,
        record.enabled ≠ 0 ∧ record.role = role := by
  refine or_congr_right ⟨?_, ?_⟩
  · rintro ⟨record, p, hfind, henabled, hrole⟩
    exact ⟨record, by rw [hfind]; rfl, henabled, hrole⟩
  · rintro ⟨record, hrecord, henabled, hrole⟩
    obtain ⟨⟨record', p⟩, hfind, rfl⟩ := Option.map_eq_some_iff.mp hrecord
    exact ⟨record', p, hfind, henabled, hrole⟩

/-- An account is known as long as its record is found. -/
theorem Account.congr {users users' : UserStore.Ram} {u : Bytes} {role : UInt8}
    (h : Account users u role)
    (hfind : (UserStore.find u users').map Prod.fst = (UserStore.find u users).map Prod.fst) :
    Account users' u role := by
  rw [account_iff, hfind]
  exact account_iff.mp h

theorem Account.known {users : UserStore.Ram} {u : Bytes} {role : UInt8}
    (h : Account users u role) : Known users u := by
  rcases h with ⟨rfl, -⟩ | ⟨record, p, hfind, -⟩
  · exact .inl rfl
  · obtain ⟨hmem, hname⟩ := UserStore.find_eq_some hfind
    exact .inr ⟨record, hmem, hname⟩

/-- A password is right for an account only. -/
theorem account_of_checkPassword {derive : Derive} {u password : Bytes} {users : UserStore.Ram}
    (h : (checkPassword derive u password users).1 = .ok) :
    Account users u (checkPassword derive u password users).2 := by
  unfold checkPassword at h ⊢
  by_cases hmaster : u = masterUsername
  · rw [if_pos hmaster]
    exact .inl ⟨hmaster, rfl⟩
  · rw [if_neg hmaster] at h ⊢
    cases hfind : UserStore.find u users with
    | none =>
      rw [hfind] at h
      cases h
    | some found =>
      obtain ⟨record, p⟩ := found
      rw [hfind] at h
      by_cases henabled : record.enabled = 0
      · simp only [henabled, ↓reduceIte] at h
        cases h
      · simp only [henabled, ↓reduceIte]
        exact .inr ⟨record, p, hfind, henabled, rfl⟩

/-! ## Sessions and accounts -/

/-- The sessions and the stored users agree. -/
structure Coupled (ram : Ram) : Prop where
  wellformed : ram.users.snapshot.Wellformed
  noMaster : UserStore.find masterUsername ram.users = none
  distinct : Distinct Session.user ram.sessions
  backed : ∀ (i : Fin sessionCount) (u : Bytes), (ram.sessions.get i).user = some u →
    Account ram.users u (ram.sessions.get i).role

/-- The names that a session can have. -/
def names (users : UserStore.Ram) : List Bytes :=
  masterUsername :: users.snapshot.records.map UserStore.Record.name

theorem mem_names {users : UserStore.Ram} {u : Bytes} (h : Known users u) : u ∈ names users := by
  rcases h with rfl | ⟨record, hmem, rfl⟩
  · exact List.mem_cons_self
  · exact List.mem_cons_of_mem _ (List.mem_map_of_mem hmem)

/-- A slot is left for every account. -/
theorem Coupled.findSession_ne_none {ram : Ram} (h : Coupled ram) {u : Bytes}
    (hu : Known ram.users u) : findSession ram.sessions u ≠ none := by
  rw [findSession_eq]
  refine slot_ne_none h.distinct
    (fun j k hk => mem_names (h.backed j k hk).known) ?_ (mem_names hu)
  have hcount := h.wellformed.count
  rw [names, List.length_cons, List.length_map, UserStore.length_records hcount]
  exact Nat.succ_le_succ hcount

theorem Coupled.copyUsername_eq {ram : Ram} (h : Coupled ram) {i : Fin sessionCount}
    (hactive : (ram.sessions.get i).active ≠ 0) :
    copyUsername (ram.sessions.get i) = (ram.sessions.get i).name := by
  have huser : (ram.sessions.get i).user = some (ram.sessions.get i).name :=
    user_eq_some.mpr ⟨hactive, rfl⟩
  obtain ⟨hlength, -⟩ := length_of_known h.wellformed (h.backed i _ huser).known
  exact List.take_of_length_le (Nat.le_sub_one_of_lt hlength)

/-! ## The operations -/

section Operations

variable {sha256 : Sha256} {derive : Derive} {draws : Draws} {ram ram' : Ram} {u : Bytes}
  {role : UInt8} {c c' : Chip}

/-- A session that is issued is for the account and role that were asked for. -/
theorem issue_eq_ok {now : UInt32} {pair : Option TokenPair} {sessions sessions' : Sessions}
    (h : issue sha256 u role draws now sessions = (.ok, pair, sessions')) :
    ∃ i session, findSession sessions u = some i ∧ sessions' = sessions.set i session i.isLt ∧
      session.active ≠ 0 ∧ session.username = charArray UserStore.usernameSize u ∧
      session.role = role := by
  unfold issue at h
  split at h
  · dsimp only at h
    split at h
    · split at h
      · cases h
      · next i hi =>
        cases h
        exact ⟨i, _, hi, rfl, by show (1 : UInt8) ≠ 0; decide, rfl, rfl⟩
    · cases h
  · cases h

theorem Coupled.issue {now : UInt32} {pair : Option TokenPair} {sessions' : Sessions}
    (h : Coupled ram) (haccount : Account ram.users u role)
    (hissue : issue sha256 u role draws now ram.sessions = (.ok, pair, sessions')) :
    Coupled { ram with sessions := sessions' } := by
  obtain ⟨i, session, hi, rfl, hactive, husername, hrole⟩ := issue_eq_ok hissue
  obtain ⟨hlength, hzero⟩ := length_of_known h.wellformed haccount.known
  have huser : session.user = some u := by
    refine user_eq_some.mpr ⟨hactive, ?_⟩
    rw [Session.name, husername]
    exact cstr_charArray hlength hzero
  rw [findSession_eq] at hi
  refine ⟨h.wellformed, h.noMaster, distinct_store h.distinct hi huser, fun j v hj => ?_⟩
  change ((ram.sessions.set i session).get j).user = some v at hj
  show Account ram.users v ((ram.sessions.set i session).get j).role
  rw [get_set] at hj ⊢
  split_ifs at hj ⊢ with hij
  · rw [huser] at hj
    rw [← Option.some.inj hj, hrole]
    exact haccount
  · exact h.backed j v hj

theorem Coupled.login {password : Bytes} {now : UInt32} (h : Coupled ram) :
    Coupled (login sha256 derive u password draws now ram).2.2 := by
  by_cases hok : (AuthService.login sha256 derive u password draws now ram).1 = .ok
  · unfold AuthService.login at hok ⊢
    dsimp only at hok ⊢
    by_cases hpassword : (checkPassword derive (cstr u) password ram.users).1 = .ok
    · rw [if_neg (not_not_intro hpassword)] at hok ⊢
      exact h.issue (account_of_checkPassword hpassword) (Prod.ext hok rfl)
    · rw [if_pos hpassword] at hok
      exact absurd hok hpassword
  · rw [congrArg Prod.snd (login_failed hok)]
    exact h

theorem Coupled.refresh {token : Bytes} {now issuedAt : UInt32} (h : Coupled ram) :
    Coupled (refresh sha256 token draws now issuedAt ram).2.2 := by
  by_cases hok : (AuthService.refresh sha256 token draws now issuedAt ram).1 = .ok
  · obtain ⟨hlength, digest, j, hdigest, hj, -, -⟩ := refresh_ok_iff.mp hok
    obtain ⟨hactive, -, -⟩ := findRefresh_eq_some hj
    have haccount : Account ram.users (copyUsername (ram.sessions.get j)) (ram.sessions.get j).role := by
      rw [h.copyUsername_eq hactive]
      exact h.backed j _ (user_eq_some.mpr ⟨hactive, rfl⟩)
    simp only [AuthService.refresh, hlength, ne_eq, not_true_eq_false, if_false, hdigest,
      hj] at hok ⊢
    exact h.issue haccount (Prod.ext hok rfl)
  · rw [congrArg Prod.snd (refresh_failed hok)]
    exact h

/-- A session may end at any time. -/
theorem Coupled.clear (h : Coupled ram) (i : Fin sessionCount) :
    Coupled { ram with sessions := ram.sessions.set i zeroSession i.isLt } := by
  refine ⟨h.wellformed, h.noMaster, distinct_free h.distinct user_zeroSession, fun j v hj => ?_⟩
  change ((ram.sessions.set i zeroSession).get j).user = some v at hj
  show Account ram.users v ((ram.sessions.set i zeroSession).get j).role
  rw [get_set] at hj ⊢
  split_ifs at hj ⊢ with hij
  · cases hj
  · exact h.backed j v hj

theorem Coupled.revoke {token : Bytes} {now : UInt32} (h : Coupled ram) :
    Coupled (revoke sha256 token now ram).2 := by
  by_cases hok : (AuthService.revoke sha256 token now ram).1 = .ok
  · have hrevoke : AuthService.revoke sha256 token now ram =
        (.ok, (AuthService.revoke sha256 token now ram).2) := Prod.ext hok rfl
    obtain ⟨digest, j, -, -, hram⟩ := revoke_ok hrevoke
    rw [hram]
    unfold clearSlot
    split
    · exact h
    · next i _ => exact h.clear i
  · rw [revoke_failed hok]
    exact h

/-- Closing a session ends that of the account, and no other. -/
theorem user_closeSession {sessions : Sessions} (hdistinct : Distinct Session.user sessions)
    {j : Fin sessionCount} {v : Bytes} (hj : ((closeSession u sessions).get j).user = some v) :
    v ≠ u ∧ (closeSession u sessions).get j = sessions.get j := by
  unfold closeSession at hj ⊢
  cases hi : findSession sessions u with
  | none =>
    simp only [hi] at hj ⊢
    rw [findSession_eq] at hi
    exact ⟨fun hv => (slot_eq_none hi j).2 (hv ▸ hj), trivial⟩
  | some i =>
    simp only [hi] at hj ⊢
    split_ifs at hj ⊢ with hmine
    · rw [get_set] at hj ⊢
      split_ifs at hj ⊢ with hij
      · cases hj
      · exact ⟨fun hv => hij (hdistinct i j u (user_eq_some.mpr hmine) (hv ▸ hj)), rfl⟩
    · rw [findSession_eq] at hi
      refine ⟨fun hv => ?_, rfl⟩
      rcases slot_eq_some hi with hmine' | ⟨-, hnone⟩
      · exact hmine (user_eq_some.mp hmine')
      · exact hnone j (hv ▸ hj)

theorem distinct_closeSession {sessions : Sessions} (h : Distinct Session.user sessions) :
    Distinct Session.user (closeSession u sessions) := by
  intro i j v hi hj
  have hheld (i : Fin sessionCount) (hi : ((closeSession u sessions).get i).user = some v) :
      (sessions.get i).user = some v := by
    rwa [(user_closeSession h hi).2] at hi
  exact h i j v (hheld i hi) (hheld j hj)

/-- An account is changed and its session closed. -/
theorem Coupled.change {users : UserStore.Ram} (h : Coupled ram)
    (hwf : users.snapshot.Wellformed) (hmaster : u ≠ masterUsername)
    (hfind : ∀ v, u ≠ v → (UserStore.find v users).map Prod.fst =
      (UserStore.find v ram.users).map Prod.fst) :
    Coupled ⟨closeSession u ram.sessions, users⟩ := by
  refine ⟨hwf, ?_, distinct_closeSession h.distinct, fun j v hj => ?_⟩
  · have hnone := hfind masterUsername hmaster
    rw [h.noMaster] at hnone
    exact Option.map_eq_none_iff.mp hnone
  · obtain ⟨hne, heq⟩ := user_closeSession h.distinct hj
    change ((closeSession u ram.sessions).get j).user = some v at hj
    show Account users v ((closeSession u ram.sessions).get j).role
    rw [heq] at hj ⊢
    exact (h.backed j v hj).congr (hfind v hne.symm)

theorem Coupled.putUser {actor : Principal} {password : Bytes} {enabled mustExist : UInt8}
    {salt : Option (Vector UInt8 16)} {status : AuthStatus} (h : Coupled ram)
    (hput : putUser derive actor u password role enabled mustExist salt ram c =
      (some (status, ram'), c')) : Coupled ram' := by
  rcases putUser_eq_some hput with ⟨-, -, hsessions, record, hterm, hname, hmaster, hput⟩ | ⟨-, rfl⟩
  · have hram : ram' = ⟨closeSession (cstr u) ram.sessions, ram'.users⟩ := by rw [← hsessions]
    rw [hram]
    refine h.change ?_ hmaster fun v hv => ?_
    · rcases UserStore.put_eq_some hput with ⟨-, candidate, hcandidate, hsnapshot⟩ | ⟨hne, -⟩
      · rw [hsnapshot, UserStore.wellformed_stamp]
        exact UserStore.wellformed_put h.wellformed hterm hcandidate
      · exact absurd rfl hne
    · exact UserStore.find_put h.wellformed.count (hname ▸ hv) hput
  · exact h

theorem Coupled.deleteUser {actor : Principal} {status : AuthStatus} (h : Coupled ram)
    (hdelete : deleteUser actor u ram c = (some (status, ram'), c')) : Coupled ram' := by
  rcases deleteUser_eq_some hdelete with ⟨-, -, hsessions, hdelete⟩ | ⟨-, rfl⟩
  · have hram : ram' = ⟨closeSession (cstr u) ram.sessions, ram'.users⟩ := by rw [← hsessions]
    rw [hram]
    obtain ⟨-, p, hp, hsnapshot⟩ :=
      (UserStore.delete_eq_some hdelete).resolve_right fun h => h.1 rfl
    refine h.change ?_ ?_ fun v hv => UserStore.find_delete h.wellformed.count hv hdelete
    · rw [hsnapshot, UserStore.wellformed_stamp]
      exact UserStore.wellformed_delete h.wellformed hp
    · -- a name that is deleted was stored, and the master is not
      intro hmaster
      obtain ⟨hlt, hname⟩ := UserStore.position_lt hp
      have hfound := UserStore.find_isSome (List.getElem_mem hlt) (hname.trans hmaster)
      rw [h.noMaster] at hfound
      cases hfound
  · exact h

end Operations

/-! ## Runs -/

section Runs

variable {sha256 : Sha256}

theorem coupled_step {s : Sys} {e : Event} {ram ram' : Ram} (hram : s.ram = some ram)
    (hram' : (s.step sha256 e).ram = some ram') (h : Coupled ram) : Coupled ram' := by
  unfold Sys.step at hram'
  rw [hram] at hram'
  cases e with
  | login =>
    rw [ram_grant hram']
    exact h.login
  | refresh =>
    rw [ram_grant hram']
    exact h.refresh
  | authorize =>
    cases hram'
    exact h
  | revoke token time =>
    have hrevoke : Coupled (revoke sha256 token (tick time) ram).2 := h.revoke
    dsimp only at hram'
    split at hram'
    · next r heq =>
      cases hram'
      rw [heq] at hrevoke
      exact hrevoke
    · next r _ heq =>
      cases hram'
      rw [heq] at hrevoke
      exact hrevoke
  | putUser =>
    obtain ⟨status, c', hput⟩ := ram_change hram'
    exact h.putUser hput
  | deleteUser =>
    obtain ⟨status, c', hdelete⟩ := ram_change hram'
    exact h.deleteUser hdelete

theorem coupled_run {s : Sys} {events : List Event} (h : ∀ ram, s.ram = some ram → Coupled ram)
    {ram : Ram} (hram : (s.run sha256 events).ram = some ram) : Coupled ram := by
  induction events using List.reverseRecOn generalizing ram with
  | nil => exact h ram hram
  | append_singleton events e ih =>
    rw [run_concat] at hram
    cases hbefore : (s.run sha256 events).ram with
    | none =>
      rw [ram_step_none e hbefore, hbefore] at hram
      cases hram
    | some before => exact coupled_step hbefore hram (ih hbefore)

/-- Right after start-up no session is active. -/
theorem coupled_start {users : UserStore.Ram} (hwf : users.snapshot.Wellformed)
    (hmaster : UserStore.find masterUsername users = none) :
    Coupled ⟨.replicate _ zeroSession, users⟩ := by
  have hfree (i : Fin sessionCount) :
      (Vector.replicate sessionCount zeroSession)[i].user = none := by simp [user_zeroSession]
  refine ⟨hwf, hmaster, distinct_of_free hfree, fun i u hu => ?_⟩
  change (Vector.replicate sessionCount zeroSession)[i].user = some u at hu
  rw [hfree] at hu
  cases hu

/-- **Sessions agree with accounts.** After every run of calls that begins with a store in which
no user is named `master`: the names of active sessions are distinct, and each is `master` with
the administrator role, or that of a stored and enabled user whose role is the session's. So a
principal carries the role of its account, and a right password or an active session always finds
a slot: a login can only fail for want of random numbers or digests. -/
theorem sessions_coupled {cells : Cells} {users : UserStore.Ram} {start : ℕ} {events : List Event}
    {ram : Ram} (hwf : users.snapshot.Wellformed)
    (hmaster : UserStore.find masterUsername users = none)
    (hram : ((Sys.start cells users start).run sha256 events).ram = some ram) :
    (∀ i j : Fin sessionCount, (ram.sessions.get i).active ≠ 0 → (ram.sessions.get j).active ≠ 0 →
      (ram.sessions.get i).name = (ram.sessions.get j).name → i = j) ∧
    (∀ i : Fin sessionCount, (ram.sessions.get i).active ≠ 0 →
      (ram.sessions.get i).name = masterUsername ∧
          (ram.sessions.get i).role = UserStore.roleAdministrator ∨
        ∃ record p, UserStore.find (ram.sessions.get i).name ram.users = some (record, p) ∧
          record.enabled ≠ 0 ∧ record.role = (ram.sessions.get i).role) ∧
    (∀ token now principal, authorize sha256 token now ram.sessions = (.ok, some principal) →
      Account ram.users principal.username principal.role) ∧
    (∀ i : Fin sessionCount, (ram.sessions.get i).active ≠ 0 →
      findSession ram.sessions (copyUsername (ram.sessions.get i)) ≠ none) ∧
    ∀ derive username password,
      (checkPassword derive (cstr username) password ram.users).1 = .ok →
        findSession ram.sessions (cstr username) ≠ none ∧
          ∀ draws now, draws.Hashed sha256 →
            (login sha256 derive username password draws now ram).1 = .ok := by
  have h : Coupled ram := by
    refine coupled_run (s := Sys.start cells users start) (fun ram hram => ?_) hram
    cases hram
    exact coupled_start hwf hmaster
  have hbacked (i : Fin sessionCount) (hactive : (ram.sessions.get i).active ≠ 0) :
      Account ram.users (ram.sessions.get i).name (ram.sessions.get i).role :=
    h.backed i _ (user_eq_some.mpr ⟨hactive, rfl⟩)
  refine ⟨fun i j hi hj hname => ?_, hbacked, fun token now principal hauth => ?_,
    fun i hactive => ?_, fun derive username password hpassword => ?_⟩
  · exact h.distinct i j _ (user_eq_some.mpr ⟨hi, rfl⟩) (user_eq_some.mpr ⟨hj, hname.symm⟩)
  · obtain ⟨-, digest, i, -, hi, rfl⟩ := authorize_eq_ok.mp hauth
    obtain ⟨hactive, -, -⟩ := findAccess_eq_some hi
    rw [h.copyUsername_eq hactive]
    exact hbacked i hactive
  · rw [h.copyUsername_eq hactive]
    exact h.findSession_ne_none (hbacked i hactive).known
  · have hslot := h.findSession_ne_none (account_of_checkPassword hpassword).known
    refine ⟨hslot, fun draws now hdraws => ?_⟩
    unfold login
    dsimp only
    rw [if_neg (not_not_intro hpassword)]
    exact issue_ok_iff.mpr ⟨hdraws, hslot⟩

end Runs

/-- After her login, a principal with one of alice's tokens has her role. -/
theorem sessions_coupled_alice : ∃ ram,
    (aliceStart.run aliceSha256 [aliceLogin]).ram = some ram ∧
    ∀ token now principal, authorize aliceSha256 token now ram.sessions = (.ok, some principal) →
      Account ram.users principal.username principal.role := by
  have hsome : (aliceStart.run aliceSha256 [aliceLogin]).ram.isSome = true := by decide +kernel
  obtain ⟨ram, hram⟩ := Option.isSome_iff_exists.mp hsome
  have hmaster : UserStore.find masterUsername aliceUsers = none := by decide +kernel
  exact ⟨ram, hram, (sessions_coupled wellformed_aliceUsers hmaster hram).2.2.1⟩

end HealthCheck.AuthService
