import HealthCheck.AuthHistory

/-!
# What the account service does

One lemma for each operation says what it does when it succeeds, and that it changes nothing
when it fails. Together they say what a call does to the session table: `Change` lists the five
things that can happen, and `step_change` is the case analysis that every later invariant uses.
-/

namespace HealthCheck.AuthService

open Nor hiding read driven_read read_ok read_cases
open CString SlotTable

/-! ## The tick -/

theorem toNat_tick_sub {time now : ℕ} (h : time ≤ now) :
    (tick now - tick time).toNat = (now - time) % 2 ^ 32 := by
  simp only [tick, UInt32.toNat_sub, UInt32.toNat_ofNat']
  omega

/-- The expiry test sees the age modulo the wrap of the tick. -/
theorem elapsed_iff {time now : ℕ} (h : time ≤ now) (lifetime : UInt32) :
    tick now - tick time ≤ lifetime ↔ (now - time) % 2 ^ 32 ≤ lifetime.toNat := by
  rw [UInt32.le_iff_toNat_le, toNat_tick_sub h]

/-! ## The table -/

/-- The account a session is for. -/
def Session.user (s : Session) : Option Bytes := if s.active ≠ 0 then some s.name else none

theorem user_eq_some {s : Session} {u : Bytes} :
    s.user = some u ↔ s.active ≠ 0 ∧ s.name = u := by
  unfold Session.user
  split_ifs with h <;> simp [h]

theorem user_eq_none {s : Session} : s.user = none ↔ s.active = 0 := by
  unfold Session.user
  split_ifs with h <;> simp_all

theorem user_zeroSession : zeroSession.user = none := rfl

theorem findSession_eq (sessions : Sessions) (u : Bytes) :
    findSession sessions u = slot Session.user sessions u := by
  have hheld : (fun i : Fin sessionCount => decide (sessions[i].active ≠ 0 ∧ sessions[i].name = u)) =
      fun i => decide (sessions[i].user = some u) := by
    funext i
    exact decide_eq_decide.2 user_eq_some.symm
  have hfree : (fun i : Fin sessionCount => decide (sessions[i].active = 0)) =
      fun i => decide (sessions[i].user = none) := by
    funext i
    exact decide_eq_decide.2 user_eq_none.symm
  unfold findSession slot
  rw [hheld, hfree]
  cases (List.finRange sessionCount).find? fun i => decide (sessions[i].user = some u) <;> rfl

/-- The session holds what a grant handed out at that tick. -/
structure Backs (sha256 : Sha256) (g : Grant) (s : Session) : Prop where
  access : sha256 g.accessToken = some s.accessDigest
  refresh : sha256 g.refreshToken = some s.refreshDigest
  accessIssuedAt : s.accessIssuedAt = tick g.time
  refreshIssuedAt : s.refreshIssuedAt = tick g.time
  accessLength : g.accessToken.length = tokenTextSize - 1
  refreshLength : g.refreshToken.length = tokenTextSize - 1
  terminated : 0 ∈ s.username.toList

theorem Backs.copyUsername {sha256 : Sha256} {g : Grant} {s : Session} (h : Backs sha256 g s) :
    copyUsername s = s.name := by
  have hlen := length_cstr_lt h.terminated
  exact List.take_of_length_le (by rw [Session.name]; omega)

/-- A new session for `u`, issued with grant `g`, is in the slot of the account. -/
def Stores (sha256 : Sha256) (u : Bytes) (g : Grant) (sessions sessions' : Sessions) : Prop :=
  ∃ i session, findSession sessions u = some i ∧ sessions' = sessions.set i session i.isLt ∧
    session.active ≠ 0 ∧ session.username = charArray UserStore.usernameSize u ∧
    Backs sha256 g session

/-- The slot of `u` is cleared. -/
def clearSlot (u : Bytes) (sessions : Sessions) : Sessions :=
  match findSession sessions u with
  | none => sessions
  | some i => sessions.set i zeroSession i.isLt

/-! ## The operations -/

theorem length_hex (input : Bytes) : (hex input).length = 2 * input.length := by
  induction input with
  | nil => rfl
  | cons b input ih =>
    simp only [hex, List.flatMap_cons, List.length_append, List.length_cons] at ih ⊢
    rw [ih, List.length_nil]
    omega

theorem length_hex_token (draw : Vector UInt8 32) :
    (hex draw.toList).length = tokenTextSize - 1 := by
  rw [length_hex, Vector.length_toList]
  rfl

/-- The draws succeed and their tokens have digests. -/
def Draws.Hashed (sha256 : Sha256) (draws : Draws) : Prop :=
  ∃ access refresh, draws.access = some access ∧ draws.refresh = some refresh ∧
    sha256 (hex access.toList) ≠ none ∧ sha256 (hex refresh.toList) ≠ none

section Operations

variable {sha256 : Sha256} {derive : Derive} {draws : Draws} {sessions : Sessions}
  {u : Bytes} {role : UInt8} {ram : Ram}

/-- An issue that succeeds puts a new session into the slot of the account. -/
theorem issue_ok {now : ℕ} {pair : Option TokenPair} {sessions' : Sessions}
    (h : issue sha256 u role draws (tick now) sessions = (.ok, pair, sessions')) :
    ∃ tokens, pair = some tokens ∧ Stores sha256 u ⟨tokens, now⟩ sessions sessions' := by
  unfold issue at h
  split at h
  · rename_i access refresh _ _
    dsimp only at h
    split at h
    · rename_i accessDigest refreshDigest haccess hrefresh
      split at h
      · cases h
      · rename_i i hi
        cases h
        have hone : (1 : UInt8) ≠ 0 := by decide
        refine ⟨_, rfl, i, _, hi, rfl, hone, rfl, haccess, hrefresh, rfl, rfl,
          length_hex_token _, length_hex_token _, ?_⟩
        exact zero_mem_charArray (by decide) u
    · cases h
  · cases h

/-- An issue that fails hands out nothing and changes nothing. -/
theorem issue_failed {now : UInt32} (h : (issue sha256 u role draws now sessions).1 ≠ .ok) :
    (issue sha256 u role draws now sessions).2 = (none, sessions) := by
  revert h
  unfold issue
  split
  · dsimp only
    split
    · split
      · exact fun _ => rfl
      · exact fun h => absurd rfl h
    · exact fun _ => rfl
  · exact fun _ => rfl

/-- An issue succeeds when the draws do and a slot is left. -/
theorem issue_ok_iff {now : UInt32} :
    (issue sha256 u role draws now sessions).1 = .ok ↔
      draws.Hashed sha256 ∧ findSession sessions u ≠ none := by
  constructor
  · intro h
    unfold issue at h
    split at h
    · rename_i access refresh ha hr
      dsimp only at h
      split at h
      · rename_i accessDigest refreshDigest haccess hrefresh
        split at h
        · cases h
        · rename_i i hi
          refine ⟨⟨access, refresh, ha, hr, ?_, ?_⟩, by simp [hi]⟩
          · exact Option.ne_none_iff_exists'.2 ⟨_, haccess⟩
          · exact Option.ne_none_iff_exists'.2 ⟨_, hrefresh⟩
      · cases h
    · cases h
  · rintro ⟨⟨access, refresh, ha, hr, haccess, hrefresh⟩, hslot⟩
    obtain ⟨accessDigest, haccess⟩ := Option.ne_none_iff_exists'.1 haccess
    obtain ⟨refreshDigest, hrefresh⟩ := Option.ne_none_iff_exists'.1 hrefresh
    obtain ⟨i, hi⟩ := Option.ne_none_iff_exists'.1 hslot
    simp only [issue, ha, hr, haccess, hrefresh, hi]

/-- The accounts that can log in. -/
def Known (users : UserStore.Ram) (u : Bytes) : Prop :=
  u = masterUsername ∨ ∃ record ∈ users.snapshot.records, record.name = u

theorem known_of_checkPassword {password : Bytes} {users : UserStore.Ram}
    (h : (checkPassword derive u password users).1 = .ok) : Known users u := by
  unfold checkPassword at h
  split at h
  · exact .inl ‹_›
  · split at h
    · cases h
    · rename_i record p hfind
      obtain ⟨hmem, hname⟩ := UserStore.find_eq_some hfind
      exact .inr ⟨record, hmem, hname⟩

/-- The name of a known account fits a session. -/
theorem length_of_known {users : UserStore.Ram} (hwf : users.snapshot.Wellformed)
    (h : Known users u) : u.length < UserStore.usernameSize ∧ 0 ∉ u := by
  rcases h with rfl | ⟨record, hmem, rfl⟩
  · exact ⟨by decide +kernel, by decide +kernel⟩
  · exact ⟨length_cstr_lt (hwf.terminated record hmem), zero_notMem_cstr _⟩

theorem login_ok {password : Bytes} {now : ℕ} {pair : Option TokenPair} {ram' : Ram}
    (h : login sha256 derive u password draws (tick now) ram = (.ok, pair, ram')) :
    ∃ tokens, pair = some tokens ∧ Known ram.users (cstr u) ∧
      Stores sha256 (cstr u) ⟨tokens, now⟩ ram.sessions ram'.sessions ∧ ram'.users = ram.users := by
  unfold login at h
  dsimp only at h
  split at h
  · rename_i hne
    exact absurd (congrArg Prod.fst h) hne
  · rename_i hok
    rcases hissue : issue sha256 (cstr u) (checkPassword derive (cstr u) password ram.users).2
      draws (tick now) ram.sessions with ⟨status, pair', sessions'⟩
    rw [hissue] at h
    cases h
    obtain ⟨tokens, rfl, hstores⟩ := issue_ok hissue
    exact ⟨tokens, rfl, known_of_checkPassword (not_ne_iff.1 hok), hstores, rfl⟩

theorem login_failed {password : Bytes} {now : UInt32}
    (h : (login sha256 derive u password draws now ram).1 ≠ .ok) :
    (login sha256 derive u password draws now ram).2 = (none, ram) := by
  unfold login at h ⊢
  dsimp only at h ⊢
  split
  · rfl
  · rename_i hok
    rw [if_neg hok] at h
    have hfailed := issue_failed h
    simp only [hfailed]

theorem findRefresh_eq_some {digest : Vector UInt8 32} {now : UInt32} {i : Fin sessionCount}
    (h : findRefresh digest now sessions = some i) : (sessions.get i).active ≠ 0 ∧
      now - (sessions.get i).refreshIssuedAt ≤ refreshLifetimeSec * 1000 ∧
      digest = (sessions.get i).refreshDigest :=
  of_find (p := fun i => sessions[i].active ≠ 0 ∧
    now - sessions[i].refreshIssuedAt ≤ refreshLifetimeSec * 1000 ∧
      digest = sessions[i].refreshDigest) h

theorem findAccess_eq_some {digest : Vector UInt8 32} {now : UInt32} {i : Fin sessionCount}
    (h : findAccess digest now sessions = some i) : (sessions.get i).active ≠ 0 ∧
      now - (sessions.get i).accessIssuedAt ≤ accessLifetimeSec * 1000 ∧
      digest = (sessions.get i).accessDigest :=
  of_find (p := fun i => sessions[i].active ≠ 0 ∧
    now - sessions[i].accessIssuedAt ≤ accessLifetimeSec * 1000 ∧
      digest = sessions[i].accessDigest) h

theorem findRefresh_ne_none {digest : Vector UInt8 32} {now : UInt32} {i : Fin sessionCount}
    (hactive : (sessions.get i).active ≠ 0)
    (hage : now - (sessions.get i).refreshIssuedAt ≤ refreshLifetimeSec * 1000)
    (hdigest : digest = (sessions.get i).refreshDigest) : findRefresh digest now sessions ≠ none :=
  fun hnone => List.find?_eq_none.1 hnone i (List.mem_finRange i)
    (decide_eq_true ⟨hactive, hage, hdigest⟩)

theorem findAccess_ne_none {digest : Vector UInt8 32} {now : UInt32} {i : Fin sessionCount}
    (hactive : (sessions.get i).active ≠ 0)
    (hage : now - (sessions.get i).accessIssuedAt ≤ accessLifetimeSec * 1000)
    (hdigest : digest = (sessions.get i).accessDigest) : findAccess digest now sessions ≠ none :=
  fun hnone => List.find?_eq_none.1 hnone i (List.mem_finRange i)
    (decide_eq_true ⟨hactive, hage, hdigest⟩)

theorem authorize_eq_ok {token : Bytes} {now : UInt32} {principal : Principal} :
    authorize sha256 token now sessions = (.ok, some principal) ↔
      (cstr token).length = tokenTextSize - 1 ∧ ∃ digest i, sha256 (cstr token) = some digest ∧
        findAccess digest now sessions = some i ∧
        principal = ⟨copyUsername (sessions.get i), (sessions.get i).role⟩ := by
  constructor
  · intro h
    unfold authorize at h
    dsimp only at h
    split at h
    · cases h
    · rename_i hlen
      split at h
      · cases h
      · rename_i digest hdigest
        split at h
        · cases h
        · rename_i i hi
          cases h
          exact ⟨not_ne_iff.1 hlen, digest, i, hdigest, hi, rfl⟩
  · rintro ⟨hlen, digest, i, hdigest, hi, rfl⟩
    simp only [authorize, hlen, ne_eq, not_true_eq_false, if_false, hdigest, hi]
    rfl

/-- A status other than success comes without a principal. -/
theorem authorize_ok {token : Bytes} {now : UInt32} {result : Option Principal}
    (h : authorize sha256 token now sessions = (.ok, result)) :
    ∃ principal, result = some principal := by
  unfold authorize at h
  dsimp only at h
  split at h
  · cases h
  · split at h
    · cases h
    · split at h
      · cases h
      · cases h
        exact ⟨_, rfl⟩

theorem refresh_ok {token : Bytes} {now : UInt32} {issuedAt : ℕ} {pair : Option TokenPair}
    {ram' : Ram} (h : refresh sha256 token draws now (tick issuedAt) ram = (.ok, pair, ram')) :
    ∃ tokens digest j, pair = some tokens ∧ sha256 (cstr token) = some digest ∧
      findRefresh digest now ram.sessions = some j ∧
      Stores sha256 (copyUsername (ram.sessions.get j)) ⟨tokens, issuedAt⟩ ram.sessions ram'.sessions ∧
      ram'.users = ram.users := by
  unfold refresh at h
  dsimp only at h
  split at h
  · cases h
  · split at h
    · cases h
    · rename_i digest hdigest
      split at h
      · cases h
      · rename_i j hj
        rcases hissue : issue sha256 (copyUsername ram.sessions[j]) ram.sessions[j].role
          draws (tick issuedAt) ram.sessions with ⟨status, pair', sessions'⟩
        rw [hissue] at h
        cases h
        obtain ⟨tokens, rfl, hstores⟩ := issue_ok hissue
        exact ⟨tokens, digest, j, rfl, hdigest, hj, hstores, rfl⟩

theorem refresh_failed {token : Bytes} {now issuedAt : UInt32}
    (h : (refresh sha256 token draws now issuedAt ram).1 ≠ .ok) :
    (refresh sha256 token draws now issuedAt ram).2 = (none, ram) := by
  unfold refresh at h ⊢
  dsimp only at h ⊢
  split
  · rfl
  · rename_i hlen
    rw [if_neg hlen] at h
    split
    · rfl
    · rename_i digest hdigest
      simp only [hdigest] at h
      split
      · rfl
      · rename_i j hj
        simp only [hj] at h
        have hfailed := issue_failed h
        simp only [hfailed]

/-- A refresh succeeds when its token finds a session and an issue for its account succeeds. -/
theorem refresh_ok_iff {token : Bytes} {now issuedAt : UInt32} :
    (refresh sha256 token draws now issuedAt ram).1 = .ok ↔
      (cstr token).length = tokenTextSize - 1 ∧ ∃ digest j, sha256 (cstr token) = some digest ∧
        findRefresh digest now ram.sessions = some j ∧ draws.Hashed sha256 ∧
        findSession ram.sessions (copyUsername (ram.sessions.get j)) ≠ none := by
  constructor
  · intro h
    unfold refresh at h
    dsimp only at h
    split at h
    · cases h
    · rename_i hlen
      split at h
      · cases h
      · rename_i digest hdigest
        split at h
        · cases h
        · rename_i j hj
          obtain ⟨hhashed, hslot⟩ := issue_ok_iff.1 h
          exact ⟨not_ne_iff.1 hlen, digest, j, hdigest, hj, hhashed, hslot⟩
  · rintro ⟨hlen, digest, j, hdigest, hj, hhashed, hslot⟩
    simp only [refresh, hlen, ne_eq, not_true_eq_false, if_false, hdigest, hj]
    exact issue_ok_iff.2 ⟨hhashed, hslot⟩

theorem revoke_ok {token : Bytes} {now : UInt32} {ram' : Ram}
    (h : revoke sha256 token now ram = (.ok, ram')) :
    ∃ digest j, sha256 (cstr token) = some digest ∧
      findAccess digest now ram.sessions = some j ∧
      ram' = { ram with sessions := clearSlot (copyUsername (ram.sessions.get j)) ram.sessions } := by
  unfold revoke at h
  split at h
  · rename_i principal hauth
    obtain ⟨-, digest, j, hdigest, hj, rfl⟩ := authorize_eq_ok.1 hauth
    refine ⟨digest, j, hdigest, hj, ?_⟩
    unfold clearSlot
    split at h
    · rename_i hnone
      cases h
      rw [hnone]
    · rename_i i hi
      cases h
      rw [hi]
  · rename_i status result hne hauth
    cases h
    obtain ⟨principal, rfl⟩ := authorize_ok hauth
    exact (hne principal rfl rfl).elim

theorem revoke_failed {token : Bytes} {now : UInt32}
    (h : (revoke sha256 token now ram).1 ≠ .ok) : (revoke sha256 token now ram).2 = ram := by
  unfold revoke at h ⊢
  split
  · rename_i hauth
    simp only [hauth] at h
    split at h <;> exact absurd rfl h
  · rfl

theorem storeUser_eq_some {record : UserStore.Record} {status : AuthStatus} {ram' : Ram}
    {c c' : Chip} (h : storeUser u record ram c = (some (status, ram'), c')) :
    (status = .ok ∧ ram'.sessions = closeSession u ram.sessions ∧
      UserStore.put record ram.users c = (some (.ok, ram'.users), c')) ∨
    (status ≠ .ok ∧ ram' = ram) := by
  obtain ⟨⟨s, users⟩, c₁, hput, h⟩ := bind_eq_some.1 h
  dsimp only at h
  split at h
  · rename_i hok
    simp only [pure_apply, Prod.mk.injEq, Option.some.injEq] at h
    obtain ⟨⟨rfl, rfl⟩, rfl⟩ := h
    exact .inl ⟨rfl, rfl, hok ▸ hput⟩
  · rename_i hne
    simp only [pure_apply, Prod.mk.injEq, Option.some.injEq] at h
    obtain ⟨⟨rfl, rfl⟩, -⟩ := h
    rcases UserStore.put_eq_some hput with ⟨hok, -⟩ | ⟨-, rfl⟩
    · exact absurd hok hne
    · exact .inr ⟨by decide, rfl⟩

/-- A user update that returns was made by an administrator for an account of the store and has
closed its session, or has changed nothing. -/
theorem putUser_eq_some {actor : Principal} {password : Bytes} {enabled mustExist : UInt8}
    {salt : Option (Vector UInt8 16)} {status : AuthStatus} {ram' : Ram} {c c' : Chip}
    (h : putUser derive actor u password role enabled mustExist salt ram c =
      (some (status, ram'), c')) :
    (status = .ok ∧ isAdministrator actor = true ∧
      ram'.sessions = closeSession (cstr u) ram.sessions ∧
      ∃ record : UserStore.Record, 0 ∈ record.username.toList ∧ record.name = cstr u ∧
        cstr u ≠ masterUsername ∧ UserStore.put record ram.users c = (some (.ok, ram'.users), c')) ∨
    (status ≠ .ok ∧ ram' = ram) := by
  have hfail : ∀ {s : AuthStatus} {d : Chip}, s ≠ .ok →
      (pure (s, ram) : FlashM (AuthStatus × Ram)) d = (some (status, ram'), c') →
      status ≠ .ok ∧ ram' = ram := fun hs h => by
    simp only [pure_apply, Prod.mk.injEq, Option.some.injEq] at h
    obtain ⟨⟨rfl, rfl⟩, -⟩ := h
    exact ⟨hs, rfl⟩
  unfold putUser at h
  dsimp only at h
  split at h
  · exact .inr (hfail (by decide) h)
  · rename_i hallowed
    simp only [Bool.or_eq_true, Bool.not_eq_true', decide_eq_true_eq, not_or,
      Bool.not_eq_false] at hallowed
    obtain ⟨⟨⟨⟨hadmin, -⟩, -⟩, hlen⟩, hmaster⟩ := hallowed
    split at h
    · exact .inr (hfail (by decide) h)
    · split at h
      · exact .inr (hfail (by decide) h)
      · rcases salt with _ | salt
        · exact .inr (hfail (by decide) h)
        · rcases hderive : derive password salt userIterations with _ | verifier
          · simp only [newRecord, hderive] at h
            exact .inr (hfail (by decide) h)
          · simp only [newRecord, hderive] at h
            rcases storeUser_eq_some h with ⟨rfl, hsessions, hput⟩ | hsame
            · refine .inl ⟨rfl, hadmin, hsessions, _, ?_, ?_, hmaster, hput⟩
              · exact zero_mem_charArray (by decide) _
              · exact cstr_charArray (by omega) (zero_notMem_cstr u)
            · exact .inr hsame

/-- An account that must not exist is a new one, when it is stored. -/
theorem putUser_new {actor : Principal} {password : Bytes} {enabled : UInt8}
    {salt : Option (Vector UInt8 16)} {status : AuthStatus} {ram' : Ram} {c c' : Chip}
    (h : putUser derive actor u password role enabled 0 salt ram c = (some (status, ram'), c')) :
    (ram'.sessions = closeSession (cstr u) ram.sessions ∧ cstr u ≠ masterUsername ∧
      UserStore.find (cstr u) ram.users = none) ∨ ram' = ram := by
  rcases putUser_eq_some h with ⟨-, -, hsessions, record, -, -, hmaster, -⟩ | ⟨-, hsame⟩
  · by_cases hfind : UserStore.find (cstr u) ram.users = none
    · exact .inl ⟨hsessions, hmaster, hfind⟩
    · -- a name that is found is refused
      have hsome : (UserStore.find (cstr u) ram.users).isSome = true :=
        Option.isSome_iff_ne_none.2 hfind
      have hidle : ∀ {s : AuthStatus} {d : Chip},
          (pure (s, ram) : FlashM (AuthStatus × Ram)) d = (some (status, ram'), c') →
          ram' = ram := fun h => (Prod.mk.inj (Option.some.inj (Prod.mk.inj h).1)).2.symm
      unfold putUser at h
      dsimp only at h
      split at h
      · exact .inr (hidle h)
      · rw [if_neg (fun hne => hne.1 rfl), if_pos ⟨rfl, hsome⟩] at h
        exact .inr (hidle h)
  · exact .inr hsame

/-- The same for a deletion. -/
theorem deleteUser_eq_some {actor : Principal} {status : AuthStatus} {ram' : Ram} {c c' : Chip}
    (h : deleteUser actor u ram c = (some (status, ram'), c')) :
    (status = .ok ∧ isAdministrator actor = true ∧
      ram'.sessions = closeSession (cstr u) ram.sessions ∧
      UserStore.delete (cstr u) ram.users c = (some (.ok, ram'.users), c')) ∨
    (status ≠ .ok ∧ ram' = ram) := by
  have hfail : ∀ {s : AuthStatus} {d : Chip}, s ≠ .ok →
      (pure (s, ram) : FlashM (AuthStatus × Ram)) d = (some (status, ram'), c') →
      status ≠ .ok ∧ ram' = ram := fun hs h => by
    simp only [pure_apply, Prod.mk.injEq, Option.some.injEq] at h
    obtain ⟨⟨rfl, rfl⟩, -⟩ := h
    exact ⟨hs, rfl⟩
  unfold deleteUser at h
  dsimp only at h
  split at h
  · exact .inr (hfail (by decide) h)
  · rename_i hallowed
    simp only [Bool.or_eq_true, Bool.not_eq_true', decide_eq_true_eq, not_or,
      Bool.not_eq_false] at hallowed
    split at h
    · exact .inr (hfail (by decide) h)
    · obtain ⟨⟨s, users⟩, c₁, hdelete, h⟩ := bind_eq_some.1 h
      dsimp only at h
      split at h
      · rename_i hok
        simp only [pure_apply, Prod.mk.injEq, Option.some.injEq] at h
        obtain ⟨⟨rfl, rfl⟩, rfl⟩ := h
        exact .inl ⟨rfl, hallowed.1, rfl, hok ▸ hdelete⟩
      · rename_i hne
        simp only [pure_apply, Prod.mk.injEq, Option.some.injEq] at h
        obtain ⟨⟨rfl, rfl⟩, -⟩ := h
        rcases UserStore.delete_eq_some hdelete with ⟨hok, -⟩ | ⟨-, rfl⟩
        · exact absurd hok hne
        · exact .inr ⟨by decide, rfl⟩

end Operations

/-! ## What one call does to the table -/

/-- The token a successful call presented. -/
def Record.token : Record → Option Bytes
  | .refresh token _ | .revoke token => some token
  | _ => none

/-- What one call does to the table, and what is recorded of it. -/
inductive Change (sha256 : Sha256) (users : UserStore.Ram) (time : ℕ) (sessions : Sessions) :
    Option Record → Sessions → Prop where
  | idle : Change sha256 users time sessions none sessions
  | login {u : Bytes} {tokens : TokenPair} {sessions' : Sessions} (hknown : Known users u)
      (hstores : Stores sha256 u ⟨tokens, time⟩ sessions sessions') :
      Change sha256 users time sessions (some (.login u ⟨tokens, time⟩)) sessions'
  | refresh {token : Bytes} {tokens : TokenPair} {digest : Vector UInt8 32}
      {j : Fin sessionCount} {sessions' : Sessions} (hdigest : sha256 token = some digest)
      (hactive : (sessions.get j).active ≠ 0) (hmatch : digest = (sessions.get j).refreshDigest)
      (hstores : Stores sha256 (copyUsername (sessions.get j)) ⟨tokens, time⟩ sessions sessions') :
      Change sha256 users time sessions (some (.refresh token ⟨tokens, time⟩)) sessions'
  | revoke {token : Bytes} {digest : Vector UInt8 32} {j : Fin sessionCount}
      (hdigest : sha256 token = some digest) (hactive : (sessions.get j).active ≠ 0)
      (hmatch : digest = (sessions.get j).accessDigest) :
      Change sha256 users time sessions (some (.revoke token))
        (clearSlot (copyUsername (sessions.get j)) sessions)
  | changed {u : Bytes} :
      Change sha256 users time sessions (some (.changed u)) (closeSession u sessions)

section Step

variable {sha256 : Sha256} {s : Sys} {e : Event} {ram ram' : Ram}

theorem time_le_step (sha256 : Sha256) (h : s.Timely e) : s.time ≤ (s.step sha256 e).time := by
  have hgrant : ∀ {time record x}, s.time ≤ time → s.time ≤ (s.grant time record x).time := by
    intro time record x hle
    unfold Sys.grant
    split <;> exact hle
  have hchange : ∀ username x, s.time ≤ (s.change username x).time := by
    intro username x
    unfold Sys.change
    split <;> exact le_rfl
  unfold Sys.step
  split
  · exact le_rfl
  · cases e with
    | login => exact hgrant h
    | refresh => exact hgrant (h.1.trans h.2)
    | authorize => exact h
    | revoke =>
      dsimp only
      split <;> exact h
    | putUser => exact hchange ..
    | deleteUser => exact hchange ..

/-- A change of an account, as a step. -/
theorem change_account (sha256 : Sha256) (ram : Ram) {u : Bytes}
    {x : Option (AuthStatus × Ram) × Chip}
    (hx : ∀ status r c', x = (some (status, r), c') →
      (status = .ok ∧ r.sessions = closeSession u ram.sessions) ∨ (status ≠ .ok ∧ r = ram))
    (hram' : (s.change u x).ram = some ram') :
    ∃ r, Change sha256 ram.users (s.change u x).time ram.sessions r ram'.sessions ∧
      (s.change u x).history = r.toList ++ s.history ∧ r.bind Record.token = none := by
  rcases x with ⟨_ | ⟨status, r⟩, c'⟩
  · cases hram'
  · rcases hx status r c' rfl with ⟨rfl, hsessions⟩ | ⟨hne, rfl⟩
    · cases hram'
      refine ⟨some (.changed u), ?_, rfl, rfl⟩
      rw [hsessions]
      exact .changed
    · have hchange : s.change u (some (status, r), c') =
          { s with cells := c'.cells, ram := some r } := by
        cases status <;> first | rfl | exact absurd rfl hne
      rw [hchange] at hram' ⊢
      cases hram'
      exact ⟨none, .idle, rfl, rfl⟩

/-- A call that hands out a pair, as a step. -/
theorem change_grant {record : Grant → Record} {time : ℕ} {x : AuthStatus × Option TokenPair × Ram}
    (hok : ∀ pair r, x = (.ok, pair, r) → ∃ tokens, pair = some tokens ∧
      Change sha256 ram.users time ram.sessions (some (record ⟨tokens, time⟩)) r.sessions)
    (hfailed : x.1 ≠ .ok → x.2 = (none, ram)) (hram' : (s.grant time record x).ram = some ram') :
    ∃ r, Change sha256 ram.users (s.grant time record x).time ram.sessions r ram'.sessions ∧
      (s.grant time record x).history = r.toList ++ s.history ∧
      ∀ a ∈ r, ∃ tokens, a = record ⟨tokens, time⟩ := by
  rcases x with ⟨status, pair, r⟩
  by_cases hstatus : status = .ok
  · subst hstatus
    obtain ⟨tokens, rfl, hchange⟩ := hok pair r rfl
    cases hram'
    refine ⟨some (record ⟨tokens, time⟩), hchange, rfl, fun a ha => ⟨tokens, ?_⟩⟩
    exact (Option.mem_some_iff.1 ha).symm
  · obtain ⟨rfl, rfl⟩ := Prod.mk.inj (hfailed hstatus)
    have hgrant : s.grant time record (status, none, r) =
        { s with ram := some r, time := time } := by
      cases status <;> rfl
    rw [hgrant] at hram' ⊢
    cases hram'
    exact ⟨none, .idle, rfl, fun a ha => by cases ha⟩

/-- **What a call does.** It leaves the table alone, or makes one of the four changes and is
recorded. -/
theorem step_change (hram : s.ram = some ram) (hram' : (s.step sha256 e).ram = some ram') :
    ∃ r, Change sha256 ram.users (s.step sha256 e).time ram.sessions r ram'.sessions ∧
      (s.step sha256 e).history = r.toList ++ s.history ∧
      ∀ a ∈ r, ∀ t ∈ a.token, ∃ t' ∈ e.token, t = cstr t' := by
  unfold Sys.step at hram' ⊢
  rw [hram] at hram' ⊢
  dsimp only at hram' ⊢
  cases e with
  | login username password derive draws time =>
    have hok : ∀ pair r, login sha256 derive username password draws (tick time) ram =
        (.ok, pair, r) → ∃ tokens, pair = some tokens ∧ Change sha256 ram.users time
          ram.sessions (some (.login (cstr username) ⟨tokens, time⟩)) r.sessions := by
      intro pair r h
      obtain ⟨tokens, rfl, hknown, hstores, -⟩ := login_ok h
      exact ⟨tokens, rfl, .login hknown hstores⟩
    obtain ⟨r, hchange, hhistory, hr⟩ := change_grant hok login_failed hram'
    refine ⟨r, hchange, hhistory, fun a ha t ht => ?_⟩
    obtain ⟨tokens, rfl⟩ := hr a ha
    cases ht
  | refresh token draws now issuedAt =>
    have hok : ∀ pair r, refresh sha256 token draws (tick now) (tick issuedAt) ram =
        (.ok, pair, r) → ∃ tokens, pair = some tokens ∧ Change sha256 ram.users issuedAt
          ram.sessions (some (.refresh (cstr token) ⟨tokens, issuedAt⟩)) r.sessions := by
      intro pair r h
      obtain ⟨tokens, digest, j, rfl, hdigest, hj, hstores, -⟩ := refresh_ok h
      obtain ⟨hactive, -, hmatch⟩ := findRefresh_eq_some hj
      exact ⟨tokens, rfl, .refresh hdigest hactive hmatch hstores⟩
    obtain ⟨r, hchange, hhistory, hr⟩ := change_grant hok refresh_failed hram'
    refine ⟨r, hchange, hhistory, fun a ha t ht => ⟨token, rfl, ?_⟩⟩
    obtain ⟨tokens, rfl⟩ := hr a ha
    exact (Option.mem_some_iff.1 ht).symm
  | authorize token time =>
    cases hram'
    exact ⟨none, .idle, rfl, fun a ha => by cases ha⟩
  | revoke token time =>
    rcases hrevoke : revoke sha256 token (tick time) ram with ⟨status, r⟩
    dsimp only at hram' ⊢
    rw [hrevoke] at hram' ⊢
    by_cases hstatus : status = .ok
    · subst hstatus
      obtain ⟨digest, j, hdigest, hj, rfl⟩ := revoke_ok hrevoke
      obtain ⟨hactive, -, hmatch⟩ := findAccess_eq_some hj
      cases hram'
      refine ⟨some (.revoke (cstr token)), .revoke hdigest hactive hmatch, rfl, ?_⟩
      intro a ha t ht
      obtain rfl := Option.mem_some_iff.1 ha
      exact ⟨token, rfl, (Option.mem_some_iff.1 ht).symm⟩
    · have hsame : r = ram := by
        have hfailed : (revoke sha256 token (tick time) ram).1 ≠ .ok := by rwa [hrevoke]
        rw [← revoke_failed hfailed, hrevoke]
      subst hsame
      cases status <;> first
        | exact absurd rfl hstatus
        | (cases hram'
           exact ⟨none, .idle, rfl, fun a ha => by cases ha⟩)
  | putUser derive actor username password role enabled mustExist salt fates =>
    obtain ⟨r, hchange, hhistory, hr⟩ := change_account sha256 ram
      (fun status r c' h => (putUser_eq_some h).imp_left fun ⟨hok, _, hsessions, _⟩ =>
        ⟨hok, hsessions⟩) hram'
    refine ⟨r, hchange, hhistory, fun a ha t ht => ?_⟩
    rw [Option.mem_def.1 ha] at hr
    exact absurd (hr.symm.trans ht) (by simp)
  | deleteUser actor username fates =>
    obtain ⟨r, hchange, hhistory, hr⟩ := change_account sha256 ram
      (fun status r c' h => (deleteUser_eq_some h).imp_left fun ⟨hok, _, hsessions, _⟩ =>
        ⟨hok, hsessions⟩) hram'
    refine ⟨r, hchange, hhistory, fun a ha t ht => ?_⟩
    rw [Option.mem_def.1 ha] at hr
    exact absurd (hr.symm.trans ht) (by simp)

theorem users_login {derive : Derive} {u password : Bytes} {draws : Draws} {now : UInt32} :
    (login sha256 derive u password draws now ram).2.2.users = ram.users := by
  unfold login
  dsimp only
  split <;> rfl

theorem users_refresh {token : Bytes} {draws : Draws} {now issuedAt : UInt32} :
    (refresh sha256 token draws now issuedAt ram).2.2.users = ram.users := by
  unfold refresh
  dsimp only
  split
  · rfl
  · split
    · rfl
    · split <;> rfl

theorem users_revoke {token : Bytes} {now : UInt32} :
    (revoke sha256 token now ram).2.users = ram.users := by
  unfold revoke
  split
  · split <;> rfl
  · rfl

theorem ram_grant {time : ℕ} {record : Grant → Record} {x : AuthStatus × Option TokenPair × Ram}
    (h : (s.grant time record x).ram = some ram') : ram' = x.2.2 := by
  unfold Sys.grant at h
  split at h <;> exact (Option.some.inj h).symm

theorem ram_change {u : Bytes} {x : Option (AuthStatus × Ram) × Chip}
    (h : (s.change u x).ram = some ram') : ∃ status c', x = (some (status, ram'), c') := by
  unfold Sys.change at h
  split at h
  · exact ⟨_, _, by rw [Option.some.inj h]⟩
  · exact ⟨_, _, by rw [Option.some.inj h]⟩
  · cases h

/-- What a call does to the user store: nothing, or one put or delete. -/
theorem step_users (hram : s.ram = some ram) (hram' : (s.step sha256 e).ram = some ram') :
    ram'.users = ram.users ∨
    (∃ record c c', 0 ∈ record.username.toList ∧
      UserStore.put record ram.users c = (some (.ok, ram'.users), c')) ∨
    ∃ u c c', UserStore.delete u ram.users c = (some (.ok, ram'.users), c') := by
  unfold Sys.step at hram'
  rw [hram] at hram'
  cases e with
  | login => exact .inl (by rw [ram_grant hram', users_login])
  | refresh => exact .inl (by rw [ram_grant hram', users_refresh])
  | authorize =>
    cases hram'
    exact .inl rfl
  | revoke token time =>
    dsimp only at hram'
    have husers : (revoke sha256 token (tick time) ram).2.users = ram.users := users_revoke
    split at hram'
    · rename_i r hrevoke
      cases hram'
      exact .inl (by rw [← husers, hrevoke])
    · rename_i r _ hrevoke
      cases hram'
      exact .inl (by rw [← husers, hrevoke])
  | putUser =>
    obtain ⟨status, c', hput⟩ := ram_change hram'
    rcases putUser_eq_some hput with ⟨-, -, -, record, hterm, -, -, hput⟩ | ⟨-, rfl⟩
    · exact .inr (.inl ⟨record, _, _, hterm, hput⟩)
    · exact .inl rfl
  | deleteUser =>
    obtain ⟨status, c', hdelete⟩ := ram_change hram'
    rcases deleteUser_eq_some hdelete with ⟨-, -, -, hdelete⟩ | ⟨-, rfl⟩
    · exact .inr (.inr ⟨_, _, _, hdelete⟩)
    · exact .inl rfl

theorem wellformed_step (hram : s.ram = some ram) (hram' : (s.step sha256 e).ram = some ram')
    (hwf : ram.users.snapshot.Wellformed) : ram'.users.snapshot.Wellformed := by
  rcases step_users hram hram' with heq | ⟨record, c, c', hterm, hput⟩ | ⟨u, c, c', hdelete⟩
  · rw [heq]
    exact hwf
  · rcases UserStore.put_eq_some hput with ⟨-, candidate, hcandidate, hsnap⟩ | ⟨hne, -⟩
    · rw [hsnap, UserStore.wellformed_stamp]
      exact UserStore.wellformed_put hwf hterm hcandidate
    · exact absurd rfl hne
  · rcases UserStore.delete_eq_some hdelete with ⟨-, p, hp, hsnap⟩ | ⟨hne, -⟩
    · rw [hsnap, UserStore.wellformed_stamp]
      exact UserStore.wellformed_delete hwf hp
    · exact absurd rfl hne

/-- Without variables, no call does anything. -/
theorem ram_step_none (e : Event) (h : s.ram = none) : s.step sha256 e = s := by
  unfold Sys.step
  rw [h]

theorem run_concat (s : Sys) (events : List Event) (e : Event) :
    s.run sha256 (events ++ [e]) = (s.run sha256 events).step sha256 e :=
  Run.run_append s events [e]

end Step

end HealthCheck.AuthService
