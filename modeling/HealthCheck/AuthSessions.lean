import HealthCheck.AuthServiceProof

/-!
# The sessions and the history agree

Every session in use holds the digests of the grant that is current for its account, and every
current grant has a session: `Tracks`. One call keeps that, and so does a run.

* `tokens_accepted_iff` — in a run shorter than the wrap of the tick, a token is accepted exactly
  when it is the current one of an account and young enough;
* `accepted_young` — in a run of any length, an accepted token is young as long as no
  session has wrapped back into its lifetime.
-/

namespace HealthCheck.AuthService

open Nor hiding read driven_read read_ok read_cases
open CString SlotTable

variable {sha256 : Sha256}

/-! ## The relation -/

/-- The table is the map from accounts to grants. -/
structure Tracks (sha256 : Sha256) (cur : Bytes → Option Grant) (sessions : Sessions) :
    Prop where
  distinct : Distinct Session.user sessions
  held : ∀ {u s}, Holds Session.user sessions u s → ∃ g, cur u = some g ∧ Backs sha256 g s
  granted : ∀ {u g}, cur u = some g → ∃ s, Holds Session.user sessions u s ∧ Backs sha256 g s

/-- `AuthService_Init` leaves the service as a run finds it. -/
theorem start_of_init {c c' : Chip} {ram : Ram} (h : init c = (some (.ok, ram), c')) (time : ℕ) :
    (⟨c'.cells, some ram, time, []⟩ : Sys) = Sys.start c'.cells ram.users time := by
  obtain ⟨⟨status, users⟩, c₁, -, h⟩ := bind_eq_some.1 h
  dsimp only at h
  split at h
  · simp only [pure_apply, Prod.mk.injEq, Option.some.injEq, reduceCtorEq, false_and] at h
  · simp only [pure_apply, Prod.mk.injEq, Option.some.injEq, true_and] at h
    obtain ⟨rfl, rfl⟩ := h
    rfl

theorem tracks_start : Tracks sha256 (fun _ => none) (.replicate _ zeroSession) where
  distinct := distinct_of_free fun i => by
    simp only [Fin.getElem_fin, Vector.getElem_replicate]
    exact user_zeroSession
  held := by
    rintro u s ⟨i, rfl, hi⟩
    simp only [Fin.getElem_fin, Vector.getElem_replicate] at hi
    cases hi
  granted := by
    intro u g h
    cases h

section Tracks

variable {cur : Bytes → Option Grant} {sessions sessions' : Sessions} {u : Bytes} {g : Grant}

/-- A session in use is held under its name. -/
theorem Tracks.of_active (h : Tracks sha256 cur sessions) {i : Fin sessionCount}
    (hi : (sessions.get i).active ≠ 0) : ∃ g, cur (sessions.get i).name = some g ∧
      Backs sha256 g (sessions.get i) ∧ copyUsername (sessions.get i) = (sessions.get i).name := by
  obtain ⟨g, hg, hbacks⟩ := h.held ⟨i, rfl, user_eq_some.2 ⟨hi, rfl⟩⟩
  exact ⟨g, hg, hbacks, hbacks.copyUsername⟩

theorem Tracks.store (h : Tracks sha256 cur sessions)
    (hu : u.length < UserStore.usernameSize ∧ 0 ∉ u)
    (hstores : Stores sha256 u g sessions sessions') :
    Tracks sha256 (Function.update cur u (some g)) sessions' := by
  obtain ⟨i, session, hi, rfl, hactive, husername, hbacks⟩ := hstores
  rw [findSession_eq] at hi
  have hname : session.user = some u := user_eq_some.2
    ⟨hactive, by rw [Session.name, husername, cstr_charArray hu.1 hu.2]⟩
  refine ⟨distinct_store h.distinct hi hname, fun {v s} hheld => ?_, fun {v g'} hcur => ?_⟩
  · rw [holds_store h.distinct hi hname] at hheld
    by_cases hv : v = u
    · rw [if_pos hv] at hheld
      exact ⟨g, by rw [hv, Function.update_self], hheld ▸ hbacks⟩
    · rw [if_neg hv] at hheld
      rw [Function.update_of_ne hv]
      exact h.held hheld
  · by_cases hv : v = u
    · rw [hv, Function.update_self] at hcur
      cases hcur
      exact ⟨session, (holds_store h.distinct hi hname v session).2 (by rw [if_pos hv]), hbacks⟩
    · rw [Function.update_of_ne hv] at hcur
      obtain ⟨s, hs, hb⟩ := h.granted hcur
      exact ⟨s, (holds_store h.distinct hi hname v s).2 (by rwa [if_neg hv]), hb⟩

theorem Tracks.free (h : Tracks sha256 cur sessions) {i : Fin sessionCount}
    (hi : (sessions.get i).user = some u) :
    Tracks sha256 (Function.update cur u none) (sessions.set i zeroSession i.isLt) := by
  have hholds := holds_free (a := zeroSession) h.distinct hi user_zeroSession
  refine ⟨distinct_free h.distinct user_zeroSession, fun {v s} hheld => ?_, fun {v g'} hcur => ?_⟩
  · obtain ⟨hv, hheld⟩ := (hholds v s).1 hheld
    rw [Function.update_of_ne hv]
    exact h.held hheld
  · by_cases hv : v = u
    · rw [hv, Function.update_self] at hcur
      cases hcur
    · rw [Function.update_of_ne hv] at hcur
      obtain ⟨s, hs, hb⟩ := h.granted hcur
      exact ⟨s, (hholds v s).2 ⟨hv, hs⟩, hb⟩

/-- An account without a session has no grant to lose. -/
theorem Tracks.absent (h : Tracks sha256 cur sessions)
    (hu : ∀ i : Fin sessionCount, (sessions.get i).user ≠ some u) :
    Tracks sha256 (Function.update cur u none) sessions := by
  have hnone : cur u = none := by
    cases hcur : cur u with
    | none => rfl
    | some g =>
      obtain ⟨s, ⟨i, rfl, hi⟩, -⟩ := h.granted hcur
      exact absurd hi (hu i)
  rw [← hnone, Function.update_eq_self]
  exact h

theorem Tracks.close (h : Tracks sha256 cur sessions) :
    Tracks sha256 (Function.update cur u none) (closeSession u sessions) := by
  have hnames : ∀ i : Fin sessionCount, findSession sessions u = some i →
      (sessions.get i).user = some u ∨ ∀ j : Fin sessionCount, (sessions.get j).user ≠ some u := by
    intro i hi
    rw [findSession_eq] at hi
    exact (slot_eq_some hi).imp_right And.right
  unfold closeSession
  split
  · rename_i hnone
    rw [findSession_eq] at hnone
    exact h.absent fun i => (slot_eq_none hnone i).2
  · rename_i i hi
    split
    · rename_i hmine
      exact h.free (user_eq_some.2 hmine)
    · rename_i hother
      rcases hnames i hi with huser | hnobody
      · exact absurd (user_eq_some.1 huser) hother
      · exact h.absent hnobody

theorem Tracks.clear (h : Tracks sha256 cur sessions) {i : Fin sessionCount}
    (hi : (sessions.get i).user = some u) :
    Tracks sha256 (Function.update cur u none) (clearSlot u sessions) := by
  have hslot : findSession sessions u = some i := by
    rw [findSession_eq]
    exact slot_of_key h.distinct hi
  rw [clearSlot, hslot]
  exact h.free hi

end Tracks

/-! ## The invariant -/

/-- Tokens of `K` with one digest are one token. -/
def CollisionFree (sha256 : Sha256) (K : Set Bytes) : Prop :=
  ∀ t ∈ K, ∀ t' ∈ K, ∀ d, sha256 t = some d → sha256 t' = some d → t = t'

/-- The table tracks the history, whose grants are from between `start` and now. -/
structure Inv (sha256 : Sha256) (start : ℕ) (s : Sys) (ram : Ram) : Prop where
  wellformed : ram.users.snapshot.Wellformed
  tracks : Tracks sha256 (current s.history) ram.sessions
  times : ∀ g ∈ issued s.history, start ≤ g.time ∧ g.time ≤ s.time
  started : start ≤ s.time

section Step

variable {s : Sys} {e : Event} {ram ram' : Ram} {K : Set Bytes} {start : ℕ}

/-- A session that matches a token of `K` is the one of the account whose grant has it. -/
theorem access_of_match {h : List Record} {sessions : Sessions} {t : Bytes}
    {digest : Vector UInt8 32} {i : Fin sessionCount} (hcf : CollisionFree sha256 K)
    (hK : ∀ t ∈ tokens h, t ∈ K) (ht : t ∈ K) (htracks : Tracks sha256 (current h) sessions)
    (hdigest : sha256 t = some digest) (hactive : (sessions.get i).active ≠ 0)
    (hmatch : digest = (sessions.get i).accessDigest) :
    ∃ g, current h (sessions.get i).name = some g ∧ g.accessToken = t ∧
      Backs sha256 g (sessions.get i) ∧ copyUsername (sessions.get i) = (sessions.get i).name := by
  obtain ⟨g, hg, hbacks, hcopy⟩ := htracks.of_active hactive
  refine ⟨g, hg, ?_, hbacks, hcopy⟩
  exact hcf _ (hK _ (mem_tokens (mem_issued_of_current hg) List.mem_cons_self)) t ht digest
    (hmatch ▸ hbacks.access) hdigest

theorem refresh_of_match {h : List Record} {sessions : Sessions} {t : Bytes}
    {digest : Vector UInt8 32} {i : Fin sessionCount} (hcf : CollisionFree sha256 K)
    (hK : ∀ t ∈ tokens h, t ∈ K) (ht : t ∈ K) (htracks : Tracks sha256 (current h) sessions)
    (hdigest : sha256 t = some digest) (hactive : (sessions.get i).active ≠ 0)
    (hmatch : digest = (sessions.get i).refreshDigest) :
    ∃ g, current h (sessions.get i).name = some g ∧ g.refreshToken = t ∧
      Backs sha256 g (sessions.get i) ∧ copyUsername (sessions.get i) = (sessions.get i).name := by
  obtain ⟨g, hg, hbacks, hcopy⟩ := htracks.of_active hactive
  refine ⟨g, hg, ?_, hbacks, hcopy⟩
  have hmem : g.refreshToken ∈ g.tokens := List.mem_cons_of_mem _ List.mem_cons_self
  exact hcf _ (hK _ (mem_tokens (mem_issued_of_current hg) hmem)) t ht digest
    (hmatch ▸ hbacks.refresh) hdigest

/-- **A call keeps the table and the history in step.** -/
theorem tracks_change {users : UserStore.Ram} {time : ℕ} {h : List Record}
    {sessions sessions' : Sessions} {r : Option Record}
    (hchange : Change sha256 users time sessions r sessions') (hcf : CollisionFree sha256 K)
    (hnodup : (tokens h).Nodup) (hK : ∀ t ∈ tokens h, t ∈ K)
    (hpresented : ∀ a ∈ r, ∀ t ∈ a.token, t ∈ K) (hwf : users.snapshot.Wellformed)
    (htracks : Tracks sha256 (current h) sessions) :
    Tracks sha256 (current (r.toList ++ h)) sessions' := by
  cases hchange with
  | idle => exact htracks
  | login hknown hstores =>
    show Tracks sha256 (current (_ :: h)) sessions'
    rw [current_login]
    exact htracks.store (length_of_known hwf hknown) hstores
  | @refresh token tokens digest j _ hdigest hactive hmatch hstores =>
    obtain ⟨g, hg, rfl, hbacks, hcopy⟩ := refresh_of_match hcf hK
      (hpresented _ rfl token rfl) htracks hdigest hactive hmatch
    show Tracks sha256 (current (_ :: h)) sessions'
    rw [current_refresh hnodup hg]
    rw [hcopy] at hstores
    exact htracks.store ⟨length_cstr_lt hbacks.terminated, zero_notMem_cstr _⟩ hstores
  | @revoke token digest j hdigest hactive hmatch =>
    obtain ⟨g, hg, rfl, hbacks, hcopy⟩ := access_of_match hcf hK
      (hpresented _ rfl token rfl) htracks hdigest hactive hmatch
    show Tracks sha256 (current (_ :: h)) _
    rw [current_revoke hnodup hg, hcopy]
    exact htracks.clear (user_eq_some.2 ⟨hactive, rfl⟩)
  | changed =>
    show Tracks sha256 (current (_ :: h)) _
    rw [current_changed]
    exact htracks.close

/-- A grant of a step was issued at its time. -/
theorem times_change {users : UserStore.Ram} {time : ℕ} {sessions sessions' : Sessions}
    {r : Option Record} (hchange : Change sha256 users time sessions r sessions') :
    ∀ g ∈ issued r.toList, g.time = time := by
  intro g hg
  cases hchange with
  | idle => cases hg
  | login =>
    rw [List.mem_singleton.1 hg]
  | refresh =>
    rw [List.mem_singleton.1 hg]
  | revoke => cases hg
  | changed => cases hg

theorem inv_step (hcf : CollisionFree sha256 K) (hnodup : (tokens s.history).Nodup)
    (hK : ∀ t ∈ tokens s.history, t ∈ K) (hpresented : ∀ t ∈ e.token, cstr t ∈ K)
    (htimely : s.Timely e) (hram : s.ram = some ram)
    (hram' : (s.step sha256 e).ram = some ram') (hinv : Inv sha256 start s ram) :
    Inv sha256 start (s.step sha256 e) ram' := by
  obtain ⟨r, hchange, hhistory, hr⟩ := step_change hram hram'
  have htime := time_le_step sha256 htimely
  refine ⟨wellformed_step hram hram' hinv.wellformed, ?_, ?_, hinv.started.trans htime⟩
  · rw [hhistory]
    refine tracks_change hchange hcf hnodup hK (fun a ha t ht => ?_) hinv.wellformed hinv.tracks
    obtain ⟨t', ht', rfl⟩ := hr a ha t ht
    exact hpresented t' ht'
  · intro g hg
    rw [hhistory, issued_append, List.mem_append] at hg
    rcases hg with hg | hg
    · rw [times_change hchange g hg]
      exact ⟨hinv.started.trans htime, le_rfl⟩
    · exact (hinv.times g hg).imp_right fun h => h.trans htime

end Step

theorem inv_start {cells : Cells} {users : UserStore.Ram} (start : ℕ)
    (hwf : users.snapshot.Wellformed) : Inv sha256 start (Sys.start cells users start)
      ⟨.replicate _ zeroSession, users⟩ where
  wellformed := hwf
  tracks := tracks_start
  times := fun _ h => by cases h
  started := le_rfl

/-- The invariant holds after every run. -/
theorem inv_run {s₀ : Sys} {ram₀ ram : Ram} {K : Set Bytes} {start : ℕ} {events : List Event}
    (hcf : CollisionFree sha256 K) (hram₀ : s₀.ram = some ram₀) (hinv : Inv sha256 start s₀ ram₀)
    (htimely : Run.Along (Sys.step sha256) Sys.Timely s₀ events)
    (hnodup : (tokens (s₀.run sha256 events).history).Nodup)
    (hK : ∀ t ∈ tokens (s₀.run sha256 events).history, t ∈ K)
    (hpresented : ∀ e ∈ events, ∀ t ∈ e.token, cstr t ∈ K)
    (hram : (s₀.run sha256 events).ram = some ram) :
    Inv sha256 start (s₀.run sha256 events) ram := by
  -- from the last event backwards: an earlier history is part of the last one
  induction events using List.reverseRecOn generalizing ram with
  | nil =>
    cases hram₀.symm.trans hram
    exact hinv
  | append_singleton events e ih =>
    rw [run_concat] at hnodup hK hram ⊢
    obtain ⟨new, hhistory⟩ := history_step sha256 (s₀.run sha256 events) e
    rw [← hhistory, tokens_append] at hnodup hK
    have hnodup' := (List.nodup_append.1 hnodup).2.1
    have hK' : ∀ t ∈ tokens (s₀.run sha256 events).history, t ∈ K := fun t ht =>
      hK t (List.mem_append_right _ ht)
    obtain ⟨hbefore, hlast, -⟩ := Run.along_append.1 htimely
    cases hprev : (s₀.run sha256 events).ram with
    | none =>
      rw [ram_step_none e hprev, hprev] at hram
      cases hram
    | some prev =>
      exact inv_step hcf hnodup' hK' (hpresented e (List.mem_append_right _ List.mem_cons_self))
        hlast hprev hram (ih hbefore hnodup' hK'
          (fun e he => hpresented e (List.mem_append_left _ he)) hprev)

/-! ## Which tokens are accepted -/

section Accepted

variable {s : Sys} {ram : Ram} {K : Set Bytes} {start now : ℕ} {t : Bytes}

/-- What the results about one state share: it is reached by a run that is shorter than the wrap
of the tick, on tokens that are all different and whose digests do not collide. -/
structure Ideal (sha256 : Sha256) (K : Set Bytes) (start now : ℕ) (s : Sys) (ram : Ram) : Prop where
  inv : Inv sha256 start s ram
  collisionFree : CollisionFree sha256 K
  nodup : (tokens s.history).Nodup
  tokens_mem : ∀ t ∈ tokens s.history, t ∈ K
  reached : s.time ≤ now
  unwrapped : now < start + 2 ^ 32

/-- In such a state the tick test tells the age. -/
theorem Ideal.fresh_iff (h : Ideal sha256 K start now s ram) {g : Grant} {u : Bytes}
    (hg : current s.history u = some g) (lifetime : UInt32) :
    tick now - tick g.time ≤ lifetime ↔ now - g.time ≤ lifetime.toNat := by
  obtain ⟨hfrom, hto⟩ := h.inv.times g (mem_issued_of_current hg)
  have hreached := h.reached
  have hunwrapped := h.unwrapped
  rw [elapsed_iff (by omega), Nat.mod_eq_of_lt (by omega)]

theorem Ideal.authorize_iff (h : Ideal sha256 K start now s ram) (ht : cstr t ∈ K) (u : Bytes) :
    (∃ role, authorize sha256 t (tick now) ram.sessions = (.ok, some ⟨u, role⟩)) ↔
      ∃ g, current s.history u = some g ∧ g.accessToken = cstr t ∧ now - g.time ≤ 900000 := by
  have hcf := h.collisionFree
  have htracks := h.inv.tracks
  constructor
  · rintro ⟨role, hauth⟩
    obtain ⟨-, digest, i, hdigest, hi, hprincipal⟩ := authorize_eq_ok.1 hauth
    obtain ⟨hactive, hfresh, hmatch⟩ := findAccess_eq_some hi
    obtain ⟨g, hg, htoken, hbacks, hcopy⟩ := access_of_match hcf h.tokens_mem ht htracks hdigest
      hactive hmatch
    have hu : u = (ram.sessions.get i).name := (congrArg Principal.username hprincipal).trans hcopy
    rw [hbacks.accessIssuedAt, h.fresh_iff hg] at hfresh
    exact ⟨g, hu ▸ hg, htoken, hfresh⟩
  · rintro ⟨g, hg, htoken, hage⟩
    obtain ⟨session, ⟨i, rfl, huser⟩, hbacks⟩ := htracks.granted hg
    obtain ⟨hactive, hname⟩ := user_eq_some.1 huser
    have hfound : findAccess (ram.sessions.get i).accessDigest (tick now) ram.sessions ≠ none := by
      have hbacks : Backs sha256 g (ram.sessions.get i) := hbacks
      refine findAccess_ne_none (i := i) hactive ?_ rfl
      rw [hbacks.accessIssuedAt, h.fresh_iff hg]
      exact hage
    obtain ⟨j, hj⟩ := Option.ne_none_iff_exists'.1 hfound
    have hdigest : sha256 (cstr t) = some (ram.sessions.get i).accessDigest := htoken ▸ hbacks.access
    -- the loop may stop at another session, but only one of the same account
    obtain ⟨hactive', -, hmatch⟩ := findAccess_eq_some hj
    obtain ⟨g', hg', htoken', -, hcopy⟩ := access_of_match hcf h.tokens_mem ht htracks hdigest
      hactive' hmatch
    have hu : (ram.sessions.get j).name = u := current_unique h.nodup hg' hg (t := g'.accessToken)
      List.mem_cons_self (by rw [htoken', ← htoken]; exact List.mem_cons_self)
    refine ⟨(ram.sessions.get j).role, authorize_eq_ok.2 ⟨htoken ▸ hbacks.accessLength, _, j, hdigest,
      hj, ?_⟩⟩
    rw [hcopy, hu]

theorem Ideal.refresh_iff (h : Ideal sha256 K start now s ram) (ht : cstr t ∈ K) (draws : Draws)
    (issuedAt : UInt32) : (refresh sha256 t draws (tick now) issuedAt ram).1 = .ok ↔
      draws.Hashed sha256 ∧ ∃ u g, current s.history u = some g ∧ g.refreshToken = cstr t ∧
        now - g.time ≤ 604800000 := by
  have hcf := h.collisionFree
  have htracks := h.inv.tracks
  rw [refresh_ok_iff]
  constructor
  · rintro ⟨-, digest, i, hdigest, hi, hhashed, -⟩
    obtain ⟨hactive, hfresh, hmatch⟩ := findRefresh_eq_some hi
    obtain ⟨g, hg, htoken, hbacks, -⟩ := refresh_of_match hcf h.tokens_mem ht htracks hdigest
      hactive hmatch
    rw [hbacks.refreshIssuedAt, h.fresh_iff hg] at hfresh
    exact ⟨hhashed, _, g, hg, htoken, hfresh⟩
  · rintro ⟨hhashed, u, g, hg, htoken, hage⟩
    obtain ⟨session, ⟨i, rfl, huser⟩, hbacks⟩ := htracks.granted hg
    obtain ⟨hactive, -⟩ := user_eq_some.1 huser
    have hfound : findRefresh (ram.sessions.get i).refreshDigest (tick now) ram.sessions ≠ none := by
      have hbacks : Backs sha256 g (ram.sessions.get i) := hbacks
      refine findRefresh_ne_none (i := i) hactive ?_ rfl
      rw [hbacks.refreshIssuedAt, h.fresh_iff hg]
      exact hage
    obtain ⟨j, hj⟩ := Option.ne_none_iff_exists'.1 hfound
    have hdigest : sha256 (cstr t) = some (ram.sessions.get i).refreshDigest := htoken ▸ hbacks.refresh
    obtain ⟨hactive', -, -⟩ := findRefresh_eq_some hj
    obtain ⟨-, -, -, hcopy⟩ := htracks.of_active hactive'
    have hslot : findSession ram.sessions (ram.sessions.get j).name = some j := by
      rw [findSession_eq]
      exact slot_of_key htracks.distinct (user_eq_some.2 ⟨hactive', rfl⟩)
    refine ⟨htoken ▸ hbacks.refreshLength, _, j, hdigest, hj, hhashed, ?_⟩
    rw [hcopy, hslot]
    exact Option.some_ne_none j

end Accepted

/-- **The current token, and no other, is accepted.** After any run of calls that lasts less than
`2 ^ 32` milliseconds, on tokens that are pairwise distinct and without collisions of their
digests, `AuthService_Authorize` takes a token for `u` exactly when it is the access token that
is current for `u` in the history, at most 900 seconds old, and `AuthService_Refresh` can succeed
exactly with a current refresh token that is at most 604800 seconds old. So an account has one
token of a kind, no token is of both kinds, and a call that fails takes nothing away. -/
theorem tokens_accepted_iff {K : Set Bytes} {cells : Cells} {users : UserStore.Ram} {start : ℕ}
    {events : List Event} {ram : Ram} {now : ℕ} {t : Bytes}
    (hcf : CollisionFree sha256 K) (hwf : users.snapshot.Wellformed)
    (htimely : Run.Along (Sys.step sha256) Sys.Timely (Sys.start cells users start) events)
    (hnodup : (tokens ((Sys.start cells users start).run sha256 events).history).Nodup)
    (hissued : ∀ t ∈ tokens ((Sys.start cells users start).run sha256 events).history, t ∈ K)
    (hpresented : ∀ e ∈ events, ∀ t ∈ e.token, cstr t ∈ K)
    (hram : ((Sys.start cells users start).run sha256 events).ram = some ram)
    (hnow : ((Sys.start cells users start).run sha256 events).time ≤ now)
    (hwrap : now < start + 2 ^ 32) (ht : cstr t ∈ K) :
    let history := ((Sys.start cells users start).run sha256 events).history
    (∀ u, (∃ role, authorize sha256 t (tick now) ram.sessions = (.ok, some ⟨u, role⟩)) ↔
      ∃ g, current history u = some g ∧ g.accessToken = cstr t ∧ now - g.time ≤ 900000) ∧
    (∀ draws issuedAt, (refresh sha256 t draws (tick now) issuedAt ram).1 = .ok ↔
      draws.Hashed sha256 ∧ ∃ u g, current history u = some g ∧ g.refreshToken = cstr t ∧
        now - g.time ≤ 604800000) ∧
    (∀ g ∈ issued history, g.accessToken = cstr t → ∀ draws issuedAt,
      (refresh sha256 t draws (tick now) issuedAt ram).1 ≠ .ok) ∧
    (∀ g ∈ issued history, g.refreshToken = cstr t →
      (authorize sha256 t (tick now) ram.sessions).1 ≠ .ok) ∧
    (∀ derive username password draws,
      (login sha256 derive username password draws (tick now) ram).1 ≠ .ok →
        (login sha256 derive username password draws (tick now) ram).2.2 = ram) ∧
    ∀ draws issuedAt, (refresh sha256 t draws (tick now) issuedAt ram).1 ≠ .ok →
      (refresh sha256 t draws (tick now) issuedAt ram).2.2 = ram := by
  intro history
  have hideal : Ideal sha256 K start now _ ram :=
    ⟨inv_run hcf rfl (inv_start start hwf) htimely hnodup hissued hpresented hram,
      hcf, hnodup, hissued, hnow, hwrap⟩
  refine ⟨hideal.authorize_iff ht, hideal.refresh_iff ht, ?_, ?_, ?_, ?_⟩
  · intro g hg htoken draws issuedAt hok
    obtain ⟨-, u, g', hg', htoken', -⟩ := (hideal.refresh_iff ht draws issuedAt).1 hok
    exact access_ne_refresh hnodup hg (mem_issued_of_current hg') (htoken.trans htoken'.symm)
  · intro g hg htoken hok
    obtain ⟨⟨u, role⟩, hprincipal⟩ := authorize_ok (Prod.ext hok rfl)
    obtain ⟨g', hg', htoken', -⟩ := (hideal.authorize_iff ht u).1
      ⟨role, Prod.ext hok hprincipal⟩
    exact access_ne_refresh hnodup (mem_issued_of_current hg') hg (htoken'.trans htoken.symm)
  · intro derive username password draws hfailed
    exact congrArg Prod.snd (login_failed hfailed)
  · intro draws issuedAt hfailed
    exact congrArg Prod.snd (refresh_failed hfailed)

/-! One account logs in: its access token is the text of 32 bytes `0x11`, its refresh token that
of 32 bytes `0x22`. -/

def aliceRecord : UserStore.Record where
  enabled := 1
  role := UserStore.roleUser
  username := charArray _ (ascii "alice")
  salt := .ofFn fun i => UInt8.ofNat i
  verifier := #v[0x57, 0xF2, 0xC2, 0xF0, 0x73, 0x97, 0x48, 0xD5, 0x16, 0x41, 0x9B, 0x06, 0x2A, 0x88,
    0x46, 0x66, 0x32, 0x3C, 0x58, 0x3E, 0xA4, 0xAE, 0x16, 0x55, 0x04, 0xA8, 0x1F, 0x7B, 0x53, 0xC6,
    0x2A, 0x09]
  padding := 0
  iterations := userIterations

def aliceUsers : UserStore.Ram :=
  ⟨{ UserStore.empty with count := 1, users := UserStore.empty.users.set 0 aliceRecord },
    FlashLayout.userStoreSectorA⟩

/-- The derivation of alice's password; others are not needed. -/
def aliceDerive : Derive := fun password salt iterations =>
  if password = ascii "correct horse" ∧ salt = aliceRecord.salt ∧ iterations = userIterations then
    some aliceRecord.verifier
  else none

def aliceTokens : TokenPair :=
  ⟨.replicate 64 0x31, .replicate 64 0x32, accessLifetimeSec, refreshLifetimeSec⟩

/-- The digests of alice's tokens; others are not needed. -/
def aliceSha256 : Sha256 := fun text =>
  if text = aliceTokens.accessToken then
    some #v[0x31, 0x38, 0xBB, 0x9B, 0xC7, 0x8D, 0xF2, 0x7C, 0x47, 0x3E, 0xCF, 0xD1, 0x41, 0x0F, 0x7B,
      0xD4, 0x5E, 0xBA, 0xC1, 0xF5, 0x9C, 0xF3, 0xFF, 0x9C, 0xFE, 0x4D, 0xB7, 0x7A, 0xAB, 0x7A, 0xED,
      0xD3]
  else if text = aliceTokens.refreshToken then
    some #v[0x4F, 0x2E, 0x8D, 0x65, 0x48, 0x3C, 0x64, 0x16, 0x48, 0xCD, 0xB3, 0x74, 0xAE, 0x9D, 0x8A,
      0xBD, 0x36, 0x8D, 0x26, 0x9E, 0x4D, 0xDF, 0xFE, 0x09, 0x2A, 0x82, 0x37, 0xB8, 0x16, 0x2C, 0xDD,
      0xD6]
  else none

def aliceLogin : Event :=
  .login (ascii "alice") (ascii "correct horse") aliceDerive
    ⟨some (.replicate _ 0x11), some (.replicate _ 0x22)⟩ 0

def aliceStart : Sys := Sys.start (fun _ => 0xFF) aliceUsers 0

theorem history_aliceLogin : (aliceStart.run aliceSha256 [aliceLogin]).history =
    [.login (ascii "alice") ⟨aliceTokens, 0⟩] := by decide +kernel

theorem wellformed_aliceUsers : aliceUsers.snapshot.Wellformed where
  count := by decide
  terminated := by
    have hrecords : aliceUsers.snapshot.records = [aliceRecord] := by decide +kernel
    intro r hr
    rw [hrecords] at hr
    rw [List.mem_singleton.1 hr]
    exact zero_mem_charArray (by decide) _

/-- One second after her login alice's access token is accepted. -/
theorem tokens_accepted_iff_alice : ∃ ram,
    (aliceStart.run aliceSha256 [aliceLogin]).ram = some ram ∧
    ∃ role, authorize aliceSha256 aliceTokens.accessToken (tick 1000) ram.sessions =
      (.ok, some ⟨ascii "alice", role⟩) := by
  have hsome : (aliceStart.run aliceSha256 [aliceLogin]).ram.isSome = true := by decide +kernel
  obtain ⟨ram, hram⟩ := Option.isSome_iff_exists.1 hsome
  have htime : (aliceStart.run aliceSha256 [aliceLogin]).time = 0 := by decide +kernel
  have htokens : tokens (aliceStart.run aliceSha256 [aliceLogin]).history =
      [aliceTokens.accessToken, aliceTokens.refreshToken] := by
    rw [history_aliceLogin]
    rfl
  have htext : cstr aliceTokens.accessToken = aliceTokens.accessToken := by decide +kernel
  let K : Set Bytes := {aliceTokens.accessToken, aliceTokens.refreshToken}
  have hcf : CollisionFree aliceSha256 K := by
    rintro t (rfl | rfl) t' (rfl | rfl) d hd hd'
    · rfl
    · exact absurd (hd.trans hd'.symm) (by decide +kernel)
    · exact absurd (hd.trans hd'.symm) (by decide +kernel)
    · rfl
  have htimely : Run.Along (Sys.step aliceSha256) Sys.Timely aliceStart [aliceLogin] :=
    ⟨le_rfl, trivial⟩
  refine ⟨ram, hram, ((tokens_accepted_iff (K := K) (t := aliceTokens.accessToken) hcf
    wellformed_aliceUsers htimely ?_ ?_ ?_ hram ?_ ?_ ?_).1 (ascii "alice")).2
    ⟨⟨aliceTokens, 0⟩, ?_, htext.symm, by decide⟩⟩
  · exact (congrArg List.Nodup htokens).mpr (by decide +kernel)
  · intro t ht
    have ht' : t ∈ [aliceTokens.accessToken, aliceTokens.refreshToken] := htokens ▸ ht
    simpa [K] using ht'
  · intro e he t ht
    rw [List.mem_singleton.1 he] at ht
    cases ht
  · exact htime.le.trans (by decide)
  · decide
  · rw [htext]
    exact .inl rfl
  · exact (congrFun (congrArg current history_aliceLogin) _).trans (by rw [current, if_pos rfl])

/-! ## The age of what is accepted -/

/-- Every session in use was issued with a grant of the history. -/
def Backed (sha256 : Sha256) (s : Sys) (sessions : Sessions) : Prop :=
  ∀ i : Fin sessionCount, (sessions.get i).active ≠ 0 →
    ∃ g ∈ issued s.history, Backs sha256 g (sessions.get i) ∧ g.time ≤ s.time

/-- The state of the invariant for runs of any length. -/
def Sys.Backed (sha256 : Sha256) (s : Sys) : Prop :=
  ∀ ram, s.ram = some ram → AuthService.Backed sha256 s ram.sessions

section Backed

variable {s : Sys} {e : Event} {ram ram' : Ram}

/-- A cleared slot is not in use, the others are as they were. -/
theorem active_of_cleared {sessions : Sessions} {i j : Fin sessionCount}
    (hj : ((sessions.set i zeroSession i.isLt).get j).active ≠ 0) :
    (sessions.set i zeroSession i.isLt).get j = sessions.get j := by
  rw [get_set] at hj ⊢
  split at hj
  · exact absurd rfl hj
  · rename_i hne
    rw [if_neg hne]

theorem backed_change {users : UserStore.Ram} {time : ℕ} {sessions sessions' : Sessions}
    {r : Option Record} (hchange : Change sha256 users time sessions r sessions')
    {i : Fin sessionCount} (hi : (sessions'.get i).active ≠ 0) :
    sessions'.get i = sessions.get i ∨ ∃ g ∈ issued r.toList, Backs sha256 g (sessions'.get i) := by
  have hstores : ∀ {u : Bytes} {g : Grant}, Stores sha256 u g sessions sessions' →
      g ∈ issued r.toList →
      sessions'.get i = sessions.get i ∨ ∃ g ∈ issued r.toList, Backs sha256 g (sessions'.get i) := by
    rintro u g ⟨j, session, -, rfl, -, -, hbacks⟩ hg
    rw [get_set]
    split
    · exact .inr ⟨g, hg, hbacks⟩
    · exact .inl rfl
  cases hchange with
  | idle => exact .inl rfl
  | login hknown h => exact hstores h List.mem_cons_self
  | refresh _ _ _ h => exact hstores h List.mem_cons_self
  | revoke =>
    unfold clearSlot at hi ⊢
    split at hi
    · exact .inl rfl
    · exact .inl (active_of_cleared hi)
  | changed =>
    unfold closeSession at hi ⊢
    split at hi
    · exact .inl rfl
    · split at hi
      · rename_i hmine
        rw [if_pos hmine]
        exact .inl (active_of_cleared hi)
      · rename_i hother
        rw [if_neg hother]
        exact .inl rfl

theorem backed_step (htimely : s.Timely e) (h : s.Backed sha256) :
    (s.step sha256 e).Backed sha256 := by
  intro ram' hram' i hi
  rcases hram : s.ram with _ | ram
  · rw [ram_step_none e hram, hram] at hram'
    cases hram'
  · obtain ⟨r, hchange, hhistory, -⟩ := step_change hram hram'
    have htime := time_le_step sha256 htimely
    rw [hhistory, issued_append]
    rcases backed_change hchange hi with hsame | ⟨g, hg, hbacks⟩
    · rw [hsame] at hi ⊢
      obtain ⟨g, hg, hbacks, hle⟩ := h ram hram i hi
      exact ⟨g, List.mem_append_right _ hg, hbacks, hle.trans htime⟩
    · exact ⟨g, List.mem_append_left _ hg, hbacks, (times_change hchange g hg).le⟩

theorem backed_start (sha256 : Sha256) (cells : Cells) (users : UserStore.Ram) (start : ℕ) :
    (Sys.start cells users start).Backed sha256 := by
  intro ram hram i hi
  cases hram
  simp only [get_eq_getElem, Vector.getElem_replicate] at hi
  exact absurd rfl hi

end Backed

/-- A token with the digest of `t` was handed out at most `lifetime` milliseconds ago. -/
def Young (sha256 : Sha256) (token : Grant → Bytes) (lifetime : ℕ) (h : List Record) (now : ℕ)
    (t : Bytes) : Prop :=
  ∃ g ∈ issued h, sha256 (token g) = sha256 t ∧ now - g.time ≤ lifetime

/-- No session that holds the digest of `t` is so old that its age, seen modulo the wrap of the
tick, is back within the lifetime. -/
def Unwrapped (sha256 : Sha256) (token : Grant → Bytes) (lifetime : ℕ) (h : List Record)
    (sessions : Sessions) (now : ℕ) (t : Bytes) : Prop :=
  t.length = tokenTextSize - 1 → ∀ g ∈ issued h, ∀ i : Fin sessionCount,
    (sessions.get i).active ≠ 0 → Backs sha256 g (sessions.get i) → sha256 (token g) = sha256 t →
    (now - g.time) % 2 ^ 32 ≤ lifetime → now - g.time ≤ lifetime

/-- What `AuthService_Authorize` and `AuthService_Refresh` accept in this state is young. -/
def Sys.AcceptsYoung (sha256 : Sha256) (s : Sys) (e : Event) : Prop :=
  ∀ ram, s.ram = some ram → match e with
    | .authorize token time => (authorize sha256 token (tick time) ram.sessions).1 = .ok →
      Young sha256 Grant.accessToken 900000 s.history time (cstr token)
    | .refresh token draws now issuedAt =>
      (refresh sha256 token draws (tick now) (tick issuedAt) ram).1 = .ok →
        Young sha256 Grant.refreshToken 604800000 s.history now (cstr token)
    | _ => True

/-- The session that such a call would match has not wrapped. -/
def Sys.Unwrapped (sha256 : Sha256) (s : Sys) (e : Event) : Prop :=
  ∀ ram, s.ram = some ram → match e with
    | .authorize token time => AuthService.Unwrapped sha256 Grant.accessToken 900000 s.history
        ram.sessions time (cstr token)
    | .refresh token draws now _ => draws.Hashed sha256 → AuthService.Unwrapped sha256
        Grant.refreshToken 604800000 s.history ram.sessions now (cstr token)
    | _ => True

/-- No two grants have a digest in common. -/
def DistinctDigests (sha256 : Sha256) (h : List Record) : Prop :=
  ∀ g ∈ issued h, ∀ g' ∈ issued h, sha256 g.accessToken = sha256 g'.accessToken ∨
    sha256 g.refreshToken = sha256 g'.refreshToken → g = g'

section Young

variable {s : Sys} {e : Event}

theorem acceptsYoung_of_unwrapped (htimely : s.Timely e) (hbacked : s.Backed sha256)
    (h : s.Unwrapped sha256 e) : s.AcceptsYoung sha256 e := by
  intro ram hram
  have hunwrapped := h ram hram
  cases e with
  | authorize token time =>
    intro hok
    obtain ⟨principal, hprincipal⟩ := authorize_ok (Prod.ext hok rfl)
    obtain ⟨hlen, digest, i, hdigest, hi, -⟩ :=
      authorize_eq_ok.1 (Prod.ext hok hprincipal)
    obtain ⟨hactive, hfresh, hmatch⟩ := findAccess_eq_some hi
    obtain ⟨g, hg, hbacks, hle⟩ := hbacked ram hram i hactive
    have hsame : sha256 g.accessToken = sha256 (cstr token) := by
      rw [hdigest, hmatch, hbacks.access]
    rw [hbacks.accessIssuedAt, elapsed_iff (hle.trans htimely)] at hfresh
    exact ⟨g, hg, hsame, hunwrapped hlen g hg i hactive hbacks hsame hfresh⟩
  | refresh token draws now issuedAt =>
    intro hok
    obtain ⟨hlen, digest, i, hdigest, hi, hhashed, -⟩ := refresh_ok_iff.1 hok
    obtain ⟨hactive, hfresh, hmatch⟩ := findRefresh_eq_some hi
    obtain ⟨g, hg, hbacks, hle⟩ := hbacked ram hram i hactive
    have hsame : sha256 g.refreshToken = sha256 (cstr token) := by
      rw [hdigest, hmatch, hbacks.refresh]
    rw [hbacks.refreshIssuedAt, elapsed_iff (hle.trans htimely.1)] at hfresh
    exact ⟨g, hg, hsame, hunwrapped hhashed hlen g hg i hactive hbacks hsame hfresh⟩
  | login => trivial
  | revoke => trivial
  | putUser => trivial
  | deleteUser => trivial

theorem unwrapped_of_acceptsYoung (htimely : s.Timely e) (hbacked : s.Backed sha256)
    (hdistinct : DistinctDigests sha256 s.history) (h : s.AcceptsYoung sha256 e) :
    s.Unwrapped sha256 e := by
  intro ram hram
  have hyoung := h ram hram
  cases e with
  | authorize token time =>
    intro hlen g hg i hactive hbacks hsame hwrapped
    obtain ⟨g₀, hg₀, hbacks₀, hle⟩ := hbacked ram hram i hactive
    have hg₀g : g₀ = g := hdistinct g₀ hg₀ g hg (.inl (by rw [hbacks₀.access, hbacks.access]))
    have hfresh : tick time - (ram.sessions.get i).accessIssuedAt ≤ accessLifetimeSec * 1000 := by
      rw [hbacks.accessIssuedAt, elapsed_iff (hg₀g ▸ hle.trans htimely)]
      exact hwrapped
    have hdigest : sha256 (cstr token) = some (ram.sessions.get i).accessDigest :=
      hsame ▸ hbacks.access
    obtain ⟨j, hj⟩ := Option.ne_none_iff_exists'.1 (findAccess_ne_none hactive hfresh rfl)
    have hauth := authorize_eq_ok.2 ⟨hlen, _, j, hdigest, hj, rfl⟩
    obtain ⟨g', hg', hsame', hage⟩ := hyoung (by rw [hauth])
    have hgg : g' = g := hdistinct g' hg' g hg (.inl (hsame'.trans hsame.symm))
    exact hgg ▸ hage
  | refresh token draws now issuedAt =>
    intro hhashed hlen g hg i hactive hbacks hsame hwrapped
    obtain ⟨g₀, hg₀, hbacks₀, hle⟩ := hbacked ram hram i hactive
    have hg₀g : g₀ = g := hdistinct g₀ hg₀ g hg (.inl (by rw [hbacks₀.access, hbacks.access]))
    have hfresh : tick now - (ram.sessions.get i).refreshIssuedAt ≤ refreshLifetimeSec * 1000 := by
      rw [hbacks.refreshIssuedAt, elapsed_iff (hg₀g ▸ hle.trans htimely.1)]
      exact hwrapped
    have hdigest : sha256 (cstr token) = some (ram.sessions.get i).refreshDigest :=
      hsame ▸ hbacks.refresh
    obtain ⟨j, hj⟩ := Option.ne_none_iff_exists'.1 (findRefresh_ne_none hactive hfresh rfl)
    obtain ⟨hactive', -, -⟩ := findRefresh_eq_some hj
    obtain ⟨g', hg', hbacks', -⟩ := hbacked ram hram j hactive'
    have hslot : findSession ram.sessions (copyUsername (ram.sessions.get j)) ≠ none := by
      rw [findSession_eq, hbacks'.copyUsername]
      exact fun hnone => (slot_eq_none hnone j).2 (user_eq_some.2 ⟨hactive', rfl⟩)
    obtain ⟨g', hg', hsame', hage⟩ :=
      hyoung (refresh_ok_iff.2 ⟨hlen, _, j, hdigest, hj, hhashed, hslot⟩)
    have hgg : g' = g := hdistinct g' hg' g hg (.inr (hsame'.trans hsame.symm))
    exact hgg ▸ hage
  | login => trivial
  | revoke => trivial
  | putUser => trivial
  | deleteUser => trivial

end Young

theorem history_run (s : Sys) (events : List Event) :
    s.history <:+ (s.run sha256 events).history := by
  induction events generalizing s with
  | nil => exact List.suffix_rfl
  | cons e events ih => exact (history_step sha256 s e).trans (ih _)

theorem DistinctDigests.of_suffix {h h' : List Record} (hd : DistinctDigests sha256 h')
    (hsuffix : h <:+ h') : DistinctDigests sha256 h := by
  obtain ⟨new, rfl⟩ := hsuffix
  have hmem : ∀ {g}, g ∈ issued h → g ∈ issued (new ++ h) := fun hg => by
    rw [issued_append]
    exact List.mem_append_right _ hg
  exact fun g hg g' hg' => hd g (hmem hg) g' (hmem hg')

/-- **The age of accepted tokens, in runs of any length.** As long as no session that a call would
match has wrapped back into its lifetime, every token that `AuthService_Authorize` or
`AuthService_Refresh` accepts was handed out at most 900 or 604800 seconds of true time ago; and
when no two pairs share a digest, only that long. -/
theorem accepted_young {cells : Cells} {users : UserStore.Ram} {start : ℕ} {events : List Event}
    (htimely : Run.Along (Sys.step sha256) Sys.Timely (Sys.start cells users start) events) :
    (Run.Along (Sys.step sha256) (Sys.Unwrapped sha256) (Sys.start cells users start) events →
      Run.Along (Sys.step sha256) (Sys.AcceptsYoung sha256) (Sys.start cells users start) events) ∧
    (DistinctDigests sha256 ((Sys.start cells users start).run sha256 events).history →
      Run.Along (Sys.step sha256) (Sys.AcceptsYoung sha256) (Sys.start cells users start) events →
      Run.Along (Sys.step sha256) (Sys.Unwrapped sha256) (Sys.start cells users start) events) := by
  have hbacked := backed_start sha256 cells users start
  generalize Sys.start cells users start = s at htimely hbacked ⊢
  induction events generalizing s with
  | nil => exact ⟨fun _ => trivial, fun _ _ => trivial⟩
  | cons e events ih =>
    obtain ⟨hhere, hrest⟩ := htimely
    obtain ⟨hforth, hback⟩ := ih (s.step sha256 e) hrest (backed_step hhere hbacked)
    refine ⟨fun h => ⟨acceptsYoung_of_unwrapped hhere hbacked h.1, hforth h.2⟩, fun hd h => ?_⟩
    exact ⟨unwrapped_of_acceptsYoung hhere hbacked
      (hd.of_suffix (history_run s (e :: events))) h.1, hback hd h.2⟩

/-- Alice's access token is presented `time` milliseconds after her login. -/
def aliceReturns (time : ℕ) : List Event :=
  [aliceLogin, .authorize aliceTokens.accessToken time]

theorem timely_aliceReturns (time : ℕ) :
    Run.Along (Sys.step aliceSha256) Sys.Timely aliceStart (aliceReturns time) := by
  have htime : (aliceStart.step aliceSha256 aliceLogin).time = 0 := by decide +kernel
  refine ⟨le_rfl, ?_, trivial⟩
  show (aliceStart.step aliceSha256 aliceLogin).time ≤ time
  omega

/-- After a second it is accepted, and young. -/
theorem accepted_young_alice : Run.Along (Sys.step aliceSha256) (Sys.AcceptsYoung aliceSha256)
    aliceStart (aliceReturns 1000) := by
  refine (accepted_young (timely_aliceReturns 1000)).1 ⟨fun _ _ => trivial, ?_, trivial⟩
  intro ram _ _ g _ i _ _ _ _
  omega

/-- After `2 ^ 32` milliseconds, more than 49 days, it is accepted again. -/
theorem wrapped_token_accepted :
    Run.Along (Sys.step aliceSha256) Sys.Timely aliceStart (aliceReturns (2 ^ 32)) ∧
    ¬ Run.Along (Sys.step aliceSha256) (Sys.AcceptsYoung aliceSha256) aliceStart
      (aliceReturns (2 ^ 32)) := by
  refine ⟨timely_aliceReturns _, fun h => ?_⟩
  have hsome : (aliceStart.step aliceSha256 aliceLogin).ram.isSome = true := by decide +kernel
  obtain ⟨ram, hram⟩ := Option.isSome_iff_exists.1 hsome
  have haccepted : ((aliceStart.step aliceSha256 aliceLogin).ram.map fun ram =>
      (authorize aliceSha256 aliceTokens.accessToken (tick (2 ^ 32)) ram.sessions).1) =
      some .ok := by decide +kernel
  rw [hram] at haccepted
  obtain ⟨g, hg, -, hage⟩ := h.2.1 ram hram (Option.some.inj haccepted)
  have hhistory : (aliceStart.step aliceSha256 aliceLogin).history =
      [.login (ascii "alice") ⟨aliceTokens, 0⟩] := history_aliceLogin
  rw [hhistory] at hg
  rw [List.mem_singleton.1 hg] at hage
  exact absurd hage (by decide)

end HealthCheck.AuthService
