import HealthCheck.AuthService
import HealthCheck.Lib.Run
import Mathlib.Algebra.Order.Ring.Nat
import Mathlib.Data.List.Nodup
import Mathlib.Data.List.Pairwise
import Mathlib.Logic.Function.Basic

/-!
# What the callers of the account service have seen

The sessions are bookkeeping; what they stand for is the history of the calls that succeeded. A
**grant** is a pair that was handed out, at a time counted in milliseconds without end. From the
history alone, `current` tells the grant of each account: the pair of its last login or refresh,
unless it was revoked or the account was changed since.

`Sys` is the service in its history: its variables, the true time, and what has been recorded.
The tick is that time modulo `2 ^ 32`.
-/

namespace HealthCheck.AuthService

open Nor hiding read driven_read read_ok read_cases
open CString

/-! ## The history -/

/-- A pair that was handed out, and when. -/
structure Grant where
  pair : TokenPair
  time : ℕ
deriving DecidableEq

abbrev Grant.accessToken (g : Grant) : Bytes := g.pair.accessToken
abbrev Grant.refreshToken (g : Grant) : Bytes := g.pair.refreshToken

/-- A call that succeeded. -/
inductive Record where
  | login (username : Bytes) (grant : Grant)
  | refresh (refreshToken : Bytes) (grant : Grant)
  | revoke (accessToken : Bytes)
  /-- `AuthService_PutUser` or `AuthService_DeleteUser`. -/
  | changed (username : Bytes)
deriving DecidableEq

/-- The grant of an account, from what was recorded, latest first. -/
def current : List Record → Bytes → Option Grant
  | [], _ => none
  | .login v g :: h, u => if u = v then some g else current h u
  | .refresh token g :: h, u =>
    (current h u).map fun old => if old.refreshToken = token then g else old
  | .revoke token :: h, u => (current h u).filter fun g => g.accessToken ≠ token
  | .changed v :: h, u => if u = v then none else current h u

/-- All grants of a history. -/
def issued : List Record → List Grant
  | [] => []
  | .login _ g :: h => g :: issued h
  | .refresh _ g :: h => g :: issued h
  | _ :: h => issued h

def Grant.tokens (g : Grant) : List Bytes := [g.accessToken, g.refreshToken]

/-- All tokens of a history. -/
def tokens (h : List Record) : List Bytes := (issued h).flatMap Grant.tokens

theorem issued_append (h h' : List Record) : issued (h ++ h') = issued h ++ issued h' := by
  induction h with
  | nil => rfl
  | cons r h ih => cases r <;> simp [issued, ih]

theorem tokens_append (h h' : List Record) : tokens (h ++ h') = tokens h ++ tokens h' := by
  rw [tokens, issued_append, List.flatMap_append, tokens, tokens]

theorem mem_tokens {h : List Record} {g : Grant} (hg : g ∈ issued h) {t : Bytes}
    (ht : t ∈ g.tokens) : t ∈ tokens h := List.mem_flatMap.2 ⟨g, hg, ht⟩

theorem mem_issued_of_current {h : List Record} {u : Bytes} {g : Grant}
    (hg : current h u = some g) : g ∈ issued h := by
  induction h generalizing g with
  | nil => cases hg
  | cons r h ih =>
    cases r with
    | login v g' =>
      simp only [current] at hg
      split at hg
      · cases hg
        exact List.mem_cons_self
      · exact List.mem_cons_of_mem _ (ih hg)
    | refresh token g' =>
      obtain ⟨old, hold, rfl⟩ := Option.map_eq_some_iff.1 hg
      split
      · exact List.mem_cons_self
      · exact List.mem_cons_of_mem _ (ih hold)
    | revoke token => exact ih (Option.filter_eq_some_iff.1 hg).1
    | changed v =>
      simp only [current] at hg
      split at hg
      · cases hg
      · exact ih hg

section Distinct

variable {h : List Record} (hnodup : (tokens h).Nodup)
include hnodup

/-- A token belongs to one grant. -/
theorem grant_eq {g g' : Grant} {t : Bytes} (hg : g ∈ issued h) (hg' : g' ∈ issued h)
    (ht : t ∈ g.tokens) (ht' : t ∈ g'.tokens) : g = g' := by
  have hsymm : Std.Symm (Function.onFun List.Disjoint Grant.tokens) :=
    { symm := fun _ _ h => List.disjoint_symm h }
  by_contra hne
  exact (List.nodup_flatMap.1 hnodup).2.forall hg hg' hne ht ht'

theorem access_ne_refresh {g g' : Grant} (hg : g ∈ issued h) (hg' : g' ∈ issued h) :
    g.accessToken ≠ g'.refreshToken := by
  intro heq
  have hsame : g = g' := grant_eq hnodup hg hg' (t := g.accessToken) List.mem_cons_self
    (heq ▸ List.mem_cons_of_mem _ List.mem_cons_self)
  have hpair := (List.nodup_flatMap.1 hnodup).1 g' hg'
  simp only [Grant.tokens, List.nodup_cons, List.mem_singleton] at hpair
  exact hpair.1 (hsame ▸ heq)

end Distinct

theorem nodup_tokens_tail {r : Record} {h : List Record} (hnodup : (tokens (r :: h)).Nodup) :
    (tokens h).Nodup := by
  have happend : tokens (r :: h) = tokens [r] ++ tokens h := tokens_append [r] h
  exact (List.nodup_append.1 (happend ▸ hnodup)).2.1

/-- A new grant is not one of the old ones. -/
theorem notMem_issued {h : List Record} {g : Grant}
    (hnodup : (g.tokens ++ tokens h).Nodup) : g ∉ issued h := fun hg =>
  List.disjoint_of_nodup_append hnodup (a := g.accessToken) List.mem_cons_self
    (mem_tokens hg List.mem_cons_self)

/-- No grant is current for two accounts. -/
theorem current_injective {h : List Record} (hnodup : (tokens h).Nodup) {u v : Bytes} {g : Grant}
    (hu : current h u = some g) (hv : current h v = some g) : u = v := by
  induction h generalizing g with
  | nil => cases hu
  | cons r h ih =>
    have htail := nodup_tokens_tail hnodup
    cases r with
    | login w g' =>
      have hnew : g' ∉ issued h := notMem_issued hnodup
      simp only [current] at hu hv
      split at hu <;> split at hv
      · rename_i hu' hv'
        rw [hu', hv']
      · cases hu
        exact absurd (mem_issued_of_current hv) hnew
      · cases hv
        exact absurd (mem_issued_of_current hu) hnew
      · exact ih htail hu hv
    | refresh token g' =>
      have hnew : g' ∉ issued h := notMem_issued hnodup
      obtain ⟨a, ha, hag⟩ := Option.map_eq_some_iff.1 hu
      obtain ⟨b, hb, hbg⟩ := Option.map_eq_some_iff.1 hv
      have hab : a = b := by
        split at hag <;> split at hbg
        · rename_i hta htb
          have hta' : token ∈ a.tokens := hta ▸ List.mem_cons_of_mem _ List.mem_cons_self
          have htb' : token ∈ b.tokens := htb ▸ List.mem_cons_of_mem _ List.mem_cons_self
          exact grant_eq htail (mem_issued_of_current ha) (mem_issued_of_current hb) hta' htb'
        · exact absurd (hag ▸ hbg ▸ mem_issued_of_current hb) hnew
        · exact absurd (hbg ▸ hag ▸ mem_issued_of_current ha) hnew
        · rw [hag, hbg]
      exact ih htail ha (hab ▸ hb)
    | revoke token =>
      exact ih htail (Option.filter_eq_some_iff.1 hu).1 (Option.filter_eq_some_iff.1 hv).1
    | changed w =>
      simp only [current] at hu hv
      split at hu
      · cases hu
      · split at hv
        · cases hv
        · exact ih htail hu hv

/-- The account of a current token is the only one. -/
theorem current_unique {h : List Record} (hnodup : (tokens h).Nodup) {u v : Bytes}
    {g g' : Grant} {t : Bytes} (hu : current h u = some g) (hv : current h v = some g')
    (ht : t ∈ g.tokens) (ht' : t ∈ g'.tokens) : u = v := by
  have hgg : g = g' :=
    grant_eq hnodup (mem_issued_of_current hu) (mem_issued_of_current hv) ht ht'
  exact current_injective hnodup hu (hgg ▸ hv)

theorem current_login (h : List Record) (u : Bytes) (g : Grant) :
    current (.login u g :: h) = Function.update (current h) u (some g) := by
  funext v
  rw [current, Function.update_apply]

theorem current_changed (h : List Record) (u : Bytes) :
    current (.changed u :: h) = Function.update (current h) u none := by
  funext v
  rw [current, Function.update_apply]

/-- A refresh is for the account whose refresh token it presents. -/
theorem current_refresh {h : List Record} (hnodup : (tokens h).Nodup) {u : Bytes}
    {old : Grant} (hu : current h u = some old) (g : Grant) :
    current (.refresh old.refreshToken g :: h) = Function.update (current h) u (some g) := by
  funext v
  rw [current, Function.update_apply]
  split
  · rename_i hv
    rw [hv, hu, Option.map_some, if_pos rfl]
  · rename_i hv
    rcases hcur : current h v with _ | g'
    · rfl
    · rw [Option.map_some, if_neg]
      intro heq
      exact hv (current_unique hnodup hcur hu (t := g'.refreshToken)
        (List.mem_cons_of_mem _ List.mem_cons_self)
        (heq ▸ List.mem_cons_of_mem _ List.mem_cons_self))

/-- A revocation is for the account whose access token it presents. -/
theorem current_revoke {h : List Record} (hnodup : (tokens h).Nodup) {u : Bytes}
    {old : Grant} (hu : current h u = some old) :
    current (.revoke old.accessToken :: h) = Function.update (current h) u none := by
  funext v
  rw [current, Function.update_apply]
  split
  · rename_i hv
    simp [hv, hu]
  · rename_i hv
    rcases hcur : current h v with _ | g'
    · rfl
    · rw [Option.filter_eq_some_iff]
      refine ⟨rfl, decide_eq_true fun heq => ?_⟩
      exact hv (current_unique hnodup hcur hu (t := g'.accessToken) List.mem_cons_self
        (heq ▸ List.mem_cons_self))

/-! ## The service in its history -/

/-- `Platform_GetTick` after `time` milliseconds. -/
def tick (time : ℕ) : UInt32 := UInt32.ofNat time

/-- A call with what the platform answers during it. -/
inductive Event where
  | login (username password : Bytes) (derive : Derive) (draws : Draws) (time : ℕ)
  | refresh (refreshToken : Bytes) (draws : Draws) (now issuedAt : ℕ)
  | authorize (accessToken : Bytes) (time : ℕ)
  | revoke (accessToken : Bytes) (time : ℕ)
  | putUser (derive : Derive) (actor : Principal) (username password : Bytes)
      (role enabled mustExist : UInt8) (salt : Option (Vector UInt8 16)) (fates : Fates)
  | deleteUser (actor : Principal) (username : Bytes) (fates : Fates)

/-- The token a call presents. -/
def Event.token : Event → Option Bytes
  | .refresh token .. | .authorize token _ | .revoke token _ => some token
  | _ => none

/-- The service, the true time, and the history. The variables are gone when power was lost in
a write to the user store. -/
structure Sys where
  cells : Cells
  ram : Option Ram
  time : ℕ
  history : List Record

/-- Right after `AuthService_Init`. -/
def Sys.start (cells : Cells) (users : UserStore.Ram) (time : ℕ) : Sys :=
  ⟨cells, some ⟨.replicate _ zeroSession, users⟩, time, []⟩

/-- Variables, time and history after a call that may hand out a pair. -/
def Sys.grant (s : Sys) (time : ℕ) (record : Grant → Record) :
    AuthStatus × Option TokenPair × Ram → Sys
  | (.ok, some pair, ram) =>
    { s with ram := some ram, time := time, history := record ⟨pair, time⟩ :: s.history }
  | (_, _, ram) => { s with ram := some ram, time := time }

/-- The same after a call that may change an account. -/
def Sys.change (s : Sys) (username : Bytes) : Option (AuthStatus × Ram) × Chip → Sys
  | (some (.ok, ram), c) =>
    { s with cells := c.cells, ram := some ram, history := .changed username :: s.history }
  | (some (_, ram), c) => { s with cells := c.cells, ram := some ram }
  | (none, c) => { s with cells := c.cells, ram := none }

/-- One call. -/
def Sys.step (sha256 : Sha256) (s : Sys) (e : Event) : Sys :=
  match s.ram with
  | none => s
  | some ram =>
    match e with
    | .login username password derive draws time =>
      s.grant time (.login (cstr username))
        (login sha256 derive username password draws (tick time) ram)
    | .refresh token draws now issuedAt =>
      s.grant issuedAt (.refresh (cstr token))
        (refresh sha256 token draws (tick now) (tick issuedAt) ram)
    | .authorize _ time => { s with time := time }
    | .revoke token time =>
      match revoke sha256 token (tick time) ram with
      | (.ok, ram) =>
        { s with ram := some ram, time := time, history := .revoke (cstr token) :: s.history }
      | (_, ram) => { s with ram := some ram, time := time }
    | .putUser derive actor username password role enabled mustExist salt fates =>
      s.change (cstr username)
        (putUser derive actor username password role enabled mustExist salt ram
          ⟨s.cells, fates, []⟩)
    | .deleteUser actor username fates =>
      s.change (cstr username) (deleteUser actor username ram ⟨s.cells, fates, []⟩)

/-- The clock does not go back. -/
def Sys.Timely (s : Sys) : Event → Prop
  | .login _ _ _ _ time | .authorize _ time | .revoke _ time => s.time ≤ time
  | .refresh _ _ now issuedAt => s.time ≤ now ∧ now ≤ issuedAt
  | .putUser .. | .deleteUser .. => True

/-- The service after a run of calls. -/
def Sys.run (sha256 : Sha256) (s : Sys) (events : List Event) : Sys :=
  Run.run (Sys.step sha256) s events

theorem history_step (sha256 : Sha256) (s : Sys) (e : Event) :
    s.history <:+ (s.step sha256 e).history := by
  have hgrant : ∀ time record x, s.history <:+ (s.grant time record x).history := by
    intro time record x
    unfold Sys.grant
    split
    · exact List.suffix_cons ..
    · exact List.suffix_rfl
  have hchange : ∀ username x, s.history <:+ (s.change username x).history := by
    intro username x
    unfold Sys.change
    split
    · exact List.suffix_cons ..
    · exact List.suffix_rfl
    · exact List.suffix_rfl
  unfold Sys.step
  split
  · exact List.suffix_rfl
  · cases e with
    | login => exact hgrant ..
    | refresh => exact hgrant ..
    | authorize => exact List.suffix_rfl
    | revoke =>
      dsimp only
      split
      · exact List.suffix_cons ..
      · exact List.suffix_rfl
    | putUser => exact hchange ..
    | deleteUser => exact hchange ..

end HealthCheck.AuthService
