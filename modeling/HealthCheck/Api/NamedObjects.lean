import HealthCheck.Api.Effects
import HealthCheck.Api.RequestWriting
import HealthCheck.HealthCheckSlots
import HealthCheck.TlsTrustUndo
import HealthCheck.UserMap

/-!
# The object a URL names

Users, trust anchors and health-check resources have URLs that end in a name or a number. On the
way from the request line to the store this text is cut twice: `sscanf` keeps 79 characters of the
target, and a username is copied into 25 bytes.

* `Object`, `Collection` — what a URL can name.
* `OnlyNamed` — a request changes nothing but the object its URL names.
* `only_named` — so it is when no cut turns the text into the name of something else.
-/

namespace HealthCheck.ApiService

open Nor hiding read driven_read read_ok read_cases
open CString TwoBank

/-! ## Objects -/

/-- An object that requests can change or delete. -/
inductive Object where
  | user (name : Bytes)
  | anchor (id : ℕ)
  | resource (index : ℕ)

/-- What an object is. -/
inductive Content where
  | user (record : UserStore.Record)
  | anchor (certificate : TlsTrustStore.Certificate)
  | resource (resource : HealthCheckConfig.Resource)

/-- An object as it is stored, if it exists. -/
def Ram.content (ram : Ram) : Object → Option Content
  | .user name => (UserStore.find name ram.auth.users).map fun r => .user r.1
  | .anchor id => (TlsTrustStore.anchors ram.trust.snapshot id).map .anchor
  | .resource index => (ram.health.snapshot.resources[index]?.filter (·.occupied ≠ 0)).map .resource

/-- Only named objects that exist change, only sessions of named users end, and everything else
that is stored stays. -/
structure OnlyChanges (named : Object → Prop) (ram ram' : Ram) : Prop where
  objects : ∀ o, ram'.content o ≠ ram.content o → named o ∧ (ram.content o).isSome = true
  sessions : ∀ i : Fin AuthService.sessionCount, ram'.auth.sessions.get i ≠ ram.auth.sessions.get i →
    named (.user (ram.auth.sessions.get i).name)
  period : HealthCheckConfig.getPeriodSeconds ram'.health =
    HealthCheckConfig.getPeriodSeconds ram.health
  callback : ram'.callback = ram.callback
  credentials : ram'.credentials = ram.credentials
  log : ram'.log = ram.log

/-- The objects with URLs of their own. -/
inductive Collection where
  | users
  | anchors
  | resources
deriving DecidableEq

/-- What the URL of an object begins with. -/
def Collection.path : Collection → String
  | .users => "/api/v1/users/"
  | .anchors => "/api/v1/trust-anchors/"
  | .resources => "/api/v1/health-check/resources/"

/-- The text is the number in decimal, with or without a sign. -/
def Denotes (text : Bytes) (n : ℕ) : Prop :=
  ∃ sign digits, text = sign ++ digits ∧ digits ≠ [] ∧ (∀ c ∈ digits, isDigit c) ∧
    decimal digits = n ∧ (sign = [] ∨ sign = [0x2B] ∨ sign = [0x2D] ∧ n = 0)

/-- The object a URL of a collection names. -/
def Collection.Names : Collection → Bytes → Object → Prop
  | .users, text, .user name => name = text
  | .anchors, text, .anchor id => Denotes text id
  | .resources, text, .resource index => Denotes text index
  | _, _, _ => False

/-! ## Requests -/

/-- The second word of the request line. -/
def requestTarget (header : Bytes) : Bytes :=
  (((header.dropWhile isSpace).dropWhile (!isSpace ·)).dropWhile isSpace).takeWhile (!isSpace ·)

/-- A request for a target arrives before the peer closes the connection. -/
structure Arrives (reads : List SslRead) (o : ReadOutcome) (target : Bytes) : Prop where
  whole : ¬Interrupted requestSize reads
  ok : o.result = 0
  target : ∃ h, findHeaderEnd o.received = some h ∧ requestTarget (o.received.take h) = target

/-- The stores are as start-up and earlier requests leave them, and a change of the anchors that
cannot be saved is undone. -/
structure Ready (ram : Ram) (c : Chip) : Prop where
  users : ram.auth.users.snapshot.count.toNat ≤ UserStore.maxUsers
  anchors : (TlsTrustStore.load c.cells ram.trust.active).anchors = ram.trust.snapshot.anchors
  wellFormed : ram.trust.snapshot.anchors.toList.all TlsTrustStore.Anchor.wellFormed = true
  undone : TlsTrustStore.Undone ram.trust c.fates

/-- A request to change or delete what a URL names does nothing else, whatever the flash and the
rest of the system do. -/
def OnlyNamed (collection : Collection) (text : Bytes) : Prop :=
  ∀ stack stale reads env ram c response ram' c',
    Arrives reads (readRequest requestSize stack stale reads) (ascii collection.path ++ text) →
    ((readRequest requestSize stack stale reads).request.method = ascii "PUT" ∨
      (readRequest requestSize stack stale reads).request.method = ascii "DELETE") →
    Ready ram c →
    dispatch env (readRequest requestSize stack stale reads).request
      (readRequest requestSize stack stale reads).bodyBytes ram c = (some (response, ram'), c') →
    OnlyChanges (collection.Names text) ram ram'

/-- How much of the text is left of a target of 79 characters. -/
def Collection.room (collection : Collection) : ℕ := 79 - (ascii collection.path).length

/-- What is left of the text is the name of the same object, or of none. -/
def Collection.Faithful : Collection → Bytes → Prop
  | .users, text => text.length ≤ UserStore.usernameSize - 1
  | .anchors, text => ∀ id, pathNumber TlsTrustStore.maxPersisted
      (text.take (room .anchors)) = some id → Denotes text id
  | .resources, text => ∀ index, pathNumber (HealthCheckConfig.maxResources - 1)
      (text.take (room .resources)) = some index → Denotes text index

/-! ## The path of a request -/

theorem drop_length_takeWhile (p : UInt8 → Bool) (text : Bytes) :
    text.drop (text.takeWhile p).length = text.dropWhile p := by
  have hsplit : text.takeWhile p ++ text.dropWhile p = text := List.takeWhile_append_dropWhile
  have hdrop := congrArg (List.drop (text.takeWhile p).length) hsplit
  rw [List.drop_left] at hdrop
  exact hdrop.symm

/-- `sscanf` takes the words of the request line, up to their widths. -/
theorem requestLine_eq_some {header method path : Bytes}
    (h : requestLine header = some (method, path)) (hshort : method.length < 7) :
    path = (requestTarget header).take 79 := by
  obtain ⟨⟨method', rest⟩, hmethod, h⟩ := Option.bind_eq_some_iff.1 h
  obtain ⟨⟨path', rest'⟩, hpath, h⟩ := Option.map_eq_some_iff.1 h
  cases h
  simp only [scanWord, Option.ite_none_left_eq_some, Option.some.injEq, Prod.mk.injEq]
    at hmethod hpath
  obtain ⟨-, rfl, rfl⟩ := hmethod
  obtain ⟨-, rfl, -⟩ := hpath
  have hword : ((header.dropWhile isSpace).takeWhile (!isSpace ·)).take 7 =
      (header.dropWhile isSpace).takeWhile (!isSpace ·) := by
    rw [List.length_take] at hshort
    exact List.take_of_length_le (by omega)
  rw [hword, requestTarget, drop_length_takeWhile]

theorem path_of_arrives {reads : List SslRead} {stack : ℕ → UInt8} {stale : Request}
    {target : Bytes}
    (h : Arrives reads (readRequest requestSize stack stale reads) target)
    (hmethod : (readRequest requestSize stack stale reads).request.method.length < 7) :
    (readRequest requestSize stack stale reads).request.path = target.take 79 := by
  obtain ⟨k, hk, htarget⟩ := h.target
  have hassigned := dispatches_iff.1 ((dispatched_filled_iff reads).1.2 h.whole) stack stale h.ok
  obtain ⟨k', hk', hline, -⟩ := hassigned
  cases hk.symm.trans hk'
  rw [← htarget]
  exact requestLine_eq_some hline hmethod

theorem path_cut {collection : Collection} {text path : Bytes}
    (h : path = (ascii collection.path ++ text).take 79) :
    ascii collection.path <+: path ∧
      path.drop (ascii collection.path).length = text.take collection.room := by
  have hroom : (ascii collection.path).length + collection.room = 79 := by
    cases collection <;> decide
  have hpath : path = ascii collection.path ++ text.take collection.room := by
    rw [h, ← hroom, List.take_length_add_append]
  exact ⟨hpath ▸ List.prefix_append .., hpath ▸ List.drop_left⟩

/-! ## Numbers -/

/-- `strtol` takes all of a text without white space: a sign and digits. -/
theorem strtol_whole {text : Bytes} {value : ℤ} (hspace : ∀ c ∈ text, isSpace c = false)
    (h : strtol text = some (value, [])) : ∃ sign digits, text = sign ++ digits ∧ digits ≠ [] ∧
      (∀ c ∈ digits, isDigit c) ∧ (sign = [] ∨ sign = [0x2B] ∨ sign = [0x2D]) ∧
      value = max (-2 ^ 31) (min (if sign = [0x2D] then -(decimal digits : ℤ) else decimal digits)
        (2 ^ 31 - 1)) := by
  have hskip : text.dropWhile isSpace = text := by
    cases text with
    | nil => rfl
    | cons c text => exact List.dropWhile_cons_of_neg (by simp [hspace c])
  have hwhole {body : Bytes} {negative : Prop} [Decidable negative]
      (h : (if (body.takeWhile isDigit).isEmpty then none
        else some (max (-2 ^ 31) (min (if negative then -(decimal (body.takeWhile isDigit) : ℤ)
          else decimal (body.takeWhile isDigit)) (2 ^ 31 - 1)),
          body.drop (body.takeWhile isDigit).length)) = some (value, [])) :
      body ≠ [] ∧ (∀ c ∈ body, isDigit c) ∧ value = max (-2 ^ 31) (min
        (if negative then -(decimal body : ℤ) else decimal body) (2 ^ 31 - 1)) := by
    rw [Option.ite_none_left_eq_some, Option.some.injEq, Prod.mk.injEq] at h
    obtain ⟨hne, hvalue, hrest⟩ := h
    have hall : body.takeWhile isDigit = body :=
      (List.takeWhile_prefix isDigit).eq_of_length_le (List.drop_eq_nil_iff.1 hrest)
    rw [hall] at hne hvalue
    exact ⟨fun hnil => hne (List.isEmpty_iff.2 hnil), List.takeWhile_eq_self_iff.1 hall,
      hvalue.symm⟩
  rw [strtol, hskip] at h
  dsimp only at h
  by_cases hminus : text.head? = some 0x2D
  · rw [if_pos (Or.inl hminus)] at h
    obtain ⟨hne, hdigits, hvalue⟩ := hwhole h
    rw [if_pos hminus] at hvalue
    exact ⟨[0x2D], text.tail, List.eq_cons_of_mem_head? hminus, hne, hdigits, .inr (.inr rfl),
      hvalue⟩
  · by_cases hplus : text.head? = some 0x2B
    · rw [if_pos (Or.inr hplus)] at h
      obtain ⟨hne, hdigits, hvalue⟩ := hwhole h
      rw [if_neg hminus] at hvalue
      exact ⟨[0x2B], text.tail, List.eq_cons_of_mem_head? hplus, hne, hdigits, .inr (.inl rfl),
        hvalue⟩
    · rw [if_neg (not_or.2 ⟨hminus, hplus⟩)] at h
      obtain ⟨hne, hdigits, hvalue⟩ := hwhole h
      rw [if_neg hminus] at hvalue
      exact ⟨[], text, rfl, hne, hdigits, .inl rfl, hvalue⟩

/-- A number a path ends in is denoted by its text. -/
theorem denotes_of_pathNumber {maximum n : ℕ} {text : Bytes}
    (hspace : ∀ c ∈ text, isSpace c = false) (hmaximum : maximum < 2 ^ 31 - 1)
    (h : pathNumber maximum text = some n) : Denotes text n ∧ n ≤ maximum := by
  unfold pathNumber at h
  split at h
  · cases h
  · rename_i value rest hstrtol
    split at h
    · cases h
    · rename_i hin
      simp only [not_or, not_not, Int.not_lt, gt_iff_lt] at hin
      obtain ⟨rfl, hnonneg, hle⟩ := hin
      obtain rfl := Option.some.inj h
      obtain ⟨sign, digits, htext, hne, hdigits, hsign, hvalue⟩ := strtol_whole hspace hstrtol
      refine ⟨⟨sign, digits, htext, hne, hdigits, ?_⟩, by omega⟩
      rcases hsign with rfl | rfl | rfl
      · rw [if_neg (by decide)] at hvalue
        exact ⟨by omega, .inl rfl⟩
      · rw [if_neg (by decide)] at hvalue
        exact ⟨by omega, .inr (.inl rfl)⟩
      · rw [if_pos rfl] at hvalue
        exact ⟨by omega, .inr (.inr ⟨rfl, by omega⟩)⟩

/-- A text of which nothing is cut off is faithful. -/
theorem Collection.faithful_of_short {collection : Collection} {text : Bytes}
    (hspace : ∀ c ∈ text, isSpace c = false) (hname : text.length ≤ UserStore.usernameSize - 1 ∨
      collection ≠ .users ∧ text.length ≤ collection.room) : collection.Faithful text := by
  cases collection with
  | users => exact hname.resolve_right fun h => h.1 rfl
  | anchors =>
    intro id hid
    have hroom : text.length ≤ room .anchors :=
      hname.elim (fun h => h.trans (by decide)) And.right
    rw [List.take_of_length_le hroom] at hid
    exact (denotes_of_pathNumber hspace (by decide) hid).1
  | resources =>
    intro index hindex
    have hroom : text.length ≤ room .resources :=
      hname.elim (fun h => h.trans (by decide)) And.right
    rw [List.take_of_length_le hroom] at hindex
    exact (denotes_of_pathNumber hspace (by decide) hindex).1

/-! ## What the stores do -/

section Stores

variable {env : Env} {request : Request} {ram ram' : Ram} {c c' : Chip} {named : Object → Prop}

theorem OnlyChanges.refl : OnlyChanges named ram ram :=
  ⟨fun _ h => absurd rfl h, fun _ h => absurd rfl h, rfl, rfl, rfl, rfl⟩

/-- A change of the accounts that leaves all but named ones. -/
theorem OnlyChanges.users {auth : AuthService.Ram}
    (hfind : ∀ name, (UserStore.find name auth.users).map Prod.fst ≠
      (UserStore.find name ram.auth.users).map Prod.fst →
      named (.user name) ∧ (UserStore.find name ram.auth.users).isSome = true)
    (hsessions : ∀ i : Fin AuthService.sessionCount, auth.sessions.get i ≠ ram.auth.sessions.get i →
      named (.user (ram.auth.sessions.get i).name)) :
    OnlyChanges named ram { ram with auth := auth } where
  objects := by
    intro o hne
    cases o with
    | user name =>
      simp only [Ram.content] at hne ⊢
      rw [Option.isSome_map]
      refine hfind name fun heq => hne ?_
      have hmap {users : UserStore.Ram} :
          (UserStore.find name users).map (fun r => Content.user r.1) =
            ((UserStore.find name users).map Prod.fst).map Content.user :=
        (Option.map_map ..).symm
      rw [hmap, hmap, heq]
    | anchor id => exact absurd rfl hne
    | resource index => exact absurd rfl hne
  sessions := hsessions
  period := rfl
  callback := rfl
  credentials := rfl
  log := rfl

/-- The end of an account's session is the end of no other. -/
theorem closeSession_other (username : Bytes) (sessions : AuthService.Sessions)
    (i : Fin AuthService.sessionCount)
    (h : ((AuthService.closeSession username sessions).get i) ≠ (sessions.get i)) :
    (sessions.get i).name = username := by
  unfold AuthService.closeSession at h
  split at h
  · exact absurd rfl h
  · rename_i j hj
    split at h
    · rename_i hclosed
      by_cases hij : i = j
      · rw [hij]
        exact hclosed.2
      · exact absurd (by simp [Fin.val_ne_of_ne (Ne.symm hij)]) h
    · exact absurd rfl h

/-- A record that is stored changes its own account. -/
theorem onlyChanges_storeUser {username : Bytes} {record : UserStore.Record}
    {status : AuthService.AuthStatus} {auth : AuthService.Ram}
    (hcount : ram.auth.users.snapshot.count.toNat ≤ UserStore.maxUsers)
    (hname : record.name = username)
    (hexists : (UserStore.find username ram.auth.users).isSome = true)
    (hnamed : named (.user username))
    (h : AuthService.storeUser username record ram.auth c = (some (status, auth), c')) :
    OnlyChanges named ram { ram with auth := auth } := by
  obtain ⟨⟨saved, users⟩, c₁, hput, h⟩ := bind_eq_some.1 h
  dsimp only at h
  split at h
  · rename_i hsaved
    cases h
    subst hsaved
    refine .users (fun name hne => ?_) fun i hi => ?_
    · by_cases hother : record.name = name
      · rw [← hother, hname]
        exact ⟨hnamed, hexists⟩
      · exact absurd (UserStore.find_put hcount hother hput) hne
    · rw [closeSession_other username _ i hi]
      exact hnamed
  · rename_i hfailed
    cases h
    have hsame : users = ram.auth.users :=
      ((UserStore.put_eq_some hput).resolve_left fun hok => hfailed hok.1).2
    rw [hsame]
    exact .refl

/-- A record that is deleted was its own account. -/
theorem onlyChanges_deleteUser {principal : AuthService.Principal} {username : Bytes}
    {status : AuthService.AuthStatus} {auth : AuthService.Ram}
    (hcount : ram.auth.users.snapshot.count.toNat ≤ UserStore.maxUsers)
    (hnamed : named (.user (cstr username)))
    (h : AuthService.deleteUser principal username ram.auth c = (some (status, auth), c')) :
    OnlyChanges named ram { ram with auth := auth } := by
  unfold AuthService.deleteUser at h
  dsimp only at h
  split at h
  · cases h
    exact .refl
  · split at h
    · cases h
      exact .refl
    · rename_i hexists
      obtain ⟨⟨saved, users⟩, c₁, hdelete, h⟩ := bind_eq_some.1 h
      dsimp only at h
      split at h
      · rename_i hsaved
        cases h
        subst hsaved
        refine .users (fun name hne => ?_) fun i hi => ?_
        · by_cases hother : cstr username = name
          · rw [← hother]
            exact ⟨hnamed, Option.isSome_iff_ne_none.2 hexists⟩
          · exact absurd (UserStore.find_delete hcount hother hdelete) hne
        · rw [closeSession_other _ _ i hi]
          exact hnamed
      · rename_i hfailed
        cases h
        have hsame : users = ram.auth.users :=
          ((UserStore.delete_eq_some hdelete).resolve_left fun hok => hfailed hok.1).2
        rw [hsame]
        exact .refl

/-- The effect of an operation on one anchor, if it exists. -/
theorem effect_at {op : TlsTrustStore.Op} {id j : ℕ} {m : TlsTrustStore.Anchors}
    (hop : (∃ der mbed, op = .replace id der mbed) ∨ op = .delete id) (h : op.effect m j ≠ m j) :
    j = id ∧ (m j).isSome = true := by
  rcases hop with ⟨der, mbed, rfl⟩ | rfl
  · cases hexists : m id with
    | none => simp [TlsTrustStore.Op.effect, hexists] at h
    | some old =>
      cases hcertificate : TlsTrustStore.certificate der mbed with
      | none => simp [TlsTrustStore.Op.effect, hexists, hcertificate] at h
      | some new =>
        simp only [TlsTrustStore.Op.effect, hexists, hcertificate] at h
        by_cases hj : j = id
        · rw [hj, hexists]
          exact ⟨rfl, rfl⟩
        · exact absurd (Function.update_of_ne hj ..) h
  · by_cases hj : j = id
    · subst hj
      refine ⟨rfl, Option.isSome_iff_ne_none.2 fun hnone => h ?_⟩
      rw [hnone]
      exact Function.update_self ..
    · exact absurd (Function.update_of_ne hj ..) h

/-- An operation on the anchors or the resources leaves everything else. -/
theorem Kept.onlyChanges {p : Part} (hkept : Kept p ram ram') (hp : p = .trust ∨ p = .health)
    (hobjects : ∀ o, ram'.content o ≠ ram.content o → named o ∧ (ram.content o).isSome = true)
    (hperiod : HealthCheckConfig.getPeriodSeconds ram'.health =
      HealthCheckConfig.getPeriodSeconds ram.health) : OnlyChanges named ram ram' where
  objects := hobjects
  sessions i hne := by
    have husers : p ≠ .users := by rcases hp with rfl | rfl <;> decide
    rw [hkept.sessions husers] at hne
    exact absurd rfl hne
  period := hperiod
  callback := hkept.parts .callback (by rcases hp with rfl | rfl <;> decide)
  credentials := hkept.parts .credentials (by rcases hp with rfl | rfl <;> decide)
  log := hkept.log

/-- A replaced or deleted anchor was its own. -/
theorem onlyChanges_trust {op : TlsTrustStore.Op} {id : ℕ} {ok : Bool}
    (hready : Ready ram c) (hkept : Kept .trust ram ram')
    (hop : (∃ der mbed, op = .replace id der mbed) ∨ op = .delete id) (hnamed : named (.anchor id))
    (h : TlsTrustStore.exec op ram.trust c = (some (ok, ram'.trust), c')) :
    OnlyChanges named ram ram' := by
  obtain ⟨status, happly, -⟩ := TlsTrustStore.exec_eq_some h
  have hanchors : ∀ j, TlsTrustStore.anchors ram'.trust.snapshot j ≠
      TlsTrustStore.anchors ram.trust.snapshot j →
      j = id ∧ (TlsTrustStore.anchors ram.trust.snapshot j).isSome = true := by
    by_cases hstatus : status = .ok
    · subst hstatus
      obtain ⟨heffect, -⟩ := TlsTrustStore.apply_ok happly
      intro j hne
      rw [heffect] at hne
      exact effect_at hop hne
    · obtain ⟨-, hsame, -⟩ := TlsTrustStore.apply_undone hready.anchors hready.wellFormed
        (fun _ _ => hready.undone) happly hstatus
      intro j hne
      unfold TlsTrustStore.anchors at hne
      rw [hsame] at hne
      exact absurd rfl hne
  have husers : ram'.auth.users = ram.auth.users := hkept.parts .users (by decide)
  have hhealth : ram'.health = ram.health := hkept.parts .health (by decide)
  refine hkept.onlyChanges (.inl rfl) (fun o hne => ?_) (by rw [hhealth])
  cases o with
  | user name => simp only [Ram.content, husers, ne_eq, not_true_eq_false] at hne
  | resource index => simp only [Ram.content, hhealth, ne_eq, not_true_eq_false] at hne
  | anchor j =>
    simp only [Ram.content, Option.isSome_map] at hne ⊢
    obtain ⟨rfl, hexists⟩ := hanchors j fun heq => hne (congrArg _ heq)
    exact ⟨hnamed, hexists⟩

/-- So was a replaced or deleted resource. -/
theorem onlyChanges_health {op : HealthCheckConfig.Op} {index : ℕ} {ok : Bool}
    (hkept : Kept .health ram ram')
    (hop : (∃ host port path enabled id, op = .updateResource index host port path enabled id) ∨
      op = .deleteResource index) (hnamed : named (.resource index))
    (h : HealthCheckConfig.exec op ram.health c = (some (ok, ram'.health), c')) :
    OnlyChanges named ram ram' := by
  obtain ⟨⟨status, health⟩, c₁, happly, hret⟩ := bind_eq_some.1 h
  simp only [pure_apply, Prod.mk.injEq, Option.some.injEq] at hret
  obtain ⟨⟨-, rfl⟩, -⟩ := hret
  have husers : ram'.auth.users = ram.auth.users := hkept.parts .users (by decide)
  have htrust : ram'.trust = ram.trust := hkept.parts .trust (by decide)
  have hslots : ram'.health = ram.health ∨ ∃ (hindex : index < HealthCheckConfig.maxResources)
      (slot : HealthCheckConfig.Resource), ram.health.snapshot.resources[index].occupied ≠ 0 ∧
      ram'.health.snapshot.resources = ram.health.snapshot.resources.set index slot ∧
      ram'.health.snapshot.periodSeconds = ram.health.snapshot.periodSeconds := by
    rcases HealthCheckConfig.apply_eq_some happly with
      ⟨candidate, hedit, ⟨-, hsnapshot⟩ | ⟨-, hsame⟩⟩ | ⟨-, -, hsame⟩
    · right
      rcases HealthCheckConfig.edited_ok hedit with
        ⟨period, rfl, -⟩ | ⟨j, hj, slot, hown, hmakes, rfl⟩
      · rcases hop with ⟨host, port, path, enabled, id, h⟩ | h <;> cases h
      · rw [hsnapshot]
        rcases hop with ⟨host, port, path, enabled, id, rfl⟩ | rfl
        · obtain rfl : j = index := hown
          exact ⟨hj, slot, hmakes.2.1, rfl, rfl⟩
        · obtain rfl : j = index := hown
          exact ⟨hj, slot, hmakes.1, rfl, rfl⟩
    · exact .inl hsame
    · exact .inl hsame
  rcases hslots with hsame | ⟨hindex, slot, hoccupied, hset, hperiod⟩
  · refine hkept.onlyChanges (.inr rfl) (fun o hne => ?_) (by rw [hsame])
    refine absurd ?_ hne
    cases o <;> simp only [Ram.content, husers, htrust, hsame]
  · refine hkept.onlyChanges (.inr rfl) (fun o hne => ?_) hperiod
    cases o with
    | user name => simp only [Ram.content, husers, ne_eq, not_true_eq_false] at hne
    | anchor id => simp only [Ram.content, htrust, ne_eq, not_true_eq_false] at hne
    | resource k =>
      by_cases hk : k = index
      · subst hk
        refine ⟨hnamed, ?_⟩
        simp [Ram.content, Vector.getElem?_eq_getElem hindex, hoccupied]
      · refine absurd ?_ hne
        simp only [Ram.content, hset, Vector.getElem?_set_ne hindex (Ne.symm hk)]

end Stores

/-! ## What a request does -/

section Requests

variable {env : Env} {request : Request} {ram ram' : Ram} {c c' : Chip} {collection : Collection}
  {text : Bytes}

/-- The route of a single path is not the route of an object. -/
theorem not_is {method path : String} (hbegins : ascii collection.path <+: request.path)
    (hpath : ¬ascii collection.path <+: ascii path) : ¬request.is method path = true := by
  intro h
  simp only [Request.is, Bool.and_eq_true, decide_eq_true_eq] at h
  exact hpath (h.2 ▸ hbegins)

/-- Neither is the route of objects of another collection. -/
theorem eq_of_under {method : String} {collection' : Collection}
    (hbegins : ascii collection.path <+: request.path)
    (h : request.under method collection'.path = true) : collection' = collection := by
  simp only [Request.under, Bool.and_eq_true, decide_eq_true_eq, List.isPrefixOf_iff_prefix] at h
  rcases List.prefix_or_prefix_of_prefix hbegins h.2 with hle | hle <;> revert hle <;>
    cases collection <;> cases collection' <;> decide

theorem not_post {path : String}
    (hmethod : request.method = ascii "PUT" ∨ request.method = ascii "DELETE") :
    ¬request.is "POST" path = true := by
  intro h
  simp only [Request.is, Bool.and_eq_true, decide_eq_true_eq] at h
  rcases hmethod with hput | hdelete
  · exact absurd (hput.symm.trans h.1) (by decide)
  · exact absurd (hdelete.symm.trans h.1) (by decide)

/-- What is left of a short username is all of it. -/
theorem pathUsername_faithful (hfaithful : Collection.users.Faithful text)
    (hbehind : request.path.drop (ascii Collection.users.path).length =
      text.take (Collection.room .users)) :
    pathUsername (request.behind "/api/v1/users/") = text := by
  have hlength : text.length ≤ UserStore.usernameSize - 1 := hfaithful
  show (request.path.drop (ascii Collection.users.path).length).take _ = _
  rw [hbehind, List.take_take, List.take_of_length_le]
  exact le_min hlength (hlength.trans (by decide))

/-- What a request asks a component for is about the object its URL names. -/
theorem asked_named {p : Part} {op : p.store.Op} {response : Response} {x : Route}
    (hmethod : request.method = ascii "PUT" ∨ request.method = ascii "DELETE")
    (hbegins : ascii collection.path <+: request.path)
    (hbehind : request.path.drop (ascii collection.path).length = text.take collection.room)
    (hfaithful : collection.Faithful text) (hready : Ready ram c)
    (hasked : Asked env request ram p op) (h : Drives p op ram x)
    (hx : x c = (some (response, ram'), c')) : OnlyChanges (collection.Names text) ram ram' := by
  have hkept : Kept p ram ram' := h.kept _ _ _ hx
  have hexec : ∃ ok, p.store.exec op (ram.part p) c = (some (ok, ram'.part p), c') := by
    have hchip := h.chip c
    have hvars := h.vars c
    rw [hx] at hchip hvars
    obtain ⟨⟨ok, vars⟩, hsome, hvars⟩ := Option.map_eq_some_iff.1 hvars.symm
    obtain rfl : vars = ram'.part p := hvars
    exact ⟨ok, Prod.ext hsome hchip.symm⟩
  obtain ⟨ok, hexec⟩ := hexec
  cases p with
  | users => exact hasked.elim
  | callback =>
    exact absurd hasked.1 (not_is hbegins (by cases collection <;> decide))
  | credentials =>
    cases op with
    | stageCertificate =>
      exact absurd hasked (not_is hbegins (by cases collection <;> decide))
    | stagePrivateKey =>
      exact absurd hasked (not_is hbegins (by cases collection <;> decide))
  | trust =>
    cases op with
    | add der mbed => exact absurd hasked.1 (not_post hmethod)
    | reset => exact absurd hasked.1 (not_is hbegins (by cases collection <;> decide))
    | replace id der mbed =>
      obtain ⟨hunder, hid, -⟩ := hasked
      obtain rfl : Collection.anchors = collection := eq_of_under hbegins hunder
      refine onlyChanges_trust hready hkept (.inl ⟨der, mbed, rfl⟩) (hfaithful id ?_) hexec
      rw [← hbehind]
      exact hid
    | delete id =>
      obtain ⟨hunder, hid, -⟩ := hasked
      obtain rfl : Collection.anchors = collection := eq_of_under hbegins hunder
      refine onlyChanges_trust hready hkept (.inr rfl) (hfaithful id ?_) hexec
      rw [← hbehind]
      exact hid
  | health =>
    cases op with
    | setPeriodSeconds => exact absurd hasked (not_is hbegins (by cases collection <;> decide))
    | addResource => exact absurd hasked.1 (not_post hmethod)
    | updateResource index host port path enabled id =>
      obtain ⟨hunder, hindex, -⟩ := hasked
      obtain rfl : Collection.resources = collection := eq_of_under hbegins hunder
      refine onlyChanges_health hkept (.inl ⟨host, port, path, enabled, id, rfl⟩)
        (hfaithful index ?_) hexec
      rw [← hbehind]
      exact hindex
    | deleteResource index =>
      obtain ⟨hunder, hindex⟩ := hasked
      obtain rfl : Collection.resources = collection := eq_of_under hbegins hunder
      refine onlyChanges_health hkept (.inr rfl) (hfaithful index ?_) hexec
      rw [← hbehind]
      exact hindex

/-- A request for an object does nothing to other objects, as long as what is left of its text is
faithful. -/
theorem Effect.onlyChanges {x : Route} {response : Response}
    (heffect : Effect env request ram x)
    (hmethod : request.method = ascii "PUT" ∨ request.method = ascii "DELETE")
    (hpath : request.path = (ascii collection.path ++ text).take 79) (hzero : 0 ∉ text)
    (hfaithful : collection.Faithful text)
    (hready : Ready ram c) (hx : x c = (some (response, ram'), c')) :
    OnlyChanges (collection.Names text) ram ram' := by
  obtain ⟨hbegins, hbehind⟩ := path_cut hpath
  cases heffect with
  | quiet h =>
    obtain rfl : ram' = ram := h.same _ _ _ hx
    exact .refl
  | session htoken =>
    rcases htoken with h | h | h <;> exact absurd h (not_post hmethod)
  | buzzer hadmin response buzzer h =>
    rw [h] at hx
    cases hx
    exact ⟨fun _ h => absurd rfl h, fun _ h => absurd rfl h, rfl, rfl, rfl, rfl⟩
  | putUser principal hprincipal hadmin username password role enabled mustExist hrole hasked
      response h =>
    rcases hasked with ⟨-, h, -⟩ | ⟨rfl, hunder, rfl⟩
    · exact absurd h (not_post hmethod)
    · obtain rfl : Collection.users = collection := eq_of_under hbegins hunder
      rw [pathUsername_faithful hfaithful hbehind] at h
      rw [h] at hx
      obtain ⟨⟨status, auth⟩, c₁, hput, hret⟩ := bind_eq_some.1 hx
      cases hret
      rcases putUser_cases env.derive principal text password role enabled 1 env.salt ram.auth with
        ⟨status', hidle⟩ | ⟨record, hstore, -, -, -, hname, -, hfound⟩
      · rw [hidle] at hput
        cases hput
        exact .refl
      · rw [hstore] at hput
        exact onlyChanges_storeUser hready.users hname (hfound (by decide))
          (cstr_of_notMem hzero) hput
  | deleteUser principal hprincipal hadmin hasked response h =>
    obtain rfl : Collection.users = collection := eq_of_under hbegins hasked
    rw [pathUsername_faithful hfaithful hbehind] at h
    rw [h] at hx
    obtain ⟨⟨status, auth⟩, c₁, hdelete, hret⟩ := bind_eq_some.1 hx
    cases hret
    exact onlyChanges_deleteUser hready.users (cstr_of_notMem hzero) hdelete
  | drives hadmin p op hasked h =>
    exact asked_named hmethod hbegins hbehind hfaithful hready hasked h hx

end Requests

/-- A target has no white space and no NUL. -/
theorem Arrives.plain {reads : List SslRead} {o : ReadOutcome} {target : Bytes}
    (h : Arrives reads o target) : 0 ∉ target ∧ ∀ c ∈ target, isSpace c = false := by
  obtain ⟨k, hk, rfl⟩ := h.target
  constructor
  · intro hzero
    have hheader : 0 ∈ o.received.take k := by
      refine List.IsSuffix.subset ?_ ((List.takeWhile_prefix _).subset hzero)
      exact ((List.dropWhile_suffix _).trans (List.dropWhile_suffix _)).trans
        (List.dropWhile_suffix _)
    have hend : k + 4 ≤ (cstr o.received).length := strstr_add_length_le hk
    have htake : o.received.take k = (cstr o.received).take k :=
      (List.prefix_of_prefix_length_le (List.take_prefix _ _)
        ((List.take_prefix k _).trans (cstr_isPrefix _)) (by simp; omega)).eq_of_length (by
          have := (cstr_isPrefix o.received).length_le
          simp only [List.length_take]
          omega)
    rw [htake] at hheader
    exact zero_notMem_cstr _ (List.mem_of_mem_take hheader)
  · intro c hc
    simpa using List.mem_takeWhile_imp hc

/-- **A request changes nothing but the object its URL names**, when what is left of the name is
faithful. -/
theorem only_named {collection : Collection} {text : Bytes} (h : collection.Faithful text) :
    OnlyNamed collection text := by
  intro stack stale reads env ram c response ram' c' harrives hmethod hready hdispatch
  have hshort : (readRequest requestSize stack stale reads).request.method.length < 7 := by
    rcases hmethod with hput | hdelete
    · rw [hput]
      decide
    · rw [hdelete]
      decide
  refine (dispatch_effect ..).onlyChanges hmethod (path_of_arrives harrives hshort) ?_ h hready
    hdispatch
  exact fun hzero => harrives.plain.1 (List.mem_append_right _ hzero)

end HealthCheck.ApiService
