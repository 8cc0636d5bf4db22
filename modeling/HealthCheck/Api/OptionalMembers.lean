import HealthCheck.Api.MistakenObjects
import HealthCheck.Api.PartialUpdates
import HealthCheck.Authorization

/-!
# Optional members

Accounts and health-check resources have members that a request may leave out: a role, a state, a
trust anchor. An update of a resource or of the callback refuses such a member when it cannot be
read. The routes that make accounts and resources take no notice, and go on with what the member
would be without the request.

* `FlatObject` — flat JSON objects with values of any kind.
* `Endpoint.Admits` — a request that these routes carry out, said without the optional members.
* `malformed_refused_iff` — so a malformed member is refused only where every request like it is.
-/

namespace HealthCheck.ApiService

open Nor hiding read driven_read read_ok read_cases
open CString Run TwoBank

/-! ## Flat objects -/

def isHexDigit (c : UInt8) : Bool :=
  isDigit c || (0x41 ≤ c && c ≤ 0x46) || (0x61 ≤ c && c ≤ 0x66)

/-- The value of a hexadecimal digit. -/
def hexValue (c : UInt8) : ℕ :=
  if isDigit c then c.toNat - 0x30 else (c.toNat - 0x37) % 0x20

/-- What stands between the quotes of a JSON string. -/
inductive StringText : Bytes → Prop
  | nil : StringText []
  | plain {c : UInt8} {text : Bytes} (h : c ≠ 0x22 ∧ c ≠ 0x5C ∧ 0x20 ≤ c) (rest : StringText text) :
    StringText (c :: text)
  | escaped {c e : UInt8} {text : Bytes} (h : JsonText.unescape c = some e)
    (rest : StringText text) : StringText (0x5C :: c :: text)
  | unicode {digits text : Bytes} (length : digits.length = 4) (h : ∀ c ∈ digits, isHexDigit c)
    (rest : StringText text) : StringText (0x5C :: 0x75 :: (digits ++ text))

/-- The text between the quotes spells a key of ASCII characters. -/
inductive SpellsKey : Bytes → Bytes → Prop
  | nil : SpellsKey [] []
  | plain {c : UInt8} {text key : Bytes} (h : c ≠ 0x5C) (rest : SpellsKey text key) :
    SpellsKey (c :: text) (c :: key)
  | escaped {c e : UInt8} {text key : Bytes} (h : JsonText.unescape c = some e)
    (rest : SpellsKey text key) : SpellsKey (0x5C :: c :: text) (e :: key)
  | unicode {digits text key : Bytes} {e : UInt8} (length : digits.length = 4)
    (digit : ∀ c ∈ digits, isHexDigit c)
    (h : digits.foldl (fun n c => n * 16 + hexValue c) 0 = e.toNat) (ascii : e < 0x80)
    (rest : SpellsKey text key) : SpellsKey (0x5C :: 0x75 :: (digits ++ text)) (e :: key)

/-- Some digits. -/
def Digits (text : Bytes) : Prop := text ≠ [] ∧ ∀ c ∈ text, isDigit c

/-- How a JSON number is written: an integer without leading zeros, and perhaps a sign, a
fraction and an exponent. -/
def NumberText (text : Bytes) : Prop :=
  ∃ sign integer fraction exponent, text = sign ++ integer ++ fraction ++ exponent ∧
    (sign = [] ∨ sign = [0x2D]) ∧
    (integer = [0x30] ∨ Digits integer ∧ integer.head? ≠ some 0x30) ∧
    (fraction = [] ∨ ∃ digits, fraction = 0x2E :: digits ∧ Digits digits) ∧
    (exponent = [] ∨ ∃ e s digits, exponent = e :: s ++ digits ∧ (e = 0x65 ∨ e = 0x45) ∧
      (s = [] ∨ s = [0x2B] ∨ s = [0x2D]) ∧ Digits digits)

/-- A value of a member, as it is written. -/
inductive Scalar where
  | string (text : Bytes)
  | number (text : Bytes)
  | boolean (b : Bool)
  | null

def Scalar.text : Scalar → Bytes
  | string text => quoted text
  | number text => text
  | boolean b => boolText b
  | null => ascii "null"

def Scalar.WellFormed : Scalar → Prop
  | string text => StringText text
  | number text => NumberText text
  | _ => True

/-- A member with the white space before its name, around its colon and behind its value. -/
structure FlatMember where
  before : Bytes
  name : Bytes
  beforeColon : Bytes
  afterColon : Bytes
  value : Scalar
  after : Bytes
  white : ∀ c ∈ before ++ beforeColon ++ afterColon ++ after, isWhite c
  name_string : StringText name
  value_wellFormed : value.WellFormed

def FlatMember.text (m : FlatMember) : Bytes :=
  m.before ++ quoted m.name ++ m.beforeColon ++ 0x3A :: (m.afterColon ++ m.value.text ++ m.after)

/-- A flat object, with the white space around it and, when it is empty, in it. No two of its
members have one name, however they spell it. -/
structure FlatObject where
  lead : Bytes
  members : List FlatMember
  inner : Bytes
  trail : Bytes
  white : ∀ c ∈ lead ++ inner ++ trail, isWhite c
  distinct : members.Pairwise fun m m' => m.name ≠ m'.name ∧
    ∀ key, SpellsKey m.name key → ¬SpellsKey m'.name key

def FlatObject.text (o : FlatObject) : Bytes :=
  o.lead ++ braces (if o.members = [] then o.inner
    else [0x2C].intercalate (o.members.map FlatMember.text)) ++ o.trail

theorem stringText_of_plain {text : Bytes} (h : Plain text) : StringText text := by
  induction text with
  | nil => exact .nil
  | cons c text ih =>
    exact .plain (h c List.mem_cons_self) (ih fun d hd => h d (List.mem_cons_of_mem c hd))

/-- A name without escapes spells itself only. -/
theorem SpellsKey.eq_of_plain {text key : Bytes} (h : SpellsKey text key) (hplain : Plain text) :
    key = text := by
  induction h with
  | nil => rfl
  | plain _ _ ih => rw [ih fun d hd => hplain d (List.mem_cons_of_mem _ hd)]
  | escaped => exact absurd rfl (hplain _ List.mem_cons_self).2.1
  | unicode => exact absurd rfl (hplain _ List.mem_cons_self).2.1

theorem spellsKey_of_plain {text : Bytes} (h : Plain text) : SpellsKey text text := by
  induction text with
  | nil => exact .nil
  | cons c text ih =>
    exact .plain (h c List.mem_cons_self).2.1 (ih fun d hd => h d (List.mem_cons_of_mem c hd))

/-! ## The routes and their optional members -/

/-- What an extractor reads. -/
inductive Kind where
  | string (capacity : ℕ)
  | number
  | boolean

/-- A value of the right type. -/
def Kind.Fits : Kind → Scalar → Prop
  | .string _, .string _ => True
  | .number, .number _ => True
  | .boolean, .boolean _ => True
  | _, _ => False

/-- The extractor's verdict. -/
def Kind.extracts (json key : Bytes) : Kind → Bool
  | .string capacity => (jsonString json key capacity).isSome
  | .number => (jsonNumber json key).isSome
  | .boolean => (jsonBoolean json key).isSome

/-- The routes that have optional members and go on without them. -/
inductive Endpoint where
  | postUser
  | putUser
  | postResource
deriving DecidableEq

/-- The requests that come to the route. -/
def Endpoint.Meets (endpoint : Endpoint) (request : Request) : Prop :=
  match endpoint with
  | .postUser => request.is "POST" "/api/v1/users"
  | .putUser => request.under "PUT" "/api/v1/users/"
  | .postResource => request.is "POST" "/api/v1/health-check/resources"

def Endpoint.optional : Endpoint → List (String × Kind)
  | .postUser | .putUser => [("role", .string 20), ("enabled", .boolean)]
  | .postResource => [("enabled", .boolean), ("trust_anchor_id", .number)]

/-- One of the optional members is there, with a value of the wrong type or one that the extractor
rejects. -/
def Endpoint.Malformed (endpoint : Endpoint) (o : FlatObject) : Prop :=
  ∃ optional ∈ endpoint.optional, ∃ m ∈ o.members, SpellsKey m.name (ascii optional.1) ∧
    (¬optional.2.Fits m.value ∨ optional.2.extracts o.text (ascii optional.1) = false)

/-- A request that is answered with 400, and nothing is stored. -/
def Refuses (x : Route) (ram : Ram) (c : Chip) : Prop :=
  ∃ response, x c = (some (response, ram), c) ∧ response.status = 400

/-- An account that `AuthService_PutUser` has nothing against. -/
structure Storable (env : Env) (username password : Bytes) (users : UserStore.Ram) : Prop where
  length : AuthService.minPasswordLength ≤ password.length ∧
    password.length ≤ AuthService.maxPasswordLength
  name : username ≠ [] ∧ username.length < UserStore.usernameSize ∧
    username ≠ AuthService.masterUsername
  room : UserStore.find username users = none → users.snapshot.count.toNat < UserStore.maxUsers
  derived : ∃ salt, env.salt = some salt ∧
    (env.derive password salt AuthService.userIterations).isSome

section Accounts

variable {env : Env} {actor : AuthService.Principal} {username password : Bytes}
  {role enabled mustExist : UInt8} {ram : AuthService.Ram}

theorem username_zero {u : Bytes} (h : 0 ∉ u) :
    (charArray UserStore.usernameSize u)[0] = 0 ↔ u = [] := by
  rw [charArray, Vector.getElem_ofFn]
  cases u with
  | nil => exact iff_of_true rfl rfl
  | cons c u =>
    exact iff_of_false (fun hzero => h (hzero ▸ List.mem_cons_self)) (List.cons_ne_nil c u)

/-- The store refuses the record before it touches the flash. -/
theorem put_refused {record : UserStore.Record} {users : UserStore.Ram}
    (h : record.username[0] = 0 ∨ users.snapshot.put record = none) :
    UserStore.put record users = pure (.error, users) := by
  unfold UserStore.put
  rcases h with hzero | hfull
  · exact if_pos hzero
  · split
    · rfl
    · rw [hfull]

/-- The store takes the record while every command completes. -/
theorem put_stored {record : UserStore.Record} {users : UserStore.Ram} {m : Cells}
    {log : List Command} (hcount : users.snapshot.count.toNat ≤ UserStore.maxUsers)
    (hnonzero : record.username[0] ≠ 0) (hput : users.snapshot.put record ≠ none) :
    ∃ users' c', UserStore.put record users ⟨m, {}, log⟩ = (some (.ok, users'), c') := by
  obtain ⟨candidate, hcandidate⟩ := Option.ne_none_iff_exists'.1 hput
  obtain ⟨hcount', -⟩ := UserStore.records_put hcount hcandidate
  obtain ⟨status, users', log', hsave, hok⟩ :=
    SectorStore.save_calm UserStore.sound candidate users m log
  obtain rfl : status = .ok := hok.mpr ((UserStore.isValid_stamp candidate).2 hcount')
  generalize (⟨_, {}, log'⟩ : Chip) = c' at hsave
  refine ⟨users', c', ?_⟩
  rw [UserStore.put, if_neg hnonzero, hcandidate]
  exact bind_of_some hsave

theorem storeUser_refused {u : Bytes} {record : UserStore.Record}
    (h : record.username[0] = 0 ∨ ram.users.snapshot.put record = none) :
    AuthService.storeUser u record ram = pure (.storageError, ram) := by
  rw [AuthService.storeUser, put_refused h]
  rfl

/-- **An account that is not storable is refused**, whatever role and state it is to have. -/
theorem putUser_refused (hactor : AuthService.isAdministrator actor = true)
    (hexists : mustExist ≠ 0 → UserStore.find (cstr username) ram.users ≠ none)
    (h : ¬(Storable env (cstr username) password ram.users ∧
      (mustExist = 0 → UserStore.find (cstr username) ram.users = none))) :
    ∃ status, AuthService.putUser env.derive actor username password role enabled mustExist env.salt
      ram = pure (status, ram) ∧ status ≠ .ok ∧ status ≠ .notFound := by
  unfold AuthService.putUser
  dsimp only
  have hzero := zero_notMem_cstr username
  generalize cstr username = u at h hexists hzero ⊢
  split
  · exact ⟨_, rfl, by decide, by decide⟩
  rename_i hchecks
  simp only [hactor, Bool.not_true, Bool.false_or, Bool.or_eq_true, decide_eq_true_eq, not_or,
    not_lt, not_le] at hchecks
  obtain ⟨⟨⟨hlong, hshort⟩, hfits⟩, hmaster⟩ := hchecks
  split
  · rename_i hmissing
    exact absurd (Option.not_isSome_iff_eq_none.1 (Bool.eq_false_iff.1 hmissing.2))
      (hexists hmissing.1)
  split
  · exact ⟨_, rfl, by decide, by decide⟩
  rename_i hnew
  split
  · exact ⟨_, rfl, by decide, by decide⟩
  rename_i salt hsalt
  split
  · exact ⟨_, rfl, by decide, by decide⟩
  rename_i verifier hderived
  refine ⟨.storageError, ?_, by decide, by decide⟩
  generalize hr : ({ AuthService.newRecord u role enabled salt with verifier := verifier } :
    UserStore.Record) = record
  have hrecord : record.username = charArray UserStore.usernameSize u := by
    rw [← hr]
    rfl
  refine storeUser_refused (or_iff_not_imp_left.2 fun hnonzero => ?_)
  rw [hrecord, username_zero hzero] at hnonzero
  have hname : record.name = u := by
    rw [UserStore.Record.name, hrecord, cstr_charArray hfits hzero]
  by_contra hput
  refine h ⟨⟨⟨hlong, hshort⟩, ⟨hnonzero, hfits, hmaster⟩, fun hnone => ?_, salt, hsalt, ?_⟩,
    fun hmust => ?_⟩
  · by_contra hfull
    refine hput (UserStore.put_eq_none.2 ⟨?_, not_lt.1 hfull⟩)
    rw [hname, ← UserStore.find_map_fst, hnone]
    rfl
  · exact Option.isSome_of_eq_some hderived
  · exact Option.not_isSome_iff_eq_none.1 fun hfound => hnew ⟨hmust, hfound⟩

/-- **A storable account is stored** while every command completes, whatever role and state it is
to have. -/
theorem putUser_stored (hactor : AuthService.isAdministrator actor = true)
    (hcount : ram.users.snapshot.count.toNat ≤ UserStore.maxUsers)
    (hexists : mustExist ≠ 0 → UserStore.find (cstr username) ram.users ≠ none)
    (hnew : mustExist = 0 → UserStore.find (cstr username) ram.users = none)
    (h : Storable env (cstr username) password ram.users) (m : Cells) (log : List Command) :
    ∃ ram' c', AuthService.putUser env.derive actor username password role enabled mustExist
      env.salt ram ⟨m, {}, log⟩ = (some (.ok, ram'), c') := by
  unfold AuthService.putUser
  dsimp only
  have hzero := zero_notMem_cstr username
  generalize cstr username = u at h hexists hnew hzero ⊢
  obtain ⟨⟨hlong, hshort⟩, ⟨hne, hfits, hmaster⟩, hroom, salt, hsalt, hderived⟩ := h
  obtain ⟨verifier, hverifier⟩ := Option.isSome_iff_exists.1 hderived
  rw [if_neg (by simp [hactor, hlong, hshort, hfits, hmaster]),
    if_neg fun hmissing => hexists hmissing.1 (Option.not_isSome_iff_eq_none.1
      (Bool.eq_false_iff.1 hmissing.2)),
    if_neg fun hfound => absurd hfound.2 (by rw [hnew hfound.1]; decide)]
  simp only [hsalt]
  rw [show env.derive password (AuthService.newRecord u role enabled salt).salt
    (AuthService.newRecord u role enabled salt).iterations = some verifier from hverifier]
  dsimp only
  generalize hr : ({ AuthService.newRecord u role enabled salt with verifier := verifier } :
    UserStore.Record) = record
  have hrecord : record.username = charArray UserStore.usernameSize u := by
    rw [← hr]
    rfl
  have hnonzero : record.username[0] ≠ 0 := by
    rw [hrecord]
    exact fun h => hne ((username_zero hzero).1 h)
  have hname : record.name = u := by
    rw [UserStore.Record.name, hrecord, cstr_charArray hfits hzero]
  have hroomy : ram.users.snapshot.put record ≠ none := by
    intro hnone
    obtain ⟨haccounts, hfull⟩ := UserStore.put_eq_none.1 hnone
    rw [hname, ← UserStore.find_map_fst, Option.map_eq_none_iff] at haccounts
    exact absurd hfull (not_le.2 (hroom haccounts))
  obtain ⟨users, c', hput⟩ : ∃ users c', UserStore.put record ram.users ⟨m, {}, log⟩ =
      (some (.ok, users), c') := put_stored hcount hnonzero hroomy
  exact ⟨_, c', (bind_of_some hput).trans rfl⟩

end Accounts

/-! ## What the requests need -/

/-- The account that a request is about. -/
def named (request : Request) : Bytes := pathUsername (request.behind "/api/v1/users/")

/-- What the route asks for besides its optional members: of the request, and of the state. -/
def Endpoint.Admits (endpoint : Endpoint) (env : Env) (request : Request) (json : Bytes)
    (ram : Ram) : Prop :=
  match endpoint with
  | .postUser => ∃ username password,
    jsonString json (ascii "username") UserStore.usernameSize = some username ∧
    jsonString json (ascii "password") 129 = some password ∧
    UserStore.find username ram.auth.users = none ∧ Storable env username password ram.auth.users
  | .putUser => ∃ password, jsonString json (ascii "password") 129 = some password ∧
    Storable env (named request) password ram.auth.users
  | .postResource => ∃ host path port,
    jsonString json (ascii "host") HealthCheckConfig.hostSize = some host ∧
    jsonString json (ascii "path") HealthCheckConfig.pathSize = some path ∧
    jsonNumber json (ascii "port") = some port ∧ ¬(port = 0 ∨ port > 65535) ∧
    (let trustAnchor := (jsonNumber json (ascii "trust_anchor_id")).getD 0
    ¬unknownAnchor trustAnchor ram ∧
    HealthCheckConfig.argumentsValid host (UInt16.ofNat port) path (UInt8.ofNat trustAnchor) = true)

section Routes

variable {env : Env} {request : Request} {ram : Ram} {principal : AuthService.Principal}
  {json : Bytes}

theorem Refuses.pure {code : String} (c : Chip) :
    Refuses (Pure.pure (badRequest code, ram)) ram c := ⟨_, rfl, rfl⟩

/-- What `saveUser` does once there is a password. -/
theorem saveUser_some (env : Env) (principal : AuthService.Principal) (ram : Ram) {json : Bytes}
    (username role : Bytes) (enabled : UInt8) (updating : Bool) {password : Bytes}
    (h : jsonString json (ascii "password") 129 = some password) :
    ∃ role' enabled', saveUser env json principal username role enabled updating ram =
      AuthService.putUser env.derive principal username password role' enabled'
        (if updating then 1 else 0) env.salt ram.auth >>= fun r =>
        Pure.pure (if r.1 = .notFound then notFound "user_not_found"
          else if r.1 ≠ .ok then badRequest "user_not_saved"
          else respond (if updating then 200 else 201) (if updating then "OK" else "Created")
            (formatted 96 (object [("username", quoted username)])), { ram with auth := r.2 }) := by
  unfold saveUser
  rw [h]
  exact ⟨_, _, rfl⟩

/-- An account that cannot be stored is refused. -/
theorem refuses_saveUser {username role : Bytes} {enabled : UInt8} {updating : Bool}
    (hadmin : principal.role = UserStore.roleAdministrator)
    (hexists : updating = true → UserStore.find (cstr username) ram.auth.users ≠ none)
    (h : ∀ password, jsonString json (ascii "password") 129 = some password →
      ¬(Storable env (cstr username) password ram.auth.users ∧
        (updating = false → UserStore.find (cstr username) ram.auth.users = none))) (c : Chip) :
    Refuses (saveUser env json principal username role enabled updating ram) ram c := by
  cases hpassword : jsonString json (ascii "password") 129 with
  | none =>
    unfold saveUser
    rw [hpassword]
    exact .pure c
  | some password =>
    obtain ⟨role', enabled', hsave⟩ :=
      saveUser_some env principal ram username role enabled updating hpassword
    have hactor : AuthService.isAdministrator principal = true := decide_eq_true hadmin
    have hrefused : ∃ status, AuthService.putUser env.derive principal username password role'
        enabled' (if updating then 1 else 0) env.salt ram.auth = Pure.pure (status, ram.auth) ∧
        status ≠ .ok ∧ status ≠ .notFound :=
      putUser_refused hactor (by cases updating <;> simp_all) (by cases updating <;> simp_all)
    obtain ⟨status, hput, hok, hfound⟩ := hrefused
    rw [hsave, hput, pure_bind, if_neg hfound, if_pos hok]
    exact .pure c

/-- An account that can be stored is not. -/
theorem not_refuses_saveUser {username role password : Bytes} {enabled : UInt8} {updating : Bool}
    (hadmin : principal.role = UserStore.roleAdministrator)
    (hcount : ram.auth.users.snapshot.count.toNat ≤ UserStore.maxUsers)
    (hexists : updating = true → UserStore.find (cstr username) ram.auth.users ≠ none)
    (hnew : updating = false → UserStore.find (cstr username) ram.auth.users = none)
    (hpassword : jsonString json (ascii "password") 129 = some password)
    (h : Storable env (cstr username) password ram.auth.users) (m : Cells) :
    ¬Refuses (saveUser env json principal username role enabled updating ram) ram
      ⟨m, {}, []⟩ := by
  obtain ⟨role', enabled', hsave⟩ :=
    saveUser_some env principal ram username role enabled updating hpassword
  have hactor : AuthService.isAdministrator principal = true := decide_eq_true hadmin
  have hstored : ∃ auth c', AuthService.putUser env.derive principal username password role'
      enabled' (if updating then 1 else 0) env.salt ram.auth ⟨m, {}, []⟩ =
      (some (.ok, auth), c') :=
    putUser_stored hactor hcount (by cases updating <;> simp_all) (by cases updating <;> simp_all)
      h m []
  obtain ⟨auth, c', hput⟩ := hstored
  rintro ⟨response, hrun, hstatus⟩
  rw [hsave, bind_of_some hput, pure_apply, Prod.mk.injEq, Option.some.injEq] at hrun
  have hresponse := congrArg (fun r => r.1.status) hrun.1
  cases updating
  · exact absurd (hresponse.trans hstatus) (show ¬(201 : ℕ) = 400 by decide)
  · exact absurd (hresponse.trans hstatus) (show ¬(200 : ℕ) = 400 by decide)

/-- A resource that is not admitted is refused. -/
theorem refuses_postResource (h : ¬Endpoint.postResource.Admits env request json ram) (c : Chip) :
    Refuses (postResource json ram) ram c := by
  unfold postResource
  split
  · rename_i host path port hhost hpath hport
    dsimp only
    split
    · exact .pure c
    rename_i hports
    split
    · exact .pure c
    rename_i hanchor
    have hinvalid : HealthCheckConfig.argumentsValid host (UInt16.ofNat port) path
        (UInt8.ofNat ((jsonNumber json (ascii "trust_anchor_id")).getD 0)) = false :=
      Bool.eq_false_iff.2 fun hvalid =>
        h ⟨host, path, port, hhost, hpath, hport, hports, hanchor, hvalid⟩
    rw [HealthCheckConfig.addResource, hinvalid, Bool.not_false, if_pos rfl]
    exact ⟨_, rfl, rfl⟩
  · exact .pure c

/-- One that is admitted is stored, or meets a full configuration. -/
theorem not_refuses_postResource (hfit : HealthCheckConfig.Fit ram.health.snapshot)
    (h : Endpoint.postResource.Admits env request json ram) (m : Cells) :
    ¬Refuses (postResource json ram) ram ⟨m, {}, []⟩ := by
  obtain ⟨host, path, port, hhost, hpath, hport, hports, hanchor, hvalid⟩ := h
  unfold postResource
  rw [hhost, hpath, hport]
  dsimp only
  rw [if_neg hports, if_neg hanchor]
  rintro ⟨response, hrun, hstatus⟩
  obtain ⟨⟨⟨status, assigned⟩, health⟩, c₁, hadd, hret⟩ := bind_eq_some.1 hrun
  simp only [pure_apply, Prod.mk.injEq, Option.some.injEq] at hret
  have hresponse := congrArg Response.status hret.1.1
  have happly : HealthCheckConfig.apply (.addResource host (UInt16.ofNat port) path
      ((jsonBoolean json (ascii "enabled")).getD true)
      (UInt8.ofNat ((jsonNumber json (ascii "trust_anchor_id")).getD 0))) ram.health ⟨m, {}, []⟩ =
      (some (status, health), c₁) := bind_of_some hadd
  have hok : status = .full ∨ status = .ok := by
    rcases HealthCheckConfig.apply_eq_some happly with ⟨candidate, hedit, -⟩ | ⟨hedit, -, -⟩
    · have hperiod : HealthCheckConfig.periodValid candidate.periodSeconds = true := by
        rcases HealthCheckConfig.edited_ok hedit with ⟨periodSeconds, -, h, rfl⟩ |
          ⟨index, hindex, slot, -, -, rfl⟩
        · exact h
        · exact HealthCheckConfig.periodValid_iff.2 hfit.period
      obtain ⟨health', c₂, hcalm, -⟩ := HealthCheckConfig.apply_calm hedit hperiod m []
      rw [happly] at hcalm
      exact .inr (by cases hcalm; rfl)
    · rw [HealthCheckConfig.edited, hvalid, Bool.not_true, if_neg Bool.false_ne_true] at hedit
      cases hfree : HealthCheckConfig.freeSlot ram.health.snapshot with
      | none =>
        rw [hfree] at hedit
        exact .inl (by cases hedit; rfl)
      | some index =>
        rw [hfree] at hedit
        cases hedit
  rcases hok with rfl | rfl
  · exact absurd (hresponse.trans hstatus) (show ¬(409 : ℕ) = 400 by decide)
  · exact absurd (hresponse.trans hstatus) (show ¬(201 : ℕ) = 400 by decide)

/-- **The three routes refuse what they do not admit, and nothing else**, for whatever the optional
members are. -/
theorem refuses_iff {endpoint : Endpoint} {body : Bytes} (hroute : endpoint.Meets request)
    (hadmin : Administrator env request ram)
    (hexists : endpoint = .putUser → UserStore.find (named request) ram.auth.users ≠ none)
    (hcount : ram.auth.users.snapshot.count.toNat ≤ UserStore.maxUsers)
    (hfit : HealthCheckConfig.Fit ram.health.snapshot) (m : Cells) :
    (∀ fates, Refuses (dispatch env request body ram) ram ⟨m, fates, []⟩) ↔
      ¬endpoint.Admits env request (cstr body) ram := by
  obtain ⟨principal, hprincipal, hrole⟩ := hadmin
  cases endpoint with
  | postUser =>
    rw [dispatch_postUser hroute, guarded_of_administrator hprincipal hrole]
    unfold postUser
    cases husername : jsonString (cstr body) (ascii "username") UserStore.usernameSize with
    | none =>
      refine iff_of_true (fun fates => .pure _) ?_
      rintro ⟨username, _, hsome, _⟩
      rw [husername] at hsome
      cases hsome
    | some username =>
      have htext : cstr username = username :=
        cstr_of_notMem (JsonText.zero_notMem_of_plain (jsonString_eq_some husername).1)
      have hexists : false = true → UserStore.find (cstr username) ram.auth.users ≠ none :=
        (absurd · Bool.false_ne_true)
      dsimp only
      constructor
      · rintro h ⟨username', password, husername', hpassword, hnew, hstorable⟩
        rw [husername] at husername'
        obtain rfl := Option.some.inj husername'
        rw [← htext] at hnew hstorable
        exact not_refuses_saveUser hrole hcount hexists (fun _ => hnew) hpassword hstorable m (h {})
      · intro h fates
        refine refuses_saveUser hrole hexists (fun password hpassword hstorable => h ?_) _
        rw [htext] at hstorable
        exact ⟨username, password, husername, hpassword, hstorable.2 rfl, hstorable.1⟩
  | putUser =>
    rw [dispatch_put .users hroute, guarded_of_administrator hprincipal hrole]
    have hfound := hexists rfl
    obtain ⟨⟨existing, position⟩, hexisting⟩ := Option.ne_none_iff_exists'.1 hfound
    have htext : cstr (named request) = named request := by
      rw [← (UserStore.find_eq_some hexisting).2, UserStore.Record.name, cstr_cstr]
    have hput : putUser env (cstr body) (request.behind "/api/v1/users/") principal ram =
        saveUser env (cstr body) principal (named request) (roleText existing.role)
          existing.enabled true ram := by
      unfold putUser
      dsimp only
      generalize hchosen : UserStore.find _ _ = found
      obtain rfl := hchosen.symm.trans hexisting
      rfl
    show (∀ fates, Refuses (putUser env (cstr body) (request.behind "/api/v1/users/") principal
      ram) ram ⟨m, fates, []⟩) ↔ _
    rw [← htext] at hfound
    have hnew : true = false → UserStore.find (cstr (named request)) ram.auth.users = none :=
      (absurd ·.symm Bool.false_ne_true)
    rw [hput]
    constructor
    · rintro h ⟨password, hpassword, hstorable⟩
      rw [← htext] at hstorable
      exact not_refuses_saveUser hrole hcount (fun _ => hfound) hnew hpassword hstorable m (h {})
    · intro h fates
      refine refuses_saveUser hrole (fun _ => hfound) (fun password hpassword hstorable => h ?_) _
      rw [htext] at hstorable
      exact ⟨password, hpassword, hstorable.1⟩
  | postResource =>
    rw [dispatch_postResource hroute, guarded_of_administrator hprincipal hrole]
    exact ⟨fun h hadmits => not_refuses_postResource hfit hadmits m (h {}),
      fun h fates => refuses_postResource h _⟩

end Routes


/-! ## Every state reached -/

/-- What holds of every state that a device reaches while what is cut off fails its checksum. -/
theorem reached {events : List Device.Event} (hevents : Along Device.step
    (fun d e => Device.Intact d e ∧ Device.Untorn d e) Device.start events) {ram : Ram}
    (hram : (run Device.step Device.start events).ram = some ram) :
    ram.auth.users.snapshot.count.toNat ≤ UserStore.maxUsers ∧
      HealthCheckConfig.Fit ram.health.snapshot :=
  ⟨((Device.accounted_run (hevents.mono fun _ _ h => h.1)).coupled ram hram).wellformed.count,
    (Device.configured_run (hevents.mono fun _ _ h => h.2)).health ram hram⟩

/-- **Malformed optional members** are refused, with 400 and nothing stored, exactly when they are
not malformed after all or the request is one that the route does not admit whatever they are. This
holds in every state that a device reaches from erased flash, for every request of an administrator
and every flat object that it brings. An update is one of an account that exists. -/
theorem malformed_refused_iff {events : List Device.Event} (hevents : Along Device.step
    (fun d e => Device.Intact d e ∧ Device.Untorn d e) Device.start events) {ram : Ram}
    (hram : (run Device.step Device.start events).ram = some ram) {env : Env} {request : Request}
    {body : Bytes} {endpoint : Endpoint} {o : FlatObject} (hbody : cstr body = o.text)
    (hroute : endpoint.Meets request) (hadmin : Administrator env request ram)
    (hexists : endpoint = .putUser → UserStore.find (named request) ram.auth.users ≠ none) :
    (endpoint.Malformed o → ∀ fates, Refuses (dispatch env request body ram) ram
      ⟨(run Device.step Device.start events).cells, fates, []⟩) ↔
      ¬endpoint.Malformed o ∨ ¬endpoint.Admits env request o.text ram := by
  obtain ⟨hcount, hfit⟩ := reached hevents hram
  rw [refuses_iff hroute hadmin hexists hcount hfit, hbody, imp_iff_not_or]

/-! ## An account that was to be disabled -/

/-- A string member without white space. -/
def plainMember (name : String) (value : Scalar) (hname : Plain (ascii name))
    (hvalue : value.WellFormed) : FlatMember :=
  ⟨[], ascii name, [], [], value, [], List.forall_mem_nil _, stringText_of_plain hname, hvalue⟩

theorem plain_username : Plain (ascii "username") := by decide

/-- `{"username":"bob","password":"a long password","enabled":"no"}`. -/
def bobObject : FlatObject where
  lead := []
  members := [
    plainMember "username" (.string (ascii "bob")) plain_username (stringText_of_plain (by decide)),
    plainMember "password" (.string userPassword) (by decide)
      (stringText_of_plain (by decide)),
    plainMember "enabled" (.string (ascii "no")) (by decide) (stringText_of_plain (by decide))]
  inner := []
  trail := []
  white := List.forall_mem_nil _
  distinct := by
    have hkeys : ∀ a b : String, Plain (ascii a) → Plain (ascii b) → ascii a ≠ ascii b →
        ascii a ≠ ascii b ∧ ∀ key, SpellsKey (ascii a) key → ¬SpellsKey (ascii b) key :=
      fun a b ha hb hne => ⟨hne, fun key hspells hspells' =>
        hne ((hspells.eq_of_plain ha).symm.trans (hspells'.eq_of_plain hb))⟩
    refine .cons ?_ (.cons ?_ (.cons ?_ .nil))
    · rintro m hm
      simp only [List.mem_cons, List.not_mem_nil, or_false] at hm
      rcases hm with rfl | rfl
      · exact hkeys "username" "password" (by decide) (by decide) (by decide)
      · exact hkeys "username" "enabled" (by decide) (by decide) (by decide)
    · rintro m hm
      obtain rfl := List.mem_singleton.1 hm
      exact hkeys "password" "enabled" (by decide) (by decide) (by decide)
    · exact List.forall_mem_nil _

theorem bob_malformed : Endpoint.postUser.Malformed bobObject := by
  refine ⟨("enabled", .boolean), by simp [Endpoint.optional], _, List.mem_cons_of_mem _
    (List.mem_cons_of_mem _ (List.mem_cons_self)), spellsKey_of_plain (by decide), .inl id⟩

/-- The request to add the account. -/
def bobRequest : Request := ⟨ascii "POST", ascii "/api/v1/users", zeroToken, 0, 0⟩

/-- The master has logged in to a device that was just started for the first time. -/
theorem master_in : ∃ ram,
    (run Device.step Device.start [.boot {}, Device.masterLogin]).ram = some ram ∧
      Administrator masterEnv bobRequest ram ∧ ram.auth.users.snapshot = UserStore.empty := by
  obtain ⟨-, hlogin, ram, hram, hsessions⟩ := Device.compiled_session Device.compiled_start
  rw [run, List.foldl_cons, List.foldl_cons, List.foldl_nil]
  exact ⟨ram, hram, administrator_master rfl hsessions, (hlogin.current ram hram .users).snapshot⟩

theorem bob_text : cstr bobObject.text = bobObject.text := by
  decide +kernel

theorem postUser_bob : Endpoint.postUser.Meets bobRequest :=
  show bobRequest.is "POST" "/api/v1/users" = true by decide

/-- The route admits the account. -/
theorem bob_admitted {ram : Ram} (h : ram.auth.users.snapshot = UserStore.empty) :
    Endpoint.postUser.Admits masterEnv bobRequest bobObject.text ram := by
  have hfind : UserStore.find (ascii "bob") ram.auth.users = none := by
    rw [← Option.map_eq_none_iff (f := Prod.fst), UserStore.find_map_fst, h]
    rfl
  have hderived : (masterEnv.derive userPassword userSalt AuthService.userIterations).isSome =
      true := by
    decide +kernel
  exact ⟨ascii "bob", userPassword, by decide +kernel, by decide +kernel, hfind,
    ⟨by decide, by decide, fun _ => by rw [h]; decide, userSalt, rfl, hderived⟩⟩

/-- Nothing is cut off on the way to it. -/
theorem master_undisturbed : Along Device.step (fun d e => Device.Intact d e ∧ Device.Untorn d e)
    Device.start [.boot {}, Device.masterLogin] :=
  ⟨⟨fun _ _ => .inr rfl, .of_calm rfl⟩, ⟨fun _ _ => .inr rfl, .of_calm rfl⟩, trivial⟩

/-- An account that was to be disabled is stored. -/
theorem malformed_accepted : ¬∀ events : List Device.Event,
    Along Device.step (fun d e => Device.Intact d e ∧ Device.Untorn d e) Device.start events →
    ∀ ram, (run Device.step Device.start events).ram = some ram →
    ∀ (env : Env) (request : Request) (body : Bytes) (endpoint : Endpoint) (o : FlatObject),
      cstr body = o.text → endpoint.Meets request → Administrator env request ram →
      (endpoint = .putUser → UserStore.find (named request) ram.auth.users ≠ none) →
      endpoint.Malformed o → ∀ fates, Refuses (dispatch env request body ram) ram
        ⟨(run Device.step Device.start events).cells, fates, []⟩ := by
  intro h
  obtain ⟨ram, hram, hadmin, hempty⟩ := master_in
  obtain ⟨hcount, hfit⟩ := reached master_undisturbed hram
  have hrefused := h _ master_undisturbed ram hram masterEnv bobRequest bobObject.text .postUser
    bobObject bob_text postUser_bob hadmin nofun bob_malformed
  rw [refuses_iff postUser_bob hadmin nofun hcount hfit, bob_text] at hrefused
  exact hrefused (bob_admitted hempty)

/-- The rule on that device: the master's request is not refused. -/
theorem malformed_refused_iff_bob : ∃ ram,
    (run Device.step Device.start [.boot {}, Device.masterLogin]).ram = some ram ∧
      ((Endpoint.postUser.Malformed bobObject → ∀ fates,
        Refuses (dispatch masterEnv bobRequest bobObject.text ram) ram
          ⟨(run Device.step Device.start [.boot {}, Device.masterLogin]).cells, fates, []⟩) ↔
        ¬Endpoint.postUser.Malformed bobObject ∨
          ¬Endpoint.postUser.Admits masterEnv bobRequest bobObject.text ram) := by
  obtain ⟨ram, hram, hadmin, -⟩ := master_in
  exact ⟨ram, hram,
    malformed_refused_iff master_undisturbed hram bob_text postUser_bob hadmin nofun⟩

end HealthCheck.ApiService
