import HealthCheck.Lib.SlotTable
import HealthCheck.UserStore

/-!
# Accounts and their sessions

`auth_service.c`: the master account and the accounts of the user store log in with a password
and get a pair of opaque tokens. Nine sessions, one for each account that can exist, keep the
SHA-256 digests of the current pairs and the tick they were issued at; nothing about a session
is persistent.

Random numbers, the password derivation and the tick are what the calls bring along, SHA-256 is
a function that may fail. A text argument is a buffer and is read up to its NUL.
-/

namespace HealthCheck.AuthService

open Nor hiding read driven_read read_ok read_cases
open CString

/-- `AUTH_SERVICE_MASTER_USERNAME`. -/
def masterUsername : Bytes := ascii "master"

/-- `AUTH_SERVICE_MAX_PASSWORD_LENGTH`. -/
def maxPasswordLength : ℕ := 128

/-- `AUTH_SERVICE_MIN_PASSWORD_LENGTH`. -/
def minPasswordLength : ℕ := 12

/-- `AUTH_SERVICE_ACCESS_LIFETIME_SEC`. -/
def accessLifetimeSec : UInt32 := 900

/-- `AUTH_SERVICE_REFRESH_LIFETIME_SEC`. -/
def refreshLifetimeSec : UInt32 := 604800

/-- `AUTH_SERVICE_TOKEN_TEXT_SIZE`. -/
def tokenTextSize : ℕ := 65

/-- `AUTH_SERVICE_SESSION_COUNT`. -/
def sessionCount : ℕ := UserStore.maxUsers + 1

/-- `AUTH_SERVICE_USER_ITERATIONS`. -/
def userIterations : UInt32 := 100000

/-- `MASTER_PASSWORD_PBKDF2_ITERATIONS`. -/
def masterPasswordIterations : UInt32 := 100000

def masterPasswordSalt : Vector UInt8 16 :=
  #v[0x1A, 0x5F, 0x0F, 0x46, 0x20, 0xA7, 0x35, 0x14, 0x88, 0x21, 0xB6, 0x29, 0x93, 0x36, 0x94, 0xD5]

def masterPasswordVerifier : Vector UInt8 32 :=
  #v[0x1A, 0xE4, 0x1B, 0x9F, 0x34, 0x97, 0x71, 0x88, 0xDA, 0xFD, 0x59, 0xC3, 0xC0, 0xAC, 0x56, 0xC5,
    0x44, 0xA1, 0x1A, 0x73, 0x93, 0x40, 0x6D, 0xCB, 0xC1, 0xC0, 0xD4, 0xF2, 0x5A, 0x98, 0x79, 0x8A]

/-- `AuthService_StatusTypeDef`. -/
inductive AuthStatus where
  | ok
  | invalidPassword
  | invalidArgument
  | cryptoError
  | notFound
  | forbidden
  | storageError
deriving DecidableEq, Repr

/-- `AuthService_SessionTypeDef`. -/
structure Session where
  active : UInt8
  role : UInt8
  username : Vector UInt8 UserStore.usernameSize
  accessDigest : Vector UInt8 32
  refreshDigest : Vector UInt8 32
  accessIssuedAt : UInt32
  refreshIssuedAt : UInt32
deriving DecidableEq

abbrev Sessions := Vector Session sessionCount

/-- `AuthService_TokenPairTypeDef`. -/
structure TokenPair where
  accessToken : Bytes
  refreshToken : Bytes
  accessExpiresIn : UInt32
  refreshExpiresIn : UInt32
deriving DecidableEq

/-- `AuthService_PrincipalTypeDef`. -/
structure Principal where
  username : Bytes
  role : UInt8
deriving DecidableEq

/-- The variables of the service, and those of the user store it opens. -/
structure Ram where
  sessions : Sessions
  users : UserStore.Ram

/-- `mbedtls_sha256` of a text; `none` when it fails. -/
abbrev Sha256 := Bytes → Option (Vector UInt8 32)

/-- `authService_Derive` on password, salt and iterations; `none` when it fails. -/
abbrev Derive := Bytes → Vector UInt8 16 → UInt32 → Option (Vector UInt8 32)

/-- The two draws of `TlsPlatform_Random` in `authService_Issue`. -/
structure Draws where
  access : Option (Vector UInt8 32)
  refresh : Option (Vector UInt8 32)

/-- `authService_IsAdministrator`. -/
def isAdministrator (principal : Principal) : Bool := principal.role = UserStore.roleAdministrator

/-- A digit of `authService_Hex`. -/
def hexDigit (n : UInt8) : UInt8 := (ascii "0123456789abcdef").getD n.toNat 0

/-- `authService_Hex`. -/
def hex (input : Bytes) : Bytes :=
  input.flatMap fun b : UInt8 => [hexDigit (b >>> 4), hexDigit (b &&& 0x0F)]

def zeroSession : Session := ⟨0, 0, .replicate _ 0, .replicate _ 0, .replicate _ 0, 0, 0⟩

/-- The text of a session's username. -/
def Session.name (s : Session) : Bytes := cstr s.username.toList

/-- `authService_FindSession`: the account's session, or else a free one. -/
def findSession (sessions : Sessions) (username : Bytes) : Option (Fin sessionCount) :=
  match (List.finRange sessionCount).find? fun i =>
      sessions[i].active ≠ 0 ∧ sessions[i].name = username with
  | some i => some i
  | none => (List.finRange sessionCount).find? fun i => sessions[i].active = 0

/-- `authService_Issue`. A pair is handed out on success only. -/
def issue (sha256 : Sha256) (username : Bytes) (role : UInt8) (draws : Draws) (now : UInt32)
    (sessions : Sessions) : AuthStatus × Option TokenPair × Sessions :=
  match draws.access, draws.refresh with
  | some access, some refresh =>
    let tokens : TokenPair :=
      ⟨hex access.toList, hex refresh.toList, accessLifetimeSec, refreshLifetimeSec⟩
    match sha256 tokens.accessToken, sha256 tokens.refreshToken with
    | some accessDigest, some refreshDigest =>
      match findSession sessions username with
      | none => (.cryptoError, none, sessions)
      | some i =>
        let session := {
          active := 1
          role := role
          username := charArray UserStore.usernameSize username
          accessDigest := accessDigest
          refreshDigest := refreshDigest
          accessIssuedAt := now
          refreshIssuedAt := now }
        (.ok, some tokens, sessions.set i session)
    | _, _ => (.cryptoError, none, sessions)
  | _, _ => (.cryptoError, none, sessions)

/-- `AuthService_Init`. -/
def init : FlashM (AuthStatus × Ram) := do
  let (status, users) ← UserStore.init
  let sessions := .replicate _ zeroSession
  if status ≠ .ok then pure (.storageError, ⟨sessions, users⟩) else pure (.ok, ⟨sessions, users⟩)

/-- A derived verifier against the stored one. -/
def compareVerifier (derived : Option (Vector UInt8 32)) (verifier : Vector UInt8 32) :
    AuthStatus :=
  match derived with
  | none => .cryptoError
  | some derived => if derived = verifier then .ok else .invalidPassword

/-- `AuthService_VerifyMasterPassword`. -/
def verifyMasterPassword (derive : Derive) (password : Bytes) : AuthStatus :=
  if password.length = 0 ∨ password.length > maxPasswordLength then .invalidArgument
  else
    compareVerifier (derive password masterPasswordSalt masterPasswordIterations)
      masterPasswordVerifier

/-- The part of `AuthService_Login` that checks the password, with the account's role. -/
def checkPassword (derive : Derive) (username password : Bytes) (users : UserStore.Ram) :
    AuthStatus × UInt8 :=
  if username = masterUsername then
    (verifyMasterPassword derive password, UserStore.roleAdministrator)
  else
    match UserStore.find username users with
    | none => (.invalidPassword, UserStore.roleAdministrator)
    | some (record, _) =>
      if record.enabled = 0 then (.invalidPassword, UserStore.roleAdministrator)
      else
        (compareVerifier (derive password record.salt record.iterations) record.verifier,
          record.role)

/-- `AuthService_Login`. -/
def login (sha256 : Sha256) (derive : Derive) (username password : Bytes) (draws : Draws)
    (now : UInt32) (ram : Ram) : AuthStatus × Option TokenPair × Ram :=
  let username := cstr username
  let (status, role) := checkPassword derive username password ram.users
  if status ≠ .ok then (status, none, ram)
  else
    let (status, tokens, sessions) := issue sha256 username role draws now ram.sessions
    (status, tokens, { ram with sessions := sessions })

/-- The copy of a session's username that `AuthService_Refresh` and `AuthService_Authorize` take. -/
def copyUsername (session : Session) : Bytes := session.name.take (UserStore.usernameSize - 1)

/-- The session `AuthService_Refresh` stops at. -/
def findRefresh (digest : Vector UInt8 32) (now : UInt32) (sessions : Sessions) :
    Option (Fin sessionCount) :=
  (List.finRange sessionCount).find? fun i =>
    sessions[i].active ≠ 0 ∧ now - sessions[i].refreshIssuedAt ≤ refreshLifetimeSec * 1000 ∧
      digest = sessions[i].refreshDigest

/-- `AuthService_Refresh`. The tick is read for the test, and again when the pair is issued. -/
def refresh (sha256 : Sha256) (refreshToken : Bytes) (draws : Draws) (now issuedAt : UInt32)
    (ram : Ram) : AuthStatus × Option TokenPair × Ram :=
  let refreshToken := cstr refreshToken
  if refreshToken.length ≠ tokenTextSize - 1 then (.invalidArgument, none, ram)
  else
    match sha256 refreshToken with
    | none => (.cryptoError, none, ram)
    | some digest =>
      match findRefresh digest now ram.sessions with
      | none => (.invalidPassword, none, ram)
      | some i =>
        let session := ram.sessions[i]
        let (status, tokens, sessions) :=
          issue sha256 (copyUsername session) session.role draws issuedAt ram.sessions
        (status, tokens, { ram with sessions := sessions })

/-- The session `AuthService_Authorize` stops at. -/
def findAccess (digest : Vector UInt8 32) (now : UInt32) (sessions : Sessions) :
    Option (Fin sessionCount) :=
  (List.finRange sessionCount).find? fun i =>
    sessions[i].active ≠ 0 ∧ now - sessions[i].accessIssuedAt ≤ accessLifetimeSec * 1000 ∧
      digest = sessions[i].accessDigest

/-- `AuthService_Authorize`. -/
def authorize (sha256 : Sha256) (accessToken : Bytes) (now : UInt32) (sessions : Sessions) :
    AuthStatus × Option Principal :=
  let accessToken := cstr accessToken
  if accessToken.length ≠ tokenTextSize - 1 then (.invalidArgument, none)
  else
    match sha256 accessToken with
    | none => (.cryptoError, none)
    | some digest =>
      match findAccess digest now sessions with
      | none => (.invalidPassword, none)
      | some i => (.ok, some ⟨copyUsername sessions[i], sessions[i].role⟩)

/-- `AuthService_Revoke`. -/
def revoke (sha256 : Sha256) (accessToken : Bytes) (now : UInt32) (ram : Ram) :
    AuthStatus × Ram :=
  match authorize sha256 accessToken now ram.sessions with
  | (.ok, some principal) =>
    match findSession ram.sessions principal.username with
    | none => (.ok, ram)
    | some i => (.ok, { ram with sessions := ram.sessions.set i zeroSession })
  | (status, _) => (status, ram)

/-- The end of the session of an account that was changed. -/
def closeSession (username : Bytes) (sessions : Sessions) : Sessions :=
  match findSession sessions username with
  | none => sessions
  | some i =>
    if sessions[i].active ≠ 0 ∧ sessions[i].name = username then sessions.set i zeroSession
    else sessions

/-- The record `AuthService_PutUser` makes, before its verifier. -/
def newRecord (username : Bytes) (role enabled : UInt8) (salt : Vector UInt8 16) :
    UserStore.Record where
  enabled := if enabled ≠ 0 then 1 else 0
  role := role
  username := charArray UserStore.usernameSize username
  salt := salt
  verifier := .replicate _ 0
  padding := 0
  iterations := userIterations

/-- The end of `AuthService_PutUser`: the record is stored and the account's session closed. -/
def storeUser (username : Bytes) (record : UserStore.Record) (ram : Ram) :
    FlashM (AuthStatus × Ram) := do
  let (status, users) ← UserStore.put record ram.users
  if status = .ok then pure (.ok, ⟨closeSession username ram.sessions, users⟩)
  else pure (.storageError, ⟨ram.sessions, users⟩)

/-- `AuthService_PutUser`. -/
def putUser (derive : Derive) (actor : Principal) (username password : Bytes)
    (role enabled mustExist : UInt8) (salt : Option (Vector UInt8 16)) (ram : Ram) :
    FlashM (AuthStatus × Ram) :=
  let username := cstr username
  if !isAdministrator actor || password.length < minPasswordLength ||
      password.length > maxPasswordLength || username.length ≥ UserStore.usernameSize ||
      username = masterUsername then pure (.forbidden, ram)
  else
    let found := (UserStore.find username ram.users).isSome
    if mustExist ≠ 0 ∧ found = false then pure (.notFound, ram)
    else if mustExist = 0 ∧ found = true then pure (.invalidArgument, ram)
    else
      match salt with
      | none => pure (.cryptoError, ram)
      | some salt =>
        let record := newRecord username role enabled salt
        match derive password record.salt record.iterations with
        | none => pure (.cryptoError, ram)
        | some verifier => storeUser username { record with verifier := verifier } ram

/-- `AuthService_DeleteUser`. -/
def deleteUser (actor : Principal) (username : Bytes) (ram : Ram) : FlashM (AuthStatus × Ram) :=
  let username := cstr username
  if !isAdministrator actor || username = masterUsername then pure (.forbidden, ram)
  else if UserStore.find username ram.users = none then pure (.notFound, ram)
  else do
    let (status, users) ← UserStore.delete username ram.users
    if status = .ok then pure (.ok, ⟨closeSession username ram.sessions, users⟩)
    else pure (.storageError, ⟨ram.sessions, users⟩)

/-- `AuthService_ListUsers`. -/
def listUsers (actor : Principal) (capacity : ℕ) (ram : Ram) : List UserStore.Record :=
  if isAdministrator actor then UserStore.list capacity ram.users else []

end HealthCheck.AuthService
