import HealthCheck.Lib.CString
import HealthCheck.SectorStore

/-!
# The management server's credentials

`tls_server_credentials.c`: a certificate and a private key that are uploaded one after the
other, and saved together in a one-sector A/B store once they parse and belong to each other.
Without a valid snapshot the compiled-in pair is served, and nothing is written.
-/

namespace HealthCheck.TlsServerCredentials

open Nor hiding read driven_read read_ok read_cases
open CString Crc32 Memory TwoBank

/-- `TLS_SERVER_CREDENTIALS_MAX_CERTIFICATE_SIZE`. -/
def maxCertificateSize : ℕ := 1152

/-- `TLS_SERVER_CREDENTIALS_MAX_KEY_SIZE`. -/
def maxKeySize : ℕ := 384

/-- `TlsServerCredentials_StatusTypeDef`. -/
inductive CredentialsStatus where
  | activated
  | pending
  | invalidData
  | mismatch
  | storageError
deriving DecidableEq, Repr

/-- `TlsServerCredentials_SnapshotTypeDef`. -/
structure Snapshot where
  magic : UInt32
  version : UInt16
  reserved : UInt16
  generation : UInt32
  certificateLength : UInt16
  keyLength : UInt16
  certificate : Vector UInt8 maxCertificateSize
  key : Vector UInt8 maxKeySize
  crc : UInt32
deriving DecidableEq

/-- The results of the Mbed TLS calls of one activation: `mbedtls_ctr_drbg_seed`,
`mbedtls_x509_crt_parse`, `mbedtls_pk_parse_key` and `mbedtls_pk_check_pair`. -/
structure MbedResults where
  seed : ℤ
  crtParse : ℤ
  pkParseKey : ℤ
  pkCheckPair : ℤ

/-- Everything before the CRC. -/
def bodyLayout : Layout (UInt32 × UInt16 × UInt16 × UInt32 × UInt16 × UInt16 ×
    Vector UInt8 maxCertificateSize × Vector UInt8 maxKeySize) :=
  pair u32 (pair u16 (pair u16 (pair u32 (pair u16 (pair u16
    (pair (array u8 maxCertificateSize) (array u8 maxKeySize)))))))

def Snapshot.body (s : Snapshot) : UInt32 × UInt16 × UInt16 × UInt32 × UInt16 × UInt16 ×
    Vector UInt8 maxCertificateSize × Vector UInt8 maxKeySize :=
  (s.magic, s.version, s.reserved, s.generation, s.certificateLength, s.keyLength,
    s.certificate, s.key)

def layout : Layout Snapshot :=
  (pair bodyLayout u32).as (fun s => (s.body, s.crc))
    (fun ⟨⟨magic, version, reserved, generation, certificateLength, keyLength, certificate,
        key⟩, crc⟩ =>
      ⟨magic, version, reserved, generation, certificateLength, keyLength, certificate, key,
        crc⟩)
    fun _ => rfl

/-- `tlsServerCredentials_Crc` up to the `crc` field. -/
def crcOf (s : Snapshot) : UInt32 := crc32 (bodyLayout.encode s.body)

def magic : UInt32 := 0x54534352
def version : UInt16 := 3

/-- `tlsServerCredentials_IsValid`. -/
def isValid (s : Snapshot) : Bool :=
  s.magic = magic && s.version = version && s.certificateLength.toNat ≤ maxCertificateSize &&
    s.keyLength.toNat ≤ maxKeySize && s.crc = crcOf s

/-- The header `tlsServerCredentials_Save` writes. -/
def stamp (s : Snapshot) : Snapshot :=
  let s := { s with magic := magic, version := version, generation := s.generation + 1 }
  { s with crc := crcOf s }

def sectorStore : SectorStore Snapshot where
  sectorA := FlashLayout.tlsServerCredentialsSectorA
  sectorB := FlashLayout.tlsServerCredentialsSectorB
  layout := layout
  stamp := stamp
  isValid := isValid
  generation := Snapshot.generation

/-- The variables of the store. `pendingCertificate` and `pendingKey` are the staged bytes,
absent while `certificateStaged` or `keyStaged` is 0. -/
structure Ram where
  store : SectorRam Snapshot
  hasValidSnapshot : Bool
  pendingCertificate : Option Bytes
  pendingKey : Option Bytes

/-- `tlsServerCredentials_ClearStaging`. -/
def Ram.clearStaging (ram : Ram) : Ram := { ram with pendingCertificate := none, pendingKey := none }

/-- A snapshot cleared with `memset`. -/
def zero : Snapshot := ⟨0, 0, 0, 0, 0, 0, .replicate _ 0, .replicate _ 0, 0⟩

/-- `TlsServerCredentials_Init`. -/
def init : FlashM (Status × Ram) := do
  match ← sectorStore.newestSnapshot with
  | some store => pure (.ok, ⟨store, true, none, none⟩)
  | none => pure (.ok, ⟨⟨zero, FlashLayout.tlsServerCredentialsSectorB⟩, false, none, none⟩)

/-- The certificate bytes of a snapshot. -/
def Snapshot.certificateData (s : Snapshot) : Bytes :=
  s.certificate.toList.take s.certificateLength.toNat

/-- The key bytes of a snapshot. -/
def Snapshot.keyData (s : Snapshot) : Bytes := s.key.toList.take s.keyLength.toNat

/-- `tlsServerCredentials_Save`. -/
def save (candidate : Snapshot) (ram : Ram) : FlashM (Status × Ram) := do
  let (status, _, store) ← sectorStore.save candidate ram.store
  pure (status, { ram with
    store := store, hasValidSnapshot := ram.hasValidSnapshot || status = .ok })

/-- The certificate to activate: the staged one, else the one in use. -/
def Ram.certificateData (ram : Ram) : Option Bytes :=
  ram.pendingCertificate <|>
    if ram.hasValidSnapshot then some ram.store.snapshot.certificateData else none

/-- The key to activate: the staged one, else the one in use. -/
def Ram.keyData (ram : Ram) : Option Bytes :=
  ram.pendingKey <|> if ram.hasValidSnapshot then some ram.store.snapshot.keyData else none

/-- The snapshot with another pair. -/
def Snapshot.withPair (s : Snapshot) (certificate key : Bytes) : Snapshot :=
  { s with
    certificateLength := UInt16.ofNat certificate.length
    certificate := byteArray maxCertificateSize certificate
    keyLength := UInt16.ofNat key.length
    key := byteArray maxKeySize key }

/-- `result` when it decides what to do: the first of the calls that fails. -/
def MbedResults.parse (mbed : MbedResults) : ℤ :=
  if mbed.seed ≠ 0 then mbed.seed
  else if mbed.crtParse ≠ 0 then mbed.crtParse
  else mbed.pkParseKey

/-- `tlsServerCredentials_TryActivate`. -/
def tryActivate (mbed : MbedResults) (ram : Ram) : FlashM (CredentialsStatus × Ram) :=
  match ram.certificateData, ram.keyData with
  | some certificate, some key =>
    if mbed.parse ≠ 0 then pure (.invalidData, ram.clearStaging)
    else if mbed.pkCheckPair ≠ 0 then
      if ram.pendingCertificate = none ∨ ram.pendingKey = none then pure (.pending, ram)
      else pure (.mismatch, ram.clearStaging)
    else do
      let (status, ram) ← save (ram.store.snapshot.withPair certificate key) ram
      pure (if status = .ok then .activated else .storageError, ram.clearStaging)
  | _, _ => pure (.pending, ram)

/-- `TlsServerCredentials_StageCertificate`. -/
def stageCertificate (der : Bytes) (mbed : MbedResults) (ram : Ram) :
    FlashM (CredentialsStatus × Ram) :=
  if der.length = 0 ∨ der.length > maxCertificateSize then pure (.invalidData, ram)
  else tryActivate mbed { ram with pendingCertificate := some der }

/-- `TlsServerCredentials_StagePrivateKey`. -/
def stagePrivateKey (der : Bytes) (mbed : MbedResults) (ram : Ram) :
    FlashM (CredentialsStatus × Ram) :=
  if der.length = 0 ∨ der.length > maxKeySize then pure (.invalidData, ram)
  else tryActivate mbed { ram with pendingKey := some der }

/-- `TlsServerCredentials_GetCertificate`: the uploaded certificate, or none for the compiled-in
one. -/
def getCertificate (ram : Ram) : Option Bytes :=
  if ram.hasValidSnapshot then some ram.store.snapshot.certificateData else none

/-- `TlsServerCredentials_GetPrivateKey`: the uploaded key, or none for the compiled-in one. -/
def getPrivateKey (ram : Ram) : Option Bytes :=
  if ram.hasValidSnapshot then some ram.store.snapshot.keyData else none

/-! ## The two-bank scheme -/

/-- The mutations of the store, with what Mbed TLS says. -/
inductive Op where
  | stageCertificate (der : Bytes) (mbed : MbedResults)
  | stagePrivateKey (der : Bytes) (mbed : MbedResults)

/-- A mutation, and whether it activated a pair. -/
def exec (op : Op) (ram : Ram) : FlashM (Bool × Ram) := do
  let (status, ram) ← match op with
    | .stageCertificate der mbed => stageCertificate der mbed ram
    | .stagePrivateKey der mbed => stagePrivateKey der mbed ram
  pure (status = .activated, ram)

/-- The credentials as a two-bank store. -/
def store : Store :=
  sectorStore.store Ram Op Ram.store init exec (fun _ _ => True) zero true

theorem sound : sectorStore.Sound where
  aligned x := by cases x <;> decide
  below x := by cases x <;> decide
  ne := by decide
  pos := by decide
  fits := by decide
  generation_stamp _ := rfl

theorem load_erased (x : Bank) : (sectorStore.load (fun _ => 0xFF) x).magic = 0xFFFFFFFF := by
  rw [SectorStore.load, slice_const]
  rfl

theorem isValid_erased (x : Bank) :
    sectorStore.isValid (sectorStore.load (fun _ => 0xFF) x) = false := by
  have h : sectorStore.isValid = isValid := rfl
  simp [h, isValid, load_erased, magic]

/-- Staging alone changes neither the snapshot nor the bank in use. -/
theorem shape_tryActivate (mbed : MbedResults) {ram staged : Ram} (h : staged.store = ram.store) :
    store.Shape ram
      (tryActivate mbed staged >>= fun r => pure (decide (r.1 = .activated), r.2)) := by
  obtain ⟨_, had, pendingCertificate, pendingKey⟩ := ram
  subst h
  have hclear : store.Shape ⟨staged.store, had, pendingCertificate, pendingKey⟩
      (pure (false, staged.clearStaging)) := .idle false staged.clearStaging rfl rfl rfl
  have hkeep : store.Shape ⟨staged.store, had, pendingCertificate, pendingKey⟩
      (pure (false, staged)) := .idle false staged rfl rfl rfl
  unfold tryActivate
  split
  · split
    · exact hclear
    · split
      · split
        · exact hkeep
        · exact hclear
      · have hreports : SectorStore.Reports Ram.store
            fun r : Status × Snapshot × SectorRam Snapshot =>
              (decide ((if r.1 = .ok then CredentialsStatus.activated else .storageError) =
                .activated), Ram.clearStaging { staged with
                  store := r.2.2, hasValidSnapshot := staged.hasValidSnapshot || r.1 = .ok }) :=
          fun s x r => by cases s <;> exact ⟨rfl, rfl⟩
        simp only [save, bind_assoc, pure_bind]
        refine .commits _ (SectorStore.commits_save sound ?_ hreports)
        rfl
  · exact hkeep

theorem shape_exec (op : Op) (ram : Ram) : store.Shape ram (exec op ram) := by
  have hidle : store.Shape ram (pure (false, ram)) := .idle false ram rfl rfl rfl
  cases op with
  | stageCertificate der mbed =>
    simp only [exec, stageCertificate]
    split
    · exact hidle
    · apply shape_tryActivate
      rfl
  | stagePrivateKey der mbed =>
    simp only [exec, stagePrivateKey]
    split
    · exact hidle
    · apply shape_tryActivate
      rfl

/-- What start-up does with the newest snapshot. -/
def resume : Option (SectorRam Snapshot) → FlashM (Status × Ram)
  | some store => pure (.ok, ⟨store, true, none, none⟩)
  | none => pure (.ok, ⟨⟨zero, FlashLayout.tlsServerCredentialsSectorB⟩, false, none, none⟩)

theorem init_eq : init = sectorStore.newestSnapshot >>= resume := rfl

theorem resume_some (store : SectorRam Snapshot) :
    resume (some store) = pure (.ok, ⟨store, true, none, none⟩) := rfl

theorem lawful : store.Lawful := by
  rw [store, init_eq]
  refine SectorStore.lawful sound resume (fun store => ⟨store, true, none, none⟩) resume_some
    (fun _ => rfl) (fun _ => ?_) ?_ ?_ (fun x => ⟨isValid_erased x, trivial⟩) ?_ ?_
  · exact ⟨_, rfl, rfl⟩
  · intro h
    cases h
  · exact .pure _
  · rfl
  · rw [← init_eq]
    exact shape_exec

end HealthCheck.TlsServerCredentials
