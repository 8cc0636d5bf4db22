import HealthCheck.Lib.CString
import HealthCheck.SectorStore

/-!
# The trust-anchor store

`tls_trust_store.c`: up to four root certificates in an A/B store whose banks are three sectors
long. There is no RAM for a second snapshot: a mutation changes the one in use, saves it, and
reads the old one back from flash when that fails. Start-up migrates a version-1 image, which
lies in other banks, and saves the compiled default when there is neither.
-/

namespace HealthCheck.TlsTrustStore

open Nor hiding read driven_read read_ok read_cases
open CString Crc32 FlashLayout Memory TwoBank W25q64

/-- `TLS_TRUST_STORE_MAX_PERSISTED`. -/
def maxPersisted : ℕ := 3

/-- `TLS_TRUST_STORE_MAX_ANCHORS`. -/
def maxAnchors : ℕ := maxPersisted + 1

/-- `TLS_TRUST_STORE_MAX_DER_SIZE`. -/
def maxDerSize : ℕ := 2048

/-- `TLS_TRUST_STORE_SUBJECT_SIZE`. -/
def subjectSize : ℕ := 128

/-- `TlsTrustStore_StatusTypeDef`. -/
inductive TrustStatus where
  | ok
  | invalidArgument
  | invalidCertificate
  | noMemory
  | notCa
  | notFound
  | full
  | storageError
deriving DecidableEq, Repr

/-- `TlsTrustStore_AnchorTypeDef`. -/
structure Anchor where
  occupied : UInt8
  reserved : UInt8
  derLength : UInt16
  subject : Vector UInt8 subjectSize
  der : Vector UInt8 maxDerSize
deriving DecidableEq

/-- `TlsTrustStore_SnapshotTypeDef`. -/
structure Snapshot where
  magic : UInt32
  version : UInt16
  reserved : UInt16
  generation : UInt32
  anchors : Vector Anchor maxAnchors
  crc : UInt32
deriving DecidableEq

/-- `TlsTrustStore_LegacySnapshotTypeDef`. -/
structure LegacySnapshot where
  magic : UInt32
  version : UInt16
  reserved : UInt16
  generation : UInt32
  anchors : Vector Anchor 3
  crc : UInt32
deriving DecidableEq

/-! ## Layouts -/

def anchorLayout : Layout Anchor :=
  (pair u8 (pair u8 (pair u16 (pair (array u8 subjectSize) (array u8 maxDerSize))))).as
    (fun a => (a.occupied, a.reserved, a.derLength, a.subject, a.der))
    (fun ⟨occupied, reserved, derLength, subject, der⟩ =>
      ⟨occupied, reserved, derLength, subject, der⟩)
    fun _ => rfl

/-- Everything before the CRC, for a snapshot of `n` anchors. -/
def bodyLayout (n : ℕ) : Layout (UInt32 × UInt16 × UInt16 × UInt32 × Vector Anchor n) :=
  pair u32 (pair u16 (pair u16 (pair u32 (array anchorLayout n))))

def Snapshot.body (s : Snapshot) :
    UInt32 × UInt16 × UInt16 × UInt32 × Vector Anchor maxAnchors :=
  (s.magic, s.version, s.reserved, s.generation, s.anchors)

def LegacySnapshot.body (s : LegacySnapshot) :
    UInt32 × UInt16 × UInt16 × UInt32 × Vector Anchor 3 :=
  (s.magic, s.version, s.reserved, s.generation, s.anchors)

def layout : Layout Snapshot :=
  (pair (bodyLayout maxAnchors) u32).as (fun s => (s.body, s.crc))
    (fun ⟨⟨magic, version, reserved, generation, anchors⟩, crc⟩ =>
      ⟨magic, version, reserved, generation, anchors, crc⟩)
    fun _ => rfl

def legacyLayout : Layout LegacySnapshot :=
  (pair (bodyLayout 3) u32).as (fun s => (s.body, s.crc))
    (fun ⟨⟨magic, version, reserved, generation, anchors⟩, crc⟩ =>
      ⟨magic, version, reserved, generation, anchors, crc⟩)
    fun _ => rfl

/-! ## Validation -/

/-- `tlsTrustStore_Crc` up to the `crc` field. -/
def crcOf (s : Snapshot) : UInt32 := crc32 ((bodyLayout maxAnchors).encode s.body)

/-- `tlsTrustStore_Crc` up to the `crc` field of a version-1 snapshot. -/
def legacyCrcOf (s : LegacySnapshot) : UInt32 := crc32 ((bodyLayout 3).encode s.body)

def magic : UInt32 := 0x54525354
def version : UInt16 := 2
def legacyVersion : UInt16 := 1

/-- What `tlsTrustStore_IsSnapshotValid` asks of each anchor. -/
def Anchor.wellFormed (a : Anchor) : Bool :=
  a.occupied = 0 ||
    (a.derLength ≠ 0 && a.derLength.toNat ≤ maxDerSize && a.subject.toList.contains 0)

/-- `tlsTrustStore_IsSnapshotValid`. -/
def isSnapshotValid (s : Snapshot) : Bool :=
  s.magic = magic && s.version = version && s.crc = crcOf s &&
    s.anchors.toList.all Anchor.wellFormed

/-- `tlsTrustStore_IsLegacySnapshotValid`. -/
def isLegacySnapshotValid (s : LegacySnapshot) : Bool :=
  s.magic = magic && s.version = legacyVersion && s.crc = legacyCrcOf s

/-! ## The default anchor -/

/-- The lines of `tlsTrustStore_DefaultPem`. -/
def defaultPemLines : List String := [
  "-----BEGIN CERTIFICATE-----",
  "MIIFiTCCA3GgAwIBAgIQb77arXO9CEDii02+1PdbkTANBgkqhkiG9w0BAQsFADBO",
  "MQswCQYDVQQGEwJVUzEYMBYGA1UECgwPU1NMIENvcnBvcmF0aW9uMSUwIwYDVQQD",
  "DBxTU0wuY29tIFRMUyBSU0EgUm9vdCBDQSAyMDIyMB4XDTIyMDgyNTE2MzQyMloX",
  "DTQ2MDgxOTE2MzQyMVowTjELMAkGA1UEBhMCVVMxGDAWBgNVBAoMD1NTTCBDb3Jw",
  "b3JhdGlvbjElMCMGA1UEAwwcU1NMLmNvbSBUTFMgUlNBIFJvb3QgQ0EgMjAyMjCC",
  "AiIwDQYJKoZIhvcNAQEBBQADggIPADCCAgoCggIBANCkCXJPQIgSYT41I57u9nTP",
  "L3tYPc48DRAokC+X94xI2KDYJbFMsBFMF3NQ0CJKY7uB0ylu1bUJPiYYf7ISf5OY",
  "t6/wNr/y7hienDtSxUcZXXTzZGbVXcdotL8bHAajvI9AI7YexoS9UcQbOcGV0ins",
  "S657Lb85/bRi3pZ7QcacoOAGcvvwB5cJOYF0r/c0WRFXCsJbwST0MXMwgsadugL3",
  "PnxEX4MN8/HdIGkWCVDi1FW24IBydm5MR7d1VVm0U3TZlMZBrViKMWYPHqIbKUBO",
  "L9975hYsLfy/7PO0+r4Y9ptJ1O4Fbtk085zx7AGL0SDGD6C1vBdOSHtRwvzpXGk3",
  "R2azaPgVKPC506QVzFpPulJwoxJF3ca6TvvC0PeoUidtbnm1jPx7jMEWTO6Af77w",
  "dr5BUxIzrlo4QqvXDz5BjXYHMtWrifZOZ9mxQnUjbvPNQrL8VfVThxc7wDNY8VLS",
  "+YCk8OjwO4s4zKTGkH8PnP2L0aPP2oOnaclQNtVcBdIKQXTbYxE3waWglksejBYS",
  "d66UNHsef8JmAOSqg+qKkK3ONkRN0VHpvB/zagX9wHQfJRlAUW7qglFA35u5CCoG",
  "AtUjHBPW6dvbxrB6y3snm/vg1UYk7RBLY0ulBY+6uB0rpvqR4pJSvezrZ5dtmi2f",
  "gTIFZzL7SAg/2SW4BCUvAgMBAAGjYzBhMA8GA1UdEwEB/wQFMAMBAf8wHwYDVR0j",
  "BBgwFoAU+y437uOEeicuzRk1sTN8/9REQrkwHQYDVR0OBBYEFPsuN+7jhHonLs0Z",
  "NbEzfP/UREK5MA4GA1UdDwEB/wQEAwIBhjANBgkqhkiG9w0BAQsFAAOCAgEAjYlt",
  "hEUY8U+zoO9opMAdrDC8Z2awms22qyIZZtM7QbUQnRC6cm4pJCAcAZli05bg4vsM",
  "QtfhWsSWTVTNj8pDU/0quOr4ZcoBwq1gaAafORpR2eCNJvkLTqVTJXojpBzOCBvf",
  "R4iyrT7gJ4eLSYwfqUdYe5byiB0YrrPRpgqU+tvT5TgKa3kSM/tKWTcWQA673vWJ",
  "DPFs0/dRa1419dvAJuoSc06pkZCmF8NsLzjUo3KUQyxi4U5cMj29TH0ZR6LDSeeW",
  "P4+a0zvkEdiLA9z2tmBVGKaBUfPhqBVq6+AL8BQx1rmMRTqoENjwuSfr98t67wVy",
  "lrXEj5ZzxOhWc5y8aVFjvO9nHEMaX3cZHxj4HCUp+UmZKbaSPaKDN7EgkaibMOlq",
  "bLQjk2UEqxHzDh1TJElTHaE/nUiSEeJ9DU/1172iWD54nR4fK/4huxoTtrEoZP2w",
  "AgDHbICivRZQIA9ygV/MlP+7mea6kMvq+cYMwq7FGc4zoWtcu358NFcXrfA/rs3q",
  "r5nsLFR+jM4uElZI7xc7P0peYNLcdDa8pUNjyw9bowJWCZ4kLOGGgYz+qxcs+sji",
  "Mho6/4UIyYOf8kpIEFR3N+2ivEC+5BB09+Rbu7nzifmPQdjH5FCQNYA+HLhNkNPU",
  "98OwoX6EyneSMSy4kLGCenROmxMmtNVQZlR4rmA=",
  "-----END CERTIFICATE-----"]

/-- `tlsTrustStore_DefaultPem` with its NUL. -/
def defaultPem : Bytes := defaultPemLines.flatMap (fun line => ascii line ++ [0x0A]) ++ [0]

/-- `tlsTrustStore_DefaultSubject`. -/
def defaultSubject : Bytes := ascii "CN=SSL.com TLS RSA Root CA 2022,O=SSL Corporation,C=US"

def zeroAnchor : Anchor := ⟨0, 0, 0, .replicate _ 0, .replicate _ 0⟩

/-- `tlsTrustStore_SetDefaultAnchor`. -/
def defaultAnchor : Anchor where
  occupied := 1
  reserved := 0
  derLength := UInt16.ofNat defaultPem.length
  subject := charArray subjectSize defaultSubject
  der := byteArray maxDerSize defaultPem

/-! ## Save and commit -/

/-- The address of a bank. -/
def address : Bank → ℕ
  | .a => tlsTrustStoreBankA
  | .b => tlsTrustStoreBankB

/-- `trustStoreSnapshot`, and the bank `trustStoreActiveAddress` is the address of. -/
structure Ram where
  snapshot : Snapshot
  active : Bank

/-- `tlsTrustStore_ReadSnapshot`: a status, and what is then in the caller's snapshot. -/
def readSnapshot (address : ℕ) : FlashM (Status × Snapshot) := do
  let (status, bytes) ← read address layout.size
  let target := layout.decode bytes
  if status ≠ .ok then pure (.error, target)
  else pure (if isSnapshotValid target then .ok else .error, target)

/-- The loop of `tlsTrustStore_Save` over the sectors of a bank, `n` of them left. -/
def eraseSectors (address : ℕ) : ℕ → FlashM Status
  | 0 => pure .ok
  | n + 1 => do
    let erased ← eraseSector address
    if erased ≠ .ok then pure .error else eraseSectors (address + sectorSize) n

/-- `tlsTrustStore_Save` once the inactive bank is erased. -/
def programVerified (ram : Ram) : FlashM (Status × Ram) := do
  let target := ram.active.other
  let programmed ← program (address target) (layout.encode ram.snapshot)
  if programmed ≠ .ok then pure (.error, ram)
  else do
    let (status, snapshot) ← readSnapshot (address target)
    pure (status, ⟨snapshot, if status = .ok then target else ram.active⟩)

/-- `tlsTrustStore_Save`. -/
def save (ram : Ram) : FlashM (Status × Ram) := do
  let erased ← eraseSectors (address ram.active.other) tlsTrustStoreBankSectors
  if erased ≠ .ok then pure (.error, ram) else programVerified ram

/-- The header `tlsTrustStore_CommitCandidate` writes. -/
def stamp (s : Snapshot) : Snapshot :=
  let s := { s with
    magic := magic
    version := version
    reserved := 0
    generation := s.generation + 1 }
  { s with crc := crcOf s }

/-- `tlsTrustStore_CommitCandidate`, the candidate being the snapshot in RAM. -/
def commitCandidate (ram : Ram) : FlashM (TrustStatus × Ram) := do
  let (status, ram) ← save { ram with snapshot := stamp ram.snapshot }
  if status = .ok then pure (.ok, ram)
  else do
    let (_, snapshot) ← readSnapshot (address ram.active)
    pure (.storageError, { ram with snapshot := snapshot })

/-! ## Start-up -/

/-- A snapshot cleared with `memset`. -/
def zero : Snapshot := ⟨0, 0, 0, 0, .replicate _ zeroAnchor, 0⟩

/-- A version-1 image expanded in place, with the default anchor before its own. Its header is
overwritten when it is committed. -/
def expandLegacy (legacy : LegacySnapshot) : Snapshot where
  magic := legacy.magic
  version := legacy.version
  reserved := legacy.reserved
  generation := legacy.generation
  anchors := #v[defaultAnchor, legacy.anchors[0], legacy.anchors[1], legacy.anchors[2]]
  crc := 0

/-- The compiled default. -/
def default : Snapshot := { zero with anchors := zero.anchors.set 0 defaultAnchor (by decide) }

/-- A version-1 image, and whether it was read and is valid. -/
def readLegacy (address : ℕ) : FlashM (Bool × LegacySnapshot) := do
  let (status, bytes) ← read address legacyLayout.size
  let legacy := legacyLayout.decode bytes
  pure (status = .ok && isLegacySnapshotValid legacy, legacy)

/-- `TlsTrustStore_Init` without a version-2 image: what it commits. -/
def readDefault : FlashM Snapshot := do
  let (firstValid, first) ← readLegacy tlsTrustStoreLegacyBankA
  let (secondValid, second) ← readLegacy tlsTrustStoreLegacyBankB
  if firstValid || secondValid then
    if firstValid && (!secondValid || first.generation ≥ second.generation) then do
      let (_, bytes) ← read tlsTrustStoreLegacyBankA legacyLayout.size
      pure (expandLegacy (legacyLayout.decode bytes))
    else pure (expandLegacy second)
  else pure default

/-- `TlsTrustStore_Init` without a version-2 image. -/
def initLegacy : FlashM (Status × Ram) := do
  let snapshot ← readDefault
  let (status, ram) ← commitCandidate ⟨snapshot, .b⟩
  pure (if status = .ok then .ok else .error, ram)

/-- `TlsTrustStore_Init`. -/
def init : FlashM (Status × Ram) := do
  let (firstStatus, first) ← readSnapshot tlsTrustStoreBankA
  let (secondStatus, second) ← readSnapshot tlsTrustStoreBankB
  if firstStatus = .ok ∧ (secondStatus ≠ .ok ∨ first.generation ≥ second.generation) then do
    let (status, snapshot) ← readSnapshot tlsTrustStoreBankA
    pure (status, ⟨snapshot, .a⟩)
  else if secondStatus = .ok then pure (.ok, ⟨second, .b⟩)
  else initLegacy

/-! ## Operations -/

/-- `TlsTrustStore_Exists`. -/
def anchorExists (id : ℕ) (ram : Ram) : Bool :=
  match ram.snapshot.anchors[id]? with
  | some anchor => anchor.occupied ≠ 0
  | none => false

/-- `TlsTrustStore_InfoTypeDef` without its constant field. -/
structure Info where
  id : ℕ
  derLength : UInt16
  subject : Bytes

/-- `TlsTrustStore_List`. -/
def list (capacity : ℕ) (ram : Ram) : List Info :=
  (ram.snapshot.anchors.toList.zipIdx.filterMap fun (anchor, id) =>
    if anchor.occupied = 0 then none
    else some ⟨id, anchor.derLength, (cstr anchor.subject.toList).take (subjectSize - 1)⟩).take
      capacity

/-- `TlsTrustStore_Parse`: a status, and what `mbedtls_x509_crt_parse` has made of the stored
bytes. -/
def parse {Crt : Type} (crtParse : Bytes → Option Crt) (id : ℕ) (ram : Ram) :
    TrustStatus × Option Crt :=
  match ram.snapshot.anchors[id]? with
  | none => (.notFound, none)
  | some anchor =>
    if anchor.occupied ≠ 0 then
      match crtParse (anchor.der.toList.take anchor.derLength.toNat) with
      | some certificate => (.ok, some certificate)
      | none => (.invalidCertificate, none)
    else (.notFound, none)

/-- The results of the Mbed TLS calls of one validation: `mbedtls_x509_crt_parse_der_nocopy`,
`mbedtls_x509_crt_get_ca_istrue`, `mbedtls_x509_crt_check_key_usage`, and
`mbedtls_x509_dn_gets` with the text it stores. -/
structure MbedResults where
  parse : ℤ
  caIsTrue : ℤ
  keyUsage : ℤ
  subjectLength : ℤ
  subject : Bytes

/-- A parse failed for want of memory: `MBEDTLS_ERR_X509_ALLOC_FAILED`,
`MBEDTLS_ERR_PK_ALLOC_FAILED`, or the low part of `MBEDTLS_ERR_MPI_ALLOC_FAILED` or
`MBEDTLS_ERR_ASN1_ALLOC_FAILED`. -/
def isAllocFailure (result : ℤ) : Bool :=
  result = -0x2880 || result = -0x3F80 || (-result) % 0x80 = 0x10 || (-result) % 0x80 = 0x6A

/-- `tlsTrustStore_ValidateDer`: the anchor to store, or the status that refuses it. -/
def validateDer (der : Bytes) (mbed : MbedResults) : Except TrustStatus Anchor :=
  if der.length = 0 ∨ der.length > maxDerSize then .error .invalidArgument
  else if mbed.parse ≠ 0 then
    .error (if isAllocFailure mbed.parse then .noMemory else .invalidCertificate)
  else if mbed.caIsTrue ≠ 1 ∨ mbed.keyUsage ≠ 0 then .error .notCa
  else if mbed.subjectLength ≤ 0 ∨ mbed.subjectLength ≥ subjectSize then
    .error .invalidCertificate
  else .ok
    { occupied := 1
      reserved := 0
      derLength := UInt16.ofNat der.length
      subject := byteArray subjectSize (mbed.subject.take mbed.subjectLength.toNat ++ [0])
      der := byteArray maxDerSize der }

/-- Put `anchor` into slot `id` of the snapshot in RAM. -/
def Ram.setAnchor (ram : Ram) (id : ℕ) (anchor : Anchor) : Ram :=
  { ram with
    snapshot := { ram.snapshot with anchors := ram.snapshot.anchors.setIfInBounds id anchor } }

/-- `TlsTrustStore_Add`: a status, and the slot that was assigned. -/
def add (der : Bytes) (mbed : MbedResults) (ram : Ram) :
    FlashM ((TrustStatus × Option ℕ) × Ram) :=
  match ram.snapshot.anchors.toList.findIdx? (·.occupied = 0) with
  | none => pure ((.full, none), ram)
  | some index =>
    match validateDer der mbed with
    | .error status => pure ((status, none), ram)
    | .ok anchor => do
      let (status, ram) ← commitCandidate (ram.setAnchor index anchor)
      pure ((status, if status = .ok then some index else none), ram)

/-- `TlsTrustStore_Replace`. -/
def replace (id : ℕ) (der : Bytes) (mbed : MbedResults) (ram : Ram) : FlashM (TrustStatus × Ram) :=
  if !anchorExists id ram then pure (.notFound, ram)
  else
    match validateDer der mbed with
    | .error status => pure (status, ram)
    | .ok anchor => commitCandidate (ram.setAnchor id anchor)

/-- `TlsTrustStore_Delete`. -/
def delete (id : ℕ) (ram : Ram) : FlashM (TrustStatus × Ram) :=
  if !anchorExists id ram then pure (.notFound, ram)
  else commitCandidate (ram.setAnchor id zeroAnchor)

/-- `TlsTrustStore_Reset`. -/
def reset (ram : Ram) : FlashM (TrustStatus × Ram) :=
  commitCandidate { ram with snapshot := { zero with generation := ram.snapshot.generation } }

/-! ## The two-bank scheme -/

/-- The mutations of the store, with what Mbed TLS says. -/
inductive Op where
  | add (der : Bytes) (mbed : MbedResults)
  | replace (id : ℕ) (der : Bytes) (mbed : MbedResults)
  | delete (id : ℕ)
  | reset

/-- A mutation and its status. -/
def apply (op : Op) (ram : Ram) : FlashM (TrustStatus × Ram) :=
  match op with
  | .add der mbed => do
    let ((status, _), ram) ← add der mbed ram
    pure (status, ram)
  | .replace id der mbed => replace id der mbed ram
  | .delete id => delete id ram
  | .reset => reset ram

/-- A mutation, and whether it reports success. -/
def exec (op : Op) (ram : Ram) : FlashM (Bool × Ram) := do
  let (status, ram) ← apply op ram
  pure (status = .ok, ram)

/-- The snapshot in a bank. -/
def load (m : Cells) (x : Bank) : Snapshot := layout.decode (m.slice (address x) layout.size)

def bankSize : ℕ := tlsTrustStoreBankSectors * sectorSize

/-- The cells of a bank. -/
def region (x : Bank) : Set ℕ := Set.Ico (address x) (address x + bankSize)

/-- The trust store as a two-bank store. A fresh one has never written to its second bank, which
is also where version 1 kept both of its banks. -/
def store : Store where
  Ram := Ram
  Op := Op
  Image := Snapshot
  init := init
  exec := exec
  snapshot := Ram.snapshot
  active := Ram.active
  region := region
  load := load
  valid := isSnapshotValid
  generation s := s.generation.toNat
  Fresh m := isSnapshotValid (load m .a) = false ∧ ∀ i ∈ region .b, m i = 0xFF
  factory := stamp default
  lazy := false

end HealthCheck.TlsTrustStore
