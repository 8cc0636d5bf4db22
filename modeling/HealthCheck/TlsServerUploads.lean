import HealthCheck.TlsServerPairs

/-!
# Uploads that do not parse

`tlsServerCredentials_TryActivate` parses both halves once it has both. Until then an upload is
staged as it is.

* `checked_iff` — so a half that does not parse is refused exactly when the other half is there,
  staged or in use.
-/

namespace HealthCheck.TlsServerCredentials

open Nor hiding read driven_read read_ok read_cases
open CString TwoBank

/-! ## Uploads -/

/-- The uploaded bytes. -/
def Op.der : Op → Bytes
  | .stageCertificate der _ => der
  | .stagePrivateKey der _ => der

/-- They parse as what they are uploaded for. -/
def Op.parses (mbed : Mbed) : Op → Prop
  | .stageCertificate der _ => mbed.crtParses der
  | .stagePrivateKey der _ => mbed.keyParses der

/-- The staged bytes of the uploaded half. -/
def Op.pending (ram : Ram) : Op → Option Bytes
  | .stageCertificate .. => ram.pendingCertificate
  | .stagePrivateKey .. => ram.pendingKey

/-- The other half, staged or in use. -/
def Op.counterpart (ram : Ram) : Op → Option Bytes
  | .stageCertificate .. => ram.keyData
  | .stagePrivateKey .. => ram.certificateData

/-- Mbed TLS answers for what the upload makes it parse. -/
def Op.Answered (mbed : Mbed) (ram : Ram) (op : Op) : Prop :=
  ∀ certificate key, (op.stage ram).certificateData = some certificate →
    (op.stage ram).keyData = some key → mbed.Answers certificate key op.results

/-- An upload is pending only if it parses, and one that does not parse is refused and not left
staged, whatever flash does. -/
def Checked (mbed : Mbed) (op : Op) (ram : Ram) : Prop :=
  ∀ c status ram' c', apply op ram c = (some (status, ram'), c') →
    (status = .pending → op.parses mbed) ∧
      (¬op.parses mbed → status = .invalidData ∧ op.pending ram' ≠ some op.der)

/-- What is staged has passed its length check. -/
def Staged (ram : Ram) : Prop := ∀ op : Op, op.pending ram = some op.der → op.accepted

/-! ## One upload -/

theorem Staged.clearStaging (ram : Ram) : Staged ram.clearStaging := by
  intro op h
  cases op <;> cases h

theorem Staged.stage {ram : Ram} (h : Staged ram) {op : Op} (hop : op.accepted) :
    Staged (op.stage ram) := by
  intro other hother
  cases op with
  | stageCertificate der mbed =>
    cases other with
    | stageCertificate der' mbed' =>
      obtain rfl : der = der' := Option.some.inj hother
      exact hop
    | stagePrivateKey der' mbed' => exact h (.stagePrivateKey der' mbed') hother
  | stagePrivateKey der mbed =>
    cases other with
    | stageCertificate der' mbed' => exact h (.stageCertificate der' mbed') hother
    | stagePrivateKey der' mbed' =>
      obtain rfl : der = der' := Option.some.inj hother
      exact hop

/-- An upload leaves its half staged, or nothing. -/
theorem Staged.apply {ram ram' : Ram} (h : Staged ram) {op : Op} {c c' : Chip}
    {status : CredentialsStatus} (hcall : apply op ram c = (some (status, ram'), c')) :
    Staged ram' := by
  by_cases hop : op.accepted
  swap
  · rw [apply_refused ram hop] at hcall
    cases hcall
    exact h
  rw [apply_accepted ram hop] at hcall
  rcases tryActivate_cases op.results (op.stage ram) with
    ⟨status', ram₁, hrun, -, hsame⟩ | ⟨certificate, key, -, -, -, -, -, hrun⟩
  · rw [hrun] at hcall
    cases hcall
    rcases hsame with rfl | rfl
    · exact h.stage hop
    · exact .clearStaging _
  · rw [hrun] at hcall
    obtain ⟨r, c₁, -, hret⟩ := bind_eq_some.1 hcall
    cases hret
    exact .clearStaging _

/-- The halves that are parsed are the upload and its counterpart. -/
theorem halves_iff (op : Op) (ram : Ram) :
    (∃ certificate key, (op.stage ram).certificateData = some certificate ∧
      (op.stage ram).keyData = some key) ↔ (op.counterpart ram).isSome = true := by
  rw [Option.isSome_iff_exists]
  cases op with
  | stageCertificate der mbed =>
    exact ⟨fun ⟨_, key, _, hkey⟩ => ⟨key, hkey⟩, fun ⟨key, hkey⟩ => ⟨der, key, rfl, hkey⟩⟩
  | stagePrivateKey der mbed =>
    exact ⟨fun ⟨certificate, _, hcertificate, _⟩ => ⟨certificate, hcertificate⟩,
      fun ⟨certificate, hcertificate⟩ => ⟨certificate, der, hcertificate, rfl⟩⟩

/-- An upload without its counterpart is pending, whatever it is. -/
theorem apply_alone {op : Op} {ram : Ram} (hop : op.accepted)
    (h : (op.counterpart ram).isSome = false) :
    HealthCheck.TlsServerCredentials.apply op ram = pure (.pending, op.stage ram) := by
  rw [Option.isSome_eq_false_iff, Option.isNone_iff_eq_none] at h
  rw [apply_accepted ram hop]
  unfold tryActivate
  cases op with
  | stageCertificate der mbed =>
    have hkey : (Op.stage ram (.stageCertificate der mbed)).keyData = none := h
    rw [hkey]
    split
    · rename_i hnone
      cases hnone
    · rfl
  | stagePrivateKey der mbed =>
    have hcertificate : (Op.stage ram (.stagePrivateKey der mbed)).certificateData = none := h
    rw [hcertificate]

/-- With its counterpart, an upload that does not parse is refused. -/
theorem apply_unparsed {mbed : Mbed} {op : Op} {ram : Ram} (hop : op.accepted)
    (hanswered : op.Answered mbed ram) (h : (op.counterpart ram).isSome = true)
    (hparses : ¬op.parses mbed) :
    HealthCheck.TlsServerCredentials.apply op ram =
      pure (.invalidData, (op.stage ram).clearStaging) := by
  obtain ⟨certificate, key, hcertificate, hkey⟩ := (halves_iff op ram).2 h
  have hanswers := hanswered certificate key hcertificate hkey
  have hparse : op.results.parse ≠ 0 := by
    intro hzero
    unfold MbedResults.parse at hzero
    split_ifs at hzero with hseed hcrt
    · exact hseed hzero
    · exact hcrt hzero
    · cases op with
      | stageCertificate der mbed =>
        obtain rfl : der = certificate := Option.some.inj hcertificate
        exact hparses (hanswers.crtParses (not_not.1 hcrt))
      | stagePrivateKey der mbed =>
        obtain rfl : der = key := Option.some.inj hkey
        exact hparses (hanswers.keyParses hzero)
  rw [apply_accepted ram hop, tryActivate, hcertificate, hkey]
  exact if_pos hparse

/-- One upload is checked unless it is the first half and does not parse. -/
theorem checked_upload {mbed : Mbed} {op : Op} {ram : Ram} (hstaged : Staged ram)
    (hanswered : op.Answered mbed ram) : Checked mbed op ram ↔
      op.parses mbed ∨ ¬op.accepted ∨ (op.counterpart ram).isSome = true := by
  constructor
  · intro hchecked
    by_contra hnot
    obtain ⟨hparses, hnot⟩ := not_or.1 hnot
    obtain ⟨hop, halone⟩ := not_or.1 hnot
    have hpending := apply_alone (not_not.1 hop) (Bool.eq_false_iff.2 halone)
    have hcall := congrFun hpending ⟨fun _ => 0xFF, {}, []⟩
    exact hparses ((hchecked _ _ _ _ hcall).1 rfl)
  · rintro h c status ram' c' hcall
    by_cases hparses : op.parses mbed
    · exact ⟨fun _ => hparses, fun hnot => absurd hparses hnot⟩
    by_cases hop : op.accepted
    · rw [apply_unparsed hop hanswered (h.resolve_left hparses |>.resolve_left fun h => h hop)
        hparses] at hcall
      cases hcall
      refine ⟨nofun, fun _ => ⟨rfl, ?_⟩⟩
      cases op <;> exact nofun
    · rw [apply_refused ram hop] at hcall
      cases hcall
      exact ⟨nofun, fun _ => ⟨rfl, fun hpending => hop (hstaged op hpending)⟩⟩

/-! ## Runs -/

theorem staged_step {s : Sys store} (h : ∀ ram, s.ram = some ram → Staged ram) (e : Event store) :
    ∀ ram, (s.step e).ram = some ram → Staged ram := by
  intro ram hram
  cases e with
  | boot fates =>
    rcases hr : init ⟨s.cells, fates, []⟩ with ⟨_ | ⟨_ | _, ram₁⟩, c⟩
    all_goals
      have hr' : store.init ⟨s.cells, fates, []⟩ = _ := hr
      simp only [Sys.step, hr'] at hram
    case some.ok =>
      cases hram
      obtain ⟨found, c₁, -, hresume⟩ := bind_eq_some.1 hr
      cases found <;>
        · cases hresume
          intro op hop
          cases op <;> cases hop
    all_goals cases hram
  | call op fates =>
    cases hold : s.ram with
    | none =>
      have hstep : s.step (.call op fates) = s := by simp only [Sys.step, hold]
      rw [hstep] at hram
      exact h ram hram
    | some ram₀ =>
      rcases hr : exec op ram₀ ⟨s.cells, fates, []⟩ with ⟨_ | ⟨ok, ram₁⟩, c⟩
      all_goals have hr' : store.exec op ram₀ ⟨s.cells, fates, []⟩ = _ := hr
      · simp only [Sys.step, hold, hr'] at hram
        cases hram
      · have hram₁ : ram₁ = ram := by
          cases ok <;>
            · simp only [Sys.step, hold, hr'] at hram
              exact Option.some.inj hram
        obtain ⟨status, hcall⟩ := exec_eq_some hr
        exact hram₁ ▸ (h ram₀ hold).apply hcall

theorem staged_run (events : List (Event store)) {ram : Ram}
    (hram : ((Sys.start store).run events).ram = some ram) : Staged ram := by
  have hrun : ∀ (events : List (Event store)) (s : Sys store),
      (∀ ram, s.ram = some ram → Staged ram) →
        ∀ ram, (s.run events).ram = some ram → Staged ram := by
    intro events
    induction events with
    | nil => exact fun s h => h
    | cons e events ih => exact fun s h => ih (s.step e) (staged_step h e)
  exact hrun events (Sys.start store) nofun ram hram

/-- **When uploads are checked**: behind every run of boots and uploads, whatever flash does, an
upload is pending only if it parses, and refused and not left staged if it does not, exactly when
it parses, has no admissible length, or meets its counterpart. -/
theorem checked_iff {mbed : Mbed} {events : List (Event store)} {ram : Ram}
    (hram : ((Sys.start store).run events).ram = some ram) {op : Op}
    (hanswered : op.Answered mbed ram) : Checked mbed op ram ↔
      op.parses mbed ∨ ¬op.accepted ∨ (op.counterpart ram).isSome = true :=
  checked_upload (staged_run events hram) hanswered

/-- Mbed TLS accepting everything. -/
def credulous : Mbed := ⟨fun _ => True, fun _ => True, fun _ _ => True⟩

/-- Mbed TLS accepting nothing. -/
def strict : Mbed := ⟨fun _ => False, fun _ => False, fun _ _ => False⟩

theorem run_boot : ((Sys.start store).run [.boot {}]).ram =
    some ⟨⟨zero, FlashLayout.tlsServerCredentialsSectorB⟩, false, none, none⟩ := by
  have hboot : (Sys.start store).step (.boot {}) = _ := step_booted init_erased
  exact congrArg Sys.ram hboot

/-- The first half is checked if it parses. -/
theorem checked_iff_first : ∃ ram, ((Sys.start store).run [.boot {}]).ram = some ram ∧
    (Checked credulous (.stageCertificate [0x30] ⟨0, 0, 0, 0⟩) ram ↔
      Op.parses credulous (.stageCertificate [0x30] ⟨0, 0, 0, 0⟩) ∨
        ¬Op.accepted (.stageCertificate [0x30] ⟨0, 0, 0, 0⟩) ∨
          (Op.counterpart ram (.stageCertificate [0x30] ⟨0, 0, 0, 0⟩)).isSome = true) :=
  ⟨_, run_boot, checked_iff run_boot fun _ _ _ _ =>
    ⟨fun _ => trivial, fun _ => trivial, fun _ => trivial⟩⟩

/-- A byte that is no certificate is left pending on a new device. -/
theorem unparsed_left_pending : ∃ ram, ((Sys.start store).run [.boot {}]).ram = some ram ∧
    ¬Checked strict (.stageCertificate [0x00] ⟨0, -1, 0, 0⟩) ram := by
  refine ⟨_, run_boot, fun hchecked => ?_⟩
  have haccepted : Op.accepted (.stageCertificate [0x00] ⟨0, -1, 0, 0⟩) :=
    not_or.2 ⟨by decide, by decide⟩
  have halone := @apply_alone _ ⟨⟨zero, FlashLayout.tlsServerCredentialsSectorB⟩, false, none, none⟩
    haccepted rfl
  exact (hchecked _ _ _ _ (congrFun halone ⟨fun _ => 0xFF, {}, []⟩)).1 rfl

end HealthCheck.TlsServerCredentials
