import HealthCheck.TlsServerCredentials

/-!
# The served credentials are a pair

A certificate and a key are uploaded one after the other, in either order, and the half that is
missing is taken from the snapshot in use. `always_paired` says that over all runs of uploads and
reboots, whatever flash and random generator do, the server presents either the compiled pair or
one snapshot whose halves were checked against each other, and what an upload does to it.

What carries the induction is that every valid snapshot in the two banks is such a pair
(`Stored`), whether or not it is in use.
-/

namespace HealthCheck.TlsServerCredentials

open Nor hiding read driven_read read_ok read_cases
open CString TwoBank
open W25q64 (cutErase zeroed)

/-- What Mbed TLS accepts. -/
structure Mbed where
  crtParses : Bytes → Prop
  keyParses : Bytes → Prop
  pairs : Bytes → Bytes → Prop

/-- The halves parse and belong to each other. -/
structure Mbed.Matches (mbed : Mbed) (certificate key : Bytes) : Prop where
  crtParses : mbed.crtParses certificate
  keyParses : mbed.keyParses key
  pairs : mbed.pairs certificate key

/-- Calls that succeed have accepted what they were given. They may fail for other reasons, such
as the random generator. -/
structure Mbed.Answers (mbed : Mbed) (certificate key : Bytes) (results : MbedResults) : Prop where
  crtParses : results.crtParse = 0 → mbed.crtParses certificate
  keyParses : results.pkParseKey = 0 → mbed.keyParses key
  pairs : results.pkCheckPair = 0 → mbed.pairs certificate key

/-- The pair the server presents, `compiled` being the compiled one. -/
def served (compiled : Bytes × Bytes) (ram : Ram) : Bytes × Bytes :=
  ((getCertificate ram).getD compiled.1, (getPrivateKey ram).getD compiled.2)

/-! ## Uploads -/

/-- An upload and its status. -/
def apply (op : Op) (ram : Ram) : FlashM (CredentialsStatus × Ram) :=
  match op with
  | .stageCertificate der mbed => stageCertificate der mbed ram
  | .stagePrivateKey der mbed => stagePrivateKey der mbed ram

/-- The length check of an upload. -/
def Op.accepted : Op → Prop
  | .stageCertificate der _ => ¬(der.length = 0 ∨ der.length > maxCertificateSize)
  | .stagePrivateKey der _ => ¬(der.length = 0 ∨ der.length > maxKeySize)

/-- The variables with the uploaded half staged. -/
def Op.stage (ram : Ram) : Op → Ram
  | .stageCertificate der _ => { ram with pendingCertificate := some der }
  | .stagePrivateKey der _ => { ram with pendingKey := some der }

def Op.results : Op → MbedResults
  | .stageCertificate _ mbed => mbed
  | .stagePrivateKey _ mbed => mbed

theorem apply_accepted {op : Op} (ram : Ram) (h : op.accepted) :
    apply op ram = tryActivate op.results (op.stage ram) := by
  cases op with
  | stageCertificate der mbed => exact if_neg h
  | stagePrivateKey der mbed => exact if_neg h

theorem apply_refused {op : Op} (ram : Ram) (h : ¬op.accepted) :
    apply op ram = pure (.invalidData, ram) := by
  cases op with
  | stageCertificate der mbed => exact if_pos (not_not.1 h)
  | stagePrivateKey der mbed => exact if_pos (not_not.1 h)

/-- The end of an activation that saves. -/
def finish (ram : Ram) (r : Status × Snapshot × SectorRam Snapshot) : CredentialsStatus × Ram :=
  (if r.1 = .ok then .activated else .storageError,
    Ram.clearStaging { ram with
      store := r.2.2, hasValidSnapshot := ram.hasValidSnapshot || r.1 = .ok })

/-- An activation saves a pair that was checked, or leaves the store alone. -/
theorem tryActivate_cases (results : MbedResults) (ram : Ram) :
    (∃ status ram', tryActivate results ram = pure (status, ram') ∧ status ≠ .activated ∧
      (ram' = ram ∨ ram' = ram.clearStaging)) ∨
    ∃ certificate key, ram.certificateData = some certificate ∧ ram.keyData = some key ∧
      results.crtParse = 0 ∧ results.pkParseKey = 0 ∧ results.pkCheckPair = 0 ∧
      tryActivate results ram =
        sectorStore.save (ram.store.snapshot.withPair certificate key) ram.store >>= fun r =>
          pure (finish ram r) := by
  unfold tryActivate
  cases hcertificate : ram.certificateData with
  | none => exact .inl ⟨.pending, ram, rfl, by decide, .inl rfl⟩
  | some certificate =>
    cases hkey : ram.keyData with
    | none => exact .inl ⟨.pending, ram, rfl, by decide, .inl rfl⟩
    | some key =>
      dsimp only
      by_cases hparse : results.parse ≠ 0
      · rw [if_pos hparse]
        exact .inl ⟨.invalidData, _, rfl, by decide, .inr rfl⟩
      rw [if_neg hparse]
      by_cases hpair : results.pkCheckPair ≠ 0
      · rw [if_pos hpair]
        split
        · exact .inl ⟨.pending, ram, rfl, by decide, .inl rfl⟩
        · exact .inl ⟨.mismatch, _, rfl, by decide, .inr rfl⟩
      rw [if_neg hpair]
      refine .inr ⟨certificate, key, rfl, rfl, ?_⟩
      unfold MbedResults.parse at hparse
      split_ifs at hparse with hseed hcrt
      · exact absurd hseed hparse
      · exact absurd hcrt hparse
      · refine ⟨not_not.1 hcrt, not_not.1 hparse, not_not.1 hpair, ?_⟩
        simp only [save, bind_assoc, pure_bind]
        rfl

/-! ## Data in a snapshot -/

theorem take_byteArray {n : ℕ} {data : Bytes} (h : data.length ≤ n) (hn : n < 2 ^ 16) :
    (byteArray n data).toList.take (UInt16.ofNat data.length).toNat = data := by
  rw [UInt16.toNat_ofNat', Nat.mod_eq_of_lt (h.trans_lt hn), toList_byteArray h, List.take_left]

/-- A snapshot with a pair gives back its halves. -/
theorem withPair_data {certificate key : Bytes}
    (hcertificate : certificate.length ≤ maxCertificateSize)
    (hkey : key.length ≤ maxKeySize) (s : Snapshot) :
    (stamp (s.withPair certificate key)).certificateData = certificate ∧
      (stamp (s.withPair certificate key)).keyData = key :=
  ⟨take_byteArray hcertificate (by decide), take_byteArray hkey (by decide)⟩

theorem length_data {s : Snapshot} (h : isValid s = true) :
    s.certificateData.length ≤ maxCertificateSize ∧ s.keyData.length ≤ maxKeySize := by
  simp only [isValid, Bool.and_eq_true, decide_eq_true_eq] at h
  refine ⟨?_, ?_⟩
  · exact (List.length_take_le _ _).trans h.1.1.2
  · exact (List.length_take_le _ _).trans h.1.2

/-! ## The invariant -/

/-- Every valid snapshot in flash is a pair. -/
def Stored (mbed : Mbed) (m : Cells) : Prop :=
  ∀ x, isValid (sectorStore.load m x) = true →
    mbed.Matches (sectorStore.load m x).certificateData (sectorStore.load m x).keyData

/-- What holds of the variables of a running device: the snapshot in use is a valid one in the
active bank, and what is staged fits. -/
structure Held (m : Cells) (ram : Ram) : Prop where
  snapshot : ram.hasValidSnapshot = true → isValid ram.store.snapshot = true ∧
    sectorStore.load m (sectorStore.activeBank ram.store) = ram.store.snapshot
  certificate : ∀ c, ram.pendingCertificate = some c → c.length ≤ maxCertificateSize
  key : ∀ k, ram.pendingKey = some k → k.length ≤ maxKeySize

/-- The invariant of a run. -/
structure Sound (mbed : Mbed) (s : Sys store) : Prop where
  stored : Stored mbed s.cells
  held : ∀ ram, s.ram = some ram → Held s.cells ram

/-- What happens is within the assumptions: Mbed TLS answers for what it is given, and what a
write that fails or is cut off leaves in a bank is the old snapshot, the complete new one or no
valid one. -/
def Trusted (mbed : Mbed) (s : Sys store) : Event store → Prop
  | .boot _ => True
  | .call op fates => ∀ ram, s.ram = some ram →
    (∀ certificate key, (op.stage ram).certificateData = some certificate →
      (op.stage ram).keyData = some key → mbed.Answers certificate key op.results) ∧
    Torn (S := store) s.cells (exec op ram ⟨s.cells, fates, []⟩).2.cells
      (exec op ram ⟨s.cells, {}, []⟩).2.cells

theorem Held.stage {m : Cells} {ram : Ram} (h : Held m ram) {op : Op} (hop : op.accepted) :
    Held m (op.stage ram) := by
  cases op with
  | stageCertificate der mbed =>
    refine ⟨h.snapshot, fun c hc => ?_, h.key⟩
    cases hc
    exact Nat.le_of_not_lt fun hlt => hop (.inr hlt)
  | stagePrivateKey der mbed =>
    refine ⟨h.snapshot, h.certificate, fun k hk => ?_⟩
    cases hk
    exact Nat.le_of_not_lt fun hlt => hop (.inr hlt)

theorem Held.clearStaging {m : Cells} {ram : Ram} (h : Held m ram) : Held m ram.clearStaging :=
  ⟨h.snapshot, nofun, nofun⟩

/-- The halves of an activation fit their arrays. -/
theorem Held.fits {m : Cells} {ram : Ram} (h : Held m ram) {certificate key : Bytes}
    (hcertificate : ram.certificateData = some certificate) (hkey : ram.keyData = some key) :
    certificate.length ≤ maxCertificateSize ∧ key.length ≤ maxKeySize := by
  refine ⟨?_, ?_⟩
  · unfold Ram.certificateData at hcertificate
    cases hp : ram.pendingCertificate with
    | some c =>
      rw [hp] at hcertificate
      cases hcertificate
      exact h.certificate _ hp
    | none =>
      rw [hp] at hcertificate
      by_cases hv : ram.hasValidSnapshot = true
      · rw [if_pos hv] at hcertificate
        cases hcertificate
        exact (length_data (h.snapshot hv).1).1
      · rw [if_neg hv] at hcertificate
        cases hcertificate
  · unfold Ram.keyData at hkey
    cases hp : ram.pendingKey with
    | some k =>
      rw [hp] at hkey
      cases hkey
      exact h.key _ hp
    | none =>
      rw [hp] at hkey
      by_cases hv : ram.hasValidSnapshot = true
      · rw [if_pos hv] at hkey
        cases hkey
        exact (length_data (h.snapshot hv).1).2
      · rw [if_neg hv] at hkey
        cases hkey

/-! ## One upload -/

/-- What a status says about the served pair. -/
structure Reported (op : Op) (ram ram' : Ram) (status : CredentialsStatus) : Prop where
  kept : status ≠ .activated →
    getCertificate ram' = getCertificate ram ∧ getPrivateKey ram' = getPrivateKey ram
  certificate : ∀ der results, op = .stageCertificate der results → status = .activated →
    getCertificate ram' = some der ∧ ∃ key, getPrivateKey ram' = some key ∧
      (ram.pendingKey <|> getPrivateKey ram) = some key
  key : ∀ der results, op = .stagePrivateKey der results → status = .activated →
    getPrivateKey ram' = some der ∧ ∃ certificate, getCertificate ram' = some certificate ∧
      (ram.pendingCertificate <|> getCertificate ram) = some certificate

theorem reported_kept {op : Op} {ram ram' : Ram} {status : CredentialsStatus}
    (hstatus : status ≠ .activated) (hstore : ram'.store = ram.store)
    (hvalid : ram'.hasValidSnapshot = ram.hasValidSnapshot) : Reported op ram ram' status where
  kept _ := by simp only [getCertificate, getPrivateKey, hstore, hvalid, and_self]
  certificate _ _ _ h := absurd h hstatus
  key _ _ _ h := absurd h hstatus

theorem activeBank_target (ram : SectorRam Snapshot) (image : Snapshot) :
    sectorStore.activeBank ⟨image, sectorStore.target ram⟩ =
      (sectorStore.activeBank ram).other := by
  rw [SectorStore.target_eq_address, SectorStore.activeBank_address sound]

/-- **What an upload returns** tells what has become of the served pair. -/
theorem apply_returns {op : Op} {ram ram' : Ram} {c c' : Chip} {status : CredentialsStatus}
    (hheld : Held c.cells ram) (h : apply op ram c = (some (status, ram'), c')) :
    Held c'.cells ram' ∧ Reported op ram ram' status := by
  by_cases hop : op.accepted
  swap
  · rw [apply_refused ram hop] at h
    cases h
    exact ⟨hheld, reported_kept (by decide) rfl rfl⟩
  have hstaged := hheld.stage hop
  have hstore : (op.stage ram).store = ram.store := by cases op <;> rfl
  have hvalid : (op.stage ram).hasValidSnapshot = ram.hasValidSnapshot := by cases op <;> rfl
  rw [apply_accepted ram hop] at h
  rcases tryActivate_cases op.results (op.stage ram) with
    ⟨status', ram₁, hrun, hne, hsame⟩ | ⟨certificate, key, hcertificate, hkey, -, -, -, hrun⟩
  · rw [hrun] at h
    cases h
    rcases hsame with rfl | rfl
    · exact ⟨hstaged, reported_kept hne hstore hvalid⟩
    · exact ⟨hstaged.clearStaging, reported_kept hne hstore hvalid⟩
  rw [hrun] at h
  obtain ⟨⟨saved, candidate, vars⟩, c₁, hsave, hret⟩ := bind_eq_some.1 h
  simp only [pure_apply, Prod.mk.injEq, Option.some.injEq] at hret
  obtain ⟨hret, rfl⟩ := hret
  obtain ⟨rfl, rfl⟩ := Prod.mk.inj hret
  rcases SectorStore.save_eq_some sound hsave with ⟨rfl, -, rfl, hisValid, hload⟩ | ⟨hne, rfl⟩
  · -- The pair is stored and in use.
    obtain ⟨hfitsCertificate, hfitsKey⟩ := hstaged.fits hcertificate hkey
    obtain ⟨hcertificateData, hkeyData⟩ :=
      withPair_data hfitsCertificate hfitsKey (op.stage ram).store.snapshot
    refine ⟨⟨fun _ => ⟨hisValid, ?_⟩, nofun, nofun⟩, fun hne => absurd rfl hne, ?_, ?_⟩
    · exact (congrArg (sectorStore.load c₁.cells) (activeBank_target _ _)).trans hload
    · intro der results hkind _
      subst hkind
      obtain rfl : der = certificate := Option.some.inj hcertificate
      refine ⟨?_, key, ?_, hkey⟩
      · rw [getCertificate, if_pos (by simp [Ram.clearStaging])]
        exact congrArg some hcertificateData
      · rw [getPrivateKey, if_pos (by simp [Ram.clearStaging])]
        exact congrArg some hkeyData
    · intro der results hkind _
      subst hkind
      obtain rfl : der = key := Option.some.inj hkey
      refine ⟨?_, certificate, ?_, hcertificate⟩
      · rw [getPrivateKey, if_pos (by simp [Ram.clearStaging])]
        exact congrArg some hkeyData
      · rw [getCertificate, if_pos (by simp [Ram.clearStaging])]
        exact congrArg some hcertificateData
  · have hflag : ((op.stage ram).hasValidSnapshot || decide (saved = .ok)) =
        (op.stage ram).hasValidSnapshot := by
      rw [decide_eq_false hne, Bool.or_false]
    refine ⟨⟨fun hv => ?_, nofun, nofun⟩, reported_kept ?_ hstore (hflag.trans hvalid)⟩
    · obtain ⟨hisValid, hload⟩ := hstaged.snapshot (hflag.symm.trans hv)
      refine ⟨hisValid, ?_⟩
      -- The save has worked in the other bank.
      have hsteps := (SectorStore.driven_save sound
        ((op.stage ram).store.snapshot.withPair certificate key) (op.stage ram).store).steps c
      rw [hsave] at hsteps
      exact (load_of_steps (S := store) lawful hsteps).trans hload
    · show (if saved = .ok then CredentialsStatus.activated else .storageError) ≠ _
      rw [if_neg hne]
      decide

theorem exec_eq (op : Op) (ram : Ram) :
    exec op ram = apply op ram >>= fun r => pure (decide (r.1 = .activated), r.2) := by
  cases op <;> rfl

theorem exec_eq_some {op : Op} {ram ram' : Ram} {ok : Bool} {c c' : Chip}
    (h : exec op ram c = (some (ok, ram'), c')) :
    ∃ status, apply op ram c = (some (status, ram'), c') := by
  rw [exec_eq] at h
  obtain ⟨⟨status, ram₁⟩, c₁, happly, hret⟩ := bind_eq_some.1 h
  cases hret
  exact ⟨status, happly⟩

theorem exec_cells (op : Op) (ram : Ram) (c : Chip) :
    (exec op ram c).2.cells = (apply op ram c).2.cells := by
  rw [exec_eq]
  rcases h : apply op ram c with ⟨_ | r, c'⟩
  · rw [bind_of_none h]
  · rw [bind_of_some h]
    rfl

/-- Nothing an upload stores is other than a pair that was checked. -/
theorem stored_complete {mbed : Mbed} {m : Cells} {ram : Ram} (hstored : Stored mbed m)
    (hheld : Held m ram) {op : Op}
    (hanswers : ∀ certificate key, (op.stage ram).certificateData = some certificate →
      (op.stage ram).keyData = some key → mbed.Answers certificate key op.results) :
    Stored mbed (exec op ram ⟨m, {}, []⟩).2.cells := by
  rw [exec_cells]
  by_cases hop : op.accepted
  swap
  · rw [apply_refused ram hop]
    exact hstored
  rw [apply_accepted ram hop]
  rcases tryActivate_cases op.results (op.stage ram) with
    ⟨status, ram₁, hrun, -, -⟩ | ⟨certificate, key, hcertificate, hkey, hcrt, hpk, hpair, hrun⟩
  · rw [hrun]
    exact hstored
  obtain ⟨hfitsCertificate, hfitsKey⟩ := (hheld.stage hop).fits hcertificate hkey
  obtain ⟨hcertificateData, hkeyData⟩ :=
    withPair_data hfitsCertificate hfitsKey (op.stage ram).store.snapshot
  have hanswer := hanswers certificate key hcertificate hkey
  obtain ⟨s, vars, log', hsave, -⟩ := SectorStore.save_calm sound
    ((op.stage ram).store.snapshot.withPair certificate key) (op.stage ram).store m []
  rw [hrun, bind_of_some hsave, pure_apply, SectorStore.target_eq_address]
  intro x hx
  rcases Bank.eq_or_other x (sectorStore.activeBank (op.stage ram).store).other with rfl | rfl
  · have hload := SectorStore.load_stored sound (sectorStore.activeBank (op.stage ram).store).other
      (sectorStore.stamp ((op.stage ram).store.snapshot.withPair certificate key)) m
    rw [hload]
    have hstamp : sectorStore.stamp = stamp := rfl
    rw [hstamp, hcertificateData, hkeyData]
    exact ⟨hanswer.crtParses hcrt, hanswer.keyParses hpk, hanswer.pairs hpair⟩
  · have hload := SectorStore.load_stored_other sound
      (sectorStore.activeBank (op.stage ram).store).other
      (sectorStore.stamp ((op.stage ram).store.snapshot.withPair certificate key)) m
    rw [hload] at hx ⊢
    exact hstored _ hx

/-! ## Runs -/

theorem init_cells (c : Chip) : (init c).2.cells = c.cells := by
  have hdriven : Driven ∅ init := by
    rw [init_eq]
    refine (SectorStore.driven_newestSnapshot ∅).bind fun found => ?_
    cases found <;> exact .pure _
  funext i
  exact (hdriven.steps c).outside i (Set.notMem_empty i)

/-- Start-up finds a valid snapshot in the bank it makes the active one, or none. -/
theorem held_init {c c' : Chip} {status : Status} {ram : Ram}
    (h : init c = (some (status, ram), c')) : Held c'.cells ram := by
  obtain ⟨found, c₁, hfound, hresume⟩ := bind_eq_some.1 h
  obtain ⟨rfl, hchoice⟩ := SectorStore.newestSnapshot_returns sound hfound
  cases found with
  | none =>
    cases hresume
    exact ⟨nofun, nofun, nofun⟩
  | some vars =>
    cases hresume
    obtain ⟨x, rfl, hisValid⟩ := SectorStore.choose_eq_some hchoice.symm
    refine ⟨fun _ => ⟨hisValid, ?_⟩, nofun, nofun⟩
    rw [SectorStore.activeBank_address sound]

theorem sound_boot {mbed : Mbed} {s : Sys store} (hs : Sound mbed s) (fates : Fates) :
    Sound mbed (s.step (.boot fates)) := by
  have hcells := init_cells ⟨s.cells, fates, []⟩
  rcases hr : init ⟨s.cells, fates, []⟩ with ⟨_ | ⟨_ | _, ram⟩, c⟩
  all_goals
    rw [hr] at hcells
    have hr' : store.init ⟨s.cells, fates, []⟩ = _ := hr
    refine ⟨?_, ?_⟩
    · simp only [Sys.step, hr']
      exact hcells.symm ▸ hs.stored
    simp only [Sys.step, hr']
    intro ram' hram'
  case some.ok =>
    cases hram'
    exact held_init hr
  all_goals cases hram'

theorem sound_call {mbed : Mbed} {s : Sys store} (hs : Sound mbed s) {op : Op} {fates : Fates}
    (ht : Trusted mbed s (.call op fates)) : Sound mbed (s.step (.call op fates)) := by
  cases hram : s.ram with
  | none =>
    have hstep : s.step (.call op fates) = s := by simp only [Sys.step, hram]
    rw [hstep]
    exact hs
  | some ram =>
    have hheld := hs.held ram hram
    obtain ⟨hanswers, htorn⟩ := ht ram hram
    have hstored : Stored mbed (exec op ram ⟨s.cells, fates, []⟩).2.cells := by
      intro x hx
      rcases htorn x hx with hold | hnew
      · have hold : sectorStore.load _ x = sectorStore.load s.cells x := hold
        rw [hold] at hx ⊢
        exact hs.stored x hx
      · have hnew : sectorStore.load _ x = sectorStore.load _ x := hnew
        rw [hnew] at hx ⊢
        exact stored_complete hs.stored hheld hanswers x hx
    rcases hr : exec op ram ⟨s.cells, fates, []⟩ with ⟨_ | ⟨ok, ram'⟩, c⟩
    all_goals
      rw [hr] at hstored
      have hr' : store.exec op ram ⟨s.cells, fates, []⟩ = _ := hr
    · refine ⟨?_, fun ram' hram' => ?_⟩
      · simp only [Sys.step, hram, hr']
        exact hstored
      · simp only [Sys.step, hram, hr'] at hram'
        cases hram'
    · have hheld' : Held c.cells ram' := by
        obtain ⟨status, happly⟩ := exec_eq_some hr
        exact (apply_returns (c := ⟨s.cells, fates, []⟩) hheld happly).1
      cases ok with
      | false =>
        refine ⟨?_, fun ram₁ hram₁ => ?_⟩
        · simp only [Sys.step, hram, hr']
          exact hstored
        · simp only [Sys.step, hram, hr'] at hram₁ ⊢
          cases hram₁
          exact hheld'
      | true =>
        refine ⟨?_, fun ram₁ hram₁ => ?_⟩
        · simp only [Sys.step, hram, hr']
          exact hstored
        · simp only [Sys.step, hram, hr'] at hram₁ ⊢
          cases hram₁
          exact hheld'

theorem sound_run {mbed : Mbed} {s : Sys store} (hs : Sound mbed s) {events : List (Event store)}
    (h : s.Along (Trusted mbed) events) : Sound mbed (s.run events) := by
  induction events generalizing s with
  | nil => exact hs
  | cons e events ih =>
    refine ih ?_ h.2
    cases e with
    | boot fates => exact sound_boot hs fates
    | call op fates => exact sound_call hs h.1

theorem sound_start (mbed : Mbed) : Sound mbed (Sys.start store) where
  stored x hx := by
    have hinvalid : isValid (sectorStore.load (fun _ => 0xFF) x) = false := isValid_erased x
    have hx : isValid (sectorStore.load (fun _ => 0xFF) x) = true := hx
    rw [hinvalid] at hx
    cases hx
  held _ h := by cases h

/-- **The server always presents a matching pair**: after any run of boots and uploads from
erased sectors, it is the compiled pair, or both halves of one stored snapshot that parsed and
belong to each other; and the next upload leaves it alone unless it reports an activation, which
pairs the uploaded half with the staged counterpart if there is one and else with the stored one
in use. -/
theorem always_paired (mbed : Mbed) {compiled : Bytes × Bytes}
    (hcompiled : mbed.Matches compiled.1 compiled.2) {events : List (Event store)}
    (h : (Sys.start store).Along (Trusted mbed) events) {ram : Ram}
    (hram : ((Sys.start store).run events).ram = some ram) :
    (getCertificate ram = none ∧ getPrivateKey ram = none ∨
      ∃ x s, sectorStore.load ((Sys.start store).run events).cells x = s ∧ isValid s = true ∧
        mbed.Matches s.certificateData s.keyData ∧
        getCertificate ram = some s.certificateData ∧ getPrivateKey ram = some s.keyData) ∧
    mbed.Matches (served compiled ram).1 (served compiled ram).2 ∧
    ∀ op fates status ram' c,
      apply op ram ⟨((Sys.start store).run events).cells, fates, []⟩ = (some (status, ram'), c) →
      Reported op ram ram' status := by
  obtain ⟨hstored, hheld⟩ := sound_run (sound_start mbed) h
  have hheld := hheld ram hram
  refine ⟨?_, ?_, fun op fates status ram' c hcall =>
    (apply_returns (c := ⟨_, fates, []⟩) hheld hcall).2⟩
  · by_cases hv : ram.hasValidSnapshot = true
    · obtain ⟨hisValid, hload⟩ := hheld.snapshot hv
      refine .inr ⟨_, _, hload, hisValid, ?_, if_pos hv, if_pos hv⟩
      have hmatches := hstored (sectorStore.activeBank ram.store)
      rw [hload] at hmatches
      exact hmatches hisValid
    · exact .inl ⟨if_neg hv, if_neg hv⟩
  · by_cases hv : ram.hasValidSnapshot = true
    · obtain ⟨hisValid, hload⟩ := hheld.snapshot hv
      have hmatches := hstored (sectorStore.activeBank ram.store)
      rw [hload] at hmatches
      simpa only [served, getCertificate, getPrivateKey, if_pos hv, Option.getD_some] using
        hmatches hisValid
    · simpa only [served, getCertificate, getPrivateKey, if_neg hv, Option.getD_none] using
        hcompiled

/-! ## A pair is uploaded -/

/-- A new device has neither half. -/
theorem init_erased : init ⟨fun _ => 0xFF, {}, []⟩ = (some (.ok,
    ⟨⟨zero, FlashLayout.tlsServerCredentialsSectorB⟩, false, none, none⟩),
    ⟨fun _ => 0xFF, {}, []⟩) := by
  have hnone := SectorStore.newestSnapshot_calm sound (fun _ => 0xFF) []
  rw [SectorStore.newestRam_of_fresh isValid_erased] at hnone
  rw [init_eq, bind_of_some hnone]
  rfl

theorem isValid_stamp (s : Snapshot) : isValid (stamp s) =
    (s.certificateLength.toNat ≤ maxCertificateSize && s.keyLength.toNat ≤ maxKeySize) := by
  have hcrc : (stamp s).crc = crcOf (stamp s) := rfl
  simp only [isValid, hcrc, decide_true, Bool.and_true]
  simp only [stamp, decide_true, Bool.true_and]
  rfl

theorem isValid_zeros : isValid (layout.decode (.replicate layout.size 0)) = false := by
  have hmagic : (layout.decode (.replicate layout.size 0)).magic = 0 := rfl
  simp [isValid, hmagic, magic]

section Uploads

variable {s : Sys store} {ram ram' : Ram} {op : Op} {certificate key : Bytes}

/-- An upload that saves nothing. -/
theorem step_unsaved {status : CredentialsStatus} (hram : s.ram = some ram)
    (h : apply op ram = pure (status, ram')) (hstatus : status ≠ .activated) :
    (s.step (.call op {})).ram = some ram' := by
  have hexec : store.exec op ram ⟨s.cells, {}, []⟩ = (some (false, ram'), ⟨s.cells, {}, []⟩) := by
    change exec op ram ⟨s.cells, {}, []⟩ = _
    rw [exec_eq, h, pure_bind, decide_eq_false hstatus]
    rfl
  exact congrArg Sys.ram (step_failed hram hexec)

/-- Nothing is torn by an upload in which nothing goes wrong. -/
theorem trusted_calm {mbed : Mbed} (hram : s.ram = some ram)
    (h : ∀ certificate key, (op.stage ram).certificateData = some certificate →
      (op.stage ram).keyData = some key → mbed.Answers certificate key op.results) :
    Trusted mbed s (.call op {}) := by
  intro ram' hram'
  obtain rfl : ram = ram' := Option.some.inj (hram.symm.trans hram')
  exact ⟨h, fun _ _ => .inr rfl⟩

variable (hram : s.ram = some ram) (haccepted : op.accepted)
  (hresults : op.results = ⟨0, 0, 0, 0⟩)
  (hcertificate : (op.stage ram).certificateData = some certificate)
  (hkey : (op.stage ram).keyData = some key)

include haccepted hresults hcertificate hkey in
/-- The upload of a half that belongs to the other saves the pair. -/
theorem apply_saves : apply op ram =
    sectorStore.save (ram.store.snapshot.withPair certificate key) ram.store >>= fun r =>
      pure (finish (op.stage ram) r) := by
  have hstore : (op.stage ram).store = ram.store := by cases op <;> rfl
  rw [apply_accepted ram haccepted, tryActivate, hcertificate, hkey, hresults, hstore]
  dsimp only
  rw [if_neg (by decide), if_neg (by decide)]
  simp only [save, bind_assoc, pure_bind, hstore]
  rfl

theorem finish_ok (ram : Ram) (image : Snapshot) (vars : SectorRam Snapshot) :
    finish ram (.ok, image, vars) = (.activated, ⟨vars, true, none, none⟩) := by
  simp [finish, Ram.clearStaging]

include hram haccepted hresults hcertificate hkey

/-- When nothing goes wrong it is in use behind it. -/
theorem step_activated {image : Snapshot}
    (himage : stamp (ram.store.snapshot.withPair certificate key) = image)
    (hvalid : isValid image = true) :
    (s.step (.call op {})).ram =
      some ⟨⟨image, sectorStore.target ram.store⟩, true, none, none⟩ ∧
    sectorStore.load (s.step (.call op {})).cells (sectorStore.activeBank ram.store).other =
      image := by
  subst himage
  obtain ⟨status, vars, log, hsave, hok⟩ := SectorStore.save_calm sound
    (ram.store.snapshot.withPair certificate key) ram.store s.cells []
  obtain rfl : status = .ok := hok.2 hvalid
  rcases SectorStore.save_eq_some sound hsave with ⟨-, -, rfl, -, hload⟩ | ⟨hne, -⟩
  · have hexec : store.exec op ram ⟨s.cells, {}, []⟩ = (some (true,
        ⟨⟨stamp (ram.store.snapshot.withPair certificate key), sectorStore.target ram.store⟩, true,
          none, none⟩), ⟨sectorStore.stored (sectorStore.target ram.store)
            (stamp (ram.store.snapshot.withPair certificate key)) s.cells, {}, log⟩) := by
      change exec op ram ⟨s.cells, {}, []⟩ = _
      rw [exec_eq, apply_saves haccepted hresults hcertificate hkey, bind_assoc,
        bind_of_some hsave, pure_bind, finish_ok]
      rfl
    simp only [Sys.step, hram, hexec]
    exact ⟨trivial, hload⟩
  · exact absurd rfl hne

omit hram in
/-- When power is lost in the erase, the bank in use is left. -/
theorem exec_upload_cut (m : Cells) : exec op ram ⟨m, cutErase, []⟩ =
    (none, ⟨zeroed (sectorStore.address (sectorStore.activeBank ram.store).other) m, {},
      [.erase (sectorStore.address (sectorStore.activeBank ram.store).other) W25q64.sectorSize
        m]⟩) := by
  rw [exec_eq, apply_saves haccepted hresults hcertificate hkey, bind_assoc,
    ← SectorStore.target_eq_address]
  exact bind_of_none (SectorStore.save_cut sound ..)

theorem step_upload_cut : (s.step (.call op cutErase)).cells =
    zeroed (sectorStore.address (sectorStore.activeBank ram.store).other) s.cells := by
  have hexec : store.exec op ram ⟨s.cells, cutErase, []⟩ = _ :=
    exec_upload_cut haccepted hresults hcertificate hkey s.cells
  simp only [Sys.step, hram, hexec]

theorem trusted_cut {mbed : Mbed} (hanswers : mbed.Answers certificate key op.results) :
    Trusted mbed s (.call op cutErase) := by
  intro ram' hram'
  obtain rfl : ram = ram' := Option.some.inj (hram.symm.trans hram')
  refine ⟨fun certificate' key' hcertificate' hkey' => ?_, ?_⟩
  · rw [← Option.some.inj (hcertificate.symm.trans hcertificate'),
      ← Option.some.inj (hkey.symm.trans hkey')]
    exact hanswers
  · rw [exec_upload_cut haccepted hresults hcertificate hkey]
    exact SectorStore.torn_zeroed sound isValid_zeros _ _

end Uploads

/-- Start-up takes the only valid snapshot. -/
theorem step_boot_only {s : Sys store} {x : Bank}
    (hx : isValid (sectorStore.load s.cells x) = true)
    (hother : isValid (sectorStore.load s.cells x.other) = false) :
    (s.step (.boot {})).ram =
      some ⟨⟨sectorStore.load s.cells x, sectorStore.address x⟩, true, none, none⟩ := by
  have hfound := SectorStore.newestSnapshot_calm sound s.cells []
  rw [SectorStore.newestRam_of_only hx hother] at hfound
  have hinit : store.init ⟨s.cells, {}, []⟩ = (some (.ok,
      ⟨⟨sectorStore.load s.cells x, sectorStore.address x⟩, true, none, none⟩),
        ⟨s.cells, {}, []⟩) := by
    change init ⟨s.cells, {}, []⟩ = _
    rw [init_eq, bind_of_some hfound, resume_some]
    rfl
  exact congrArg Sys.ram (step_booted hinit)

def compiledPair : Bytes × Bytes := ([0x30, 0x01], [0x30, 0x02])

def uploadedPair : Bytes × Bytes := ([0x30, 0x03], [0x30, 0x04])

/-- Mbed TLS accepting these two. -/
def selective : Mbed where
  crtParses certificate := certificate = compiledPair.1 ∨ certificate = uploadedPair.1
  keyParses key := key = compiledPair.2 ∨ key = uploadedPair.2
  pairs certificate key := (certificate, key) = compiledPair ∨ (certificate, key) = uploadedPair

def uploadCertificate : Op := .stageCertificate uploadedPair.1 ⟨0, 0, 0, 0⟩

def uploadKey : Op := .stagePrivateKey uploadedPair.2 ⟨0, 0, 0, 0⟩

/-- Another key, that does not parse. -/
def uploadStray : Op := .stagePrivateKey [0x30, 0x05] ⟨0, 0, -1, -1⟩

/-- A certificate is dropped with a key that does not parse. It is uploaded again, and its key
activates the pair. When the key is uploaded once more, the save loses power. -/
def uploads : List (Event store) :=
  [.boot {}, .call uploadCertificate {}, .call uploadStray {}, .call uploadCertificate {},
    .call uploadKey {}, .call uploadKey cutErase, .boot {}]

def uploadedImage : Snapshot := stamp (zero.withPair uploadedPair.1 uploadedPair.2)

theorem isValid_uploadedImage : isValid uploadedImage = true := by
  rw [uploadedImage, isValid_stamp]
  decide

theorem uploadedImage_data : uploadedImage.certificateData = uploadedPair.1 ∧
    uploadedImage.keyData = uploadedPair.2 :=
  withPair_data (by decide) (by decide) zero

theorem answers_uploaded : selective.Answers uploadedPair.1 uploadedPair.2 ⟨0, 0, 0, 0⟩ :=
  ⟨fun _ => .inr rfl, fun _ => .inr rfl, fun _ => .inr rfl⟩

/-- The variables when nothing was uploaded yet, -/
def blankRam : Ram := ⟨⟨zero, FlashLayout.tlsServerCredentialsSectorB⟩, false, none, none⟩

/-- when the certificate waits for its key, -/
def stagedRam : Ram := { blankRam with pendingCertificate := some uploadedPair.1 }

/-- and when the pair is in use. -/
def activeRam : Ram := ⟨⟨uploadedImage, sectorStore.address .a⟩, true, none, none⟩

theorem accepted_uploadKey : uploadKey.accepted := not_or.2 ⟨by decide, by decide⟩

theorem certificateData_activeRam :
    (uploadKey.stage activeRam).certificateData = some uploadedPair.1 :=
  congrArg some uploadedImage_data.1

theorem served_activeRam : served compiledPair activeRam = uploadedPair := by
  have hcertificate : getCertificate activeRam = some uploadedPair.1 :=
    congrArg some uploadedImage_data.1
  have hkey : getPrivateKey activeRam = some uploadedPair.2 := congrArg some uploadedImage_data.2
  rw [served, hcertificate, hkey]
  rfl

/-- A save of the pair that is cut off leaves it to the next start-up. -/
theorem comes_up_behind_cut {s : Sys store} (hram : s.ram = some activeRam)
    (hload : sectorStore.load s.cells .a = uploadedImage) :
    ((s.step (.call uploadKey cutErase)).step (.boot {})).ram = some activeRam := by
  have hactive : sectorStore.activeBank activeRam.store = .a :=
    SectorStore.activeBank_address sound .a uploadedImage
  have hcells := step_upload_cut hram accepted_uploadKey rfl certificateData_activeRam rfl
  rw [hactive] at hcells
  have hkept : sectorStore.load (s.step (.call uploadKey cutErase)).cells .a = uploadedImage := by
    rw [hcells]
    exact (SectorStore.load_congr sound (SectorStore.zeroed_other sound .b _)).trans hload
  have hother : isValid (sectorStore.load (s.step (.call uploadKey cutErase)).cells .b) = false := by
    rw [hcells]
    exact (congrArg isValid (SectorStore.load_zeroed sound .b _)).trans isValid_zeros
  rw [step_boot_only (x := .a) (by rw [hkept]; exact isValid_uploadedImage) hother, hkept]
  rfl

theorem always_paired_uploads : ∃ ram, ((Sys.start store).run uploads).ram = some ram ∧
    served compiledPair ram = uploadedPair ∧
    selective.Matches (served compiledPair ram).1 (served compiledPair ram).2 := by
  have hram₁ : ((Sys.start store).step (.boot {})).ram = some blankRam :=
    congrArg Sys.ram (step_booted init_erased)
  have hstages : apply uploadCertificate blankRam = pure (.pending, stagedRam) := rfl
  have hclears : apply uploadStray stagedRam = pure (.invalidData, blankRam) := rfl
  have hram₂ := step_unsaved hram₁ hstages (by decide)
  have hram₃ := step_unsaved hram₂ hclears (by decide)
  have hram₄ := step_unsaved hram₃ hstages (by decide)
  have himage : stamp (stagedRam.store.snapshot.withPair uploadedPair.1 uploadedPair.2) =
      uploadedImage := rfl
  obtain ⟨hram₅, hload⟩ := step_activated hram₄ accepted_uploadKey rfl rfl rfl himage
    isValid_uploadedImage
  have hevents : (Sys.start store).Along (Trusted selective) uploads := by
    refine ⟨trivial, trusted_calm hram₁ nofun, trusted_calm hram₂ ?_, trusted_calm hram₃ nofun,
      trusted_calm hram₄ ?_,
      trusted_cut hram₅ accepted_uploadKey rfl certificateData_activeRam rfl answers_uploaded,
      trivial, trivial⟩
    · rintro _ _ ⟨⟩ ⟨⟩
      exact ⟨fun _ => .inr rfl, nofun, nofun⟩
    · rintro _ _ ⟨⟩ ⟨⟩
      exact answers_uploaded
  have hram : ((Sys.start store).run uploads).ram = some activeRam := by
    rw [uploads, Sys.run, List.foldl_cons, List.foldl_cons, List.foldl_cons, List.foldl_cons,
      List.foldl_cons, List.foldl_cons, List.foldl_cons, List.foldl_nil]
    exact comes_up_behind_cut hram₅ hload
  have hcompiled : selective.Matches compiledPair.1 compiledPair.2 := ⟨.inl rfl, .inl rfl, .inl rfl⟩
  exact ⟨activeRam, hram, served_activeRam, (always_paired selective hcompiled hevents hram).2.1⟩

end HealthCheck.TlsServerCredentials
