import HealthCheck.CertificateTime

/-!
# Certificate warnings over runs of checks

`healthCheckService_CheckCertificateExpiry` remembers two numbers for each resource: the expiry
it has seen last and the time of the last warning for it, 0 for none.

* `check_slot` — a check reads and writes the two numbers of its own resource only.
* `hourly` — over every run of checks, warnings of a resource are an hour apart unless its expiry
  changes, and none is left out.
-/

namespace HealthCheck.CertificateTime

open BuzzerService (maxResources)

/-! ## Runs -/

/-- One call of `healthCheckService_CheckCertificateExpiry`, with the time of the RTC, whether
`Rtc_GetUnixTime` succeeds, and whether the buzzer service accepts a warning. -/
structure Check where
  resourceIndex : Fin maxResources
  certificateExpiry : UInt32
  time : UInt32
  readable : Bool
  accepted : Bool
deriving DecidableEq

/-- The tables at power-up. -/
def Warnings.initial : Warnings := ⟨.replicate _ 0, .replicate _ 0⟩

/-- The tables behind a check, and whether it has scheduled a warning. -/
def Warnings.check (w : Warnings) (c : Check) : Warnings × Bool :=
  let r := checkCertificateExpiry w c.resourceIndex c.certificateExpiry
    (if c.readable then some c.time else none) c.accepted
  (r.1, r.2 && c.accepted)

/-- The checks of a run, each with whether it has scheduled a warning. -/
def outcomes (w : Warnings) : List Check → List (Check × Bool)
  | [] => []
  | c :: checks => (c, (w.check c).2) :: outcomes (w.check c).1 checks

/-- The expiry is at most ten days away, or past. -/
def Check.due (c : Check) : Prop :=
  c.certificateExpiry ≠ 0 ∧ c.certificateExpiry.toNat ≤ c.time.toNat + 864000

/-- The check comes to know the expiry. -/
def Check.observes (c : Check) : Prop := c.certificateExpiry ≠ 0 ∧ c.readable = true

/-! ## One resource -/

/-- What is remembered of a resource. -/
@[ext]
structure Slot where
  expiry : UInt32
  time : UInt32

def Warnings.slot (w : Warnings) (i : Fin maxResources) : Slot := ⟨w.expiry.get i, w.time.get i⟩

/-- An expiry that is not the remembered one starts anew. -/
def Slot.renew (s : Slot) (expiry : UInt32) : Slot := if s.expiry ≠ expiry then ⟨expiry, 0⟩ else s

/-- The last warning is less than an hour old. -/
def Slot.recent (s : Slot) (now : UInt32) : Prop :=
  s.time ≠ 0 ∧ now - s.time < warningPeriodSeconds

instance (s : Slot) (now : UInt32) : Decidable (s.recent now) :=
  inferInstanceAs (Decidable (_ ∧ _))

/-- A check, seen from its resource. -/
def Slot.check (s : Slot) (c : Check) : Slot × Bool :=
  if c.certificateExpiry = 0 ∨ c.readable = false then (s, false)
  else
    let s := s.renew c.certificateExpiry
    if warningWindow c.certificateExpiry c.time = false ∨ s.recent c.time ∨ c.accepted = false then
      (s, false)
    else ({ s with time := c.time }, true)

theorem slot_set {w : Warnings} {i : Fin maxResources} {expiry time : UInt32}
    (j : Fin maxResources) : Warnings.slot ⟨w.expiry.set i expiry i.isLt, w.time.set i time i.isLt⟩ j =
      if j = i then ⟨expiry, time⟩ else w.slot j := by
  by_cases h : j = i
  · subst h
    simp [Warnings.slot]
  · have hne : (i : ℕ) ≠ j := fun heq => h (Fin.ext heq.symm)
    simp [Warnings.slot, h, hne]

theorem slot_set_time {w : Warnings} {i : Fin maxResources} {time : UInt32}
    (j : Fin maxResources) : Warnings.slot { w with time := w.time.set i time i.isLt } j =
      if j = i then { w.slot i with time := time } else w.slot j := by
  by_cases h : j = i
  · subst h
    simp [Warnings.slot]
  · have hne : (i : ℕ) ≠ j := fun heq => h (Fin.ext heq.symm)
    simp [Warnings.slot, h, hne]

/-- The tables with an expiry that a check observes. -/
def Warnings.renew (w : Warnings) (i : Fin maxResources) (expiry : UInt32) : Warnings :=
  if w.expiry.get i ≠ expiry then ⟨w.expiry.set i expiry i.isLt, w.time.set i 0 i.isLt⟩ else w

theorem slot_renew (w : Warnings) (i : Fin maxResources) (expiry : UInt32) (j : Fin maxResources) :
    (w.renew i expiry).slot j = if j = i then (w.slot i).renew expiry else w.slot j := by
  unfold Warnings.renew Slot.renew
  by_cases h : w.expiry.get i ≠ expiry
  · have hslot : (w.slot i).expiry ≠ expiry := h
    rw [if_pos h, if_pos hslot, slot_set]
  · have hslot : ¬(w.slot i).expiry ≠ expiry := h
    rw [if_neg h, if_neg hslot]
    split
    · rename_i hj
      rw [hj]
    · rfl

theorem check_eq (w : Warnings) (c : Check) : w.check c =
    if c.certificateExpiry = 0 ∨ c.readable = false then (w, false)
    else
      let w := w.renew c.resourceIndex c.certificateExpiry
      if warningWindow c.certificateExpiry c.time = false ∨
          (w.slot c.resourceIndex).recent c.time ∨ c.accepted = false then (w, false)
      else ({ w with time := w.time.set c.resourceIndex c.time }, true) := by
  unfold Warnings.check checkCertificateExpiry
  by_cases hexpiry : c.certificateExpiry = 0
  · simp [hexpiry]
  cases hreadable : c.readable
  · simp [hexpiry]
  show (_, _) = _
  simp only [hexpiry, if_false, if_true, or_self, Bool.true_eq_false]
  generalize hw : w.renew c.resourceIndex c.certificateExpiry = w₁
  have hrenew : (if w.expiry.get c.resourceIndex ≠ c.certificateExpiry then
      { expiry := w.expiry.set c.resourceIndex c.certificateExpiry
        time := w.time.set c.resourceIndex 0 : Warnings } else w) = w₁ := hw
  rw [hrenew]
  cases hwindow : warningWindow c.certificateExpiry c.time
  · simp
  by_cases hslot : (w₁.slot c.resourceIndex).recent c.time
  · have hrecent : ¬w₁.time[(c.resourceIndex : ℕ)] = 0 ∧
        c.time - w₁.time[(c.resourceIndex : ℕ)] < warningPeriodSeconds := hslot
    simp [hrecent, hslot]
  · have hrecent : ¬(¬w₁.time[(c.resourceIndex : ℕ)] = 0 ∧
        c.time - w₁.time[(c.resourceIndex : ℕ)] < warningPeriodSeconds) := hslot
    cases haccepted : c.accepted <;> simp [if_neg hrecent, hslot]

/-- A check is a check of its own resource, and the others stay. -/
theorem check_slot (w : Warnings) (c : Check) :
    (w.check c).2 = ((w.slot c.resourceIndex).check c).2 ∧ ∀ j, (w.check c).1.slot j =
      if j = c.resourceIndex then ((w.slot c.resourceIndex).check c).1 else w.slot j := by
  have hown : (w.renew c.resourceIndex c.certificateExpiry).slot c.resourceIndex =
      (w.slot c.resourceIndex).renew c.certificateExpiry := by
    rw [slot_renew, if_pos rfl]
  rw [check_eq, Slot.check]
  by_cases hblind : c.certificateExpiry = 0 ∨ c.readable = false
  · rw [if_pos hblind, if_pos hblind]
    refine ⟨rfl, fun j => ?_⟩
    split
    · rename_i hj
      rw [hj]
    · rfl
  rw [if_neg hblind, if_neg hblind]
  dsimp only
  rw [hown]
  split
  · exact ⟨rfl, slot_renew w c.resourceIndex c.certificateExpiry⟩
  · refine ⟨rfl, fun j => ?_⟩
    rw [slot_set_time, hown]
    split
    · rfl
    · rename_i hj
      rw [slot_renew, if_neg hj]

/-! ## One check -/

theorem recent_iff {s : Slot} {now : UInt32} (h : s.time ≤ now) :
    s.recent now ↔ s.time ≠ 0 ∧ now.toNat < s.time.toNat + 3600 := by
  have hle := UInt32.le_iff_toNat_le.1 h
  refine and_congr_right fun _ => ?_
  rw [UInt32.lt_iff_toNat_lt, UInt32.toNat_sub_of_le _ _ h]
  show _ < 3600 ↔ _
  omega

variable {s : Slot} {c : Check}

/-- A check that comes to know nothing does nothing. -/
theorem Slot.check_blind (h : ¬c.observes) : s.check c = (s, false) := by
  refine if_pos ?_
  by_cases hexpiry : c.certificateExpiry = 0
  · exact .inl hexpiry
  · exact .inr (Bool.eq_false_iff.2 fun hreadable => h ⟨hexpiry, hreadable⟩)

/-- When a check schedules a warning. -/
theorem Slot.check_eq_true : (s.check c).2 = true ↔ c.readable = true ∧ c.due ∧
    ¬(s.renew c.certificateExpiry).recent c.time ∧ c.accepted = true := by
  by_cases hobserves : c.observes
  · have hsees : ¬(c.certificateExpiry = 0 ∨ c.readable = false) :=
      not_or.2 ⟨hobserves.1, by simp [hobserves.2]⟩
    rw [Slot.check, if_neg hsees]
    dsimp only
    have hdue : c.due ↔ warningWindow c.certificateExpiry c.time = true := by
      rw [warningWindow_iff]
      exact and_iff_right hobserves.1
    rw [hdue]
    split
    · rename_i hidle
      refine iff_of_false Bool.false_ne_true fun h => ?_
      rcases hidle with hwindow | hrecent | haccepted
      · exact Bool.false_ne_true (hwindow.symm.trans h.2.1)
      · exact h.2.2.1 hrecent
      · exact Bool.false_ne_true (haccepted.symm.trans h.2.2.2)
    · rename_i hasks
      simp only [not_or, Bool.not_eq_false] at hasks
      exact iff_of_true rfl ⟨hobserves.2, hasks⟩
  · rw [Slot.check_blind hobserves]
    refine iff_of_false Bool.false_ne_true fun h => hobserves ⟨h.2.1.1, h.1⟩

/-- What a check leaves, when it comes to know an expiry. -/
theorem Slot.check_fst (h : c.observes) : (s.check c).1 =
    if (s.check c).2 = true then ⟨c.certificateExpiry, c.time⟩ else s.renew c.certificateExpiry := by
  have hsees : ¬(c.certificateExpiry = 0 ∨ c.readable = false) :=
    not_or.2 ⟨h.1, by simp [h.2]⟩
  have hexpiry : (s.renew c.certificateExpiry).expiry = c.certificateExpiry := by
    unfold Slot.renew
    split
    · rfl
    · rename_i hsame
      exact not_not.1 hsame
  rw [Slot.check, if_neg hsees]
  dsimp only
  split
  · rfl
  · rw [if_pos rfl]
    exact Slot.ext hexpiry rfl

/-! ## Runs of checks -/

/-- The tables behind a run. -/
def Warnings.after (w : Warnings) (checks : List Check) : Warnings :=
  checks.foldl (fun w c => (w.check c).1) w

/-- The outcome of a check in a run is the outcome behind the checks before it. -/
theorem outcomes_split {w : Warnings} {checks : List Check} {before after : List (Check × Bool)}
    {x : Check × Bool} (h : outcomes w checks = before ++ x :: after) :
    ∃ first rest, checks = first ++ x.1 :: rest ∧ before = outcomes w first ∧
      x.2 = ((w.after first).check x.1).2 ∧
      after = outcomes ((w.after first).check x.1).1 rest := by
  induction checks generalizing w before with
  | nil => simp [outcomes] at h
  | cons c checks ih =>
    cases before with
    | nil =>
      obtain ⟨rfl, rfl⟩ := List.cons.inj h
      exact ⟨[], checks, rfl, rfl, rfl, rfl⟩
    | cons y before =>
      obtain ⟨rfl, htail⟩ := List.cons.inj h
      obtain ⟨first, rest, rfl, rfl, hx, hafter⟩ := ih htail
      exact ⟨c :: first, rest, rfl, rfl, hx, hafter⟩

/-- The outcomes of one resource are those of its own checks. -/
theorem outcomes_filter {w w' : Warnings} {i : Fin maxResources} (h : w.slot i = w'.slot i)
    (checks : List Check) : (outcomes w checks).filter (fun x => x.1.resourceIndex = i) =
      outcomes w' (checks.filter fun c => c.resourceIndex = i) := by
  induction checks generalizing w w' with
  | nil => rfl
  | cons c checks ih =>
    obtain ⟨hresult, hslot⟩ := check_slot w c
    by_cases hown : c.resourceIndex = i
    · subst hown
      obtain ⟨hresult', hslot'⟩ := check_slot w' c
      have hnext : (w.check c).1.slot c.resourceIndex = (w'.check c).1.slot c.resourceIndex := by
        rw [hslot, hslot', if_pos rfl, if_pos rfl, h]
      rw [outcomes, List.filter_cons_of_pos (by simp), List.filter_cons_of_pos (by simp), outcomes,
        ih hnext, hresult, hresult', h]
    · have hnext : (w.check c).1.slot i = w'.slot i := by
        rw [hslot, if_neg (Ne.symm hown), h]
      rw [outcomes, List.filter_cons_of_neg (by simp [hown]),
        List.filter_cons_of_neg (by simp [hown]), ih hnext]

/-- Every remembered warning has been scheduled. -/
def Justified (past : List (Check × Bool)) (w : Warnings) : Prop :=
  ∀ i, (w.slot i).time ≠ 0 → ∃ c, (c, true) ∈ past ∧ c.resourceIndex = i ∧
    c.time = (w.slot i).time ∧ c.certificateExpiry = (w.slot i).expiry

theorem Justified.check {past : List (Check × Bool)} {w : Warnings} (h : Justified past w)
    (c : Check) : Justified (past ++ [(c, (w.check c).2)]) (w.check c).1 := by
  have hkeep : ∀ i, (w.slot i).time ≠ 0 → ∃ d, (d, true) ∈ past ++ [(c, (w.check c).2)] ∧
      d.resourceIndex = i ∧ d.time = (w.slot i).time ∧ d.certificateExpiry = (w.slot i).expiry := by
    intro i hi
    obtain ⟨d, hd, hrest⟩ := h i hi
    exact ⟨d, List.mem_append_left _ hd, hrest⟩
  obtain ⟨hresult, hslot⟩ := check_slot w c
  intro i hi
  rw [hslot] at hi ⊢
  by_cases hown : i = c.resourceIndex
  swap
  · rw [if_neg hown] at hi ⊢
    exact hkeep i hi
  subst hown
  rw [if_pos rfl] at hi ⊢
  by_cases hobserves : c.observes
  swap
  · rw [Slot.check_blind hobserves] at hi ⊢
    exact hkeep _ hi
  rw [Slot.check_fst hobserves] at hi ⊢
  split at hi
  · rename_i hscheduled
    rw [if_pos hscheduled]
    refine ⟨c, List.mem_append_right _ ?_, rfl, rfl, rfl⟩
    rw [hresult, hscheduled]
    exact List.mem_singleton_self _
  · rename_i hquiet
    rw [if_neg hquiet]
    unfold Slot.renew at hi ⊢
    split at hi
    · exact absurd rfl hi
    · rename_i hsame
      rw [if_neg hsame]
      exact hkeep _ hi

theorem Justified.after {past : List (Check × Bool)} {w : Warnings} (h : Justified past w)
    (checks : List Check) : Justified (past ++ outcomes w checks) (w.after checks) := by
  induction checks generalizing past w with
  | nil => exact (List.append_nil past).symm ▸ h
  | cons c checks ih =>
    have hnext := ih (h.check c)
    rw [List.append_assoc] at hnext
    exact hnext

/-- Behind a warning there is none for an hour, as long as the same expiry is observed. -/
theorem warned_apart {w : Warnings} {checks : List Check} {i : Fin maxResources}
    {between after : List (Check × Bool)} {d : Check}
    (hsorted : (checks.map Check.time).Pairwise (· ≤ ·)) (htime : (w.slot i).time ≠ 0)
    (hlater : ∀ c ∈ checks, (w.slot i).time ≤ c.time)
    (h : outcomes w checks = between ++ (d, true) :: after) (hd : d.resourceIndex = i) :
    (w.slot i).time.toNat + 3600 ≤ d.time.toNat ∨ ∃ x ∈ between ++ [(d, true)],
      x.1.resourceIndex = i ∧ x.1.observes ∧ x.1.certificateExpiry ≠ (w.slot i).expiry := by
  induction checks generalizing w between with
  | nil => simp [outcomes] at h
  | cons c checks ih =>
    obtain ⟨hresult, hslot⟩ := check_slot w c
    obtain ⟨hfirst, hrest⟩ := List.pairwise_cons.1 hsorted
    have hnow : (w.slot i).time ≤ c.time := hlater c List.mem_cons_self
    have hrenew : c.certificateExpiry = (w.slot i).expiry →
        (w.slot i).renew c.certificateExpiry = w.slot i := fun hsame =>
      if_neg (not_not.2 hsame.symm)
    cases between with
    | nil =>
      obtain ⟨hhead, -⟩ := List.cons.inj h
      obtain ⟨rfl, hscheduled⟩ := Prod.mk.inj hhead
      rw [hresult, hd, Slot.check_eq_true] at hscheduled
      obtain ⟨hreadable, hdue, hold, -⟩ := hscheduled
      by_cases hsame : c.certificateExpiry = (w.slot i).expiry
      · rw [hrenew hsame, recent_iff hnow, not_and, not_lt] at hold
        exact .inl (hold htime)
      · exact .inr ⟨_, List.mem_singleton_self _, hd, ⟨hdue.1, hreadable⟩, hsame⟩
    | cons y between =>
      obtain ⟨rfl, htail⟩ := List.cons.inj h
      have hother : (w.check c).1.slot i = w.slot i →
          (w.slot i).time.toNat + 3600 ≤ d.time.toNat ∨
            ∃ x ∈ (c, (w.check c).2) :: between ++ [(d, true)], x.1.resourceIndex = i ∧
              x.1.observes ∧ x.1.certificateExpiry ≠ (w.slot i).expiry := by
        intro hkept
        have hnext := ih hrest (by rwa [hkept])
          (fun e he => hkept ▸ hlater e (List.mem_cons_of_mem _ he)) htail
        rw [hkept] at hnext
        refine hnext.imp id ?_
        rintro ⟨x, hx, hchange⟩
        exact ⟨x, List.mem_cons_of_mem _ hx, hchange⟩
      by_cases hown : i = c.resourceIndex
      swap
      · exact hother ((hslot i).trans (if_neg hown))
      have hafter := hslot i
      rw [if_pos hown, ← hown] at hafter
      by_cases hobserves : c.observes
      swap
      · exact hother (hafter.trans (by rw [Slot.check_blind hobserves]))
      by_cases hsame : c.certificateExpiry = (w.slot i).expiry
      swap
      · exact .inr ⟨_, List.mem_cons_self, hown.symm, hobserves, hsame⟩
      rw [Slot.check_fst hobserves, hrenew hsame] at hafter
      split at hafter
      · -- a later warning for the same expiry takes the place of this one
        have hpos : c.time ≠ 0 := by
          intro hzero
          have hle := UInt32.le_iff_toNat_le.1 (hzero ▸ hnow)
          exact htime (UInt32.toNat_inj.1 (Nat.le_zero.1 hle))
        have hnext := ih hrest (by rw [hafter]; exact hpos)
          (fun e he => by rw [hafter]; exact hfirst _ (List.mem_map_of_mem he)) htail
        rw [hafter] at hnext
        rcases hnext with happart | ⟨x, hx, hi, hsees, hchange⟩
        · have hle := UInt32.le_iff_toNat_le.1 hnow
          exact .inl (by simp only at happart; omega)
        · exact .inr ⟨x, List.mem_cons_of_mem _ hx, hi, hsees, hsame ▸ hchange⟩
      · exact hother hafter

/-- **Certificate warnings are hourly.** Over every run of checks with times that do not go back:
a warning is scheduled for an expiry at most ten days ahead only; two warnings of a resource are
an hour apart, or another expiry of the resource is observed behind the first one; a check that
reads the clock schedules a warning that is due, unless one for this resource and expiry was
scheduled less than an hour before or the buzzer service refuses it; and what is scheduled for a
resource depends on its own checks alone. -/
theorem hourly {checks : List Check} (hsorted : (checks.map Check.time).Pairwise (· ≤ ·))
    (hstart : ∀ c ∈ checks, 946684800 ≤ c.time.toNat) :
    (∀ before c after, outcomes .initial checks = before ++ (c, true) :: after → c.due) ∧
    (∀ before c between d after,
      outcomes .initial checks = before ++ (c, true) :: (between ++ (d, true) :: after) →
      c.resourceIndex = d.resourceIndex → c.time.toNat + 3600 ≤ d.time.toNat ∨
        ∃ x ∈ between ++ [(d, true)], x.1.resourceIndex = c.resourceIndex ∧ x.1.observes ∧
          x.1.certificateExpiry ≠ c.certificateExpiry) ∧
    (∀ before d scheduled after, outcomes .initial checks = before ++ (d, scheduled) :: after →
      d.due → d.readable = true → d.accepted = true →
      (∀ c, (c, true) ∈ before → c.resourceIndex = d.resourceIndex →
        c.certificateExpiry = d.certificateExpiry → c.time.toNat + 3600 ≤ d.time.toNat) →
      scheduled = true) ∧
    ∀ i, (outcomes .initial checks).filter (fun x => x.1.resourceIndex = i) =
      outcomes .initial (checks.filter fun c => c.resourceIndex = i) := by
  refine ⟨fun before c after h => ?_, fun before c between d after h hd => ?_,
    fun before d scheduled after h hdue hreadable haccepted hnone => ?_,
    fun i => outcomes_filter rfl checks⟩
  · obtain ⟨first, rest, -, -, hscheduled, -⟩ := outcomes_split h
    rw [(check_slot _ c).1] at hscheduled
    exact (Slot.check_eq_true.1 hscheduled.symm).2.1
  · obtain ⟨first, rest, rfl, -, hscheduled, hrest⟩ := outcomes_split h
    obtain ⟨hresult, hslot⟩ := check_slot (Warnings.initial.after first) c
    rw [hresult] at hscheduled
    obtain ⟨hreadable, hdue, -⟩ := Slot.check_eq_true.1 hscheduled.symm
    have hafter := hslot c.resourceIndex
    rw [if_pos rfl, Slot.check_fst ⟨hdue.1, hreadable⟩, if_pos hscheduled.symm] at hafter
    rw [List.map_append, List.map_cons] at hsorted
    obtain ⟨hlater, hsorted⟩ := List.pairwise_cons.1 (List.pairwise_append.1 hsorted).2.1
    have hpos : c.time ≠ 0 := by
      intro hzero
      have hfrom := hstart c (List.mem_append_right _ List.mem_cons_self)
      rw [hzero] at hfrom
      exact absurd hfrom (by decide)
    have happart := warned_apart hsorted (by rw [hafter]; exact hpos)
      (fun e he => by rw [hafter]; exact hlater _ (List.mem_map_of_mem he)) hrest.symm hd.symm
    rwa [hafter] at happart
  · obtain ⟨first, rest, rfl, rfl, hscheduled, -⟩ := outcomes_split h
    have hinitial : Justified [] Warnings.initial := fun i hi =>
      absurd (by simp [Warnings.slot, Warnings.initial]) hi
    have hjustified : Justified (outcomes .initial first) (Warnings.initial.after first) :=
      hinitial.after first
    refine hscheduled.trans ?_
    rw [(check_slot _ d).1, Slot.check_eq_true]
    refine ⟨hreadable, hdue, fun hrecent => ?_, haccepted⟩
    unfold Slot.renew at hrecent
    split at hrecent
    · exact hrecent.1 rfl
    · rename_i hsame
      obtain ⟨c, hc, hown, htime, hexpiry⟩ := hjustified _ hrecent.1
      have happart := hnone c hc hown (hexpiry.trans (not_not.1 hsame))
      rw [recent_iff, ← htime] at hrecent
      · omega
      · rw [← htime, UInt32.le_iff_toNat_le]
        omega

/-- A check of the first resource that is answered. -/
def answeredCheck (certificateExpiry time : UInt32) : Check :=
  ⟨⟨0, by decide⟩, certificateExpiry, time, true, true⟩

/-- Two warnings within a minute, with a change of the certificate between them. -/
theorem hourly_change :
    let c := answeredCheck 946684900 946684800
    let d := answeredCheck 946685000 946684860
    outcomes .initial [c, d] = [(c, true), (d, true)] ∧
      (c.time.toNat + 3600 ≤ d.time.toNat ∨ ∃ x ∈ ([] : List (Check × Bool)) ++ [(d, true)],
        x.1.resourceIndex = c.resourceIndex ∧ x.1.observes ∧
          x.1.certificateExpiry ≠ c.certificateExpiry) := by
  intro c d
  have hrun : outcomes .initial [c, d] = [(c, true), (d, true)] := by
    decide +kernel
  have hsorted : ([c, d].map Check.time).Pairwise (· ≤ ·) :=
    List.pairwise_pair.2 (show c.time ≤ d.time by decide)
  have hstart : ∀ e ∈ [c, d], 946684800 ≤ e.time.toNat := by
    rintro e (_ | ⟨_, _ | ⟨_, ⟨⟩⟩⟩) <;> decide
  exact ⟨hrun, (hourly hsorted hstart).2.1 [] c [] d [] hrun rfl⟩

end HealthCheck.CertificateTime
