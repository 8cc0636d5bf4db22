import HealthCheck.Lib.TwoBank

/-!
# Start-ups that fail to read

Reads fail for a while and then work again. A start-up in between may take a bank it could not read
for an empty one, and write over it.

* `read_pattern` — a read, by its outcome.
* `finds_iff` — when a two-bank store still finds its newest image behind a write to one bank.
-/

namespace Nor

/-- The outcomes of the reads to come: `none` for one that succeeds, otherwise whether it times out
and what it leaves in the caller's buffer. Past the end they succeed. -/
abbrev Pattern : Type := List (Option (Bool × Cells))

namespace Pattern

/-- The outcome of read `k`. -/
def outcome (p : Pattern) (k : ℕ) : Option (Bool × Cells) := p.getD k none

def fails (p : Pattern) (k : ℕ) : Bool := (p.outcome k).isSome

/-- What comes behind `n` reads. -/
def after (p : Pattern) (n : ℕ) : Pattern := p.drop n

/-- The fate that an outcome is. -/
def fate : Option (Bool × Cells) → ReadFate
  | none => .completes
  | some (timedOut, left) => .fails timedOut left

/-- Erases and page programs complete. -/
def fates (p : Pattern) : Fates := { reads := p.map fate }

/-- What a read gives whose bytes are `bytes`. -/
def answer (p : Pattern) (k : ℕ) (bytes : List UInt8) : Status × List UInt8 :=
  match p.outcome k with
  | none => (.ok, bytes)
  | some (timedOut, left) => (failure timedOut, left.slice 0 bytes.length)

@[simp] theorem after_after (p : Pattern) (n k : ℕ) : (p.after n).after k = p.after (n + k) :=
  List.drop_drop

@[simp] theorem outcome_after (p : Pattern) (n k : ℕ) :
    (p.after n).outcome k = p.outcome (n + k) := by
  simp only [outcome, after, List.getD_eq_getElem?_getD, List.getElem?_drop]

@[simp] theorem fails_after (p : Pattern) (n k : ℕ) : (p.after n).fails k = p.fails (n + k) := by
  rw [fails, outcome_after, fails]

@[simp] theorem answer_after (p : Pattern) (n k : ℕ) (bytes : List UInt8) :
    (p.after n).answer k bytes = p.answer (n + k) bytes := by
  rw [answer, outcome_after, answer]

theorem answer_ok_iff {p : Pattern} {k : ℕ} {bytes : List UInt8} :
    (p.answer k bytes).1 = .ok ↔ p.fails k = false := by
  unfold answer fails
  cases p.outcome k with
  | none => exact iff_of_true rfl rfl
  | some failed => exact iff_of_false (failure_ne_ok failed.1) nofun

theorem answer_of_succeeds {p : Pattern} {k : ℕ} (h : p.fails k = false) (bytes : List UInt8) :
    p.answer k bytes = (.ok, bytes) := by
  rw [fails, Option.isSome_eq_false_iff, Option.isNone_iff_eq_none] at h
  rw [answer, h]

end Pattern

theorem read_pattern (m : Cells) (p : Pattern) (log : List Command) (a n : ℕ) :
    read a n ⟨m, p.fates, log⟩ =
      (some (p.answer 0 (m.slice a n)), ⟨m, (p.after 1).fates, log⟩) := by
  cases p with
  | nil => rfl
  | cons outcome p =>
    cases outcome with
    | none => rfl
    | some failed =>
      have hleft : failed.2.slice 0 (m.slice a n).length = failed.2.slice 0 n := by
        rw [length_slice]
      have hanswer : Pattern.answer (some failed :: p) 0 (m.slice a n) =
          (failure failed.1, failed.2.slice 0 (m.slice a n).length) := rfl
      rw [hanswer, hleft]
      rfl

/-- The cells that a start-up leaves when its reads turn out as in `p`. -/
def bootCells {Ram : Type} (init : FlashM (Status × Ram)) (m : Cells) (p : Pattern) : Cells :=
  (init ⟨m, p.fates, []⟩).2.cells

/-- A start-up with working reads loads `s`. -/
def Loads {Ram Image : Type} (init : FlashM (Status × Ram)) (snapshot : Ram → Image) (m : Cells)
    (s : Image) : Prop :=
  ∃ ram c, init ⟨m, {}, []⟩ = (some (.ok, ram), c) ∧ snapshot ram = s

end Nor

namespace TwoBank

section Written

variable {Image : Type} {valid : Image → Bool} {generation : Image → ℕ} {load load' : Bank → Image}
  {x y : Bank}

/-- Generation `n` in a bank is taken before `k` in the other. -/
def Outranks (n k : ℕ) : Bank → Prop
  | .a => k ≤ n
  | .b => k < n

theorem newest_eq_some_iff : newest valid generation load = some x ↔
    valid (load x) = true ∧ (valid (load x.other) = true →
      Outranks (generation (load x)) (generation (load x.other)) x) := by
  unfold newest
  cases x with
  | a =>
    cases ha : valid (load .a) <;> cases hb : valid (load .b) <;> simp [Outranks, Bank.other, hb]
  | b =>
    cases ha : valid (load .a) <;> cases hb : valid (load .b) <;>
      simp [Outranks, Bank.other, ha]

/-- **Behind a write to bank `y`** the newest image from before is found if it was written again, or
if a copy of it in the other bank still is the newest. -/
theorem finds_iff (h : newest valid generation load = some x)
    (hkept : load' y.other = load y.other) :
    (∃ z, newest valid generation load' = some z ∧ load' z = load x) ↔
      (valid (load' y) = true ∧ load' y = load x) ∨
      (load y.other = load x ∧ (valid (load' y) = true →
        Outranks (generation (load x)) (generation (load' y)) y.other)) := by
  obtain ⟨hx, hfirst⟩ := newest_eq_some_iff.1 h
  constructor
  · rintro ⟨z, hz, hsame⟩
    obtain ⟨hvalid, hrank⟩ := newest_eq_some_iff.1 hz
    rcases z.eq_or_other y with rfl | rfl
    · exact .inl ⟨hvalid, hsame⟩
    · rw [Bank.other_other, hsame] at hrank
      exact .inr ⟨hkept.symm.trans hsame, hrank⟩
  · rintro (⟨hvalid, hsame⟩ | ⟨hsame, hrank⟩)
    · by_cases hother : valid (load y.other) = true →
        Outranks (generation (load x)) (generation (load y.other)) y
      · refine ⟨y, newest_eq_some_iff.2 ⟨hvalid, ?_⟩, hsame⟩
        rwa [hkept, hsame]
      · -- the other bank outranks it now as it did before, so it held the newest image
        obtain ⟨hvalid', hrank⟩ := Classical.not_imp.1 hother
        rcases x.eq_or_other y with rfl | rfl
        · exact absurd hfirst hother
        · have hload : load' y.other = load y.other := hkept
          refine ⟨y.other, newest_eq_some_iff.2 ⟨hload ▸ hx, fun _ => ?_⟩, hload⟩
          rw [Bank.other_other, hload, hsame]
          cases y <;> simp only [Bank.other, Outranks] at hrank ⊢ <;> omega
    · have hload : load' y.other = load x := hkept.trans hsame
      refine ⟨y.other, newest_eq_some_iff.2 ⟨hload ▸ hx, ?_⟩, hload⟩
      rwa [Bank.other_other, hload]

end Written

end TwoBank
