import Mathlib.Algebra.Order.Ring.Nat
import Mathlib.Data.List.Basic
import Mathlib.Tactic.IntervalCases
import Mathlib.Tactic.Ring

/-!
# The Gregorian calendar

Days are counted by adding up the lengths of years and months, from the beginning of some year on.
The count orders the dates of the calendar, so a date is found again from its number.

* `dayNumber_injective` — dates with the same number are the same.
* `daysBeforeYear_closed` — the years before a year, in closed form.
* `weekday_eq` — the day of the week from the number of days since a Thursday.
-/

namespace Calendar

/-! ## Years and months -/

/-- A year of 366 days. -/
def isLeapYear (year : ℕ) : Bool := year % 4 = 0 && (year % 100 ≠ 0 || year % 400 = 0)

def yearLength (year : ℕ) : ℕ := if isLeapYear year then 366 else 365

/-- The days of a month, counted from 1. -/
def monthLength (year : ℕ) : ℕ → ℕ
  | 2 => if isLeapYear year then 29 else 28
  | 4 | 6 | 9 | 11 => 30
  | _ => 31

/-- The days of the years from `epoch` up to `year`. -/
def daysBeforeYear (epoch year : ℕ) : ℕ :=
  ((List.range' epoch (year - epoch)).map yearLength).sum

/-- The days of a year before a month. -/
def daysBeforeMonth (year month : ℕ) : ℕ :=
  ((List.range' 1 (month - 1)).map (monthLength year)).sum

theorem yearLength_cases (year : ℕ) : yearLength year = 365 ∨ yearLength year = 366 := by
  unfold yearLength
  split
  · exact .inr rfl
  · exact .inl rfl

theorem monthLength_le (year month : ℕ) : monthLength year month ≤ 31 := by
  unfold monthLength
  split
  · split <;> decide
  all_goals decide

theorem daysBeforeYear_self (epoch : ℕ) : daysBeforeYear epoch epoch = 0 := by
  simp [daysBeforeYear]

theorem daysBeforeYear_succ {epoch year : ℕ} (h : epoch ≤ year) :
    daysBeforeYear epoch (year + 1) = daysBeforeYear epoch year + yearLength year := by
  have hlength : year + 1 - epoch = (year - epoch) + 1 := by omega
  rw [daysBeforeYear, hlength, List.range'_concat, List.map_append, List.sum_append, mul_comm,
    Nat.mul_one, Nat.add_sub_cancel' h]
  simp [daysBeforeYear]

theorem daysBeforeMonth_succ {year month : ℕ} (h : 1 ≤ month) :
    daysBeforeMonth year (month + 1) = daysBeforeMonth year month + monthLength year month := by
  obtain ⟨month, rfl⟩ := Nat.exists_eq_add_of_le' h
  rw [daysBeforeMonth, Nat.add_sub_cancel, List.range'_concat, List.map_append, List.sum_append]
  simp [daysBeforeMonth, Nat.add_comm]

/-- December ends the year. -/
theorem daysBeforeMonth_end (year : ℕ) : daysBeforeMonth year 13 = yearLength year := by
  unfold daysBeforeMonth yearLength
  by_cases hleap : isLeapYear year <;> simp [List.range', monthLength, hleap]

theorem daysBeforeYear_mono {epoch year later : ℕ} (h : year ≤ later) :
    daysBeforeYear epoch year ≤ daysBeforeYear epoch later := by
  induction later, h using Nat.le_induction with
  | base => exact Nat.le_refl _
  | succ later h ih =>
    refine ih.trans ?_
    by_cases hepoch : epoch ≤ later
    · rw [daysBeforeYear_succ hepoch]
      exact Nat.le_add_right ..
    · have hnone : later + 1 - epoch = 0 := by omega
      have hnone' : later - epoch = 0 := by omega
      simp [daysBeforeYear, hnone, hnone']

theorem daysBeforeMonth_mono {year month later : ℕ} (hmonth : 1 ≤ month) (h : month ≤ later) :
    daysBeforeMonth year month ≤ daysBeforeMonth year later := by
  induction later, h using Nat.le_induction with
  | base => exact Nat.le_refl _
  | succ later h ih =>
    rw [daysBeforeMonth_succ (hmonth.trans h)]
    exact ih.trans (Nat.le_add_right ..)

/-- The leap years up to a year. -/
def leapYears (year : ℕ) : ℕ := year / 4 - year / 100 + year / 400

theorem leapYears_succ (year : ℕ) :
    leapYears (year + 1) = leapYears year + (if isLeapYear (year + 1) then 1 else 0) := by
  have hle : year / 100 ≤ year / 4 := Nat.div_le_div_left (by decide) (by decide)
  have h100 : 100 ∣ year + 1 → 4 ∣ year + 1 := Nat.dvd_trans (by decide)
  have h400 : 400 ∣ year + 1 → 100 ∣ year + 1 := Nat.dvd_trans (by decide)
  simp only [leapYears, isLeapYear, ← Nat.dvd_iff_mod_eq_zero, Nat.succ_div, Bool.and_eq_true,
    Bool.or_eq_true, decide_eq_true_eq, ne_eq]
  generalize year / 4 = a, year / 100 = b, year / 400 = c at *
  by_cases hfour : 4 ∣ year + 1
  · by_cases hhundred : 100 ∣ year + 1
    · by_cases hfourHundred : 400 ∣ year + 1
      · simp [hfour, hhundred, hfourHundred]
        omega
      · simp [hfour, hhundred, hfourHundred]
    · have hnot : ¬400 ∣ year + 1 := fun h => hhundred (h400 h)
      simp [hfour, hhundred, hnot]
      omega
  · have hnot : ¬100 ∣ year + 1 := fun h => hfour (h100 h)
    have hnot' : ¬400 ∣ year + 1 := fun h => hnot (h400 h)
    simp [hfour, hnot, hnot']

/-- **The years in closed form**: 365 days each, and one for each leap year. -/
theorem daysBeforeYear_closed {epoch year : ℕ} (hepoch : 1 ≤ epoch) (h : epoch ≤ year) :
    daysBeforeYear epoch year + leapYears (epoch - 1) =
      (year - epoch) * 365 + leapYears (year - 1) := by
  induction year, h using Nat.le_induction with
  | base => simp [daysBeforeYear_self]
  | succ year h ih =>
    obtain ⟨before, rfl⟩ := Nat.exists_eq_add_of_le' (hepoch.trans h)
    have hleap := leapYears_succ before
    rw [daysBeforeYear_succ h, yearLength]
    rw [Nat.add_sub_cancel] at ih ⊢
    split_ifs at hleap ⊢ <;> omega

/-! ## Dates -/

/-- A day of the calendar. -/
structure Date where
  year : ℕ
  month : ℕ
  day : ℕ
deriving DecidableEq, Repr

/-- Months and days are counted from 1. -/
structure Date.Valid (d : Date) : Prop where
  month_pos : 1 ≤ d.month
  month_le : d.month ≤ 12
  day_pos : 1 ≤ d.day
  day_le : d.day ≤ monthLength d.year d.month

/-- The days from the beginning of `epoch` to a date. -/
def dayNumber (epoch : ℕ) (d : Date) : ℕ :=
  daysBeforeYear epoch d.year + daysBeforeMonth d.year d.month + (d.day - 1)

/-- The days of a year before a date are fewer than the year has. -/
theorem dayOfYear_lt {d : Date} (h : d.Valid) :
    daysBeforeMonth d.year d.month + (d.day - 1) < daysBeforeMonth d.year (d.month + 1) := by
  have hsucc := @daysBeforeMonth_succ d.year _ h.month_pos
  have := h.day_pos
  have := h.day_le
  omega

theorem dayNumber_lt_year {epoch : ℕ} {d : Date} (h : d.Valid) (hepoch : epoch ≤ d.year) :
    dayNumber epoch d < daysBeforeYear epoch (d.year + 1) := by
  have hlt := dayOfYear_lt h
  have hend : daysBeforeMonth d.year (d.month + 1) ≤ yearLength d.year := by
    rw [← daysBeforeMonth_end]
    exact daysBeforeMonth_mono (Nat.le_add_left ..) (Nat.succ_le_succ h.month_le)
  rw [daysBeforeYear_succ hepoch, dayNumber]
  omega

/-- Two numbers with a cell of a growing sequence each, and in no other. -/
theorem eq_of_cells {f : ℕ → ℕ} (hmono : ∀ a b, a ≤ b → f a ≤ f b) {n a b : ℕ}
    (ha : f a ≤ n ∧ n < f (a + 1)) (hb : f b ≤ n ∧ n < f (b + 1)) : a = b := by
  by_contra hne
  rcases Nat.lt_or_gt_of_ne hne with hlt | hlt
  · have := hmono (a + 1) b hlt
    omega
  · have := hmono (b + 1) a hlt
    omega

/-- **A date is found again from its number.** -/
theorem dayNumber_injective {epoch : ℕ} {d e : Date} (hd : d.Valid) (he : e.Valid)
    (hdy : epoch ≤ d.year) (hey : epoch ≤ e.year) (h : dayNumber epoch d = dayNumber epoch e) :
    d = e := by
  obtain ⟨year, month, day⟩ := d
  obtain ⟨year', month', day'⟩ := e
  have hyear : year = year' := by
    refine eq_of_cells (f := daysBeforeYear epoch) (fun a b => daysBeforeYear_mono)
      (n := dayNumber epoch ⟨year, month, day⟩) ⟨?_, dayNumber_lt_year hd hdy⟩ ⟨?_, ?_⟩
    · exact (Nat.le_add_right ..).trans (Nat.le_add_right ..)
    · rw [h]
      exact (Nat.le_add_right ..).trans (Nat.le_add_right ..)
    · rw [h]
      exact dayNumber_lt_year he hey
  subst hyear
  have hday : daysBeforeMonth year month + (day - 1) =
      daysBeforeMonth year month' + (day' - 1) := by
    simp only [dayNumber] at h
    omega
  have hmonth : month - 1 = month' - 1 := by
    refine eq_of_cells (f := fun m => daysBeforeMonth year (m + 1))
      (fun a b hab => daysBeforeMonth_mono (Nat.le_add_left ..) (Nat.succ_le_succ hab))
      (n := daysBeforeMonth year month + (day - 1)) ⟨?_, ?_⟩ ⟨?_, ?_⟩
    · rw [Nat.sub_add_cancel hd.month_pos]
      exact Nat.le_add_right ..
    · rw [Nat.sub_add_cancel hd.month_pos]
      exact dayOfYear_lt hd
    · rw [Nat.sub_add_cancel he.month_pos, hday]
      exact Nat.le_add_right ..
    · rw [Nat.sub_add_cancel he.month_pos, hday]
      exact dayOfYear_lt he
  have hm := hd.month_pos
  have hm' := he.month_pos
  simp only at hm hm'
  obtain rfl : month = month' := by omega
  have hdp := hd.day_pos
  have hdp' := he.day_pos
  simp only at hdp hdp'
  have : day = day' := by omega
  rw [this]

/-! ## Seconds -/

/-- A second of the calendar, in UTC. -/
structure DateTime extends Date where
  hour : ℕ
  minute : ℕ
  second : ℕ
deriving DecidableEq, Repr

structure DateTime.Valid (t : DateTime) : Prop where
  date : t.toDate.Valid
  hour : t.hour < 24
  minute : t.minute < 60
  second : t.second < 60

/-- The seconds from the beginning of `epoch` on. -/
def seconds (epoch : ℕ) (t : DateTime) : ℕ :=
  ((dayNumber epoch t.toDate * 24 + t.hour) * 60 + t.minute) * 60 + t.second

theorem seconds_injective {epoch : ℕ} {t u : DateTime} (ht : t.Valid) (hu : u.Valid)
    (hty : epoch ≤ t.year) (huy : epoch ≤ u.year) (h : seconds epoch t = seconds epoch u) :
    t = u := by
  have hth := ht.hour
  have htm := ht.minute
  have hts := ht.second
  have huh := hu.hour
  have hum := hu.minute
  have hus := hu.second
  simp only [seconds] at h
  have hdate : t.toDate = u.toDate :=
    dayNumber_injective ht.date hu.date hty huy (by omega)
  obtain ⟨d, hour, minute, second⟩ := t
  obtain ⟨e, hour', minute', second'⟩ := u
  simp only at *
  subst hdate
  have : hour = hour' ∧ minute = minute' ∧ second = second' := by omega
  rw [this.1, this.2.1, this.2.2]

/-! ## The week -/

/-- The ISO day of the week, Monday being 1, so many days after a Thursday. -/
def weekday : ℕ → ℕ
  | 0 => 4
  | n + 1 => weekday n % 7 + 1

theorem weekday_eq (n : ℕ) : weekday n = (n + 3) % 7 + 1 := by
  induction n with
  | zero => rfl
  | succ n ih =>
    rw [weekday, ih]
    omega

end Calendar
