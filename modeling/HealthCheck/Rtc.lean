import HealthCheck.Lib.Calendar
import HealthCheck.Lib.Nor

/-!
# The real-time clock

`rtc.c`: Unix time to the calendar registers of the RTC and back. The two directions walk through
the years and the months on their own, in machine arithmetic, and the registers hold packed BCD.

* `clock_round_trip` — every time that is set is read back, as the date it is.
-/

namespace HealthCheck.Rtc

open Nor (Status)

/-- `RTC_SYNC_MARKER`. -/
def syncMarker : UInt32 := 0x52544353

/-- `RTC_SECONDS_PER_DAY`. -/
def secondsPerDay : UInt32 := 86400

/-- `RTC_UNIX_YEAR_2000`. -/
def unixYear2000 : UInt32 := 946684800

/-- `RTC_UNIX_YEAR_2100`. -/
def unixYear2100 : UInt32 := 4102444800

/-- `rtc_ToBcd`. -/
def toBcd (value : UInt8) : UInt8 := (value / 10) <<< 4 ||| value % 10

/-- `rtc_FromBcd`. -/
def fromBcd (value : UInt8) : UInt8 := (value >>> 4) * 10 + (value &&& 0x0F)

/-- `rtc_IsLeapYear`. -/
def isLeapYear (year : UInt16) : Bool :=
  year % 4 = 0 && (year % 100 ≠ 0 || year % 400 = 0)

/-- `rtc_IsLeapYear(year) ? 366UL : 365UL`. -/
def daysInYear (year : UInt16) : UInt32 := if isLeapYear year then 366 else 365

/-- The table of `rtc_DaysInMonth`. -/
def monthDays : List UInt8 := [31, 28, 31, 30, 31, 30, 31, 31, 30, 31, 30, 31]

/-- `rtc_DaysInMonth`. Its callers stay inside the table. -/
def daysInMonth (year : UInt16) (month : UInt8) : UInt8 :=
  if month = 2 && isLeapYear year then 29 else monthDays.getD (month - 1).toNat 31

/-- `RTC->TR`, `RTC->DR` and `RTC->BKP0R`. -/
structure Registers where
  tr : UInt32
  dr : UInt32
  bkp0r : UInt32
deriving DecidableEq

/-- `Rtc_DateTimeTypeDef`. -/
structure DateTime where
  year : UInt16
  month : UInt8
  day : UInt8
  hour : UInt8
  minute : UInt8
  second : UInt8
deriving DecidableEq, Repr

/-! ## The fields of the registers -/

/-- `RTC_TR_HU_Pos`, `RTC_TR_MNU_Pos` and `RTC_TR_SU_Pos`; tens and units of a field are together. -/
def trHours : UInt32 := 16
def trMinutes : UInt32 := 8
def trSeconds : UInt32 := 0

/-- `RTC_DR_YU_Pos`, `RTC_DR_WDU_Pos`, `RTC_DR_MU_Pos` and `RTC_DR_DU_Pos`. -/
def drYear : UInt32 := 16
def drWeekday : UInt32 := 13
def drMonth : UInt32 := 8
def drDay : UInt32 := 0

/-- `RTC_TR_HT | RTC_TR_HU` and so on. -/
def trHoursMask : UInt32 := 0x3F0000
def trMinutesMask : UInt32 := 0x7F00
def trSecondsMask : UInt32 := 0x7F
def drMonthMask : UInt32 := 0x1F00
def drDayMask : UInt32 := 0x3F

/-! ## Setting the clock -/

theorem daysInYear_cases (year : UInt16) : daysInYear year = 365 ∨ daysInYear year = 366 := by
  unfold daysInYear
  split
  · exact .inr rfl
  · exact .inl rfl

theorem daysInMonth_pos (year : UInt16) (month : UInt8) : 0 < (daysInMonth year month).toNat := by
  have htable : ∀ n : ℕ, 0 < (monthDays.getD n 31).toNat := by
    intro n
    by_cases hn : n < 12
    · interval_cases n <;> decide
    · rw [List.getD_eq_default _ _ (Nat.le_of_not_lt hn)]
      decide
  unfold daysInMonth
  split
  · decide
  · exact htable _

/-- The loop of `Rtc_SetUnixTime` over the years. -/
def takeYears (days : UInt32) (year : UInt16) : UInt32 × UInt16 :=
  if days ≥ daysInYear year then takeYears (days - daysInYear year) (year + 1) else (days, year)
termination_by days.toNat
decreasing_by
  rename_i h
  rw [UInt32.toNat_sub_of_le _ _ h]
  have hle := UInt32.le_iff_toNat_le.1 h
  rcases daysInYear_cases year with hlength | hlength <;> rw [hlength] at hle ⊢ <;>
    simp only [UInt32.reduceToNat] at * <;> omega

/-- The loop over the months. -/
def takeMonths (year : UInt16) (days : UInt32) (month : UInt8) : UInt32 × UInt8 :=
  if days ≥ (daysInMonth year month).toUInt32 then
    takeMonths year (days - (daysInMonth year month).toUInt32) (month + 1)
  else (days, month)
termination_by days.toNat
decreasing_by
  rename_i h
  rw [UInt32.toNat_sub_of_le _ _ h]
  have hle := UInt32.le_iff_toNat_le.1 h
  have hpos := daysInMonth_pos year month
  rw [UInt8.toNat_toUInt32] at *
  omega

/-- What `Rtc_SetUnixTime` writes to `RTC->TR`. -/
def timeRegister (unixTime : UInt32) : UInt32 :=
  let seconds := unixTime % secondsPerDay
  let hours := (seconds / 3600).toUInt8
  let minutes := (seconds % 3600 / 60).toUInt8
  let secondsValue := (seconds % 60).toUInt8
  (toBcd hours).toUInt32 <<< trHours ||| (toBcd minutes).toUInt32 <<< trMinutes |||
    (toBcd secondsValue).toUInt32 <<< trSeconds

/-- The weekday it writes. -/
def weekdayOf (unixTime : UInt32) : UInt8 := ((unixTime / secondsPerDay + 3) % 7 + 1).toUInt8

/-- What it writes to `RTC->DR`. -/
def dateRegister (unixTime : UInt32) : UInt32 :=
  let (days, year) := takeYears (unixTime / secondsPerDay) 1970
  let (days, month) := takeMonths year days 1
  (toBcd (year - 2000).toUInt8).toUInt32 <<< drYear |||
    (weekdayOf unixTime).toUInt32 <<< drWeekday ||| (toBcd month).toUInt32 <<< drMonth |||
    (toBcd (days + 1).toUInt8).toUInt32 <<< drDay

/-- `Rtc_SetUnixTime`; `entered` and `left` are what `rtc_EnterInitMode` and `rtc_LeaveInitMode`
return. -/
def setUnixTime (unixTime : UInt32) (entered left : Status) (r : Registers) :
    Status × Registers :=
  if unixTime < unixYear2000 ∨ unixTime ≥ unixYear2100 then (.error, r)
  else if entered ≠ .ok then (.timeout, r)
  else
    let r := { r with tr := timeRegister unixTime, dr := dateRegister unixTime }
    if left ≠ .ok then (left, r) else (.ok, { r with bkp0r := syncMarker })

/-! ## Reading the clock -/

/-- `Rtc_GetDateTime`. -/
def getDateTime (r : Registers) : DateTime where
  year := 2000 + (fromBcd (r.dr >>> drYear).toUInt8).toUInt16
  month := fromBcd ((r.dr &&& drMonthMask) >>> drMonth).toUInt8
  day := fromBcd ((r.dr &&& drDayMask) >>> drDay).toUInt8
  hour := fromBcd ((r.tr &&& trHoursMask) >>> trHours).toUInt8
  minute := fromBcd ((r.tr &&& trMinutesMask) >>> trMinutes).toUInt8
  second := fromBcd ((r.tr &&& trSecondsMask) >>> trSeconds).toUInt8

/-- The two loops of `Rtc_GetUnixTime`. -/
def daysBefore (dateTime : DateTime) : UInt32 :=
  let days := (List.range' 1970 (dateTime.year.toNat - 1970)).foldl
    (fun days year => days + daysInYear (.ofNat year)) 0
  (List.range' 1 (dateTime.month.toNat - 1)).foldl
    (fun days month => days + (daysInMonth dateTime.year (.ofNat month)).toUInt32) days

/-- `Rtc_GetUnixTime`, from the fields `Rtc_GetDateTime` has read. -/
def unixTimeOf (dateTime : DateTime) : UInt32 :=
  let days := daysBefore dateTime + (dateTime.day.toUInt32 - 1)
  days * secondsPerDay + dateTime.hour.toUInt32 * 3600 + dateTime.minute.toUInt32 * 60 +
    dateTime.second.toUInt32

/-- `Rtc_GetUnixTime`. -/
def getUnixTime (r : Registers) : UInt32 := unixTimeOf (getDateTime r)

/-! ## The calendar of the driver -/

theorem isLeapYear_eq (year : UInt16) : isLeapYear year = Calendar.isLeapYear year.toNat := by
  have hmod (n : UInt16) : year % n = 0 ↔ year.toNat % n.toNat = 0 := by
    rw [← UInt16.toNat_inj, UInt16.toNat_mod]
    exact Iff.rfl
  simp only [isLeapYear, Calendar.isLeapYear, ne_eq, hmod]
  rfl

theorem daysInYear_toNat (year : UInt16) :
    (daysInYear year).toNat = Calendar.yearLength year.toNat := by
  unfold daysInYear Calendar.yearLength
  rw [isLeapYear_eq]
  split <;> rfl

theorem daysInMonth_toNat (year : UInt16) {month : UInt8} (hpos : 1 ≤ month.toNat)
    (hle : month.toNat ≤ 12) :
    (daysInMonth year month).toNat = Calendar.monthLength year.toNat month.toNat := by
  obtain ⟨n, hn⟩ : ∃ n, month.toNat = n := ⟨_, rfl⟩
  obtain rfl : month = UInt8.ofNat n := by rw [← hn, UInt8.ofNat_toNat]
  rw [hn] at hpos hle ⊢
  unfold daysInMonth
  rw [isLeapYear_eq]
  by_cases hleap : Calendar.isLeapYear year.toNat <;> interval_cases n <;>
    simp [Calendar.monthLength, hleap, monthDays]

/-- The years that are taken off, in days. -/
theorem takeYears_spec {epoch : ℕ} (days : UInt32) (year : UInt16)
    (h : year.toNat + days.toNat < 2 ^ 16) (hepoch : epoch ≤ year.toNat) :
    (takeYears days year).1.toNat < Calendar.yearLength (takeYears days year).2.toNat ∧
      year.toNat ≤ (takeYears days year).2.toNat ∧
      Calendar.daysBeforeYear epoch (takeYears days year).2.toNat + (takeYears days year).1.toNat =
        Calendar.daysBeforeYear epoch year.toNat + days.toNat := by
  induction days, year using takeYears.induct with
  | case1 days year hle ih =>
    have hlength := daysInYear_toNat year
    have hdays : (days - daysInYear year).toNat =
        days.toNat - Calendar.yearLength year.toNat := by
      rw [UInt32.toNat_sub_of_le _ _ hle, hlength]
    have hge : Calendar.yearLength year.toNat ≤ days.toNat :=
      hlength ▸ UInt32.le_iff_toNat_le.1 hle
    have hpos := Calendar.yearLength_cases year.toNat
    have hnext : (year + 1).toNat = year.toNat + 1 := by
      rw [UInt16.toNat_add]
      exact Nat.mod_eq_of_lt (by simp only [UInt16.reduceToNat]; omega)
    have hsucc := Calendar.daysBeforeYear_succ hepoch
    rw [takeYears, if_pos hle]
    obtain ⟨hlt, hyear, hsum⟩ := ih (by omega) (by omega)
    refine ⟨hlt, by omega, ?_⟩
    rw [hsum, hnext, hsucc, hdays]
    omega
  | case2 days year hlt =>
    rw [takeYears, if_neg hlt]
    refine ⟨?_, Nat.le_refl _, rfl⟩
    rw [← daysInYear_toNat]
    exact UInt32.lt_iff_toNat_lt.1 (UInt32.not_le.1 hlt)

/-- The months that are taken off. -/
theorem takeMonths_spec (year : UInt16) (days : UInt32) (month : UInt8) (hpos : 1 ≤ month.toNat)
    (hle : month.toNat ≤ 12)
    (h : Calendar.daysBeforeMonth year.toNat month.toNat + days.toNat <
      Calendar.yearLength year.toNat) :
    1 ≤ (takeMonths year days month).2.toNat ∧ (takeMonths year days month).2.toNat ≤ 12 ∧
      (takeMonths year days month).1.toNat <
        Calendar.monthLength year.toNat (takeMonths year days month).2.toNat ∧
      Calendar.daysBeforeMonth year.toNat (takeMonths year days month).2.toNat +
        (takeMonths year days month).1.toNat =
        Calendar.daysBeforeMonth year.toNat month.toNat + days.toNat := by
  induction days, month using takeMonths.induct year with
  | case1 days month hge ih =>
    have hlength := daysInMonth_toNat year hpos hle
    have hdays : (days - (daysInMonth year month).toUInt32).toNat =
        days.toNat - Calendar.monthLength year.toNat month.toNat := by
      rw [UInt32.toNat_sub_of_le _ _ hge, UInt8.toNat_toUInt32, hlength]
    have hge' : Calendar.monthLength year.toNat month.toNat ≤ days.toNat := by
      have := UInt32.le_iff_toNat_le.1 hge
      rwa [UInt8.toNat_toUInt32, hlength] at this
    have hsucc := @Calendar.daysBeforeMonth_succ year.toNat _ hpos
    -- behind December there is no day left
    have hmonth : month.toNat < 12 := by
      by_contra hlast
      have htwelve : month.toNat = 12 := by omega
      have hend : Calendar.daysBeforeMonth year.toNat (12 + 1) = Calendar.yearLength year.toNat :=
        Calendar.daysBeforeMonth_end _
      rw [htwelve] at hsucc hge' h
      omega
    have hnext : (month + 1).toNat = month.toNat + 1 := by
      rw [UInt8.toNat_add]
      exact Nat.mod_eq_of_lt (by simp only [UInt8.reduceToNat]; omega)
    rw [takeMonths, if_pos hge]
    obtain ⟨hpos', hle', hlt, hsum⟩ := ih (by omega) (by omega) (by rw [hnext, hsucc, hdays]; omega)
    refine ⟨hpos', hle', hlt, ?_⟩
    rw [hsum, hnext, hsucc, hdays]
    omega
  | case2 days month hlt =>
    rw [takeMonths, if_neg hlt]
    refine ⟨hpos, hle, ?_, rfl⟩
    rw [← daysInMonth_toNat year hpos hle]
    have := UInt32.lt_iff_toNat_lt.1 (UInt32.not_le.1 hlt)
    rwa [UInt8.toNat_toUInt32] at this

/-! ## Packed fields -/

theorem fromBcd_toBcd {value : UInt8} (h : value.toNat < 100) : fromBcd (toBcd value) = value := by
  have hall : ∀ n < 100, fromBcd (toBcd (UInt8.ofNat n)) = UInt8.ofNat n := by decide +kernel
  rw [← UInt8.ofNat_toNat (x := value)]
  exact hall _ h

/-- A BCD byte has its tens above its units. -/
theorem toNat_toBcd {value : UInt8} (h : value.toNat < 100) :
    (toBcd value).toNat = value.toNat / 10 * 16 + value.toNat % 10 := by
  have hall : ∀ n < 100, (toBcd (UInt8.ofNat n)).toNat = n / 10 * 16 + n % 10 := by
    decide +kernel
  have := hall _ h
  rwa [UInt8.ofNat_toNat] at this

/-- A field below others. -/
theorem or_field {a b k : ℕ} (h : b < 2 ^ k) : a * 2 ^ k ||| b = a * 2 ^ k + b := by
  rw [← Nat.shiftLeft_eq, Nat.shiftLeft_add_eq_or_of_lt h]

/-- Reading a field of `w` bits from bit `k` on. -/
theorem and_field (n k w : ℕ) : (n &&& (2 ^ w - 1) <<< k) >>> k = n / 2 ^ k % 2 ^ w := by
  rw [Nat.shiftRight_and_distrib, Nat.shiftLeft_shiftRight, Nat.and_two_pow_sub_one_eq_mod,
    Nat.shiftRight_eq_div_pow]

theorem toNat_field (a : UInt8) {k : UInt32} (hk : k.toNat ≤ 24) :
    (a.toUInt32 <<< k).toNat = a.toNat * 2 ^ k.toNat := by
  have hshift : k.toNat % 32 = k.toNat := Nat.mod_eq_of_lt (by omega)
  rw [UInt32.toNat_shiftLeft, UInt8.toNat_toUInt32, hshift, Nat.shiftLeft_eq]
  refine Nat.mod_eq_of_lt ?_
  calc a.toNat * 2 ^ k.toNat < 2 ^ 8 * 2 ^ k.toNat :=
        Nat.mul_lt_mul_of_pos_right a.toNat_lt (by positivity)
    _ ≤ 2 ^ 8 * 2 ^ 24 := Nat.mul_le_mul_left _ (Nat.pow_le_pow_right (by decide) hk)

theorem or_time {a b c : ℕ} (hb : b < 2 ^ 8) (hc : c < 2 ^ 8) :
    a * 2 ^ 16 ||| b * 2 ^ 8 ||| c = a * 2 ^ 16 + b * 2 ^ 8 + c := by
  have hor : a * 2 ^ 16 + b * 2 ^ 8 = (a * 2 ^ 8 + b) * 2 ^ 8 := by ring
  rw [or_field (k := 16) (by omega), hor, or_field hc]

theorem or_date {y w m d : ℕ} (hw : w < 2 ^ 3) (hm : m < 2 ^ 5) (hd : d < 2 ^ 8) :
    y * 2 ^ 16 ||| w * 2 ^ 13 ||| m * 2 ^ 8 ||| d =
      y * 2 ^ 16 + w * 2 ^ 13 + m * 2 ^ 8 + d := by
  have hor : y * 2 ^ 16 + w * 2 ^ 13 = (y * 2 ^ 3 + w) * 2 ^ 13 := by ring
  have hor' : (y * 2 ^ 3 + w) * 2 ^ 13 + m * 2 ^ 8 = ((y * 2 ^ 3 + w) * 2 ^ 5 + m) * 2 ^ 8 := by
    ring
  rw [or_field (k := 16) (by omega), hor, or_field (k := 13) (by omega), hor', or_field hd]

theorem time_digits {a b c : ℕ} (ha : a < 2 ^ 6) (hb : b < 2 ^ 7) (hc : c < 2 ^ 7) :
    (a * 2 ^ 16 + b * 2 ^ 8 + c) / 2 ^ 16 % 2 ^ 6 = a ∧
      (a * 2 ^ 16 + b * 2 ^ 8 + c) / 2 ^ 8 % 2 ^ 7 = b ∧
      (a * 2 ^ 16 + b * 2 ^ 8 + c) / 2 ^ 0 % 2 ^ 7 = c := by omega

theorem date_digits {y w m d : ℕ} (hw : w < 2 ^ 3) (hm : m < 2 ^ 5) (hd : d < 2 ^ 6) :
    (y * 2 ^ 16 + w * 2 ^ 13 + m * 2 ^ 8 + d) / 2 ^ 16 = y ∧
      (y * 2 ^ 16 + w * 2 ^ 13 + m * 2 ^ 8 + d) / 2 ^ 13 % 2 ^ 3 = w ∧
      (y * 2 ^ 16 + w * 2 ^ 13 + m * 2 ^ 8 + d) / 2 ^ 8 % 2 ^ 5 = m ∧
      (y * 2 ^ 16 + w * 2 ^ 13 + m * 2 ^ 8 + d) / 2 ^ 0 % 2 ^ 6 = d := by omega

/-- The parts of a time of day, packed and read back. -/
theorem time_fields {hours minutes seconds : UInt8} (hh : hours.toNat < 24)
    (hm : minutes.toNat < 60) (hs : seconds.toNat < 60) {tr : UInt32}
    (htr : tr = (toBcd hours).toUInt32 <<< trHours ||| (toBcd minutes).toUInt32 <<< trMinutes |||
      (toBcd seconds).toUInt32 <<< trSeconds) :
    fromBcd ((tr &&& trHoursMask) >>> trHours).toUInt8 = hours ∧
      fromBcd ((tr &&& trMinutesMask) >>> trMinutes).toUInt8 = minutes ∧
      fromBcd ((tr &&& trSecondsMask) >>> trSeconds).toUInt8 = seconds := by
  have hhb : (toBcd hours).toNat < 2 ^ 6 := by
    rw [toNat_toBcd (by omega)]
    omega
  have hmb : (toBcd minutes).toNat < 2 ^ 7 := by
    rw [toNat_toBcd (by omega)]
    omega
  have hsb : (toBcd seconds).toNat < 2 ^ 7 := by
    rw [toNat_toBcd (by omega)]
    omega
  have hhours : ((toBcd hours).toUInt32 <<< trHours).toNat = (toBcd hours).toNat * 2 ^ 16 :=
    toNat_field _ (by decide)
  have hminutes : ((toBcd minutes).toUInt32 <<< trMinutes).toNat = (toBcd minutes).toNat * 2 ^ 8 :=
    toNat_field _ (by decide)
  have hseconds : ((toBcd seconds).toUInt32 <<< trSeconds).toNat = (toBcd seconds).toNat :=
    (toNat_field _ (by decide)).trans (Nat.mul_one _)
  have hword : tr.toNat = (toBcd hours).toNat * 2 ^ 16 + (toBcd minutes).toNat * 2 ^ 8 +
      (toBcd seconds).toNat := by
    rw [htr, UInt32.toNat_or, UInt32.toNat_or, hhours, hminutes, hseconds]
    exact or_time (toBcd minutes).toNat_lt (toBcd seconds).toNat_lt
  obtain ⟨hread₁, hread₂, hread₃⟩ := time_digits hhb hmb hsb
  rw [← hword] at hread₁ hread₂ hread₃
  have hfield (mask k : UInt32) (v : UInt8)
      (h : (tr.toNat &&& mask.toNat) >>> (k.toNat % 32) = (toBcd v).toNat) :
      ((tr &&& mask) >>> k).toUInt8 = toBcd v := by
    rw [← UInt8.toNat_inj, UInt32.toNat_toUInt8, UInt32.toNat_shiftRight, UInt32.toNat_and, h]
    exact Nat.mod_eq_of_lt (toBcd v).toNat_lt
  refine ⟨?_, ?_, ?_⟩
  · rw [hfield trHoursMask trHours hours, fromBcd_toBcd (by omega)]
    exact (and_field tr.toNat 16 6).trans hread₁
  · rw [hfield trMinutesMask trMinutes minutes, fromBcd_toBcd (by omega)]
    exact (and_field tr.toNat 8 7).trans hread₂
  · rw [hfield trSecondsMask trSeconds seconds, fromBcd_toBcd (by omega)]
    exact (and_field tr.toNat 0 7).trans hread₃

/-- The same for a date. -/
theorem date_fields {year month day weekday : UInt8} (hy : year.toNat < 100)
    (hw : weekday.toNat < 2 ^ 3) (hm : month.toNat ≤ 12) (hd : day.toNat ≤ 31) {dr : UInt32}
    (hdr : dr = (toBcd year).toUInt32 <<< drYear ||| weekday.toUInt32 <<< drWeekday |||
      (toBcd month).toUInt32 <<< drMonth ||| (toBcd day).toUInt32 <<< drDay) :
    fromBcd (dr >>> drYear).toUInt8 = year ∧
      fromBcd ((dr &&& drMonthMask) >>> drMonth).toUInt8 = month ∧
      fromBcd ((dr &&& drDayMask) >>> drDay).toUInt8 = day ∧
      dr.toNat / 2 ^ 13 % 2 ^ 3 = weekday.toNat := by
  have hmb : (toBcd month).toNat < 2 ^ 5 := by
    rw [toNat_toBcd (by omega)]
    omega
  have hdb : (toBcd day).toNat < 2 ^ 6 := by
    rw [toNat_toBcd (by omega)]
    omega
  have hyear : ((toBcd year).toUInt32 <<< drYear).toNat = (toBcd year).toNat * 2 ^ 16 :=
    toNat_field _ (by decide)
  have hweekday : (weekday.toUInt32 <<< drWeekday).toNat = weekday.toNat * 2 ^ 13 :=
    toNat_field _ (by decide)
  have hmonth : ((toBcd month).toUInt32 <<< drMonth).toNat = (toBcd month).toNat * 2 ^ 8 :=
    toNat_field _ (by decide)
  have hday : ((toBcd day).toUInt32 <<< drDay).toNat = (toBcd day).toNat :=
    (toNat_field _ (by decide)).trans (Nat.mul_one _)
  have hword : dr.toNat = (toBcd year).toNat * 2 ^ 16 + weekday.toNat * 2 ^ 13 +
      (toBcd month).toNat * 2 ^ 8 + (toBcd day).toNat := by
    rw [hdr, UInt32.toNat_or, UInt32.toNat_or, UInt32.toNat_or, hyear, hweekday, hmonth, hday]
    exact or_date hw hmb (toBcd day).toNat_lt
  obtain ⟨hread₁, hread₂, hread₃, hread₄⟩ := date_digits (y := (toBcd year).toNat) hw hmb hdb
  rw [← hword] at hread₁ hread₂ hread₃ hread₄
  have hfield (word : UInt32) (v : UInt8) (h : word.toNat = (toBcd v).toNat) :
      word.toUInt8 = toBcd v := by
    rw [← UInt8.toNat_inj, UInt32.toNat_toUInt8, h]
    exact Nat.mod_eq_of_lt (toBcd v).toNat_lt
  refine ⟨?_, ?_, ?_, hread₂⟩
  · rw [hfield (dr >>> drYear) year, fromBcd_toBcd hy]
    rw [UInt32.toNat_shiftRight, Nat.shiftRight_eq_div_pow]
    exact hread₁
  · rw [hfield ((dr &&& drMonthMask) >>> drMonth) month, fromBcd_toBcd (by omega)]
    rw [UInt32.toNat_shiftRight, UInt32.toNat_and]
    exact (and_field dr.toNat 8 5).trans hread₃
  · rw [hfield ((dr &&& drDayMask) >>> drDay) day, fromBcd_toBcd (by omega)]
    rw [UInt32.toNat_shiftRight, UInt32.toNat_and]
    exact (and_field dr.toNat 0 6).trans hread₄

/-! ## Setting and reading -/

/-- The fields as a date and a time of day. -/
def DateTime.calendar (t : DateTime) : Calendar.DateTime where
  year := t.year.toNat
  month := t.month.toNat
  day := t.day.toNat
  hour := t.hour.toNat
  minute := t.minute.toNat
  second := t.second.toNat

/-- A machine sum that does not wrap. -/
theorem foldl_days {f : ℕ → UInt32} {g : ℕ → ℕ} {l : List ℕ} (hfg : ∀ n ∈ l, (f n).toNat = g n)
    (days : UInt32) (h : days.toNat + (l.map g).sum < 2 ^ 32) :
    (l.foldl (fun days n => days + f n) days).toNat = days.toNat + (l.map g).sum := by
  induction l generalizing days with
  | nil => simp
  | cons n l ih =>
    rw [List.map_cons, List.sum_cons, ← Nat.add_assoc] at h
    have hnext : (days + f n).toNat = days.toNat + g n := by
      rw [UInt32.toNat_add, hfg n List.mem_cons_self]
      exact Nat.mod_eq_of_lt (Nat.lt_of_le_of_lt (Nat.le_add_right ..) h)
    rw [List.foldl_cons, ih (fun k hk => hfg k (List.mem_cons_of_mem _ hk)) _ (by rwa [hnext]),
      hnext, List.map_cons, List.sum_cons, Nat.add_assoc]

/-- The loops of `Rtc_GetUnixTime` count the days before the month of a date. -/
theorem toNat_daysBefore {t : DateTime} (hmonth : t.month.toNat ≤ 12)
    (h : Calendar.daysBeforeYear 1970 t.year.toNat +
      Calendar.daysBeforeMonth t.year.toNat t.month.toNat < 2 ^ 32) :
    (daysBefore t).toNat = Calendar.daysBeforeYear 1970 t.year.toNat +
      Calendar.daysBeforeMonth t.year.toNat t.month.toNat := by
  have hyears : ∀ n ∈ List.range' 1970 (t.year.toNat - 1970),
      (daysInYear (.ofNat n)).toNat = Calendar.yearLength n := fun n hn => by
    rw [List.mem_range'_1] at hn
    have hlt := t.year.toNat_lt
    rw [daysInYear_toNat, UInt16.toNat_ofNat_of_lt' (by simp only [UInt16.size]; omega)]
  have hmonths : ∀ n ∈ List.range' 1 (t.month.toNat - 1),
      (daysInMonth t.year (.ofNat n)).toUInt32.toNat = Calendar.monthLength t.year.toNat n :=
    fun n hn => by
      rw [List.mem_range'_1] at hn
      have hn' : (UInt8.ofNat n).toNat = n :=
        UInt8.toNat_ofNat_of_lt' (by simp only [UInt8.size]; omega)
      rw [UInt8.toNat_toUInt32, daysInMonth_toNat t.year (by omega) (by omega), hn']
  have hyear := foldl_days hyears 0 (by
    rw [UInt32.toNat_zero, Nat.zero_add]
    exact Nat.lt_of_le_of_lt (Nat.le_add_right ..) h)
  rw [UInt32.toNat_zero, Nat.zero_add] at hyear
  unfold daysBefore
  rw [foldl_days hmonths _ (by rw [hyear]; exact h), hyear]
  rfl

/-- What `Rtc_GetUnixTime` makes of the fields of a date is the number of its seconds, as far as
32 bits go. -/
theorem toNat_unixTimeOf {t : DateTime} (ht : t.calendar.Valid)
    (h : Calendar.seconds 1970 t.calendar < 2 ^ 32) :
    (unixTimeOf t).toNat = Calendar.seconds 1970 t.calendar := by
  have hdays : Calendar.dayNumber 1970 t.calendar.toDate =
      Calendar.daysBeforeYear 1970 t.year.toNat +
        Calendar.daysBeforeMonth t.year.toNat t.month.toNat + (t.day.toNat - 1) := rfl
  have hseconds : Calendar.seconds 1970 t.calendar =
      ((Calendar.dayNumber 1970 t.calendar.toDate * 24 + t.hour.toNat) * 60 + t.minute.toNat) *
        60 + t.second.toNat := rfl
  have hbefore := toNat_daysBefore (t := t) ht.date.month_le (by omega)
  have hday : (t.day.toUInt32 - 1).toNat = t.day.toNat - 1 := by
    have hpos : 1 ≤ t.day.toNat := ht.date.day_pos
    rw [UInt32.toNat_sub_of_le _ _ (by
      rw [UInt32.le_iff_toNat_le, UInt8.toNat_toUInt32]
      exact hpos), UInt8.toNat_toUInt32]
    rfl
  have hsum : (daysBefore t + (t.day.toUInt32 - 1)).toNat =
      Calendar.dayNumber 1970 t.calendar.toDate := by
    rw [UInt32.toNat_add, hbefore, hday, ← hdays]
    exact Nat.mod_eq_of_lt (by omega)
  unfold unixTimeOf
  simp only [UInt32.toNat_add, UInt32.toNat_mul, hsum, UInt8.toNat_toUInt32, secondsPerDay,
    UInt32.reduceToNat, Nat.mod_add_mod, Nat.add_mod_mod]
  rw [Nat.mod_eq_of_lt (by omega)]
  omega

/-- What `Rtc_SetUnixTime` finds: a day of the years from 2000 to 2099. -/
theorem date_of_days {d : UInt32} (hlow : 10957 ≤ d.toNat) (hhigh : d.toNat < 47482) :
    let y := takeYears d 1970
    let m := takeMonths y.2 y.1 1
    2000 ≤ y.2.toNat ∧ y.2.toNat ≤ 2099 ∧ 1 ≤ m.2.toNat ∧ m.2.toNat ≤ 12 ∧
      m.1.toNat < Calendar.monthLength y.2.toNat m.2.toNat ∧
      Calendar.daysBeforeYear 1970 y.2.toNat + Calendar.daysBeforeMonth y.2.toNat m.2.toNat +
        m.1.toNat = d.toNat := by
  intro y m
  obtain ⟨hlt, hyear, hsum⟩ := takeYears_spec d 1970
    (by simp only [UInt16.reduceToNat]; omega) (Nat.le_refl 1970)
  have hzero : Calendar.daysBeforeYear 1970 (1970 : UInt16).toNat = 0 := rfl
  rw [hzero, Nat.zero_add] at hsum
  change y.1.toNat < Calendar.yearLength y.2.toNat at hlt
  change Calendar.daysBeforeYear 1970 y.2.toNat + y.1.toNat = d.toNat at hsum
  obtain ⟨hpos, hle, hday, hmonths⟩ := takeMonths_spec y.2 y.1 1 (Nat.le_refl _) (by decide)
    (by simpa [Calendar.daysBeforeMonth] using hlt)
  have hone : Calendar.daysBeforeMonth y.2.toNat (1 : UInt8).toNat = 0 := rfl
  rw [hone, Nat.zero_add] at hmonths
  have hlow' : Calendar.daysBeforeYear 1970 2000 = 10957 := by decide +kernel
  have hhigh' : Calendar.daysBeforeYear 1970 2100 = 47482 := by decide +kernel
  have hsucc : Calendar.daysBeforeYear 1970 (y.2.toNat + 1) =
      Calendar.daysBeforeYear 1970 y.2.toNat + Calendar.yearLength y.2.toNat :=
    Calendar.daysBeforeYear_succ hyear
  refine ⟨?_, ?_, hpos, hle, hday, ?_⟩
  · by_contra hearly
    have hmono : Calendar.daysBeforeYear 1970 (y.2.toNat + 1) ≤
        Calendar.daysBeforeYear 1970 2000 := Calendar.daysBeforeYear_mono (by omega)
    omega
  · by_contra hlate
    have hmono : Calendar.daysBeforeYear 1970 2100 ≤ Calendar.daysBeforeYear 1970 y.2.toNat :=
      Calendar.daysBeforeYear_mono (by omega)
    omega
  · rw [Nat.add_assoc, hmonths]
    exact hsum

/-- The date and time of day that `Rtc_SetUnixTime` writes. -/
def written (unixTime : UInt32) : DateTime :=
  let (days, year) := takeYears (unixTime / secondsPerDay) 1970
  let (days, month) := takeMonths year days 1
  let seconds := unixTime % secondsPerDay
  ⟨year, month, (days + 1).toUInt8, (seconds / 3600).toUInt8, (seconds % 3600 / 60).toUInt8,
    (seconds % 60).toUInt8⟩

/-- It is the date of the time that is set. -/
theorem written_spec {t : UInt32} (hlow : unixYear2000 ≤ t) (hhigh : t < unixYear2100) :
    (written t).calendar.Valid ∧ 2000 ≤ (written t).year.toNat ∧ (written t).year.toNat ≤ 2099 ∧
      Calendar.dayNumber 1970 (written t).calendar.toDate = t.toNat / 86400 ∧
      Calendar.seconds 1970 (written t).calendar = t.toNat := by
  have hlow' : 946684800 ≤ t.toNat := UInt32.le_iff_toNat_le.1 hlow
  have hhigh' : t.toNat < 4102444800 := UInt32.lt_iff_toNat_lt.1 hhigh
  have hdays : (t / secondsPerDay).toNat = t.toNat / 86400 := UInt32.toNat_div ..
  have hrest : (t % secondsPerDay).toNat = t.toNat % 86400 := UInt32.toNat_mod ..
  have hspec := date_of_days (d := t / secondsPerDay) (by omega) (by omega)
  unfold written
  rcases hyears : takeYears (t / secondsPerDay) 1970 with ⟨left, year⟩
  rcases hmonths : takeMonths year left 1 with ⟨days, month⟩
  simp only [hyears, hmonths] at hspec ⊢
  obtain ⟨hy, hy', hm, hm', hd, hsum⟩ := hspec
  have hlength : Calendar.monthLength year.toNat month.toNat ≤ 31 := Calendar.monthLength_le _ _
  have hday : (days + 1).toUInt8.toNat = days.toNat + 1 := by
    rw [UInt32.toNat_toUInt8, UInt32.toNat_add]
    show (days.toNat + 1) % 2 ^ 32 % 2 ^ 8 = _
    omega
  have hhour : (t % secondsPerDay / 3600).toUInt8.toNat = t.toNat % 86400 / 3600 := by
    rw [UInt32.toNat_toUInt8, UInt32.toNat_div, hrest]
    show t.toNat % 86400 / 3600 % 2 ^ 8 = _
    omega
  have hminute : (t % secondsPerDay % 3600 / 60).toUInt8.toNat =
      t.toNat % 86400 % 3600 / 60 := by
    rw [UInt32.toNat_toUInt8, UInt32.toNat_div, UInt32.toNat_mod, hrest]
    show t.toNat % 86400 % 3600 / 60 % 2 ^ 8 = _
    omega
  have hsecond : (t % secondsPerDay % 60).toUInt8.toNat = t.toNat % 86400 % 60 := by
    rw [UInt32.toNat_toUInt8, UInt32.toNat_mod, hrest]
    show t.toNat % 86400 % 60 % 2 ^ 8 = _
    omega
  have hnumber : Calendar.dayNumber 1970 ⟨year.toNat, month.toNat, days.toNat + 1⟩ =
      t.toNat / 86400 := by
    rw [Calendar.dayNumber, Nat.add_sub_cancel, ← hdays]
    exact hsum
  simp only [DateTime.calendar, Calendar.seconds, hday, hhour, hminute, hsecond, hnumber]
  refine ⟨⟨⟨hm, hm', Nat.le_add_left .., hd⟩, ?_, ?_, ?_⟩, hy, hy', trivial, ?_⟩
  · show t.toNat % 86400 / 3600 < 24
    omega
  · show t.toNat % 86400 % 3600 / 60 < 60
    omega
  · show t.toNat % 86400 % 60 < 60
    omega
  · omega

/-- The registers hold it. -/
theorem getDateTime_written {t : UInt32} (hlow : unixYear2000 ≤ t) (hhigh : t < unixYear2100)
    {r : Registers} (htr : r.tr = timeRegister t) (hdr : r.dr = dateRegister t) :
    getDateTime r = written t ∧
      r.dr.toNat / 2 ^ 13 % 2 ^ 3 = Calendar.weekday (t.toNat / 86400) := by
  obtain ⟨hvalid, hy, hy', -, -⟩ := written_spec hlow hhigh
  have hweekday : (weekdayOf t).toNat = Calendar.weekday (t.toNat / 86400) := by
    have hdays : (t / secondsPerDay).toNat = t.toNat / 86400 := UInt32.toNat_div ..
    have hlt := t.toNat_lt
    rw [Calendar.weekday_eq, weekdayOf, UInt32.toNat_toUInt8, UInt32.toNat_add, UInt32.toNat_mod,
      UInt32.toNat_add, hdays]
    show (((t.toNat / 86400 + 3) % 2 ^ 32) % 7 + 1) % 2 ^ 32 % 2 ^ 8 = _
    omega
  have htr' : r.tr = (toBcd (written t).hour).toUInt32 <<< trHours |||
      (toBcd (written t).minute).toUInt32 <<< trMinutes |||
        (toBcd (written t).second).toUInt32 <<< trSeconds := htr
  have hdr' : r.dr = (toBcd ((written t).year - 2000).toUInt8).toUInt32 <<< drYear |||
      (weekdayOf t).toUInt32 <<< drWeekday ||| (toBcd (written t).month).toUInt32 <<< drMonth |||
        (toBcd (written t).day).toUInt32 <<< drDay := hdr
  obtain ⟨hhours, hminutes, hseconds⟩ := time_fields hvalid.hour hvalid.minute hvalid.second htr'
  have hyear : ((written t).year - 2000).toUInt8.toNat = (written t).year.toNat - 2000 := by
    have hle : (2000 : UInt16) ≤ _ := UInt16.le_iff_toNat_le.2
      (show (2000 : UInt16).toNat ≤ _ from hy)
    rw [UInt16.toNat_toUInt8, UInt16.toNat_sub_of_le _ _ hle]
    show ((written t).year.toNat - 2000) % 2 ^ 8 = _
    omega
  have hday : (written t).day.toNat ≤ 31 := hvalid.date.day_le.trans (Calendar.monthLength_le _ _)
  have hweekday_lt : (weekdayOf t).toNat < 2 ^ 3 := by
    rw [hweekday, Calendar.weekday_eq]
    omega
  obtain ⟨hyears, hmonths, hdays, hweek⟩ :=
    date_fields (by omega) hweekday_lt hvalid.date.month_le hday hdr'
  refine ⟨?_, hweek.trans hweekday⟩
  have hyear' : 2000 + ((written t).year - 2000).toUInt8.toUInt16 = (written t).year := by
    rw [← UInt16.toNat_inj, UInt16.toNat_add, UInt8.toNat_toUInt16, hyear]
    show (2000 + ((written t).year.toNat - 2000)) % 2 ^ 16 = _
    omega
  unfold getDateTime
  rw [hyears, hmonths, hdays, hhours, hminutes, hseconds, hyear']

/-- **The clock round trip.** A time of the years from 2000 to 2099 that is set when the RTC enters
its initialization mode is read back as its date, and as the time itself, without a wrap: the days
are counted exactly, and their seconds fit 32 bits. The weekday is the one of the date. Any other
time is refused, and the registers stay. -/
theorem clock_round_trip (t : UInt32) (left : Status) (r : Registers) :
    (946684800 ≤ t.toNat ∧ t.toNat < 4102444800 →
      let r' := (setUnixTime t .ok left r).2
      let d := (getDateTime r').calendar
      d.Valid ∧ 2000 ≤ d.year ∧ d.year ≤ 2099 ∧ Calendar.seconds 1970 d = t.toNat ∧
      (∀ e : Calendar.DateTime, e.Valid → 1970 ≤ e.year →
        Calendar.seconds 1970 e = t.toNat → e = d) ∧
      getUnixTime r' = t ∧
      (daysBefore (getDateTime r')).toNat + (d.day - 1) = Calendar.dayNumber 1970 d.toDate ∧
      Calendar.dayNumber 1970 d.toDate * 86400 + d.hour * 3600 + d.minute * 60 + d.second <
        2 ^ 32 ∧
      r'.dr.toNat / 2 ^ 13 % 2 ^ 3 = Calendar.weekday (Calendar.dayNumber 1970 d.toDate)) ∧
    (¬(946684800 ≤ t.toNat ∧ t.toNat < 4102444800) →
      ∀ entered, setUnixTime t entered left r = (.error, r)) := by
  have hrange : t < unixYear2000 ∨ t ≥ unixYear2100 ↔
      ¬(946684800 ≤ t.toNat ∧ t.toNat < 4102444800) := by
    rw [UInt32.lt_iff_toNat_lt, ge_iff_le, UInt32.le_iff_toNat_le]
    show t.toNat < 946684800 ∨ 4102444800 ≤ t.toNat ↔ _
    omega
  refine ⟨fun ht => ?_, fun ht entered => if_pos (hrange.2 ht)⟩
  have hlow : unixYear2000 ≤ t := UInt32.le_iff_toNat_le.2 ht.1
  have hhigh : t < unixYear2100 := UInt32.lt_iff_toNat_lt.2 ht.2
  intro r'
  have hwrites : r'.tr = timeRegister t ∧ r'.dr = dateRegister t := by
    show (setUnixTime t .ok left r).2.tr = _ ∧ (setUnixTime t .ok left r).2.dr = _
    unfold setUnixTime
    rw [if_neg fun h => hrange.1 h ht, if_neg (not_not_intro rfl)]
    dsimp only
    split <;> exact ⟨rfl, rfl⟩
  obtain ⟨hdate, hweekday⟩ := getDateTime_written hlow hhigh hwrites.1 hwrites.2
  obtain ⟨hvalid, hy, hy', hnumber, hseconds⟩ := written_spec hlow hhigh
  have hlt := t.toNat_lt
  have hunix : getUnixTime r' = t := by
    rw [getUnixTime, hdate, ← UInt32.toNat_inj, toNat_unixTimeOf hvalid (by omega), hseconds]
  have hdays : Calendar.dayNumber 1970 (written t).calendar.toDate =
      Calendar.daysBeforeYear 1970 (written t).year.toNat +
        Calendar.daysBeforeMonth (written t).year.toNat (written t).month.toNat +
          ((written t).calendar.day - 1) := rfl
  have hexact : Calendar.seconds 1970 (written t).calendar =
      ((Calendar.dayNumber 1970 (written t).calendar.toDate * 24 + (written t).calendar.hour) * 60 +
        (written t).calendar.minute) * 60 + (written t).calendar.second := rfl
  rw [hdate]
  refine ⟨hvalid, hy, hy', hseconds, fun e he hey heq => ?_, hunix, ?_, ?_, ?_⟩
  · exact Calendar.seconds_injective he hvalid hey (Nat.le_trans (by decide) hy)
      (heq.trans hseconds.symm)
  · rw [toNat_daysBefore hvalid.date.month_le (by omega), ← hdays]
  · omega
  · rw [hweekday, hnumber]

/-- The last second of 2000-02-29. -/
example : getDateTime (setUnixTime 951868799 .ok .ok ⟨0, 0, 0⟩).2 = ⟨2000, 2, 29, 23, 59, 59⟩ := by
  decide +kernel

end HealthCheck.Rtc
