import HealthCheck.BuzzerService
import HealthCheck.Lib.SlotTable
import HealthCheck.Rtc
import HealthCheck.TlsTransport

/-!
# When a certificate expires

`tlsTransport_X509TimeToUnix` of `tls_transport.c` makes Unix seconds of the date in a certificate
by a closed formula, and `healthCheckService_CheckCertificateExpiry` compares them with what
`Rtc_GetUnixTime` counts in loops.

* `calendars_agree` — both are the number of seconds since 1970, for every date of the calendar.
-/

namespace HealthCheck.CertificateTime

open BuzzerService (maxResources)

/-- `mbedtls_x509_time`. -/
@[ext]
structure X509Time where
  year : Int32
  mon : Int32
  day : Int32
  hour : Int32
  min : Int32
  sec : Int32
deriving DecidableEq

/-- `tlsTransport_IsLeapYear`. -/
def isLeapYear (year : UInt32) : Bool :=
  year % 4 = 0 && (year % 100 ≠ 0 || year % 400 = 0)

/-- `daysBeforeMonth`. -/
def daysBeforeMonth : List UInt64 := [0, 31, 59, 90, 120, 151, 181, 212, 243, 273, 304, 334]

/-- The checks of `tlsTransport_X509TimeToUnix`. -/
def X509Time.refused (time : X509Time) : Bool :=
  time.year < 1970 || time.mon < 1 || time.mon > 12 || time.day < 1 || time.day > 31 ||
    time.hour < 0 || time.hour > 23 || time.min < 0 || time.min > 59 || time.sec < 0 ||
    time.sec > 59

/-- Its days: 32-bit numbers that are added up in 64 bits. -/
def X509Time.days (time : X509Time) : UInt64 :=
  let year := time.year.toUInt32
  let previousYear := year - 1
  let days := (year - 1970).toUInt64 * 365 + (previousYear / 4).toUInt64 -
    (1969 / 4 : UInt32).toUInt64 - (previousYear / 100 - 1969 / 100).toUInt64 +
    (previousYear / 400 - 1969 / 400).toUInt64
  let days := days + daysBeforeMonth.getD (time.mon.toUInt32 - 1).toNat 0
  let days := if time.mon > 2 && isLeapYear year then days + 1 else days
  days + (time.day.toUInt32 - 1).toUInt64

/-- `tlsTransport_X509TimeToUnix`. -/
def x509TimeToUnix (time : X509Time) : Option UInt32 :=
  if time.refused then none
  else
    let seconds := ((time.days * 24 + time.hour.toUInt32.toUInt64) * 60 +
      time.min.toUInt32.toUInt64) * 60 + time.sec.toUInt32.toUInt64
    if seconds > 0xFFFFFFFF then none else some seconds.toUInt32

/-- `certificateWarningExpiry` and `certificateWarningTime`, one entry for each resource. -/
structure Warnings where
  expiry : Vector UInt32 maxResources
  time : Vector UInt32 maxResources

/-- `CERTIFICATE_WARNING_WINDOW_SECONDS`: 10 days. -/
def warningWindowSeconds : UInt32 := 864000

/-- `CERTIFICATE_WARNING_PERIOD_SECONDS`. -/
def warningPeriodSeconds : UInt32 := 3600

/-- `warningWindow`. -/
def warningWindow (certificateExpiry now : UInt32) : Bool :=
  certificateExpiry ≤ now || certificateExpiry - now ≤ warningWindowSeconds

/-- `healthCheckService_CheckCertificateExpiry`: what `Rtc_GetUnixTime` stores, if it does, and
whether the buzzer service accepts a warning. The second result is whether it is asked. -/
def checkCertificateExpiry (w : Warnings) (resourceIndex : Fin maxResources)
    (certificateExpiry : UInt32) (now : Option UInt32) (accepted : Bool) : Warnings × Bool :=
  if certificateExpiry = 0 then (w, false)
  else match now with
    | none => (w, false)
    | some now =>
      let w := if w.expiry.get resourceIndex ≠ certificateExpiry then
          { expiry := w.expiry.set resourceIndex certificateExpiry resourceIndex.isLt
            time := w.time.set resourceIndex 0 resourceIndex.isLt }
        else w
      if !warningWindow certificateExpiry now then (w, false)
      else
        let previousWarning := w.time.get resourceIndex
        if previousWarning ≠ 0 ∧ now - previousWarning < warningPeriodSeconds then (w, false)
        else if accepted then ({ w with time := w.time.set resourceIndex now resourceIndex.isLt }, true)
        else (w, true)

/-- A date and time of day as Mbed TLS has it. -/
def X509Time.of (t : Calendar.DateTime) : X509Time where
  year := .ofNat t.year
  mon := .ofNat t.month
  day := .ofNat t.day
  hour := .ofNat t.hour
  min := .ofNat t.minute
  sec := .ofNat t.second

/-! ## The closed formula -/

theorem isLeapYear_eq (year : UInt32) : isLeapYear year = Calendar.isLeapYear year.toNat := by
  have hmod (n : UInt32) : year % n = 0 ↔ year.toNat % n.toNat = 0 := by
    rw [← UInt32.toNat_inj, UInt32.toNat_mod]
    exact Iff.rfl
  simp only [isLeapYear, Calendar.isLeapYear, ne_eq, hmod]
  rfl

/-- A comparison of numbers that an `int` holds. -/
theorem ofNat_lt_ofNat {m n : ℕ} (hm : m < 2 ^ 31) (hn : n < 2 ^ 31) :
    Int32.ofNat m < Int32.ofNat n ↔ m < n := by
  rw [Int32.lt_iff_toInt_lt, Int32.toInt_ofNat_of_lt hm, Int32.toInt_ofNat_of_lt hn]
  exact Int.ofNat_lt

/-- A comparison that fails, of numbers that an `int` holds. -/
theorem not_ofNat_lt {m n : ℕ} (hm : m < 2 ^ 31) (hn : n < 2 ^ 31) (h : n ≤ m) :
    ¬Int32.ofNat m < Int32.ofNat n := by
  rw [ofNat_lt_ofNat hm hn]
  exact Nat.not_lt.2 h

/-- The dates that pass the checks of `tlsTransport_X509TimeToUnix`: every month has 31 days. -/
structure Accepted (t : Calendar.DateTime) : Prop where
  year : 1970 ≤ t.year
  year_lt : t.year < 2 ^ 31
  month : 1 ≤ t.month
  month_le : t.month ≤ 12
  day : 1 ≤ t.day
  day_le : t.day ≤ 31
  hour : t.hour < 24
  minute : t.minute < 60
  second : t.second < 60

theorem Accepted.of_valid {t : Calendar.DateTime} (ht : t.Valid) (hlow : 1970 ≤ t.year)
    (hhigh : t.year < 2 ^ 31) : Accepted t where
  year := hlow
  year_lt := hhigh
  month := ht.date.month_pos
  month_le := ht.date.month_le
  day := ht.date.day_pos
  day_le := ht.date.day_le.trans (Calendar.monthLength_le _ _)
  hour := ht.hour
  minute := ht.minute
  second := ht.second

theorem refused_of {t : Calendar.DateTime} (ht : Accepted t) :
    (X509Time.of t).refused = false := by
  have hmonth := ht.month_le
  have hday := ht.day_le
  have hhour := ht.hour
  have hminute := ht.minute
  have hsecond := ht.second
  simp only [X509Time.refused, Bool.or_eq_false_iff, decide_eq_false_iff_not, gt_iff_lt]
  refine ⟨⟨⟨⟨⟨⟨⟨⟨⟨⟨?_, ?_⟩, ?_⟩, ?_⟩, ?_⟩, ?_⟩, ?_⟩, ?_⟩, ?_⟩, ?_⟩, ?_⟩
  · exact not_ofNat_lt (n := 1970) ht.year_lt (by decide) ht.year
  · exact not_ofNat_lt (n := 1) (by omega) (by decide) ht.month
  · exact not_ofNat_lt (m := 12) (by decide) (by omega) ht.month_le
  · exact not_ofNat_lt (n := 1) (by omega) (by decide) ht.day
  · exact not_ofNat_lt (m := 31) (by decide) (by omega) ht.day_le
  · exact not_ofNat_lt (n := 0) (by omega) (by decide) (Nat.zero_le _)
  · exact not_ofNat_lt (m := 23) (by decide) (by omega) (by omega)
  · exact not_ofNat_lt (n := 0) (by omega) (by decide) (Nat.zero_le _)
  · exact not_ofNat_lt (m := 59) (by decide) (by omega) (by omega)
  · exact not_ofNat_lt (n := 0) (by omega) (by decide) (Nat.zero_le _)
  · exact not_ofNat_lt (m := 59) (by decide) (by omega) (by omega)

section Exact

variable {a b : UInt64} {m n : ℕ} (ha : a.toNat = m) (hb : b.toNat = n)
include ha hb

theorem add_exact (h : m + n < 2 ^ 64) : (a + b).toNat = m + n := by
  rw [UInt64.toNat_add, ha, hb]
  exact Nat.mod_eq_of_lt h

theorem sub_exact (h : n ≤ m) : (a - b).toNat = m - n := by
  rw [UInt64.toNat_sub_of_le _ _ (UInt64.le_iff_toNat_le.2 (by rwa [ha, hb])), ha, hb]

theorem mul_exact (h : m * n < 2 ^ 64) : (a * b).toNat = m * n := by
  rw [UInt64.toNat_mul, ha, hb]
  exact Nat.mod_eq_of_lt h

end Exact

/-- The years, by the closed formula. -/
theorem yearDays {y : ℕ} (hlow : 1970 ≤ y) (hhigh : y < 2 ^ 31) :
    ((UInt32.ofNat y - 1970).toUInt64 * 365 + ((UInt32.ofNat y - 1) / 4).toUInt64 -
      (1969 / 4 : UInt32).toUInt64 - ((UInt32.ofNat y - 1) / 100 - 1969 / 100).toUInt64 +
      ((UInt32.ofNat y - 1) / 400 - 1969 / 400).toUInt64).toNat =
      Calendar.daysBeforeYear 1970 y := by
  have hy : (UInt32.ofNat y).toNat = y := UInt32.toNat_ofNat_of_lt' (hhigh.trans (by decide))
  have hless (n : ℕ) (hn : n ≤ 1970) : (UInt32.ofNat y - UInt32.ofNat n).toNat = y - n := by
    have hn' : (UInt32.ofNat n).toNat = n := UInt32.toNat_ofNat_of_lt' (hn.trans_lt (by decide))
    rw [UInt32.toNat_sub_of_le _ _ (UInt32.le_iff_toNat_le.2 (by omega)), hy, hn']
  have hprevious : (UInt32.ofNat y - 1).toNat = y - 1 := hless 1 (by decide)
  have hyears : (UInt32.ofNat y - 1970).toUInt64.toNat = y - 1970 :=
    (UInt32.toNat_toUInt64 _).trans (hless 1970 (Nat.le_refl _))
  have hfour : ((UInt32.ofNat y - 1) / 4).toUInt64.toNat = (y - 1) / 4 := by
    rw [UInt32.toNat_toUInt64, UInt32.toNat_div, hprevious]
    rfl
  have hpast (n k : UInt32) (h : k.toNat ≤ (y - 1) / n.toNat) :
      ((UInt32.ofNat y - 1) / n - k).toUInt64.toNat = (y - 1) / n.toNat - k.toNat := by
    rw [UInt32.toNat_toUInt64, UInt32.toNat_sub_of_le _ _ (UInt32.le_iff_toNat_le.2 (by
      rwa [UInt32.toNat_div, hprevious])), UInt32.toNat_div, hprevious]
  have hhundred : ((UInt32.ofNat y - 1) / 100 - 1969 / 100).toUInt64.toNat =
      (y - 1) / 100 - 19 := hpast 100 19 (by show 19 ≤ (y - 1) / 100; omega)
  have hfourHundred : ((UInt32.ofNat y - 1) / 400 - 1969 / 400).toUInt64.toNat =
      (y - 1) / 400 - 4 := hpast 400 4 (by show 4 ≤ (y - 1) / 400; omega)
  have hclosed := Calendar.daysBeforeYear_closed (by decide) hlow
  have hepoch : Calendar.leapYears (1970 - 1) = 477 := by decide
  rw [hepoch, Calendar.leapYears] at hclosed
  have hle : (y - 1) / 100 ≤ (y - 1) / 4 := Nat.div_le_div_left (by decide) (by decide)
  have h365 : (365 : UInt64).toNat = 365 := by decide
  have h492 : (1969 / 4 : UInt32).toUInt64.toNat = 492 := by decide
  have hmul := mul_exact hyears h365 (by omega)
  have hadd := add_exact hmul hfour (by omega)
  have hsub := sub_exact hadd h492 (by omega)
  have hsub' := sub_exact hsub hhundred (by omega)
  rw [add_exact hsub' hfourHundred (by omega)]
  omega

/-- The months, by the table. -/
theorem monthDays {y m : ℕ} (hm : 1 ≤ m) (hm' : m ≤ 12) :
    (daysBeforeMonth.getD (m - 1) 0).toNat +
      (if 2 < m ∧ Calendar.isLeapYear y then 1 else 0) = Calendar.daysBeforeMonth y m := by
  unfold Calendar.daysBeforeMonth
  by_cases hleap : Calendar.isLeapYear y <;> interval_cases m <;>
    simp [daysBeforeMonth, hleap, Calendar.monthLength, List.range']

/-- The days of the years fit easily. -/
theorem daysBeforeYear_lt {y : ℕ} (hlow : 1970 ≤ y) (hhigh : y < 2 ^ 31) :
    Calendar.daysBeforeYear 1970 y < 2 ^ 40 := by
  have hclosed := Calendar.daysBeforeYear_closed (by decide) hlow
  have hepoch : Calendar.leapYears (1970 - 1) = 477 := by decide
  rw [hepoch, Calendar.leapYears] at hclosed
  omega

theorem daysBeforeMonth_le {y m : ℕ} (hm : 1 ≤ m) (hm' : m ≤ 12) :
    Calendar.daysBeforeMonth y m ≤ 366 := by
  have hmono : Calendar.daysBeforeMonth y m ≤ Calendar.daysBeforeMonth y 13 :=
    Calendar.daysBeforeMonth_mono hm (hm'.trans (by decide))
  rw [Calendar.daysBeforeMonth_end] at hmono
  rcases Calendar.yearLength_cases y with h | h <;> omega

/-- The days are counted exactly. -/
theorem toNat_days {t : Calendar.DateTime} (ht : Accepted t) :
    (X509Time.of t).days.toNat = Calendar.dayNumber 1970 t.toDate := by
  have hday := ht.day_le
  have hyear := yearDays ht.year ht.year_lt
  have hsmall := daysBeforeYear_lt ht.year ht.year_lt
  have hmon : (UInt32.ofNat t.month - 1).toNat = t.month - 1 := by
    have hm : (UInt32.ofNat t.month).toNat = t.month :=
      UInt32.toNat_ofNat_of_lt' (ht.month_le.trans_lt (by decide))
    rw [UInt32.toNat_sub_of_le _ _ (UInt32.le_iff_toNat_le.2 (by rw [hm]; exact ht.month)), hm]
    rfl
  have hdays : (UInt32.ofNat t.day - 1).toUInt64.toNat = t.day - 1 := by
    have hd : (UInt32.ofNat t.day).toNat = t.day :=
      UInt32.toNat_ofNat_of_lt' (ht.day_le.trans_lt (by decide))
    rw [UInt32.toNat_toUInt64,
      UInt32.toNat_sub_of_le _ _ (UInt32.le_iff_toNat_le.2 (by rw [hd]; exact ht.day)), hd]
    rfl
  have hleap : ((decide (Int32.ofNat t.month > 2) && isLeapYear (UInt32.ofNat t.year)) = true) ↔
      2 < t.month ∧ Calendar.isLeapYear t.year := by
    have hy : (UInt32.ofNat t.year).toNat = t.year :=
      UInt32.toNat_ofNat_of_lt' (ht.year_lt.trans (by decide))
    have hgt : Int32.ofNat t.month > 2 ↔ 2 < t.month :=
      ofNat_lt_ofNat (m := 2) (by decide) (ht.month_le.trans_lt (by decide))
    rw [isLeapYear_eq, hy, Bool.and_eq_true, decide_eq_true_iff, hgt]
  have hmonths := monthDays (y := t.year) ht.month ht.month_le
  have hmonthsLe := daysBeforeMonth_le (y := t.year) ht.month ht.month_le
  unfold X509Time.days
  simp only [X509Time.of, Int32.toUInt32_ofNat', hmon]
  have htable := add_exact hyear (rfl : (daysBeforeMonth.getD (t.month - 1) 0).toNat = _)
    (by omega)
  rw [Calendar.dayNumber]
  split
  · rename_i h
    rw [if_pos (hleap.1 h)] at hmonths
    have h1 : (1 : UInt64).toNat = 1 := by decide
    have hone := add_exact htable h1 (by omega)
    rw [add_exact hone hdays (by omega)]
    omega
  · rename_i h
    rw [if_neg (fun hd => h (hleap.2 hd))] at hmonths
    rw [add_exact htable hdays (by omega)]
    omega

/-- The result of a 64-bit count. -/
theorem narrowed {s : UInt64} {n : ℕ} (hs : s.toNat = n) :
    (if s > 0xFFFFFFFF then none else some s.toUInt32) =
      if n < 2 ^ 32 then some (UInt32.ofNat n) else none := by
  have h32 : (0xFFFFFFFF : UInt64).toNat = 2 ^ 32 - 1 := by decide
  have hgt : s > 0xFFFFFFFF ↔ 2 ^ 32 - 1 < n := by
    rw [gt_iff_lt, UInt64.lt_iff_toNat_lt, h32, hs]
  by_cases h : n < 2 ^ 32
  · rw [if_neg (by rw [hgt]; omega), if_pos h, ← hs, UInt32.ofNat_uInt64ToNat]
  · rw [if_pos (by rw [hgt]; omega), if_neg h]

/-- The seconds are counted exactly, and refused when 32 bits do not hold them. -/
theorem x509TimeToUnix_of {t : Calendar.DateTime} (ht : Accepted t) :
    x509TimeToUnix (.of t) =
      if Calendar.seconds 1970 t < 2 ^ 32 then some (.ofNat (Calendar.seconds 1970 t))
      else none := by
  have hsmall := daysBeforeYear_lt ht.year ht.year_lt
  have hmonths := daysBeforeMonth_le (y := t.year) ht.month ht.month_le
  have hday := ht.day_le
  have hhour := ht.hour
  have hminute := ht.minute
  have hsecond := ht.second
  have hnumber : Calendar.dayNumber 1970 t.toDate < 2 ^ 41 := by
    rw [Calendar.dayNumber]
    omega
  have hfield {n : ℕ} (hn : n < 60) : (Int32.ofNat n).toUInt32.toUInt64.toNat = n := by
    rw [Int32.toUInt32_ofNat', UInt32.toNat_toUInt64]
    exact UInt32.toNat_ofNat_of_lt' (hn.trans (by decide))
  have h24 : (24 : UInt64).toNat = 24 := by decide
  have h60 : (60 : UInt64).toNat = 60 := by decide
  have hhours := add_exact (mul_exact (toNat_days ht) h24 (by omega))
    (hfield (by omega : t.hour < 60)) (by omega)
  have hminutes := add_exact (mul_exact hhours h60 (by omega)) (hfield hminute) (by omega)
  have hseconds := add_exact (mul_exact hminutes h60 (by omega)) (hfield hsecond) (by omega)
  rw [show ((Calendar.dayNumber 1970 t.toDate * 24 + t.hour) * 60 + t.minute) * 60 + t.second =
      Calendar.seconds 1970 t from rfl] at hseconds
  unfold x509TimeToUnix
  rw [refused_of ht, if_neg Bool.false_ne_true]
  exact narrowed hseconds

/-- An `int` that is not negative. -/
theorem ofNat_toNat {a : Int32} (h : 0 ≤ a.toInt) : Int32.ofNat a.toInt.toNat = a := by
  have hlt := a.toInt_lt
  rw [← Int32.toInt_inj, Int32.toInt_ofNat_of_lt (by omega)]
  exact Int.toNat_of_nonneg h

/-- The checks compare the numbers. -/
theorem refused_iff (time : X509Time) :
    time.refused ↔ time.year.toInt < 1970 ∨ time.mon.toInt < 1 ∨ time.mon.toInt > 12 ∨
      time.day.toInt < 1 ∨ time.day.toInt > 31 ∨ time.hour.toInt < 0 ∨ time.hour.toInt > 23 ∨
      time.min.toInt < 0 ∨ time.min.toInt > 59 ∨ time.sec.toInt < 0 ∨ time.sec.toInt > 59 := by
  simp only [X509Time.refused, Bool.or_eq_true, decide_eq_true_eq, gt_iff_lt,
    Int32.lt_iff_toInt_lt, or_assoc]
  exact Iff.rfl

/-- What passes the checks is a date with months of 31 days. -/
theorem accepted_of {time : X509Time} (h : time.refused = false) :
    ∃ t, Accepted t ∧ time = .of t := by
  have hchecks := mt (refused_iff time).2 (by rw [h]; exact Bool.false_ne_true)
  have hyear := time.year.toInt_lt
  refine ⟨⟨⟨time.year.toInt.toNat, time.mon.toInt.toNat, time.day.toInt.toNat⟩,
    time.hour.toInt.toNat, time.min.toInt.toNat, time.sec.toInt.toNat⟩, ?_, ?_⟩
  · constructor <;> dsimp only <;> omega
  · apply X509Time.ext <;> refine (ofNat_toNat ?_).symm <;> omega

/-- The date of a certificate as the transport passes it on. -/
def X509Time.ints (time : X509Time) : TlsTransport.X509Time where
  year := time.year.toInt
  mon := time.mon.toInt
  day := time.day.toInt
  hour := time.hour.toInt
  min := time.min.toInt
  sec := time.sec.toInt

theorem ints_of {t : Calendar.DateTime} (ht : Accepted t) :
    (X509Time.of t).ints = ⟨t.year, t.month, t.day, t.hour, t.minute, t.second⟩ := by
  have hmonth := ht.month_le
  have hday := ht.day_le
  have hhour := ht.hour
  have hminute := ht.minute
  have hsecond := ht.second
  have hfield {n : ℕ} (hn : n < 60) : (Int32.ofNat n).toInt = n :=
    Int32.toInt_ofNat_of_lt (hn.trans (by decide))
  simp only [X509Time.ints, X509Time.of, Int32.toInt_ofNat_of_lt ht.year_lt,
    hfield (show t.month < 60 by omega), hfield (show t.day < 60 by omega),
    hfield (show t.hour < 60 by omega), hfield hminute, hfield hsecond]

/-- The closed formula, in numbers without end. -/
theorem yearDays_nat {y : ℕ} (hlow : 1970 ≤ y) :
    (y - 1970) * 365 + (y - 1) / 4 - 1969 / 4 - ((y - 1) / 100 - 1969 / 100) +
      ((y - 1) / 400 - 1969 / 400) = Calendar.daysBeforeYear 1970 y := by
  have hclosed := Calendar.daysBeforeYear_closed (by decide) hlow
  have hepoch : Calendar.leapYears (1970 - 1) = 477 := by decide
  rw [hepoch, Calendar.leapYears] at hclosed
  have hle : (y - 1) / 100 ≤ (y - 1) / 4 := Nat.div_le_div_left (by decide) (by decide)
  omega

/-- The numbers that the transport computes with are the ones of the machine. -/
theorem x509TimeToUnix_ints (time : X509Time) :
    TlsTransport.x509TimeToUnix time.ints = x509TimeToUnix time := by
  cases h : time.refused with
  | true =>
    rw [x509TimeToUnix, if_pos h, TlsTransport.x509TimeToUnix, if_pos]
    exact (refused_iff time).1 h
  | false =>
    obtain ⟨t, ht, rfl⟩ := accepted_of h
    have hmonth := ht.month_le
    have hday := ht.day_le
    have hhour := ht.hour
    have hminute := ht.minute
    have hsecond := ht.second
    have hyear := ht.year
    have hpos := ht.month
    have hday' := ht.day
    have htable : TlsTransport.daysBeforeMonth.getD (t.month - 1) 0 =
        (daysBeforeMonth.getD (t.month - 1) 0).toNat := by
      interval_cases t.month <;> rfl
    have hmonths := monthDays (y := t.year) ht.month ht.month_le
    rw [x509TimeToUnix_of ht, ints_of ht, TlsTransport.x509TimeToUnix,
      if_neg (by dsimp only; omega)]
    dsimp only
    simp only [Int.toNat_natCast]
    rw [yearDays_nat hyear, htable]
    have hdays : (if (t.month : Int) > 2 ∧ TlsTransport.isLeapYear t.year then
          Calendar.daysBeforeYear 1970 t.year + (daysBeforeMonth.getD (t.month - 1) 0).toNat + 1
        else Calendar.daysBeforeYear 1970 t.year + (daysBeforeMonth.getD (t.month - 1) 0).toNat) +
          (t.day - 1) = Calendar.dayNumber 1970 t.toDate := by
      have hleap : ((t.month : Int) > 2 ∧ TlsTransport.isLeapYear t.year) ↔
          2 < t.month ∧ Calendar.isLeapYear t.year :=
        and_congr (by omega) Iff.rfl
      rw [Calendar.dayNumber, ← hmonths]
      by_cases hd : 2 < t.month ∧ Calendar.isLeapYear t.year
      · rw [if_pos (hleap.2 hd), if_pos hd]
        omega
      · rw [if_neg (mt hleap.1 hd), if_neg hd]
        omega
    rw [hdays]
    change (if Calendar.seconds 1970 t ≥ 2 ^ 32 then none else _) = _
    by_cases hfits : Calendar.seconds 1970 t < 2 ^ 32
    · rw [if_neg (Nat.not_le.2 hfits), if_pos hfits]
      rfl
    · rw [if_pos (Nat.not_lt.1 hfits), if_neg hfits]

/-! ## The two calendars -/

/-- The fields of a date in a certificate. -/
structure X509Time.Is (time : X509Time) (t : Calendar.DateTime) : Prop where
  year : time.year.toInt = t.year
  mon : time.mon.toInt = t.month
  day : time.day.toInt = t.day
  hour : time.hour.toInt = t.hour
  min : time.min.toInt = t.minute
  sec : time.sec.toInt = t.second

theorem X509Time.Is.eq_of {time : X509Time} {t : Calendar.DateTime} (h : time.Is t) :
    time = .of t := by
  have hfield {a : Int32} {n : ℕ} (ha : a.toInt = n) : a = Int32.ofNat n := by
    rw [← ofNat_toNat (a := a) (ha ▸ Int.natCast_nonneg n), ha, Int.toNat_natCast]
  exact X509Time.ext (hfield h.year) (hfield h.mon) (hfield h.day) (hfield h.hour) (hfield h.min)
    (hfield h.sec)

/-- The years from 2000 to 2099 are in range. -/
theorem seconds_lt {t : Calendar.DateTime} (ht : t.Valid) (hlow : 1970 ≤ t.year)
    (hhigh : t.year ≤ 2099) : Calendar.seconds 1970 t < 2 ^ 32 := by
  have hday : Calendar.dayNumber 1970 t.toDate < Calendar.daysBeforeYear 1970 (t.year + 1) :=
    Calendar.dayNumber_lt_year ht.date hlow
  have hend : Calendar.daysBeforeYear 1970 (t.year + 1) ≤ Calendar.daysBeforeYear 1970 2100 :=
    Calendar.daysBeforeYear_mono (by omega)
  have hlast : Calendar.daysBeforeYear 1970 2100 = 47482 := by decide +kernel
  have hhour := ht.hour
  have hminute := ht.minute
  have hsecond := ht.second
  rw [hlast] at hend
  rw [Calendar.seconds]
  omega

/-- The warning window, in seconds without end. -/
theorem warningWindow_iff (certificateExpiry now : UInt32) :
    warningWindow certificateExpiry now ↔ certificateExpiry.toNat ≤ now.toNat + 864000 := by
  have hwindow : warningWindowSeconds.toNat = 864000 := by decide
  have hle : certificateExpiry ≤ now ↔ certificateExpiry.toNat ≤ now.toNat :=
    UInt32.le_iff_toNat_le
  rw [warningWindow, Bool.or_eq_true, decide_eq_true_iff, decide_eq_true_iff, hle,
    UInt32.le_iff_toNat_le, hwindow]
  by_cases h : certificateExpiry.toNat ≤ now.toNat
  · exact ⟨fun _ => h.trans (Nat.le_add_right ..), fun _ => .inl h⟩
  · rw [UInt32.toNat_sub_of_le _ _ (UInt32.le_iff_toNat_le.2 (Nat.le_of_not_le h))]
    omega

/-- When a warning is asked for: not again for a warning of the same certificate that is not an
hour old. -/
theorem checkCertificateExpiry_asks (w : Warnings) (i : Fin maxResources) (expiry now : UInt32)
    (accepted : Bool) :
    (checkCertificateExpiry w i expiry (some now) accepted).2 = true ↔
      expiry ≠ 0 ∧ warningWindow expiry now = true ∧ ¬(w.expiry.get i = expiry ∧ w.time.get i ≠ 0 ∧
        now - w.time.get i < warningPeriodSeconds) := by
  simp only [SlotTable.get_eq_getElem]
  by_cases hzero : expiry = 0
  · simp [checkCertificateExpiry, hzero]
  · cases hwindow : warningWindow expiry now with
    | false => simp [checkCertificateExpiry, hzero, hwindow]
    | true =>
      by_cases hsame : w.expiry[(i : ℕ)] = expiry
      · by_cases hrecent : ¬w.time[(i : ℕ)] = 0 ∧ now - w.time[(i : ℕ)] < warningPeriodSeconds
        · simp [checkCertificateExpiry, hzero, hwindow, hsame, hrecent]
        · cases accepted <;> simp [checkCertificateExpiry, hzero, hwindow, hsame, hrecent]
      · cases accepted <;> simp [checkCertificateExpiry, hzero, hwindow, hsame]

/-- **One calendar**: the formula for the certificate and the loops for the clock both give the
seconds since 1970 that summing the lengths of years and months gives, so that the check of a
certificate compares two times of one scale. -/
theorem calendars_agree (time : X509Time) (t : Calendar.DateTime) (h : time.Is t) (ht : t.Valid)
    (hyear : 1970 ≤ t.year) :
    x509TimeToUnix time = (if Calendar.seconds 1970 t ≤ 2 ^ 32 - 1 then
      some (.ofNat (Calendar.seconds 1970 t)) else none) ∧
    (∀ dateTime : Rtc.DateTime, dateTime.calendar = t → 2000 ≤ t.year → t.year ≤ 2099 →
      x509TimeToUnix time = some (Rtc.unixTimeOf dateTime)) ∧
    (∀ expiry, x509TimeToUnix time = some expiry → ∀ dateTime : Rtc.DateTime,
      dateTime.calendar.Valid → 2000 ≤ dateTime.calendar.year → dateTime.calendar.year ≤ 2099 →
      ∀ (w : Warnings) (i : Fin maxResources) (accepted : Bool),
      ((checkCertificateExpiry w i expiry (some (Rtc.unixTimeOf dateTime)) accepted).2 = true ↔
        expiry ≠ 0 ∧
        Calendar.seconds 1970 t ≤ Calendar.seconds 1970 dateTime.calendar + 10 * 24 * 60 * 60 ∧
        ¬(w.expiry[i] = expiry ∧ w.time[i] ≠ 0 ∧
          Rtc.unixTimeOf dateTime - w.time[i] < warningPeriodSeconds))) := by
  have hhigh : t.year < 2 ^ 31 := by
    have hlt := time.year.toInt_lt
    have heq := h.year
    omega
  have hof := x509TimeToUnix_of (.of_valid ht hyear hhigh)
  rw [← h.eq_of] at hof
  refine ⟨?_, fun dateTime hd _ hlast => ?_,
    fun expiry hexpiry dateTime hd hfirst hlast w i accepted => ?_⟩
  · rw [hof]
    exact if_congr (by omega) rfl rfl
  · have hlt := seconds_lt ht hyear hlast
    have hclock := Rtc.toNat_unixTimeOf (t := dateTime) (hd ▸ ht) (hd ▸ hlt)
    rw [hof, if_pos hlt, ← UInt32.ofNat_toNat (x := Rtc.unixTimeOf dateTime), hclock, hd]
  · have hclock := Rtc.toNat_unixTimeOf hd (seconds_lt hd (by omega) hlast)
    rw [hof] at hexpiry
    split at hexpiry
    · rename_i hlt
      have hnat := UInt32.toNat_ofNat_of_lt' hlt
      rw [Option.some.inj hexpiry] at hnat
      rw [checkCertificateExpiry_asks, warningWindow_iff, hclock, hnat]
      rfl
    · simp at hexpiry

/-- The first second that a signed 32-bit count does not hold. -/
theorem calendars_agree_2038 :
    x509TimeToUnix ⟨2038, 1, 19, 3, 14, 8⟩ = some 2147483648 ∧
      x509TimeToUnix ⟨2038, 1, 19, 3, 14, 8⟩ = some (Rtc.unixTimeOf ⟨2038, 1, 19, 3, 14, 8⟩) := by
  have ht : (⟨⟨2038, 1, 19⟩, 3, 14, 8⟩ : Calendar.DateTime).Valid :=
    ⟨⟨by decide, by decide, by decide, by decide⟩, by decide, by decide, by decide⟩
  have hagree := calendars_agree ⟨2038, 1, 19, 3, 14, 8⟩ ⟨⟨2038, 1, 19⟩, 3, 14, 8⟩
    ⟨by decide, by decide, by decide, by decide, by decide, by decide⟩ ht (by decide)
  have hseconds : Calendar.seconds 1970 ⟨⟨2038, 1, 19⟩, 3, 14, 8⟩ = 2147483648 := by
    decide +kernel
  refine ⟨?_, hagree.2.1 ⟨2038, 1, 19, 3, 14, 8⟩ rfl (by decide) (by decide)⟩
  rw [hagree.1, hseconds, if_pos (by decide)]
  rfl

end HealthCheck.CertificateTime
