import Mathlib.Algebra.GroupWithZero.Nat
import Mathlib.Data.List.Basic
import Mathlib.Tactic.Common

/-! The Gregorian calendar, extended both ways without end. Days are counted from the first
of January of year 1. The year of a day is guessed from the mean length of a year and put
right by at most two; the month is found by counting its lengths off. The last section has
the broken-down time of C and its two conversions, without time zones. -/

namespace Firmware.Calendar

def isLeap (year : Int) : Bool := year % 4 = 0 ∧ (year % 100 ≠ 0 ∨ year % 400 = 0)

def yearLength (year : Int) : Int := if isLeap year then 366 else 365

def daysBeforeYear (year : Int) : Int :=
  365 * (year - 1) + (year - 1) / 4 - (year - 1) / 100 + (year - 1) / 400

theorem daysBeforeYear_succ (year : Int) :
    daysBeforeYear (year + 1) = daysBeforeYear year + yearLength year := by
  rw [yearLength, isLeap]
  simp only [daysBeforeYear, decide_eq_true_eq]
  split_ifs with hleap
  · omega
  · omega

/-- The largest year that has begun by the day. -/
def yearOf (day : Int) : Int :=
  let guess := day * 400 / 146097
  if daysBeforeYear (guess + 2) ≤ day then guess + 2
  else if daysBeforeYear (guess + 1) ≤ day then guess + 1
  else guess

theorem yearOf_begun (day : Int) : daysBeforeYear (yearOf day) ≤ day := by
  rw [yearOf]
  split_ifs with hlate hnext
  · exact hlate
  · exact hnext
  · rw [daysBeforeYear]
    omega

theorem yearOf_not_over (day : Int) : day < daysBeforeYear (yearOf day + 1) := by
  rw [yearOf]
  split_ifs with hlate hnext
  · rw [daysBeforeYear]
    omega
  · rw [show day * 400 / 146097 + 1 + 1 = day * 400 / 146097 + 2 by omega]
    omega
  · omega

/-! ### Months -/

def monthLengths (leap : Bool) : List Nat :=
  [31, if leap then 29 else 28, 31, 30, 31, 30, 31, 31, 30, 31, 30, 31]

/-- A day counted off against lengths: the place of the length it falls into, and the days
of that length before it. -/
def countOff : List Nat → Nat → Nat × Nat
  | [], day => (0, day)
  | length :: rest, day =>
    if day < length then (0, day)
    else ((countOff rest (day - length)).1 + 1, (countOff rest (day - length)).2)

theorem countOff_sum (lengths : List Nat) (day : Nat) :
    (lengths.take (countOff lengths day).1).sum + (countOff lengths day).2 = day := by
  induction lengths generalizing day with
  | nil => simp [countOff]
  | cons length rest ih =>
    rw [countOff]
    split_ifs with hday
    · simp
    · have hrest := ih (day - length)
      rw [List.take_succ_cons, List.sum_cons]
      omega

theorem countOff_inside {lengths : List Nat} {day : Nat} (h : day < lengths.sum) :
    ∃ length, lengths[(countOff lengths day).1]? = some length ∧
      (countOff lengths day).2 < length := by
  induction lengths generalizing day with
  | nil => simp at h
  | cons length rest ih =>
    rw [countOff]
    split_ifs with hday
    · exact ⟨length, rfl, hday⟩
    · rw [List.sum_cons] at h
      exact ih (by omega)

/-! ### Dates -/

/-- Months are counted from 0, days of the month from 1. -/
structure CivilDate where
  year : Int
  month : Nat
  day : Int
  deriving DecidableEq, Repr

def dayNumber (date : CivilDate) : Int :=
  daysBeforeYear date.year +
    ((monthLengths (isLeap date.year)).take date.month).sum + (date.day - 1)

def civilDate (day : Int) : CivilDate :=
  let year := yearOf day
  let (month, before) := countOff (monthLengths (isLeap year)) (day - daysBeforeYear year).toNat
  ⟨year, month, before + 1⟩

theorem dayNumber_civilDate (day : Int) : dayNumber (civilDate day) = day := by
  have hbegun := yearOf_begun day
  have hsum := countOff_sum (monthLengths (isLeap (yearOf day)))
    (day - daysBeforeYear (yearOf day)).toNat
  simp only [dayNumber, civilDate]
  omega

theorem yearLength_eq (year : Int) : yearLength year = (monthLengths (isLeap year)).sum := by
  rw [yearLength]
  cases isLeap year <;> rfl

theorem civilDate_month (day : Int) :
    (civilDate day).month < 12 ∧ 1 ≤ (civilDate day).day ∧ (civilDate day).day ≤ 31 := by
  have hbegun := yearOf_begun day
  have hover := yearOf_not_over day
  rw [daysBeforeYear_succ, yearLength_eq] at hover
  obtain ⟨length, hlength, hbefore⟩ := @countOff_inside (monthLengths (isLeap (yearOf day)))
    (day - daysBeforeYear (yearOf day)).toNat (by omega)
  have hmonth := (List.getElem?_eq_some_iff.mp hlength).1
  have hlong : ∀ leap, ∀ length ∈ monthLengths leap, length ≤ 31 := by decide
  have hle := hlong _ length (List.mem_of_getElem? hlength)
  simp only [civilDate]
  refine ⟨hmonth, ?_, ?_⟩ <;> omega

/-! ### Broken-down time -/

def secondsPerDay : Int := 86400

/-- 1 January 1970. -/
def epochDay : Int := 719162

structure Tm where
  tmYear : Int
  tmMon : Int
  tmMday : Int
  tmHour : Int
  tmMin : Int
  tmSec : Int
  deriving DecidableEq, Repr

namespace Tm

/-- A month outside the year counts on into the years before and after. -/
def dayNumber (t : Tm) : Int :=
  Calendar.dayNumber ⟨t.tmYear + 1900 + t.tmMon / 12, (t.tmMon % 12).toNat, t.tmMday⟩

def secondOfDay (t : Tm) : Int := t.tmHour * 3600 + t.tmMin * 60 + t.tmSec

end Tm

def mktime (t : Tm) : Int := (t.dayNumber - epochDay) * secondsPerDay + t.secondOfDay

def localtime (seconds : Int) : Tm :=
  let date := civilDate (seconds / secondsPerDay + epochDay)
  { tmYear := date.year - 1900
    tmMon := date.month
    tmMday := date.day
    tmHour := seconds % secondsPerDay / 3600
    tmMin := seconds % 3600 / 60
    tmSec := seconds % 60 }

theorem localtime_range (seconds : Int) :
    (0 ≤ (localtime seconds).tmMon ∧ (localtime seconds).tmMon < 12) ∧
      1 ≤ (localtime seconds).tmMday ∧ (localtime seconds).tmMday ≤ 31 := by
  obtain ⟨hmonth, hday⟩ := civilDate_month (seconds / secondsPerDay + epochDay)
  exact ⟨⟨Int.natCast_nonneg _, Int.ofNat_lt.mpr hmonth⟩, hday⟩

theorem localtime_dayNumber (seconds : Int) :
    (localtime seconds).dayNumber = seconds / secondsPerDay + epochDay := by
  have hmonth := (civilDate_month (seconds / secondsPerDay + epochDay)).1
  have hdate := dayNumber_civilDate (seconds / secondsPerDay + epochDay)
  simp only [Tm.dayNumber, localtime]
  generalize civilDate (seconds / secondsPerDay + epochDay) = date at hmonth hdate ⊢
  have hyear : date.year - 1900 + 1900 + (date.month : Int) / 12 = date.year := by omega
  have hmon : ((date.month : Int) % 12).toNat = date.month := by omega
  rw [hyear, hmon]
  exact hdate

theorem mktime_addDays {t : Tm} (h : 0 ≤ t.secondOfDay ∧ t.secondOfDay < secondsPerDay)
    (days : Int) :
    (mktime t + days * secondsPerDay) / secondsPerDay + epochDay = t.dayNumber + days := by
  rw [mktime, secondsPerDay] at *
  omega

end Firmware.Calendar
