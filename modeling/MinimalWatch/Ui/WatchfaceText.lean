import MinimalWatch.App.Clock
import MinimalWatch.Lib.Decimal

/-! What the watchface says of the time and the weather it is updated with, from wf2_ui.c. -/

namespace MinimalWatch.Ui
open Firmware
open App (DateTimeT getDateTime)
open Ble (HourlyWeather TimeSync)

structure WfUpdatePayload where
  time : DateTimeT
  weather : HourlyWeather
  deriving DecidableEq, Repr

inductive WfLabel
  | time
  | dateNum
  | month
  | day
  | temp
  deriving DecidableEq, Repr

/-- What the labels say. -/
structure WfTexts where
  lblTime : String
  lblDateNum : String
  lblMonth : String
  lblDay : String
  lblTemp : String
  deriving DecidableEq, Repr

/-- The texts that `wf2_draw` puts on its new labels. -/
def WfTexts.drawn : WfTexts := ⟨"10:08", "26", "DECEMBER", "MONDAY ", "24C"⟩

def WfTexts.set (t : WfTexts) : WfLabel × String → WfTexts
  | (.time, s) => { t with lblTime := s }
  | (.dateNum, s) => { t with lblDateNum := s }
  | (.month, s) => { t with lblMonth := s }
  | (.day, s) => { t with lblDay := s }
  | (.temp, s) => { t with lblTemp := s }

/-- The table has twelve rows and eleven names; the last row is empty. -/
def month : List String :=
  ["JANUARY", "FEBRUARY", "MARCH", "APRIL", "MAY", "JUNE", "JULY", "SEPTEMBER", "OCTOBER",
    "NOVEMBER", "DECEMBER", ""]

def day : List String :=
  ["SUNDAY", " MONDAY", "TUESDAY", "WEDNESDAY", "THURSDAY", "FRIDAY", "SATURDAY"]

/-- `%02u` -/
def twoDigits (n : UInt8) : String := String.ofList ((toString n.toNat).toList.leftpad 2 '0')

/-- `%2d` -/
def twoWide (z : Int) : String := String.ofList ((toString z).toList.leftpad 2 ' ')

def monthIndex (m : UInt8) : Nat :=
  let mIdx := if 0 < m.toNat then m.toNat - 1 else 0
  if 12 ≤ mIdx then 0 else mIdx

def dayIndex (d : UInt8) : Nat := if 7 ≤ d.toNat then 0 else d.toNat

/-- The labels that `wf2_update` sets, with their texts, in its order. -/
def wf2Update (p : WfUpdatePayload) : List (WfLabel × String) :=
  [(.time, twoDigits p.time.hr ++ ":" ++ twoDigits p.time.min),
    (.dateNum, twoDigits p.time.day),
    (.month, month.getD (monthIndex p.time.month) ""),
    (.day, day.getD (dayIndex p.time.dWeek) ""),
    (.temp, twoWide (p.weather.temperature.toInt.tdiv 10) ++ "C")]

/-- What the labels say after the whole of it. -/
def wf2Texts (p : WfUpdatePayload) : WfTexts := (wf2Update p).foldl WfTexts.set .drawn

/-- Every label is set, whatever it said before. -/
theorem wf2Update_texts (p : WfUpdatePayload) (texts : WfTexts) :
    (wf2Update p).foldl WfTexts.set texts = wf2Texts p := by
  simp only [wf2Texts, wf2Update, List.foldl_cons, List.foldl_nil, WfTexts.set]

theorem twoDigits_size (n : UInt8) : (twoDigits n).utf8ByteSize ≤ 3 := by
  rw [twoDigits, Decimal.size_leftpad (fun _ hc => Decimal.mem_toString hc) (by decide)]
  exact Nat.max_le.mpr ⟨by decide, Decimal.size_byte n⟩

/-- The texts that are printed have room in their buffers of 16, 4 and 8 bytes. -/
theorem wf2Texts_fit (p : WfUpdatePayload) :
    (wf2Texts p).lblTime.utf8ByteSize < 16 ∧ (wf2Texts p).lblDateNum.utf8ByteSize < 4 ∧
      (wf2Texts p).lblTemp.utf8ByteSize < 8 := by
  have hhr := twoDigits_size p.time.hr
  have hmin := twoDigits_size p.time.min
  have hday := twoDigits_size p.time.day
  have htemp := Decimal.size_tenths p.weather.temperature
  have hcolon : ":".utf8ByteSize = 1 := by decide
  have hunit : "C".utf8ByteSize = 1 := by decide
  rw [← wf2Update_texts p .drawn]
  simp only [wf2Update, List.foldl_cons, List.foldl_nil, WfTexts.set, twoWide,
    String.utf8ByteSize_append, Decimal.size_leftpad (fun _ hc => Decimal.mem_toString_int hc)
      (show ' '.utf8Size = 1 by decide)]
  omega

/-- The names of the months, from 0 on. -/
def monthNames : List String :=
  ["JANUARY", "FEBRUARY", "MARCH", "APRIL", "MAY", "JUNE", "JULY", "AUGUST", "SEPTEMBER",
    "OCTOBER", "NOVEMBER", "DECEMBER"]

theorem getDateTime_month (timeState : TimeSync) (uptime : Nat) :
    1 ≤ (getDateTime timeState uptime).2.month.toNat ∧
      (getDateTime timeState uptime).2.month.toNat ≤ 12 := by
  rw [getDateTime]
  split_ifs
  · obtain ⟨⟨hlow, hhigh⟩, -⟩ := Calendar.localtime_range (App.timeVal timeState uptime)
    simp only [App.dateTimeOf, UInt8.ofInt, UInt8.toNat_ofNat']
    omega
  · decide

theorem monthIndex_eq {m : UInt8} (h : 1 ≤ m.toNat ∧ m.toNat ≤ 12) :
    monthIndex m = m.toNat - 1 := by
  simp only [monthIndex]
  split_ifs <;> omega

/-- The month is named right up to July; from August on the name is that of the month after,
and in December there is none. -/
theorem lblMonth_right_iff (timeState : TimeSync) (uptime : Nat) (weather : HourlyWeather) :
    let time := (getDateTime timeState uptime).2
    (some (wf2Texts ⟨time, weather⟩).lblMonth = monthNames[time.month.toNat - 1]? ↔
        time.month.toNat ≤ 7) ∧
      (7 < time.month.toNat →
        (wf2Texts ⟨time, weather⟩).lblMonth = monthNames.getD time.month.toNat "") := by
  intro time
  have hrange := getDateTime_month timeState uptime
  have hlbl : (wf2Texts ⟨time, weather⟩).lblMonth = month.getD (time.month.toNat - 1) "" := by
    rw [← monthIndex_eq hrange]
    rfl
  rw [hlbl]
  obtain ⟨hlow, hhigh⟩ := hrange
  change 1 ≤ time.month.toNat at hlow
  change time.month.toNat ≤ 12 at hhigh
  generalize time.month.toNat = m at hlow hhigh ⊢
  have hall : ∀ m ∈ List.range' 1 12,
      (some (month.getD (m - 1) "") = monthNames[m - 1]? ↔ m ≤ 7) ∧
        (7 < m → month.getD (m - 1) "" = monthNames.getD m "") := by
    decide
  exact hall m (List.mem_range'_1.mpr ⟨hlow, by omega⟩)

end MinimalWatch.Ui
