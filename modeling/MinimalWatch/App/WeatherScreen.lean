import MinimalWatch.App.WeatherDates
import MinimalWatch.Lib.Decimal

/-! What the weather app shows, from weather_ui.c: the labels of the current hour, the card
that one pages through the hours with, the date, and the spinner that covers the card while
an answer is awaited. Every handler writes labels of its own accord; no function draws the
screen as a whole. -/

namespace MinimalWatch.App
open Firmware Firmware.Calendar
open Ble (HourlyWeather hoursPerDay)
open Ui (LvKey)

def hexColorTextPrimary : String := "#28799c"
def hexColorTextPrimaryLight : String := "#e3e2e6"
def hexColorTextSecondary : String := "#4f8ee0"
def hexColorTextTertiary : String := "#38bf36"
def hexColorTextTertiaryLight : String := "#85f29f"
def hexColorFocusBg : String := "#f02939"
def hexColorFocusBgLight : String := "#ed0510"

def totalHours : Nat := 24

inductive WeatherImg
  | sunny
  | cloud
  | rainy
  deriving DecidableEq, Repr

def getIconFromCode (code : UInt8) : WeatherImg :=
  if code.toNat ∈ [0, 1] then .sunny
  else if code.toNat ∈ [2, 3, 45, 48] then .cloud
  else if code.toNat ∈ [51, 53, 55, 56, 57, 61, 63, 65, 66, 67, 80, 81, 82, 95, 96, 99] then .rainy
  else .sunny

/-- The labels of the hour that the screen is about. -/
structure MainLabels where
  currentTempLbl : String
  humidityLbl : String
  precipLbl : String
  windLbl : String
  mainIcon : WeatherImg
  deriving DecidableEq, Repr

/-- The labels on the card. -/
structure HourlyLabels where
  hourlyTimeLbl : String
  hourlyTempLbl : String
  hourlyHumLbl : String
  hourlyWindLbl : String
  hourlyIconImg : WeatherImg
  deriving DecidableEq, Repr

/-- Tenths of a degree, divided as C divides. -/
def displayTemp (data : HourlyWeather) : Int := data.temperature.toInt.tdiv 10

def mainLabels (data : HourlyWeather) : MainLabels where
  currentTempLbl := toString (displayTemp data) ++ "°C"
  humidityLbl := "H: " ++ toString data.humidity.toNat ++ "%"
  precipLbl := "P: " ++ toString data.precipProb.toNat ++ "%"
  windLbl := "W: " ++ toString data.windSpeed.toNat ++ "km/h"
  mainIcon := getIconFromCode data.weatherCode

def displayHour (hour : Nat) : Nat := if hour % 12 = 0 then 12 else hour % 12

def hourlyLabels (lblClr valClr : String) (hour : Nat) (data : HourlyWeather) : HourlyLabels where
  hourlyTimeLbl := valClr ++ " " ++ toString (displayHour hour) ++ " " ++
    (if 12 ≤ hour then "PM" else "AM") ++ "#"
  hourlyTempLbl := lblClr ++ " TEMP:# " ++ valClr ++ " " ++ toString (displayTemp data) ++ "°C#"
  hourlyHumLbl :=
    lblClr ++ " HUMID:# " ++ valClr ++ " " ++ toString data.humidity.toNat ++ "%#"
  hourlyWindLbl :=
    lblClr ++ " WIND:# " ++ valClr ++ " " ++ toString data.windSpeed.toNat ++ "km/h#"
  hourlyIconImg := getIconFromCode data.weatherCode

def daysOfWeek : List String := ["Sun", "Mon", "Tue", "Wed", "Thu", "Fri", "Sat"]

def monthsOfYear : List String :=
  ["", "Jan", "Feb", "Mar", "Apr", "May", "Jun", "Jul", "Aug", "Sep", "Oct", "Nov", "Dec"]

/-- `tm_wday`; day 0 is a Monday. -/
def weekday (t : Tm) : Nat := ((t.dayNumber + 1) % 7).toNat

/-- What `update_date_string` writes. -/
def WeatherApp.dateStr (a : WeatherApp) (dateClr : String) : String :=
  let wday := if weekday a.normalizedTime < 7 then weekday a.normalizedTime else 0
  let mon := if 0 ≤ a.normalizedTime.tmMon ∧ a.normalizedTime.tmMon < 12 then
    a.normalizedTime.tmMon + 1 else 1
  dateClr ++ " " ++ daysOfWeek.getD wday "" ++ ", " ++ monthsOfYear.getD mon.toNat "" ++ " " ++
    toString a.normalizedTime.tmMday ++ "#"

/-- `hourly_forecast[hour]` -/
def Forecast.hour (f : Forecast) (hour : Nat) : HourlyWeather :=
  f.hours.cells.getD hour ⟨0, 0, 0, 0, 0⟩

/-- The static state of the app and its labels. The pointers to the objects are set and
cleared together, as `labels` says, but for `loading_spinner`. -/
structure WeatherScreen where
  app : WeatherApp
  currentHourOffset : Int
  main : MainLabels
  hourly : HourlyLabels
  dateLbl : String
  /-- `loading_spinner` is not NULL. -/
  loadingSpinner : Bool
  /-- The spinners on the panel. -/
  spinners : Nat
  /-- The flags and states of LVGL that the code sets or asks for. -/
  cardHidden : Bool
  cardFocused : Bool
  panelFocused : Bool
  deriving DecidableEq, Repr

namespace WeatherScreen

def start : WeatherScreen where
  app := .start
  currentHourOffset := 0
  main := ⟨"", "", "", "", .sunny⟩
  hourly := ⟨"", "", "", "", .sunny⟩
  dateLbl := ""
  loadingSpinner := false
  spinners := 0
  cardHidden := false
  cardFocused := false
  panelFocused := false

/-! ### weather_ui.c -/

def updateCardData (s : WeatherScreen) (lblClr valClr : String) : WeatherScreen :=
  if s.app.labels = false then s
  else
    let offset := if s.currentHourOffset < 0 then 0 else s.currentHourOffset
    let offset := if totalHours ≤ offset then (totalHours : Int) - 1 else offset
    { s with
      currentHourOffset := offset
      hourly := hourlyLabels lblClr valClr offset.toNat (s.app.hourlyForecast.hour offset.toNat) }

def resetWeatherData (s : WeatherScreen) : WeatherScreen :=
  { s with
    app := { s.app with hourlyForecast := .cleared }
    main := if s.app.labels then ⟨"0°C", "H: 0%", "P: 0%", "W: 0km/h", .sunny⟩ else s.main }.updateCardData
    hexColorTextSecondary hexColorTextPrimary

def updateDateString (s : WeatherScreen) (dateClr : String) (commitNewDate : Bool) :
    WeatherScreen :=
  { s with
    app := s.app.updateDateString commitNewDate
    dateLbl := if s.app.labels then s.app.dateStr dateClr else s.dateLbl }

def triggerDatedWeatherRequest (s : WeatherScreen) (targetDate : Date) :
    WeatherScreen × Option Date :=
  let s := s.resetWeatherData
  if s.app.labels ∧ s.loadingSpinner = false then
    ({ s with cardHidden := true, loadingSpinner := true, spinners := s.spinners + 1 },
      some targetDate)
  else (s, some targetDate)

/-- The spinner is deleted, and the card shown. -/
def uncoverCard (s : WeatherScreen) : WeatherScreen :=
  { s with
    loadingSpinner := false
    spinners := if s.loadingSpinner then s.spinners - 1 else s.spinners
    cardHidden := false }

/-- `target_hour` of the refresh. -/
def targetHour (a : WeatherApp) : Nat :=
  if a.customDateActive then 0 else a.dt.hr.toNat % totalHours

/-- `now` is what `get_date_time` gives. -/
def refreshWeatherUiData (s : WeatherScreen) (now : DateTime) : WeatherScreen :=
  if s.app.labels = false then s
  else
    let app := if s.app.customDateActive then s.app else { s.app with dt := now }
    let s := { s.uncoverCard with
      app := app
      main := mainLabels (app.hourlyForecast.hour (targetHour app))
      currentHourOffset := targetHour app }
    (s.updateCardData hexColorTextSecondary
      (if s.cardFocused then hexColorFocusBg
        else if s.panelFocused then hexColorTextTertiary
        else hexColorTextPrimary)).updateDateString hexColorTextTertiaryLight false

/-- The picker let go of, with the colour that the date is written in. -/
def commitDate (s : WeatherScreen) (dateClr : String) : WeatherScreen × Option Date :=
  (s.updateDateString dateClr true).triggerDatedWeatherRequest s.app.getOffsetDateSnapshot

def dateKeyEventCb (s : WeatherScreen) : DateEvent → WeatherScreen × Option Date
  | .key .enter =>
    let s := { s with app := { s.app with dateActiveHeld := !s.app.dateActiveHeld } }
    if s.app.dateActiveHeld = false then s.commitDate hexColorFocusBgLight
    else (s.updateDateString hexColorFocusBgLight false, none)
  | .key .right =>
    if s.app.dateActiveHeld then
      ({ s with app := { s.app with dateDayOffset := s.app.dateDayOffset + 1 } }.updateDateString
        hexColorFocusBgLight false, none)
    else (s, none)
  | .key .left =>
    if s.app.dateActiveHeld then
      ({ s with app := { s.app with dateDayOffset := s.app.dateDayOffset - 1 } }.updateDateString
        hexColorFocusBgLight false, none)
    else (s, none)
  | .key _ => (s, none)
  | .focused => (s.updateDateString hexColorTextTertiaryLight false, none)
  | .defocused =>
    if s.app.dateActiveHeld then
      { s with app := { s.app with dateActiveHeld := false } }.commitDate hexColorTextPrimaryLight
    else (s.updateDateString hexColorTextPrimaryLight false, none)

/-- Events of the card. LVGL sets the state before it calls the handler. -/
def cardKeyEventCb (s : WeatherScreen) : DateEvent → WeatherScreen
  | .key .right =>
    if (totalHours : Int) - 1 ≤ s.currentHourOffset then s
    else { s with currentHourOffset := s.currentHourOffset + 1 }.updateCardData
      hexColorTextSecondary hexColorFocusBg
  | .key .left =>
    if s.currentHourOffset ≤ 0 then s
    else { s with currentHourOffset := s.currentHourOffset - 1 }.updateCardData
      hexColorTextSecondary hexColorFocusBg
  | .key _ => s
  | .focused =>
    { s with cardFocused := true }.updateCardData hexColorTextSecondary hexColorFocusBg
  | .defocused =>
    { s with cardFocused := false }.updateCardData hexColorTextSecondary hexColorTextTertiary

/-- Events of the panel. ENTER puts the focus on the card, which gets its own event. -/
def containerKeyEventCb (s : WeatherScreen) : DateEvent → WeatherScreen
  | .key _ => s
  | .focused =>
    { s with panelFocused := true }.updateCardData hexColorTextSecondary hexColorTextTertiary
  | .defocused =>
    { s with panelFocused := false }.updateCardData hexColorTextSecondary hexColorTextPrimary

/-- `today` is what `get_weather_day` gives. The objects are new. -/
def drawAppUi (s : WeatherScreen) (today : Forecast) (now : DateTime) : WeatherScreen :=
  let liveHour := now.hr.toNat % 24
  let s := { s with
    app := { s.app with
      dateActiveHeld := false
      dateDayOffset := 0
      customDateActive := false
      hourlyForecast := today
      dt := now
      labels := true }
    loadingSpinner := false
    spinners := 0
    cardHidden := false
    cardFocused := false
    panelFocused := false
    main := mainLabels (today.hour liveHour)
    currentHourOffset := if totalHours ≤ liveHour + 1 then (totalHours : Int) - 1
      else liveHour + 1 }
  (s.updateDateString hexColorTextPrimaryLight false).updateCardData hexColorTextSecondary
    hexColorTextPrimary

/-- With the objects, which are deleted after the call. -/
def deleteAppUi (s : WeatherScreen) : WeatherScreen :=
  { s with app := s.app.deleteAppUi, loadingSpinner := false, spinners := 0 }

/-- An answer to a dated query; another update is not handled. -/
def receiveEvent (s : WeatherScreen) (forecast : Forecast) (now : DateTime) : WeatherScreen :=
  { s with
    app := { s.app with
      hourlyForecast := forecast
      dateActiveHeld := false } }.refreshWeatherUiData now

end WeatherScreen

/-! ### The buffers that the texts are printed into -/

/-- Each text of the top has room in its 16 bytes. -/
theorem mainLabels_fit (data : HourlyWeather) :
    (mainLabels data).currentTempLbl.utf8ByteSize < 16 ∧
      (mainLabels data).humidityLbl.utf8ByteSize < 16 ∧
      (mainLabels data).precipLbl.utf8ByteSize < 16 ∧
      (mainLabels data).windLbl.utf8ByteSize < 16 := by
  have htemp : (toString (displayTemp data)).utf8ByteSize ≤ 5 := Decimal.size_tenths _
  have hhum := Decimal.size_byte data.humidity
  have hprecip := Decimal.size_byte data.precipProb
  have hwind := Decimal.size_byte data.windSpeed
  have hdeg : "°C".utf8ByteSize = 3 := by decide
  have hunit : "km/h".utf8ByteSize = 4 := by decide
  have hh : "H: ".utf8ByteSize = 3 := by decide
  have hp : "P: ".utf8ByteSize = 3 := by decide
  have hw : "W: ".utf8ByteSize = 3 := by decide
  have hpct : "%".utf8ByteSize = 1 := by decide
  simp only [mainLabels, String.utf8ByteSize_append]
  omega

theorem displayHour_lt (hour : Nat) : displayHour hour < 10 ^ 2 := by
  rw [displayHour]
  split <;> omega

/-- Each text of the card has room in its 64 bytes. -/
theorem hourlyLabels_fit {lblClr valClr : String} (hlbl : lblClr.utf8ByteSize = 7)
    (hval : valClr.utf8ByteSize = 7) (hour : Nat) (data : HourlyWeather) :
    (hourlyLabels lblClr valClr hour data).hourlyTimeLbl.utf8ByteSize < 64 ∧
      (hourlyLabels lblClr valClr hour data).hourlyTempLbl.utf8ByteSize < 64 ∧
      (hourlyLabels lblClr valClr hour data).hourlyHumLbl.utf8ByteSize < 64 ∧
      (hourlyLabels lblClr valClr hour data).hourlyWindLbl.utf8ByteSize < 64 := by
  have htime := Decimal.size_toString_le (by decide) (displayHour_lt hour)
  have hnoon : (if 12 ≤ hour then "PM" else "AM").utf8ByteSize = 2 := by split <;> rfl
  have htemp : (toString (displayTemp data)).utf8ByteSize ≤ 5 := Decimal.size_tenths _
  have hhum := Decimal.size_byte data.humidity
  have hwind := Decimal.size_byte data.windSpeed
  have htempLbl : " TEMP:# ".utf8ByteSize = 8 := by decide
  have hhumLbl : " HUMID:# ".utf8ByteSize = 9 := by decide
  have hwindLbl : " WIND:# ".utf8ByteSize = 8 := by decide
  have hdeg : "°C#".utf8ByteSize = 4 := by decide
  have hunit : "km/h#".utf8ByteSize = 5 := by decide
  have hpct : "%#".utf8ByteSize = 2 := by decide
  have hhash : "#".utf8ByteSize = 1 := by decide
  have hblank : " ".utf8ByteSize = 1 := by decide
  simp only [hourlyLabels, String.utf8ByteSize_append]
  omega

/-! ### What each handler writes -/

namespace WeatherScreen

@[simp] theorem updateCardData_app (s : WeatherScreen) (lblClr valClr : String) :
    (s.updateCardData lblClr valClr).app = s.app := by
  rw [updateCardData]
  split_ifs <;> rfl

/-- The spinner and the card below it. -/
structure Cover where
  loadingSpinner : Bool
  spinners : Nat
  cardHidden : Bool
  deriving DecidableEq, Repr

def cover (s : WeatherScreen) : Cover := ⟨s.loadingSpinner, s.spinners, s.cardHidden⟩

/-- The card is covered by one spinner, or by none. -/
def Cover.of (covered : Bool) : Cover := ⟨covered, if covered then 1 else 0, covered⟩

@[simp] theorem updateCardData_cover (s : WeatherScreen) (lblClr valClr : String) :
    (s.updateCardData lblClr valClr).cover = s.cover := by
  rw [updateCardData]
  split_ifs <;> rfl

/-- The card shows the hour that it is at. -/
structure CardFresh (s : WeatherScreen) : Prop where
  offset : 0 ≤ s.currentHourOffset ∧ s.currentHourOffset < totalHours
  card : ∃ lblClr valClr, s.hourly = hourlyLabels lblClr valClr s.currentHourOffset.toNat
    (s.app.hourlyForecast.hour s.currentHourOffset.toNat)

/-- The labels at the top show the hour of the clock, or the first hour of a picked date. -/
def MainFresh (s : WeatherScreen) : Prop :=
  s.main = mainLabels (s.app.hourlyForecast.hour (targetHour s.app))

def DateFresh (s : WeatherScreen) : Prop := ∃ dateClr, s.dateLbl = s.app.dateStr dateClr

/-- The hours of both are hours of the forecast, every label shows what the state says, and
the card is covered while `covered`. -/
structure Fresh (s : WeatherScreen) (covered : Bool) : Prop where
  card : s.CardFresh
  main : s.MainFresh
  date : s.DateFresh
  cover : s.cover = .of covered

theorem updateCardData_fresh {s : WeatherScreen} (h : s.app.labels = true)
    (lblClr valClr : String) : (s.updateCardData lblClr valClr).CardFresh := by
  have hhours : (totalHours : Int) = 24 := rfl
  rw [updateCardData, if_neg (by simp [h])]
  refine ⟨?_, lblClr, valClr, rfl⟩
  simp only
  split_ifs <;> omega

/-- In an open app the card is written anew and nothing else changes. -/
theorem updateCardData_allFresh {s : WeatherScreen} {covered : Bool} (h : s.app.labels = true)
    (hmain : s.MainFresh) (hdate : s.DateFresh) (hcover : s.cover = .of covered)
    (lblClr valClr : String) : (s.updateCardData lblClr valClr).Fresh covered := by
  refine ⟨updateCardData_fresh h lblClr valClr, ?_, ?_, ?_⟩
  · rw [WeatherScreen.updateCardData]
    split_ifs <;> exact hmain
  · rw [WeatherScreen.updateCardData]
    split_ifs <;> exact hdate
  · rw [updateCardData_cover, hcover]

theorem updateDateString_fresh {s : WeatherScreen} {covered : Bool} (h : s.app.labels = true)
    (hcard : s.CardFresh) (hmain : s.MainFresh) (hcover : s.cover = .of covered)
    (dateClr : String) : (s.updateDateString dateClr false).Fresh covered := by
  have happ : (s.updateDateString dateClr false).app = s.app := by
    simp [WeatherScreen.updateDateString]
  refine ⟨⟨hcard.offset, ?_⟩, ?_, ⟨dateClr, ?_⟩, hcover⟩
  · rw [happ]
    exact hcard.card
  · rw [MainFresh, happ]
    exact hmain
  · rw [happ]
    exact if_pos h

/-! ### The date in the label -/

/-- The label says the displayed day and nothing else of the state. -/
theorem dateStr_congr {a b : WeatherApp} (h : a.displayedDay = b.displayedDay)
    (dateClr : String) : a.dateStr dateClr = b.dateStr dateClr := by
  have hday : ∀ c : WeatherApp,
      (c.normalizedTime.tmYear, c.normalizedTime.tmMon, c.normalizedTime.tmMday) =
        ((civilDate c.displayedDay).year - 1900, ((civilDate c.displayedDay).month : Int),
          (civilDate c.displayedDay).day) := by
    intro c
    have hnumber := c.normalizedTime_dayNumber
    rw [WeatherApp.normalizedTime, localtime_dayNumber] at hnumber
    simp only [WeatherApp.normalizedTime, localtime, hnumber]
  have hwday : weekday a.normalizedTime = weekday b.normalizedTime := by
    rw [weekday, weekday, a.normalizedTime_dayNumber, b.normalizedTime_dayNumber, h]
  have ha := hday a
  have hb := hday b
  rw [h, ← hb] at ha
  obtain ⟨-, hmon, hmday⟩ := Prod.mk.inj ha |>.imp_right Prod.mk.inj
  simp only [WeatherApp.dateStr, hwday, hmon, hmday]

/-- The displayed date has a year of 16 bits. -/
def YearFits (a : WeatherApp) : Prop :=
  0 ≤ a.normalizedTime.tmYear + 1900 ∧ a.normalizedTime.tmYear + 1900 < 65536

instance (a : WeatherApp) : Decidable (YearFits a) := inferInstanceAs (Decidable (_ ∧ _))

/-- Taking a date over does not change the day that is displayed. -/
theorem updateDateString_displayedDay {a : WeatherApp} (hfits : YearFits a) (commit : Bool) :
    (a.updateDateString commit).displayedDay = a.displayedDay := by
  rw [WeatherApp.updateDateString]
  split_ifs
  · rfl
  · rw [← WeatherApp.getOffsetDateSnapshot_dayNumber hfits]
    exact Int.add_zero _
  · rfl

theorem hour_cleared (hour : Nat) : Forecast.cleared.hour hour = ⟨0, 0, 0, 0, 0⟩ := by
  simp only [Forecast.hour, Forecast.cleared, Memory.Buffer.fill, List.getD_eq_getElem?_getD,
    List.getElem?_replicate]
  split_ifs <;> rfl

/-- The texts of the reset are those of an hour of the cleared forecast. -/
theorem mainLabels_cleared (hour : Nat) :
    mainLabels (Forecast.cleared.hour hour) = ⟨"0°C", "H: 0%", "P: 0%", "W: 0km/h", .sunny⟩ := by
  rw [hour_cleared]
  rfl

theorem resetWeatherData_fresh {s : WeatherScreen} {covered : Bool} (h : s.app.labels = true)
    (hdate : s.DateFresh) (hcover : s.cover = .of covered) :
    s.resetWeatherData.Fresh covered := by
  obtain ⟨dateClr, hlbl⟩ := hdate
  rw [resetWeatherData]
  apply updateCardData_allFresh
  · exact h
  · rw [MainFresh, mainLabels_cleared]
    exact if_pos h
  · exact ⟨dateClr, hlbl.trans (dateStr_congr rfl dateClr)⟩
  · exact hcover

theorem resetWeatherData_labels (s : WeatherScreen) :
    s.resetWeatherData.app.labels = s.app.labels := by
  rw [resetWeatherData, updateCardData_app]

/-- A query covers the card, once. -/
theorem triggerDatedWeatherRequest_fresh {s : WeatherScreen} {covered : Bool}
    (h : s.app.labels = true) (hdate : s.DateFresh) (hcover : s.cover = .of covered)
    (targetDate : Date) : (s.triggerDatedWeatherRequest targetDate).1.Fresh true := by
  have hreset := resetWeatherData_fresh h hdate hcover
  have hlabels := s.resetWeatherData_labels
  have hspinner := congrArg Cover.loadingSpinner hreset.cover
  have hspinners := congrArg Cover.spinners hreset.cover
  simp only [cover, Cover.of] at hspinner hspinners
  rw [triggerDatedWeatherRequest]
  split_ifs with hnew
  · refine ⟨⟨hreset.card.offset, hreset.card.card⟩, hreset.main, hreset.date, ?_⟩
    rw [hnew.2] at hspinner
    rw [← hspinner] at hspinners
    simp only [cover, hspinners]
    rfl
  · have hcovered : covered = true := by
      rw [hlabels, h, hspinner] at hnew
      simpa using hnew
    exact hcovered ▸ hreset

/-- What is taken over is asked for. -/
theorem commitDate_query (s : WeatherScreen) (dateClr : String) :
    (s.commitDate dateClr).2 = some s.app.getOffsetDateSnapshot := by
  rw [commitDate, triggerDatedWeatherRequest]
  split_ifs <;> rfl

theorem commitDate_fresh {s : WeatherScreen} {covered : Bool} (h : s.app.labels = true)
    (hfits : YearFits s.app) (hcover : s.cover = .of covered) (dateClr : String) :
    (s.commitDate dateClr).1.Fresh true := by
  have hday := updateDateString_displayedDay hfits true
  rw [commitDate]
  apply triggerDatedWeatherRequest_fresh
  · rw [updateDateString, WeatherApp.updateDateString]
    split_ifs <;> exact h
  · exact ⟨dateClr, (if_pos h).trans (dateStr_congr hday.symm dateClr)⟩
  · exact hcover

theorem uncoverCard_cover {s : WeatherScreen} {covered : Bool} (h : s.cover = .of covered) :
    s.uncoverCard.cover = .of false := by
  have hspinner := congrArg Cover.loadingSpinner h
  have hspinners := congrArg Cover.spinners h
  simp only [cover, Cover.of] at hspinner hspinners
  simp only [cover, Cover.of, uncoverCard, hspinner, hspinners]
  cases covered <;> rfl

/-- An answer uncovers the card and writes every label. -/
theorem refreshWeatherUiData_fresh {s : WeatherScreen} {covered : Bool}
    (h : s.app.labels = true) (hcover : s.cover = .of covered) (now : DateTime) :
    (s.refreshWeatherUiData now).Fresh false := by
  have happ : (if s.app.customDateActive then s.app else { s.app with dt := now }).labels =
      true := by
    split_ifs <;> exact h
  have huncovered := uncoverCard_cover hcover
  rw [refreshWeatherUiData, if_neg (by simp [h])]
  refine updateDateString_fresh ?_ (updateCardData_fresh happ _ _) ?_ ?_ _
  · rw [updateCardData_app]
    exact happ
  · rw [MainFresh, updateCardData_app, updateCardData]
    split_ifs <;> rfl
  · rw [updateCardData_cover]
    exact huncovered

theorem drawAppUi_fresh (s : WeatherScreen) (today : Forecast) (now : DateTime) :
    (s.drawAppUi today now).Fresh false := by
  rw [drawAppUi]
  apply updateCardData_allFresh
  · rfl
  · rfl
  · exact ⟨hexColorTextPrimaryLight, rfl⟩
  · rfl

/-- Where the state says the same but for the card, a card that is written anew is enough. -/
theorem Fresh.card_written {s t : WeatherScreen} {covered : Bool} (h : s.app.labels = true)
    (hfresh : s.Fresh covered) (happ : t.app = s.app) (hmain : t.main = s.main)
    (hdate : t.dateLbl = s.dateLbl) (hcover : t.cover = s.cover) (lblClr valClr : String) :
    (t.updateCardData lblClr valClr).Fresh covered := by
  apply updateCardData_allFresh
  · rw [happ]
    exact h
  · rw [MainFresh, happ, hmain]
    exact hfresh.main
  · rw [DateFresh, happ, hdate]
    exact hfresh.date
  · rw [hcover]
    exact hfresh.cover

theorem cardKeyEventCb_fresh {s : WeatherScreen} {covered : Bool} (h : s.app.labels = true)
    (hfresh : s.Fresh covered) (event : DateEvent) : (s.cardKeyEventCb event).Fresh covered := by
  cases event with
  | key key =>
    cases key with
    | right =>
      rw [cardKeyEventCb]
      split_ifs
      · exact hfresh
      · apply hfresh.card_written h <;> rfl
    | left =>
      rw [cardKeyEventCb]
      split_ifs
      · exact hfresh
      · apply hfresh.card_written h <;> rfl
    | _ => exact hfresh
  | focused => apply hfresh.card_written h <;> rfl
  | defocused => apply hfresh.card_written h <;> rfl

theorem containerKeyEventCb_fresh {s : WeatherScreen} {covered : Bool}
    (h : s.app.labels = true) (hfresh : s.Fresh covered) (event : DateEvent) :
    (s.containerKeyEventCb event).Fresh covered := by
  cases event with
  | key key => exact hfresh
  | focused => apply hfresh.card_written h <;> rfl
  | defocused => apply hfresh.card_written h <;> rfl

/-- Where the state says the same but for the date, a date that is written anew is enough. -/
theorem Fresh.date_written {s t : WeatherScreen} {covered : Bool} (h : s.app.labels = true)
    (hfresh : s.Fresh covered) (hlabels : t.app.labels = s.app.labels)
    (hforecast : t.app.hourlyForecast = s.app.hourlyForecast)
    (htarget : targetHour t.app = targetHour s.app)
    (hoffset : t.currentHourOffset = s.currentHourOffset) (hhourly : t.hourly = s.hourly)
    (hmain : t.main = s.main) (hcover : t.cover = s.cover) (dateClr : String) :
    (t.updateDateString dateClr false).Fresh covered := by
  apply updateDateString_fresh
  · rw [hlabels]
    exact h
  · refine ⟨?_, ?_⟩
    · rw [hoffset]
      exact hfresh.card.offset
    · rw [hoffset, hhourly, hforecast]
      exact hfresh.card.card
  · rw [MainFresh, hmain, hforecast, htarget]
    exact hfresh.main
  · rw [hcover]
    exact hfresh.cover

/-- An event of the picker writes the date; where it asks for another the card is covered. -/
theorem dateKeyEventCb_fresh {s : WeatherScreen} {covered : Bool} (h : s.app.labels = true)
    (hfits : YearFits s.app) (hfresh : s.Fresh covered) (event : DateEvent) :
    (s.dateKeyEventCb event).1.Fresh (covered || (s.dateKeyEventCb event).2.isSome) := by
  have hkeep : ∀ t : WeatherScreen, t.Fresh covered →
      t.Fresh (covered || (none : Option Date).isSome) := fun t ht => by
    rwa [Option.isSome_none, Bool.or_false]
  have hcommit : ∀ (t : WeatherScreen) (dateClr : String), t.app.labels = true →
      YearFits t.app → t.cover = .of covered →
      (t.commitDate dateClr).1.Fresh (covered || (t.commitDate dateClr).2.isSome) :=
    fun t dateClr ht hyear hcover => by
      rw [commitDate_query, Option.isSome_some, Bool.or_true]
      exact commitDate_fresh ht hyear hcover dateClr
  cases event with
  | key key =>
    cases key with
    | enter =>
      simp only [dateKeyEventCb]
      split_ifs
      · exact hcommit _ _ h hfits hfresh.cover
      · apply hkeep
        apply hfresh.date_written h <;> rfl
    | right =>
      simp only [dateKeyEventCb]
      split_ifs
      · apply hkeep
        apply hfresh.date_written h <;> rfl
      · exact hkeep s hfresh
    | left =>
      simp only [dateKeyEventCb]
      split_ifs
      · apply hkeep
        apply hfresh.date_written h <;> rfl
      · exact hkeep s hfresh
    | _ => exact hkeep s hfresh
  | focused =>
    apply hkeep
    apply hfresh.date_written h <;> rfl
  | defocused =>
    simp only [dateKeyEventCb]
    split_ifs
    · exact hcommit _ _ h hfits hfresh.cover
    · apply hkeep
      apply hfresh.date_written h <;> rfl

/-! ### The date below it -/

theorem updateDateString_app (s : WeatherScreen) (dateClr : String) (commit : Bool) :
    (s.updateDateString dateClr commit).app = s.app.updateDateString commit := rfl

theorem commitDate_app (s : WeatherScreen) (dateClr : String) :
    ((s.commitDate dateClr).1.app, (s.commitDate dateClr).2) = s.app.commitDate := by
  rw [commitDate, triggerDatedWeatherRequest]
  split_ifs <;> simp only [resetWeatherData, updateCardData_app] <;> rfl

/-- The date is handled as it is without the labels. -/
theorem dateKeyEventCb_app (s : WeatherScreen) (event : DateEvent) :
    ((s.dateKeyEventCb event).1.app, (s.dateKeyEventCb event).2) = s.app.dateKeyEventCb event := by
  cases event with
  | key key =>
    cases key with
    | enter =>
      simp only [dateKeyEventCb, WeatherApp.dateKeyEventCb]
      split_ifs
      · exact commitDate_app _ _
      · rfl
    | right =>
      simp only [dateKeyEventCb, WeatherApp.dateKeyEventCb]
      split_ifs <;> rfl
    | left =>
      simp only [dateKeyEventCb, WeatherApp.dateKeyEventCb]
      split_ifs <;> rfl
    | _ => rfl
  | focused => rfl
  | defocused =>
    simp only [dateKeyEventCb, WeatherApp.dateKeyEventCb]
    split_ifs
    · exact commitDate_app _ _
    · rfl

theorem drawAppUi_app (s : WeatherScreen) (today : Forecast) (now : DateTime) :
    (s.drawAppUi today now).app = s.app.drawAppUi today now := by
  rw [drawAppUi, updateCardData_app]
  rfl

theorem receiveEvent_app (s : WeatherScreen) (forecast : Forecast) (now : DateTime) :
    (s.receiveEvent forecast now).app = s.app.receiveEvent forecast now := by
  rw [receiveEvent, refreshWeatherUiData, WeatherApp.receiveEvent,
    WeatherApp.refreshWeatherUiData]
  split_ifs <;> simp only [updateDateString_app, updateCardData_app]

theorem cardKeyEventCb_app (s : WeatherScreen) (event : DateEvent) :
    (s.cardKeyEventCb event).app = s.app := by
  cases event with
  | key key =>
    cases key with
    | right =>
      rw [cardKeyEventCb]
      split_ifs
      · rfl
      · exact updateCardData_app _ _ _
    | left =>
      rw [cardKeyEventCb]
      split_ifs
      · rfl
      · exact updateCardData_app _ _ _
    | _ => rfl
  | focused => exact updateCardData_app _ _ _
  | defocused => exact updateCardData_app _ _ _

theorem containerKeyEventCb_app (s : WeatherScreen) (event : DateEvent) :
    (s.containerKeyEventCb event).app = s.app := by
  cases event with
  | key key => rfl
  | focused => exact updateCardData_app _ _ _
  | defocused => exact updateCardData_app _ _ _

end WeatherScreen

/-! ### Runs -/

inductive ScreenAction
  | draw (today : Forecast) (now : DateTime)
  | delete
  | date (event : DateEvent)
  | card (event : DateEvent)
  | container (event : DateEvent)
  | receive (forecast : Forecast) (now : DateTime)

/-- Events reach the objects of an open app; an update may reach a closed one. -/
def screenStep (s : WeatherScreen) : ScreenAction → Option WeatherScreen
  | .draw today now => if s.app.labels then none else some (s.drawAppUi today now)
  | .delete => if s.app.labels then some s.deleteAppUi else none
  | .date event => if s.app.labels then some (s.dateKeyEventCb event).1 else none
  | .card event => if s.app.labels then some (s.cardKeyEventCb event) else none
  | .container event => if s.app.labels then some (s.containerKeyEventCb event) else none
  | .receive forecast now => some (s.receiveEvent forecast now)

/-- The same without the labels. -/
def weatherStep (a : WeatherApp) : ScreenAction → Option WeatherApp
  | .draw today now => if a.labels then none else some (a.drawAppUi today now)
  | .delete => if a.labels then some a.deleteAppUi else none
  | .date event => if a.labels then some (a.dateKeyEventCb event).1 else none
  | .card _ => if a.labels then some a else none
  | .container _ => if a.labels then some a else none
  | .receive forecast now => some (a.receiveEvent forecast now)

theorem screenStep_app (s : WeatherScreen) (action : ScreenAction) :
    (screenStep s action).map WeatherScreen.app = weatherStep s.app action := by
  cases action with
  | draw today now =>
    rw [screenStep, weatherStep]
    split_ifs
    · rfl
    · exact congrArg some (s.drawAppUi_app today now)
  | delete =>
    rw [screenStep, weatherStep]
    split_ifs <;> rfl
  | date event =>
    rw [screenStep, weatherStep]
    split_ifs
    · exact congrArg (fun r => some r.1) (s.dateKeyEventCb_app event)
    · rfl
  | card event =>
    rw [screenStep, weatherStep]
    split_ifs
    · exact congrArg some (s.cardKeyEventCb_app event)
    · rfl
  | container event =>
    rw [screenStep, weatherStep]
    split_ifs
    · exact congrArg some (s.containerKeyEventCb_app event)
    · rfl
  | receive forecast now => exact congrArg some (s.receiveEvent_app forecast now)

/-- A run of the app with its labels is a run of the app. -/
theorem screen_run_app {s t : WeatherScreen} {actions : List ScreenAction}
    (hrun : Machine.run screenStep s actions = some t) :
    Machine.run weatherStep s.app actions = some t.app :=
  Machine.run_map screenStep WeatherScreen.app screenStep_app hrun

/-- Whether a query was asked after the last answer that the open app got. -/
def awaitsNext (s : WeatherScreen) (action : ScreenAction) (_ : WeatherScreen) (awaits : Bool) :
    Bool :=
  match action with
  | .draw _ _ => false
  | .date event => awaits || (s.dateKeyEventCb event).2.isSome
  | .receive _ _ => false
  | _ => awaits

abbrev awaitingStep : WeatherScreen × Bool → ScreenAction → Option (WeatherScreen × Bool) :=
  Machine.recording screenStep awaitsNext

def ScreenFresh (s : WeatherScreen × Bool) : Prop := s.1.app.labels = true → s.1.Fresh s.2

/-- The date that the picker works on has a year of 16 bits. -/
def DatesFit (s : WeatherScreen × Bool) : ScreenAction → Prop
  | .date _ => WeatherScreen.YearFits s.1.app
  | _ => True

instance (s : WeatherScreen × Bool) (action : ScreenAction) : Decidable (DatesFit s action) :=
  match action with
  | .date _ => inferInstanceAs (Decidable (WeatherScreen.YearFits s.1.app))
  | .draw _ _ => .isTrue trivial
  | .delete => .isTrue trivial
  | .card _ => .isTrue trivial
  | .container _ => .isTrue trivial
  | .receive _ _ => .isTrue trivial

theorem screenFresh_step {s s' : WeatherScreen × Bool} {action : ScreenAction}
    (h : ScreenFresh s) (hfits : DatesFit s action) (hstep : awaitingStep s action = some s') :
    ScreenFresh s' := by
  obtain ⟨t, ht, rfl⟩ := Machine.recording_some _ _ hstep
  intro hlabels
  cases action with
  | draw today now =>
    rw [screenStep] at ht
    split_ifs at ht
    rw [← Option.some.inj ht]
    exact s.1.drawAppUi_fresh today now
  | delete =>
    obtain ⟨-, ht⟩ := Option.ite_none_right_eq_some.mp ht
    rw [← Option.some.inj ht] at hlabels
    cases hlabels
  | date event =>
    obtain ⟨hopen, ht⟩ := Option.ite_none_right_eq_some.mp ht
    rw [← Option.some.inj ht]
    exact WeatherScreen.dateKeyEventCb_fresh hopen hfits (h hopen) event
  | card event =>
    obtain ⟨hopen, ht⟩ := Option.ite_none_right_eq_some.mp ht
    rw [← Option.some.inj ht]
    exact WeatherScreen.cardKeyEventCb_fresh hopen (h hopen) event
  | container event =>
    obtain ⟨hopen, ht⟩ := Option.ite_none_right_eq_some.mp ht
    rw [← Option.some.inj ht]
    exact WeatherScreen.containerKeyEventCb_fresh hopen (h hopen) event
  | receive forecast now =>
    rw [← Option.some.inj ht] at hlabels ⊢
    by_cases hopen : s.1.app.labels = true
    · exact @WeatherScreen.refreshWeatherUiData_fresh
        { s.1 with app := { s.1.app with hourlyForecast := forecast, dateActiveHeld := false } }
        s.2 hopen (h hopen).cover now
    · have hclosed : s.1.receiveEvent forecast now = { s.1 with
          app := { s.1.app with hourlyForecast := forecast, dateActiveHeld := false } } :=
        if_pos (Bool.eq_false_iff.mpr hopen)
      rw [hclosed] at hlabels
      exact absurd hlabels hopen

/-- Whatever keys, moves of the focus and answers come, every label of the open app shows
what its state says, the card an hour of the day, and the spinner covers the card exactly
while an answer is awaited. -/
theorem screen_fresh (actions : List ScreenAction)
    (hfits : Machine.EachStep awaitingStep DatesFit (.start, false) actions) :
    Machine.Always awaitingStep ScreenFresh (.start, false) actions :=
  Machine.always_of_eachStep (fun h => by cases h)
    (fun _ _ _ h hG hstep => screenFresh_step h hG hstep) hfits

/-- The next day is picked on 7 August 2026; the card is put on the second hour of the answer. -/
theorem screen_fresh_picked :
    let now : DateTime := ⟨⟨7, 8, 2026⟩, 13, 5, 0, by decide⟩
    let hours : Forecast := ⟨.fill hoursPerDay ⟨-57, 81, 30, 61, 12⟩, none⟩
    let actions : List ScreenAction := [.draw .cleared now, .date .focused, .date (.key .enter),
      .date (.key .right), .date (.key .enter), .receive hours now, .date .defocused,
      .container .focused, .container .defocused, .card .focused, .card (.key .right)]
    ∃ s, Machine.run awaitingStep (.start, false) actions = some s ∧ ScreenFresh s ∧
      s.1.dateLbl = "#e3e2e6 Sat, Aug 8#" ∧ s.1.hourly.hourlyTimeLbl = "#f02939 1 AM#" ∧
      s.1.hourly.hourlyTempLbl = "#4f8ee0 TEMP:# #f02939 -5°C#" := by
  intro now hours actions
  have hrun : ∃ s ∈ Machine.run awaitingStep (.start, false) actions,
      s.1.dateLbl = "#e3e2e6 Sat, Aug 8#" ∧ s.1.hourly.hourlyTimeLbl = "#f02939 1 AM#" ∧
        s.1.hourly.hourlyTempLbl = "#4f8ee0 TEMP:# #f02939 -5°C#" := by
    decide +kernel
  obtain ⟨s, hs, hshown⟩ := hrun
  have hfits : Machine.EachStep awaitingStep DatesFit (.start, false) actions := by
    decide +kernel
  exact ⟨s, hs, screen_fresh actions hfits actions [] s (List.append_nil _).symm hs, hshown⟩

end MinimalWatch.App
