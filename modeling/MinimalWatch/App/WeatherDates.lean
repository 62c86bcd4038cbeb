import Mathlib.Tactic.Common
import MinimalWatch.Lib.Calendar
import MinimalWatch.Lib.Machine
import MinimalWatch.Ble.Weather
import MinimalWatch.Ui.Pages

/-! The date of the weather app, from weather_ui.c: the date picker and the answers of the
phone, which carry hours and no date. Beside the hours stands the date that the phone gave
them for, and beside the app the dates that it still owes. -/

namespace MinimalWatch.App
open Firmware Firmware.Memory Firmware.Calendar
open Ble (HourlyWeather hoursPerDay)
open Ui (LvKey)

structure Date where
  day : UInt8
  month : UInt8
  year : UInt16
  deriving DecidableEq, Repr

/-- `date_time_t` with a time that is within the day, as `get_date_time` leaves it. -/
structure DateTime extends Date where
  hr : UInt8
  min : UInt8
  sec : UInt8
  inDay : hr.toNat * 3600 + min.toNat * 60 + sec.toNat < 86400
  deriving DecidableEq, Repr

def Date.tm (d : Date) : Tm where
  tmYear := d.year.toNat - 1900
  tmMon := d.month.toNat - 1
  tmMday := d.day.toNat
  tmHour := 0
  tmMin := 0
  tmSec := 0

def DateTime.tm (dt : DateTime) : Tm :=
  { dt.toDate.tm with tmHour := dt.hr.toNat, tmMin := dt.min.toNat, tmSec := dt.sec.toNat }

def Date.dayNumber (d : Date) : Int := d.tm.dayNumber

/-- `fetchedFor` is the date that the phone gave the hours for; cleared hours have none. -/
structure Forecast where
  hours : Buffer HourlyWeather hoursPerDay
  fetchedFor : Option Date
  deriving DecidableEq, Repr

def Forecast.cleared : Forecast := ⟨.fill hoursPerDay ⟨0, 0, 0, 0, 0⟩, none⟩

/-- `labels`: the labels of the app are not NULL. -/
structure WeatherApp where
  dt : DateTime
  dateDayOffset : Int
  dateActiveHeld : Bool
  customDateActive : Bool
  labels : Bool
  hourlyForecast : Forecast
  deriving DecidableEq, Repr

inductive DateEvent
  | key (key : LvKey)
  | focused
  | defocused
  deriving DecidableEq, Repr

namespace WeatherApp

def start : WeatherApp where
  dt := ⟨⟨0, 0, 0⟩, 0, 0, 0, by decide⟩
  dateDayOffset := 0
  dateActiveHeld := false
  customDateActive := false
  labels := false
  hourlyForecast := .cleared

/-! ### weather_ui.c -/

def normalizedTime (a : WeatherApp) : Tm :=
  localtime (mktime a.dt.tm + a.dateDayOffset * secondsPerDay)

def getOffsetDateSnapshot (a : WeatherApp) : Date :=
  let mon := if 0 ≤ a.normalizedTime.tmMon ∧ a.normalizedTime.tmMon < 12 then
    a.normalizedTime.tmMon + 1 else 1
  { day := UInt8.ofInt a.normalizedTime.tmMday
    month := UInt8.ofInt mon
    year := UInt16.ofInt (a.normalizedTime.tmYear + 1900) }

def updateDateString (a : WeatherApp) (commitNewDate : Bool) : WeatherApp :=
  if a.labels = false then a
  else if commitNewDate then
    { a with
      dt := { a.dt with toDate := a.getOffsetDateSnapshot }
      dateDayOffset := 0
      customDateActive := true }
  else a

/-- The app after `trigger_dated_weather_request`, and the date it asks for. -/
def triggerDatedWeatherRequest (a : WeatherApp) (targetDate : Date) : WeatherApp × Option Date :=
  ({ a with hourlyForecast := .cleared }, some targetDate)

/-- The picker let go of. -/
def commitDate (a : WeatherApp) : WeatherApp × Option Date :=
  (a.updateDateString true).triggerDatedWeatherRequest a.getOffsetDateSnapshot

/-- The app after the event, and the date it asks for if it does. -/
def dateKeyEventCb (a : WeatherApp) : DateEvent → WeatherApp × Option Date
  | .key .enter =>
    let a := { a with dateActiveHeld := !a.dateActiveHeld }
    if a.dateActiveHeld = false then a.commitDate else (a.updateDateString false, none)
  | .key .right =>
    if a.dateActiveHeld then
      ({ a with dateDayOffset := a.dateDayOffset + 1 }.updateDateString false, none)
    else (a, none)
  | .key .left =>
    if a.dateActiveHeld then
      ({ a with dateDayOffset := a.dateDayOffset - 1 }.updateDateString false, none)
    else (a, none)
  | .key _ => (a, none)
  | .focused => (a.updateDateString false, none)
  | .defocused =>
    if a.dateActiveHeld then { a with dateActiveHeld := false }.commitDate
    else (a.updateDateString false, none)

/-- `now` is what `get_date_time` gives. -/
def refreshWeatherUiData (a : WeatherApp) (now : DateTime) : WeatherApp :=
  if a.labels = false then a
  else (if a.customDateActive then a else { a with dt := now }).updateDateString false

def receiveEvent (a : WeatherApp) (forecast : Forecast) (now : DateTime) : WeatherApp :=
  { a with hourlyForecast := forecast, dateActiveHeld := false }.refreshWeatherUiData now

/-- `today` is what `get_weather_day` gives. -/
def drawAppUi (a : WeatherApp) (today : Forecast) (now : DateTime) : WeatherApp :=
  { a with
    dateActiveHeld := false
    dateDayOffset := 0
    customDateActive := false
    hourlyForecast := today
    dt := now
    labels := true }.updateDateString false

def deleteAppUi (a : WeatherApp) : WeatherApp := { a with labels := false }

/-- The day that the picker shows. -/
def displayedDay (a : WeatherApp) : Int := a.dt.toDate.dayNumber + a.dateDayOffset

/-! ### What the picker does -/

theorem normalizedTime_dayNumber (a : WeatherApp) :
    a.normalizedTime.dayNumber = a.displayedDay := by
  have hin := a.dt.inDay
  have hsecond : 0 ≤ a.dt.tm.secondOfDay ∧ a.dt.tm.secondOfDay < secondsPerDay := by
    simp only [DateTime.tm, Tm.secondOfDay, secondsPerDay]
    omega
  rw [normalizedTime, localtime_dayNumber, mktime_addDays hsecond]
  rfl

/-- The date asked for is the one on the screen, while its year has room in 16 bits. -/
theorem getOffsetDateSnapshot_dayNumber {a : WeatherApp}
    (hyear : 0 ≤ a.normalizedTime.tmYear + 1900 ∧ a.normalizedTime.tmYear + 1900 < 65536) :
    a.getOffsetDateSnapshot.dayNumber = a.displayedDay := by
  have hrange := localtime_range (mktime a.dt.tm + a.dateDayOffset * secondsPerDay)
  rw [← normalizedTime] at hrange
  obtain ⟨hmonth, hday⟩ := hrange
  have hd : ((UInt8.ofInt a.normalizedTime.tmMday).toNat : Int) = a.normalizedTime.tmMday := by
    rw [UInt8.ofInt, UInt8.toNat_ofNat']
    omega
  have hm : ((UInt8.ofInt (a.normalizedTime.tmMon + 1)).toNat : Int) - 1 =
      a.normalizedTime.tmMon := by
    rw [UInt8.ofInt, UInt8.toNat_ofNat']
    omega
  have hy : ((UInt16.ofInt (a.normalizedTime.tmYear + 1900)).toNat : Int) - 1900 =
      a.normalizedTime.tmYear := by
    rw [UInt16.ofInt, UInt16.toNat_ofNat']
    omega
  rw [← normalizedTime_dayNumber, Date.dayNumber, Tm.dayNumber, Tm.dayNumber]
  simp only [getOffsetDateSnapshot, Date.tm, if_pos hmonth, hd, hm, hy]

/-- A date that is taken over becomes the date of the app, with nothing added. -/
theorem commitDate_eq {a : WeatherApp} (h : a.labels = true) :
    a.commitDate =
      ({ a with
        dt := { a.dt with toDate := a.getOffsetDateSnapshot }
        dateDayOffset := 0
        customDateActive := true
        hourlyForecast := .cleared }, some a.getOffsetDateSnapshot) := by
  rw [commitDate, updateDateString, h]
  rfl

@[simp] theorem updateDateString_false (a : WeatherApp) : a.updateDateString false = a := by
  rw [updateDateString, if_neg Bool.false_ne_true, ite_self]

/-- An event changes nothing, or leaves the picker held, or asks for the date it takes over. -/
theorem dateKeyEventCb_cases {a : WeatherApp} (h : a.labels = true) (event : DateEvent) :
    a.dateKeyEventCb event = (a, none) ∨
    (∃ a', a.dateKeyEventCb event = (a', none) ∧ a'.dateActiveHeld = true ∧ a'.dt = a.dt ∧
      a'.customDateActive = a.customDateActive) ∨
    ∃ a' query, a.dateKeyEventCb event = (a', some query) ∧ a'.dt.toDate = query := by
  have hcommit : ∀ b : WeatherApp, b.labels = true →
      ∃ a' query, b.commitDate = (a', some query) ∧ a'.dt.toDate = query :=
    fun b hb => ⟨_, _, commitDate_eq hb, rfl⟩
  cases event with
  | key key =>
    cases key with
    | enter =>
      simp only [dateKeyEventCb, updateDateString_false]
      cases hheld : a.dateActiveHeld with
      | true => exact .inr (.inr (hcommit _ h))
      | false => exact .inr (.inl ⟨_, rfl, rfl, rfl, rfl⟩)
    | right =>
      simp only [dateKeyEventCb, updateDateString_false]
      split_ifs with hheld
      · exact .inr (.inl ⟨_, rfl, hheld, rfl, rfl⟩)
      · exact .inl rfl
    | left =>
      simp only [dateKeyEventCb, updateDateString_false]
      split_ifs with hheld
      · exact .inr (.inl ⟨_, rfl, hheld, rfl, rfl⟩)
      · exact .inl rfl
    | esc => exact .inl rfl
    | other code => exact .inl rfl
  | focused =>
    rw [dateKeyEventCb, updateDateString_false]
    exact .inl rfl
  | defocused =>
    simp only [dateKeyEventCb, updateDateString_false]
    split_ifs with hheld
    · exact .inr (.inr (hcommit _ h))
    · exact .inl rfl

end WeatherApp

/-! ### The app and the phone -/

/-- `unanswered`: the dates asked for, oldest first. -/
structure Session where
  app : WeatherApp
  unanswered : List Date
  deriving DecidableEq, Repr

inductive SessionAction
  | draw (today : Forecast) (now : DateTime)
  | delete
  | date (event : DateEvent)
  | answer (hours : Buffer HourlyWeather hoursPerDay) (now : DateTime)

namespace Session

def start : Session := ⟨.start, []⟩

/-- Every date that is asked for reaches the phone, which answers once and in order. The
answer to an app that is not open is dropped. -/
def step (s : Session) : SessionAction → Option Session
  | .draw today now =>
    if s.app.labels then none else some { s with app := s.app.drawAppUi today now }
  | .delete => if s.app.labels then some { s with app := s.app.deleteAppUi } else none
  | .date event =>
    if s.app.labels then
      let (app, query) := s.app.dateKeyEventCb event
      some ⟨app, s.unanswered ++ query.toList⟩
    else none
  | .answer hours now =>
    match s.unanswered with
    | [] => none
    | query :: rest =>
      if s.app.labels then some ⟨s.app.receiveEvent ⟨hours, some query⟩ now, rest⟩
      else some ⟨s.app, rest⟩

/-- The hours are those of the displayed date, when the picker is not held and nothing is
unanswered. -/
def Agrees (s : Session) : Prop :=
  s.app.labels = true → s.app.dateActiveHeld = false → s.unanswered = [] →
    s.app.hourlyForecast.fetchedFor.map Date.dayNumber = some s.app.displayedDay

instance (s : Session) : Decidable (Agrees s) :=
  inferInstanceAs (Decidable (_ → _ → _ → _))

/-- When the last answer that is owed comes, nothing has been added to the date since it was
asked for; and where it was asked for before the app was opened, the date with the offset is
the date of the clock with it. The hours that the app is opened on are of the date of the
clock, unless others are still owed. -/
def InTime (s : Session) : SessionAction → Prop
  | .draw today now =>
    s.unanswered = [] → today.fetchedFor.map Date.dayNumber = some now.toDate.dayNumber
  | .answer _ now =>
    ∀ query, s.app.labels = true → s.unanswered = [query] →
      if s.app.customDateActive then s.app.dateDayOffset = 0
      else now.toDate.dayNumber + s.app.dateDayOffset = query.dayNumber
  | _ => True

/-- The property with what answers need: the date taken over last is the one owed last. -/
structure Kept (s : Session) : Prop where
  agrees : s.Agrees
  asked : s.app.labels = true → s.app.customDateActive = true →
    ∀ query, s.unanswered.getLast? = some query → s.app.dt.toDate = query

theorem kept_start : start.Kept := ⟨by decide, by decide⟩

theorem agrees_draw {s : Session} (today : Forecast) (now : DateTime) :
    ({ s with app := s.app.drawAppUi today now } : Session).Agrees ↔
      InTime s (.draw today now) := by
  rw [Agrees, WeatherApp.drawAppUi, WeatherApp.updateDateString_false, InTime,
    WeatherApp.displayedDay]
  simp only [true_implies, Int.add_zero]

theorem kept_date {s s' : Session} {event : DateEvent} (h : s.Kept)
    (hstep : s.step (.date event) = some s') : s'.Kept := by
  rw [step] at hstep
  split_ifs at hstep with hlabels
  rcases s.app.dateKeyEventCb_cases hlabels event with
    hsame | ⟨a', hheld, hactive, hdt, hcustom⟩ | ⟨a', query, hasked, hdt⟩
  · rw [hsame] at hstep
    rw [← Option.some.inj hstep, Option.toList_none, List.append_nil]
    exact h
  · rw [hheld] at hstep
    rw [← Option.some.inj hstep, Option.toList_none, List.append_nil]
    refine ⟨fun _ hfree => ?_, fun _ hset => ?_⟩
    · rw [hactive] at hfree
      cases hfree
    · rw [hcustom] at hset
      rw [hdt]
      exact h.asked hlabels hset
  · rw [hasked] at hstep
    rw [← Option.some.inj hstep, Option.toList_some]
    refine ⟨fun _ _ hnone => ?_, fun _ _ last hlast => ?_⟩
    · simp at hnone
    · rw [List.getLast?_concat] at hlast
      rw [hdt, Option.some.inj hlast]

/-- The app once an answer has reached it. -/
theorem receiveEvent_eq {a : WeatherApp} (h : a.labels = true) (forecast : Forecast)
    (now : DateTime) :
    a.receiveEvent forecast now =
      { a with
        hourlyForecast := forecast
        dateActiveHeld := false
        dt := if a.customDateActive then a.dt else now } := by
  rw [WeatherApp.receiveEvent, WeatherApp.refreshWeatherUiData, WeatherApp.updateDateString_false]
  rw [if_neg (by simp [h])]
  cases a.customDateActive <;> rfl

/-- The last answer that is owed. -/
theorem agrees_answer {s : Session} (hkept : s.Kept) (hlabels : s.app.labels = true)
    {query : Date} (hlast : s.unanswered = [query])
    (hours : Buffer HourlyWeather hoursPerDay) (now : DateTime) :
    (⟨s.app.receiveEvent ⟨hours, some query⟩ now, []⟩ : Session).Agrees ↔
      InTime s (.answer hours now) := by
  have hshown : (⟨s.app.receiveEvent ⟨hours, some query⟩ now, []⟩ : Session).Agrees ↔
      query.dayNumber =
        (if s.app.customDateActive then s.app.dt else now).toDate.dayNumber +
          s.app.dateDayOffset := by
    rw [Agrees, receiveEvent_eq hlabels, WeatherApp.displayedDay]
    simp only [hlabels, true_implies, Option.map_some, Option.some_inj]
  rw [hshown]
  cases hcustom : s.app.customDateActive with
  | true =>
    have hasked := hkept.asked hlabels hcustom query (by rw [hlast]; rfl)
    simp only [InTime, hlabels, hlast, hcustom, hasked, if_true, true_implies, List.cons.injEq,
      and_true, forall_eq']
    omega
  | false =>
    simp only [InTime, hlabels, hlast, hcustom, true_implies, List.cons.injEq, and_true,
      forall_eq', Bool.false_eq_true, if_false]
    exact eq_comm

/-- What an answer does: the oldest date owed goes, and its hours reach an open app. -/
theorem answer_step {s s' : Session} {hours : Buffer HourlyWeather hoursPerDay} {now : DateTime}
    (hstep : s.step (.answer hours now) = some s') :
    ∃ query rest, s.unanswered = query :: rest ∧ s' =
      ⟨if s.app.labels then s.app.receiveEvent ⟨hours, some query⟩ now else s.app, rest⟩ := by
  rw [step] at hstep
  cases howed : s.unanswered with
  | nil =>
    rw [howed] at hstep
    cases hstep
  | cons query rest =>
    simp only [howed] at hstep
    refine ⟨query, rest, rfl, ?_⟩
    split_ifs at hstep ⊢
    · exact (Option.some.inj hstep).symm
    · exact (Option.some.inj hstep).symm

theorem agrees_step {s s' : Session} {action : SessionAction} (h : s.Kept)
    (hstep : s.step action = some s') : s'.Agrees ↔ InTime s action := by
  cases action with
  | draw today now =>
    rw [step] at hstep
    split_ifs at hstep
    rw [← Option.some.inj hstep]
    exact agrees_draw today now
  | delete =>
    rw [step] at hstep
    split_ifs at hstep
    rw [← Option.some.inj hstep]
    exact iff_of_true (fun hlabels => by cases hlabels) trivial
  | date event => exact iff_of_true (kept_date h hstep).agrees trivial
  | answer hours now =>
    obtain ⟨query, rest, howed, rfl⟩ := answer_step hstep
    by_cases hlabels : s.app.labels = true
    · rw [if_pos hlabels]
      cases rest with
      | nil => exact agrees_answer h hlabels howed hours now
      | cons next rest =>
        refine iff_of_true (fun _ _ hnone => by cases hnone) fun last _ hlast => ?_
        rw [howed] at hlast
        cases hlast
    · rw [if_neg hlabels]
      exact iff_of_true (fun hopen => absurd hopen hlabels) fun _ hopen => absurd hopen hlabels

theorem asked_step {s s' : Session} {action : SessionAction} (h : s.Kept)
    (hstep : s.step action = some s') :
    s'.app.labels = true → s'.app.customDateActive = true →
      ∀ query, s'.unanswered.getLast? = some query → s'.app.dt.toDate = query := by
  cases action with
  | draw today now =>
    rw [step] at hstep
    split_ifs at hstep
    rw [← Option.some.inj hstep, WeatherApp.drawAppUi, WeatherApp.updateDateString_false]
    exact fun _ hset => by cases hset
  | delete =>
    rw [step] at hstep
    split_ifs at hstep
    rw [← Option.some.inj hstep]
    exact fun hlabels => by cases hlabels
  | date event => exact (kept_date h hstep).asked
  | answer hours now =>
    obtain ⟨query, rest, howed, rfl⟩ := answer_step hstep
    by_cases hlabels : s.app.labels = true
    · rw [if_pos hlabels, receiveEvent_eq hlabels]
      intro _ hset last hlast
      have hask := h.asked hlabels hset last
      rw [howed, List.getLast?_cons, hlast] at hask
      simp only [if_pos hset]
      exact hask rfl
    · rw [if_neg hlabels]
      exact fun hopen => absurd hopen hlabels

/-- Along every sequence the hours agree with the date exactly when every answer and every
opening is in time. -/
theorem shows_fetched_iff (actions : List SessionAction) :
    Machine.Always step Agrees start actions ↔ Machine.EachStep step InTime start actions :=
  Machine.always_iff_eachStep kept_start (fun _ hkept => hkept.agrees)
    (fun _ _ _ hkept hin hstep => ⟨(agrees_step hkept hstep).mpr hin, asked_step hkept hstep⟩)
    (fun _ _ _ hkept hlate hstep hagrees => hlate ((agrees_step hkept hstep).mp hagrees))

/-- The clock and the hours of the day, for 10 January 2026. -/
def tenthOfJanuary : DateTime := ⟨⟨10, 1, 2026⟩, 9, 0, 0, by decide⟩

/-- An answer that comes while the next date is being picked. -/
def answeredWhilePicking : List SessionAction :=
  let hours := Buffer.fill hoursPerDay ⟨0, 0, 0, 0, 0⟩
  [.draw ⟨hours, some tenthOfJanuary.toDate⟩ tenthOfJanuary,
    .date (.key .enter), .date (.key .enter), .date (.key .enter), .date (.key .right),
    .answer hours tenthOfJanuary]

/-- The picker is let go of on the eleventh, over the hours of the tenth. -/
theorem answer_drops_picker :
    ((Machine.run step start answeredWhilePicking).map fun s =>
      (s.app.labels, s.app.dateActiveHeld, s.unanswered, s.app.displayedDay,
        s.app.hourlyForecast.fetchedFor)) =
      some (true, false, [], Date.dayNumber ⟨11, 1, 2026⟩, some ⟨10, 1, 2026⟩) ∧
    ¬ Machine.Always step Agrees start answeredWhilePicking := by
  have hend : ((Machine.run step start answeredWhilePicking).map fun s =>
      (s.app.labels, s.app.dateActiveHeld, s.unanswered, s.app.displayedDay,
        s.app.hourlyForecast.fetchedFor)) =
      some (true, false, [], Date.dayNumber ⟨11, 1, 2026⟩, some ⟨10, 1, 2026⟩) := by
    decide +kernel
  refine ⟨hend, fun hagrees => ?_⟩
  obtain ⟨s, hrun, hs⟩ := Option.map_eq_some_iff.mp hend
  simp only [Prod.mk.injEq] at hs
  obtain ⟨hlabels, hfree, hanswered, hday, hfetched⟩ := hs
  have hsame := hagrees answeredWhilePicking [] s (List.append_nil _).symm hrun hlabels hfree
    hanswered
  rw [hday, hfetched] at hsame
  exact absurd hsame (by decide +kernel)

end Session

end MinimalWatch.App
