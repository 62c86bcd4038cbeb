import Mathlib.Tactic.Common
import MinimalWatch.App.WeatherDates
import MinimalWatch.Ble.Response
import MinimalWatch.Lib.Machine

/-! The clock of the watch, from common_utils.c and persistance_manager.c: the time is put
together from the epoch and the uptime of the last sync, which outlive a restart, and from
the uptime of now, which does not. Times are in milliseconds, the unit of `k_uptime_get`.
Beside the clock stands what has really passed. -/

namespace MinimalWatch.App
open Firmware Firmware.Calendar
open Ble (TimeSync)

/-- `date_time_t` with its day of the week. -/
structure DateTimeT extends DateTime where
  dWeek : UInt8
  deriving DecidableEq, Repr

/-- The sum for `gmtime_r`, of 64 bits. -/
def timeVal (timeState : TimeSync) (uptime : Nat) : Int :=
  timeState.lastSyncTime.toNat + (uptime / 1000 : Nat) - timeState.timeSyncUptime.toNat

theorem toNat_ofInt_le {x : Int} (h : 0 ≤ x) : ((UInt8.ofInt x).toNat : Int) ≤ x := by
  rw [UInt8.ofInt, UInt8.toNat_ofNat']
  omega

theorem localtime_inDay (seconds : Int) :
    (UInt8.ofInt (localtime seconds).tmHour).toNat * 3600 +
        (UInt8.ofInt (localtime seconds).tmMin).toNat * 60 +
        (UInt8.ofInt (localtime seconds).tmSec).toNat < 86400 := by
  have hhr := @toNat_ofInt_le (localtime seconds).tmHour
  have hmin := @toNat_ofInt_le (localtime seconds).tmMin
  have hsec := @toNat_ofInt_le (localtime seconds).tmSec
  simp only [localtime, secondsPerDay] at hhr hmin hsec ⊢
  omega

/-- The fields that `get_date_time` takes from `gmtime_r`. -/
def dateTimeOf (seconds : Int) : DateTimeT where
  day := UInt8.ofInt (localtime seconds).tmMday
  month := UInt8.ofInt ((localtime seconds).tmMon + 1)
  year := UInt16.ofInt ((localtime seconds).tmYear + 1900)
  hr := UInt8.ofInt (localtime seconds).tmHour
  min := UInt8.ofInt (localtime seconds).tmMin
  sec := UInt8.ofInt (localtime seconds).tmSec
  inDay := localtime_inDay seconds
  dWeek := UInt8.ofInt (((localtime seconds).dayNumber + 1) % 7)

theorem midnight_inDay :
    (0 : UInt8).toNat * 3600 + (0 : UInt8).toNat * 60 + (0 : UInt8).toNat < 86400 := by
  decide

def noDateTime : DateTimeT := ⟨⟨⟨1, 1, 1900⟩, 0, 0, 0, midnight_inDay⟩, 0⟩

/-- The epoch value that is converted, if the state is valid, and the time that is shown. -/
def getDateTime (timeState : TimeSync) (uptime : Nat) : Option Int × DateTimeT :=
  if timeState.valid ≠ 0 then
    (some (timeVal timeState uptime), dateTimeOf (timeVal timeState uptime))
  else (none, noDateTime)

/-! ### The clock over restarts -/

structure ClockState where
  timeState : TimeSync
  uptime : Nat
  deriving DecidableEq, Repr

/-- `restart asleep`: down for that long, then up from an uptime of 0. -/
inductive ClockAction
  | sync (epoch : UInt32)
  | pass (ms : Nat)
  | restart (asleep : Nat)
  | read
  deriving DecidableEq, Repr

namespace ClockState

def start : ClockState := ⟨⟨0, 0, 0⟩, 0⟩

def updatePersistantTimeState (c : ClockState) (epoch : UInt32) : ClockState :=
  { c with timeState := ⟨epoch, UInt32.ofNat (c.uptime / 1000), 1⟩ }

/-- It is what a time message of the phone does to the watch. -/
theorem updatePersistantTimeState_watch (w : Ble.Watch) (epoch : UInt32) :
    (Ble.updatePersistantTimeState w epoch).timeState =
      (updatePersistantTimeState ⟨w.timeState, w.app.sys.now⟩ epoch).timeState := rfl

def converted (c : ClockState) : Option Int := (getDateTime c.timeState c.uptime).1

def step (c : ClockState) : ClockAction → Option ClockState
  | .sync epoch => some (c.updatePersistantTimeState epoch)
  | .pass ms => some { c with uptime := c.uptime + ms }
  | .restart _ => some { c with uptime := 0 }
  | .read => some c

/-- Since the last sync: the time that has passed, of it the time from the start of that
boot to the start of this one, and the last value read. -/
structure Passed where
  epoch : UInt32
  syncedAt : Nat
  elapsed : Nat
  earlierBoots : Nat
  lastRead : Option Int
  deriving DecidableEq, Repr

def Passed.none : Passed := ⟨0, 0, 0, 0, .none⟩

def Passed.next (c : ClockState) (action : ClockAction) (_ : ClockState) (p : Passed) : Passed :=
  match action with
  | .sync epoch => ⟨epoch, c.uptime, 0, 0, .none⟩
  | .pass ms => { p with elapsed := p.elapsed + ms }
  | .restart asleep =>
    { p with
      elapsed := p.elapsed + asleep
      earlierBoots := p.earlierBoots + c.uptime + asleep }
  | .read => { p with lastRead := c.converted }

def timed : ClockState × Passed → ClockAction → Option (ClockState × Passed) :=
  Machine.recording step Passed.next

/-- A read of a valid state is within a second of the epoch and the time since, and not
before the last one. -/
def ReadRight (s : ClockState × Passed) (action : ClockAction) : Prop :=
  action = .read → ∀ value, s.1.converted = some value →
    (1000 * (value - s.2.epoch.toNat) - s.2.elapsed < 1000 ∧
      s.2.elapsed - 1000 * (value - s.2.epoch.toNat) < 1000) ∧
    ∀ earlier, s.2.lastRead = some earlier → earlier ≤ value

/-- At a read of a valid state no time since the last sync lies in an earlier boot, and the
uptime of that sync in seconds has 32 bits. -/
def ReadInBoot (s : ClockState × Passed) (action : ClockAction) : Prop :=
  action = .read → s.1.timeState.valid ≠ 0 →
    s.2.earlierBoots = 0 ∧ s.2.syncedAt / 1000 < 2 ^ 32

instance (s : ClockState × Passed) (action : ClockAction) : Decidable (ReadInBoot s action) :=
  inferInstanceAs (Decidable (action = .read → _))

theorem converted_some {c : ClockState} {value : Int} (h : c.converted = some value) :
    c.timeState.valid ≠ 0 ∧ value = timeVal c.timeState c.uptime := by
  rw [converted, getDateTime] at h
  split_ifs at h with hvalid
  exact ⟨hvalid, (Option.some.inj h).symm⟩

theorem timeVal_mono (timeState : TimeSync) {uptime later : Nat} (h : uptime ≤ later) :
    timeVal timeState uptime ≤ timeVal timeState later := by
  rw [timeVal, timeVal]
  omega

/-- What holds of the clock and of what has passed, whatever happens. -/
structure InStep (s : ClockState × Passed) : Prop where
  boots : s.1.uptime + s.2.earlierBoots = s.2.syncedAt + s.2.elapsed
  synced : s.1.timeState.valid ≠ 0 →
    s.1.timeState = ⟨s.2.epoch, UInt32.ofNat (s.2.syncedAt / 1000), 1⟩
  lastRead : ∀ earlier, s.2.lastRead = some earlier → s.2.earlierBoots = 0 →
    earlier ≤ timeVal s.1.timeState s.1.uptime

theorem inStep_start : InStep (start, .none) :=
  ⟨rfl, fun h => absurd rfl h, fun _ h => nomatch h⟩

theorem InStep.step {s s' : ClockState × Passed} {action : ClockAction} (h : InStep s)
    (hstep : timed s action = some s') : InStep s' := by
  obtain ⟨c', hc, rfl⟩ := Machine.recording_some _ _ hstep
  have hboots := h.boots
  cases action with
  | sync epoch =>
    cases hc
    exact ⟨rfl, fun _ => rfl, fun _ hread => nomatch hread⟩
  | pass ms =>
    cases hc
    refine ⟨?_, h.synced, fun earlier hread hzero => ?_⟩
    · simp only [Passed.next]
      omega
    · exact Int.le_trans (h.lastRead earlier hread hzero)
        (timeVal_mono s.1.timeState (Nat.le_add_right _ ms))
  | restart asleep =>
    cases hc
    refine ⟨?_, h.synced, fun earlier hread hzero => ?_⟩
    · simp only [Passed.next]
      omega
    · -- no time can have passed before this restart
      simp only [Passed.next] at hzero
      have hlast := h.lastRead earlier hread (by omega)
      rwa [show s.1.uptime = 0 by omega] at hlast
  | read =>
    cases hc
    refine ⟨hboots, h.synced, fun earlier hread _ => ?_⟩
    exact Int.le_of_eq (converted_some hread).2

/-- How far the clock is off in any run: by the time that lies in earlier boots, and by
the parts of seconds that the two uptimes lose. -/
theorem InStep.timeVal_error {s : ClockState × Passed} (h : InStep s)
    (hvalid : s.1.timeState.valid ≠ 0) (hfits : s.2.syncedAt / 1000 < 2 ^ 32) :
    1000 * (timeVal s.1.timeState s.1.uptime - s.2.epoch.toNat) - s.2.elapsed =
      (s.2.syncedAt % 1000 : Nat) - (s.1.uptime % 1000 : Nat) - s.2.earlierBoots := by
  have hboots := h.boots
  have hword : (UInt32.ofNat (s.2.syncedAt / 1000)).toNat = s.2.syncedAt / 1000 :=
    UInt32.toNat_ofNat_of_lt' hfits
  rw [timeVal, h.synced hvalid]
  simp only [hword]
  omega

theorem InStep.readRight {s : ClockState × Passed} {action : ClockAction} (h : InStep s)
    (hread : ReadInBoot s action) : ReadRight s action := by
  intro haction value hvalue
  obtain ⟨hvalid, rfl⟩ := converted_some hvalue
  obtain ⟨hboots, hfits⟩ := hread haction hvalid
  have herror := h.timeVal_error hvalid hfits
  rw [hboots] at herror
  refine ⟨⟨?_, ?_⟩, fun earlier hearlier => h.lastRead earlier hearlier hboots⟩ <;> omega

/-- With two seconds or more in earlier boots, every read is wrong. -/
theorem InStep.not_readRight {s : ClockState × Passed} (h : InStep s)
    (hvalid : s.1.timeState.valid ≠ 0) (hfits : s.2.syncedAt / 1000 < 2 ^ 32)
    (hboots : 2000 ≤ s.2.earlierBoots) : ¬ ReadRight s .read := by
  intro hright
  have hvalue : s.1.converted = some (timeVal s.1.timeState s.1.uptime) := by
    rw [converted, getDateTime, if_pos hvalid]
  have herror := h.timeVal_error hvalid hfits
  have hlate := (hright rfl _ hvalue).1.2
  omega

/-- In every run whose reads of a valid state are in the boot of the last sync, they are
all right. -/
theorem clock_right (actions : List ClockAction)
    (h : Machine.EachStep timed ReadInBoot (start, .none) actions) :
    Machine.EachStep timed ReadRight (start, .none) actions :=
  Machine.EachStep.imp inStep_start
    (fun _ _ _ hkept hread hstep => ⟨hkept.step hstep, hkept.readRight hread⟩) h

/-- A sync between two seconds, and two reads after it. -/
theorem clock_right_boot :
    let actions : List ClockAction :=
      [.pass 10900, .sync 1000000, .pass 150, .read, .pass 950, .read]
    Machine.EachStep timed ReadRight (start, .none) actions ∧
    (Machine.run timed (start, .none) actions).map (fun s => s.2.lastRead) =
      some (some 1000002) :=
  ⟨clock_right _ (by decide +kernel), by decide +kernel⟩

/-- A sync ten seconds after the start; then the watch restarts and shows a time that is
ten seconds before the sync. -/
theorem clock_goes_back :
    let actions : List ClockAction := [.pass 10000, .sync 1000000, .restart 0, .read]
    (Machine.run timed (start, .none) actions).map (fun s => s.2.lastRead) =
      some (some 999990) ∧
    ¬ ∀ actions, Machine.EachStep timed ReadRight (start, .none) actions := by
  refine ⟨by decide +kernel, fun h => ?_⟩
  have hread := h [.pass 10000, .sync 1000000, .restart 0, .read]
    [.pass 10000, .sync 1000000, .restart 0] .read [] _ _ rfl rfl rfl rfl 999990 rfl
  exact absurd hread.1.2 (by decide)

end ClockState

end MinimalWatch.App
