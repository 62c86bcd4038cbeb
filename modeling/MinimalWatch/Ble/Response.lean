import MinimalWatch.App.Delivery
import MinimalWatch.Ble.NotificationPayload
import MinimalWatch.Ble.Types

/-! What a received message does to the watch, from ble_response_handler.c and the
managers that it calls. Beside the handler stands the meaning of a message: the one
effect of a well-formed message of its opcode, read off the format of the payload. -/

namespace MinimalWatch.Ble
open Firmware Firmware.AddressSpace Firmware.Memory
open MinimalWatch.App MinimalWatch.Notification MinimalWatch.Runtime

/-- The stores that a message can reach: `watch_state`, the notifications, and the runtime
with its work queues. -/
structure Watch where
  timeState : TimeSync
  weatherState : WeatherSync
  notifications : Store
  app : AppRun

/-- What the stack has for the call: the place of `app_work.arg_payload`, and the bytes of
`notification` before it is filled. -/
structure Frame where
  argPayload : Nat
  notification : NotificationT

/-! ### Payloads as they lie in memory -/

/-- An `hourly_weather_t`; the low byte of the temperature comes first. -/
def HourlyWeather.toBytes (h : HourlyWeather) : List UInt8 :=
  [UInt8.ofNat h.temperature.toUInt16.toNat, UInt8.ofNat (h.temperature.toUInt16.toNat / 256),
    h.humidity, h.precipProb, h.weatherCode, h.windSpeed]

/-- The answer for the app that asked, with the hours at the start of its data. -/
def datedWeatherUpdate (reqApp : UInt8) (weather : WeatherSync) : AppUpdate where
  req := datedWeatherRequest
  reqApp := reqApp
  data := (Buffer.fill maxAppResponseSize 0).blit 0
    (weather.hourlyToday.cells.flatMap HourlyWeather.toBytes)

/-! ### The handler -/

def updatePersistantTimeState (w : Watch) (epoch : UInt32) : Watch :=
  { w with timeState := ⟨epoch, UInt32.ofNat (w.app.sys.now / 1000), 1⟩ }

def updatePersistantWeatherState (w : Watch) (weather : WeatherSync) : Watch :=
  { w with weatherState := weather }

/-- The event is handled, and its call of `add_user_work` run to the end. -/
def scheduleAppWork (s : AppRun) (payload : Nat) (update : AppUpdate) : AppRun :=
  let s' := s.handleAppWorkSchedule payload update
  match addUserWork s.sys (appWork payload update) with
  | none => s'
  | some _ => { s' with sys := enqueueUserWork s'.sys (appWork payload update) }

/-- The events that a message can raise. -/
inductive Event
  | appWorkSchedule (update : AppUpdate)
  | notificationReceived (noti : NotificationT)

def handleEvent (w : Watch) (frame : Frame) : Event → Watch
  | .appWorkSchedule update => { w with app := scheduleAppWork w.app frame.argPayload update }
  | .notificationReceived noti =>
    { w with notifications := receiveNotification w.notifications noti }

def handleBleResponse (w : Watch) (frame : Frame) (msg : BleMsg) : Watch :=
  let payload := msg.payload.cells
  let len := msg.hdr.len.toNat
  if msg.hdr.opcode = bleOpTimeUpdate then
    if len = timePayloadLen then updatePersistantTimeState w (parseDateTimePayload payload) else w
  else if msg.hdr.opcode = bleOpWeatherUpdate then
    if len = weatherPayloadLen then
      updatePersistantWeatherState w (parseWeatherPayload payload)
    else w
  else if msg.hdr.opcode = bleOpDatedWeatherQuery then
    if len = weatherPayloadLen then
      handleEvent w frame
        (.appWorkSchedule (datedWeatherUpdate msg.hdr.reqApp (parseWeatherPayload payload)))
    else w
  else if msg.hdr.opcode = bleOpNotificationSend then
    if len ≥ 5 then
      match parseNotificationPayload payload len frame.notification with
      | (.ok (), notification) => handleEvent w frame (.notificationReceived notification)
      | (.error _, _) => w
    else w
  else w

/-! ### The meaning of a message -/

inductive MsgEffect
  | setTime (epoch : UInt32)
  | replaceWeather (weather : WeatherSync)
  | scheduleUpdate (update : AppUpdate)
  | receive (noti : NotificationT)

/-- The message is well formed and asks for the effect. -/
def Means (msg : WireMsg) : MsgEffect → Prop
  | .setTime epoch => msg.opcode = bleOpTimeUpdate ∧ msg.payload = encodeEpoch epoch
  | .replaceWeather weather => msg.opcode = bleOpWeatherUpdate ∧ msg.payload = weather.encode
  | .scheduleUpdate update =>
    msg.opcode = bleOpDatedWeatherQuery ∧ ∃ weather, msg.payload = WeatherSync.encode weather ∧
      update = datedWeatherUpdate msg.reqApp weather
  | .receive noti =>
    msg.opcode = bleOpNotificationSend ∧ ∃ lean tail,
      msg.payload = LeanNotification.encode lean ++ tail ∧ DecodedFrom noti lean

/-- One event was handled for the update: its bytes are in the frame, its work item is on the
user queue if the runtime is awake and there is room, and nothing else has changed. -/
structure ScheduledOnce (w w' : Watch) (payload : Nat) (update : AppUpdate) : Prop where
  timeState : w'.timeState = w.timeState
  weatherState : w'.weatherState = w.weatherState
  notifications : w'.notifications = w.notifications
  scheduled : w'.app.scheduled = w.app.scheduled ++ [(payload, update)]
  delivered : w'.app.delivered = w.app.delivered
  memory : w'.app.memory = writeBytes w.app.memory payload (argPayload update).cells
  runtimeMsgq : w'.app.sys.pool.runtimeMsgq.items = w.app.sys.pool.runtimeMsgq.items ++
    if w.app.sys.fsm.currentState = .sleep then []
    else [{ appWork payload update with type := .user }].take
      (runtimeMsgqSize - w.app.sys.pool.runtimeMsgq.items.length)
  callers : w'.app.sys.userCallers.Perm w.app.sys.userCallers
  runtime : w'.app.sys =
    { w.app.sys with
      pool := { w.app.sys.pool with runtimeMsgq := w'.app.sys.pool.runtimeMsgq }
      userCallers := w'.app.sys.userCallers }

/-- The effect, and no other, was performed. -/
def Performed (w w' : Watch) (frame : Frame) : MsgEffect → Prop
  | .setTime epoch =>
    w' = { w with timeState := ⟨epoch, UInt32.ofNat (w.app.sys.now / 1000), 1⟩ }
  | .replaceWeather weather => w' = { w with weatherState := weather }
  | .scheduleUpdate update => ScheduledOnce w w' frame.argPayload update
  | .receive noti =>
    w' = { w with notifications := w'.notifications } ∧
      notifications w'.notifications = assignHandlers noti :: keptEntries w.notifications

/-! ### One event -/

/-- Where the call of `add_user_work` ends. -/
theorem scheduleAppWork_runtimeMsgq (s : AppRun) (payload : Nat) (update : AppUpdate) :
    (scheduleAppWork s payload update).sys.pool.runtimeMsgq.items =
      s.sys.pool.runtimeMsgq.items ++
        if s.sys.fsm.currentState = .sleep then []
        else [{ appWork payload update with type := .user }].take
          (runtimeMsgqSize - s.sys.pool.runtimeMsgq.items.length) := by
  rw [scheduleAppWork, handleAppWorkSchedule_eq]
  by_cases hsleep : s.sys.fsm.currentState = .sleep
  · have hrefused : addUserWork s.sys (appWork payload update) = none := by
      rw [addUserWork, if_neg (by simp [appWork]), if_pos hsleep]
    simp only [hrefused, Option.getD_none, if_pos hsleep, List.append_nil]
  · have haccepted : addUserWork s.sys (appWork payload update) =
        some { s.sys with userCallers := s.sys.userCallers ++ [appWork payload update] } := by
      rw [addUserWork, if_neg (by simp [appWork]), if_neg hsleep]
    simp only [haccepted, Option.getD_some, if_neg hsleep, enqueueUserWork,
      WorkerPool.enqueueUserItem]
    rw [← MsgQueue.tryPut_items, MsgQueue.tryPut]
    cases s.sys.pool.runtimeMsgq.put { appWork payload update with type := .user } with
    | none => rfl
    | some q => rfl

theorem scheduleAppWork_logs (s : AppRun) (payload : Nat) (update : AppUpdate) :
    (scheduleAppWork s payload update).scheduled = s.scheduled ++ [(payload, update)] ∧
    (scheduleAppWork s payload update).delivered = s.delivered ∧
    (scheduleAppWork s payload update).memory =
      writeBytes s.memory payload (argPayload update).cells := by
  rw [scheduleAppWork, handleAppWorkSchedule_eq, addUserWork]
  split_ifs <;> exact ⟨rfl, rfl, rfl⟩

/-- The call is over: the callers are those that there were, perhaps in another order. -/
theorem scheduleAppWork_sys (s : AppRun) (payload : Nat) (update : AppUpdate) :
    (scheduleAppWork s payload update).sys.userCallers.Perm s.sys.userCallers ∧
    (scheduleAppWork s payload update).sys =
      { s.sys with
        pool := { s.sys.pool with
          runtimeMsgq := (scheduleAppWork s payload update).sys.pool.runtimeMsgq }
        userCallers := (scheduleAppWork s payload update).sys.userCallers } := by
  rw [scheduleAppWork, handleAppWorkSchedule_eq, addUserWork]
  split_ifs
  · exact ⟨.refl _, rfl⟩
  · exact ⟨.refl _, rfl⟩
  · constructor
    · have hlast := List.perm_append_singleton (appWork payload update) s.sys.userCallers
      exact (hlast.erase (appWork payload update)).trans
        (by rw [List.erase_cons_head])
    · simp only [enqueueUserWork, Option.getD_some, WorkerPool.enqueueUserItem]
      cases s.sys.pool.runtimeMsgq.put { appWork payload update with type := .user } <;> rfl

theorem handleEvent_scheduledOnce (w : Watch) (frame : Frame) (update : AppUpdate) :
    ScheduledOnce w (handleEvent w frame (.appWorkSchedule update)) frame.argPayload update := by
  obtain ⟨hscheduled, hdelivered, hmemory⟩ := scheduleAppWork_logs w.app frame.argPayload update
  obtain ⟨hcallers, hruntime⟩ := scheduleAppWork_sys w.app frame.argPayload update
  exact ⟨rfl, rfl, rfl, hscheduled, hdelivered, hmemory,
    scheduleAppWork_runtimeMsgq w.app frame.argPayload update, hcallers, hruntime⟩

/-! ### One opcode -/

section Opcodes
variable (w : Watch) (frame : Frame) {msg : BleMsg}

/-- The message has one effect, or none and nothing changes. -/
def Answered (w : Watch) (frame : Frame) (msg : BleMsg) : Prop :=
  (∃ e, Means msg.wire e ∧ Performed w (handleBleResponse w frame msg) frame e) ∨
    ((∀ e, ¬ Means msg.wire e) ∧ handleBleResponse w frame msg = w)

theorem payload_length (msg : BleMsg) : msg.hdr.len.toNat ≤ msg.payload.cells.length := by
  rw [msg.payload.length_eq]
  exact len_le_size msg.hdr.len

/-- The first bytes of the array, when there are as many as the message has. -/
theorem take_payload {n : Nat} (hlen : msg.hdr.len.toNat = n) :
    msg.payload.cells.take n = msg.wire.payload := by
  rw [← hlen]
  rfl

theorem wire_payload_length (msg : BleMsg) : msg.wire.payload.length = msg.hdr.len.toNat :=
  msg.body_length

theorem not_op {op op' : UInt8} (hop : msg.hdr.opcode = op) (hne : op ≠ op') :
    ¬ msg.wire.opcode = op' := fun hop' => hne (hop.symm.trans hop')

theorem answered_time (hop : msg.hdr.opcode = bleOpTimeUpdate) : Answered w frame msg := by
  rw [Answered, handleBleResponse]
  simp only [if_pos hop]
  split_ifs with hlen
  · left
    refine ⟨.setTime (parseDateTimePayload msg.payload.cells), ⟨hop, ?_⟩, rfl⟩
    rw [encodeEpoch_parse (hlen ▸ payload_length msg), take_payload hlen]
  · right
    refine ⟨fun e hmeans => ?_, rfl⟩
    cases e with
    | setTime epoch =>
      apply hlen
      rw [← wire_payload_length, hmeans.2, encodeEpoch_length]
    | _ => exact not_op hop (by decide) hmeans.1

theorem answered_weather (hop : msg.hdr.opcode = bleOpWeatherUpdate) : Answered w frame msg := by
  have htime : ¬ msg.hdr.opcode = bleOpTimeUpdate := not_op hop (by decide)
  rw [Answered, handleBleResponse]
  simp only [if_neg htime, if_pos hop]
  split_ifs with hlen
  · left
    refine ⟨.replaceWeather (parseWeatherPayload msg.payload.cells), ⟨hop, ?_⟩, rfl⟩
    rw [encode_parseWeatherPayload (hlen ▸ payload_length msg), take_payload hlen]
  · right
    refine ⟨fun e hmeans => ?_, rfl⟩
    cases e with
    | replaceWeather weather =>
      apply hlen
      rw [← wire_payload_length, hmeans.2, WeatherSync.encode_length]
    | _ => exact not_op hop (by decide) hmeans.1

theorem answered_datedWeather (hop : msg.hdr.opcode = bleOpDatedWeatherQuery) :
    Answered w frame msg := by
  have htime : ¬ msg.hdr.opcode = bleOpTimeUpdate := not_op hop (by decide)
  have hweather : ¬ msg.hdr.opcode = bleOpWeatherUpdate := not_op hop (by decide)
  rw [Answered, handleBleResponse]
  simp only [if_neg htime, if_neg hweather, if_pos hop]
  split_ifs with hlen
  · left
    refine ⟨.scheduleUpdate (datedWeatherUpdate msg.hdr.reqApp
      (parseWeatherPayload msg.payload.cells)), ⟨hop, _, ?_, rfl⟩,
      handleEvent_scheduledOnce w frame _⟩
    rw [encode_parseWeatherPayload (hlen ▸ payload_length msg), take_payload hlen]
  · right
    refine ⟨fun e hmeans => ?_, rfl⟩
    cases e with
    | scheduleUpdate update =>
      obtain ⟨-, weather, hpayload, -⟩ := hmeans
      apply hlen
      rw [← wire_payload_length, hpayload, WeatherSync.encode_length]
    | _ => exact not_op hop (by decide) hmeans.1

theorem answered_notification (hop : msg.hdr.opcode = bleOpNotificationSend) :
    Answered w frame msg := by
  have htime : ¬ msg.hdr.opcode = bleOpTimeUpdate := not_op hop (by decide)
  have hweather : ¬ msg.hdr.opcode = bleOpWeatherUpdate := not_op hop (by decide)
  have hdated : ¬ msg.hdr.opcode = bleOpDatedWeatherQuery := not_op hop (by decide)
  have hiff := parseNotificationPayload_ok_iff frame.notification (payload_length msg)
  have hnone : (parseNotificationPayload msg.payload.cells msg.hdr.len.toNat
      frame.notification).1 ≠ .ok () → ∀ e, ¬ Means msg.wire e := by
    intro hfails e hmeans
    cases e with
    | receive noti =>
      obtain ⟨-, lean, tail, hpayload, -⟩ := hmeans
      obtain ⟨dest, hparse, -⟩ :=
        parseNotificationPayload_encode frame.notification (payload_length msg) hpayload
      exact hfails (by rw [hparse])
    | _ => exact not_op hop (by decide) hmeans.1
  rw [Answered, handleBleResponse]
  simp only [if_neg htime, if_neg hweather, if_neg hdated, if_pos hop]
  split_ifs with hlen
  · split
    next noti hparse =>
      left
      rw [hparse] at hiff
      obtain ⟨lean, tail, hpayload, hdecoded⟩ := hiff.mp rfl
      exact ⟨.receive noti, ⟨hop, lean, tail, hpayload, hdecoded⟩, rfl,
        notifications_receive w.notifications noti⟩
    next err noti hparse =>
      right
      refine ⟨hnone ?_, rfl⟩
      rw [hparse]
      simp
  · right
    refine ⟨hnone ?_, rfl⟩
    rw [parseNotificationPayload, if_pos (by omega)]
    simp

theorem answered_unknown (htime : ¬ msg.hdr.opcode = bleOpTimeUpdate)
    (hweather : ¬ msg.hdr.opcode = bleOpWeatherUpdate)
    (hdated : ¬ msg.hdr.opcode = bleOpDatedWeatherQuery)
    (hnoti : ¬ msg.hdr.opcode = bleOpNotificationSend) : Answered w frame msg := by
  right
  constructor
  · intro e hmeans
    cases e with
    | setTime epoch => exact htime hmeans.1
    | replaceWeather weather => exact hweather hmeans.1
    | scheduleUpdate update => exact hdated hmeans.1
    | receive noti => exact hnoti hmeans.1
  · rw [handleBleResponse]
    simp only [if_neg htime, if_neg hweather, if_neg hdated, if_neg hnoti]

end Opcodes

end MinimalWatch.Ble
