import MinimalWatch.Ble.Fifo

/-! Requests of the watch to the phone, from ble_request_handler.c: a request becomes a
message in the TX FIFO. The length of the request's data has 16 bits, the length in the
header 8, and neither the handler nor the FIFO sees the difference: from 256 bytes on a
message goes out with other data than the request's. -/

namespace MinimalWatch.Ble
open Firmware Firmware.Memory

inductive BleReqType
  | updateSystemTime
  | updateSystemWeather
  | datedWeatherQuery
  | other (code : UInt32)
  deriving DecidableEq, Repr

/-- `reqData` is what the pointer gives; it is NULL only when the length is 0. -/
structure BleReq where
  reqCode : BleReqType
  reqDataLen : UInt16
  reqData : List UInt8
  data_length : reqData.length = reqDataLen.toNat
  deriving DecidableEq, Repr

/-- A new message with a header and an otherwise zeroed payload. -/
def newMsg (opcode len appId : UInt8) (payload : List UInt8) : BleMsg :=
  ⟨⟨opcode, appId, len⟩, (Buffer.fill maxBlePayloadSize 0).blit 0 payload⟩

/-- The header keeps the low byte of the length. -/
def handleBleRequest (fifos : BleFifos) (req : BleReq) (appId : UInt8) : BleFifos × Bool :=
  match req.reqCode with
  | .updateSystemTime =>
    addBleMsgToQueue fifos (some (newMsg bleOpTimeUpdate 0 appId [])) .tx
  | .updateSystemWeather =>
    addBleMsgToQueue fifos (some (newMsg bleOpWeatherUpdate 0 appId [])) .tx
  | .datedWeatherQuery =>
    let payload := if req.reqDataLen.toNat ≤ maxBlePayloadSize then req.reqData else []
    addBleMsgToQueue fifos
      (some (newMsg bleOpDatedWeatherQuery req.reqDataLen.toUInt8 appId payload)) .tx
  | .other _ => (fifos, false)

def submitBleRequest (fifos : BleFifos) (msg : Option BleReq) (appId : UInt8) :
    BleFifos × Bool :=
  match msg with
  | none => (fifos, false)
  | some msg => handleBleRequest fifos msg appId

/-! ### What becomes of a request -/

/-- The opcode that a request goes out with, for the codes that the handler knows. -/
def BleReqType.opcode : BleReqType → Option UInt8
  | .updateSystemTime => some bleOpTimeUpdate
  | .updateSystemWeather => some bleOpWeatherUpdate
  | .datedWeatherQuery => some bleOpDatedWeatherQuery
  | .other _ => none

/-- Only the dated query takes its data along. -/
def BleReq.payload (req : BleReq) : List UInt8 :=
  if req.reqCode = .datedWeatherQuery then req.reqData else []

/-- The code is known, and the header can count the payload. -/
def BleReq.Carriable (req : BleReq) : Prop :=
  req.reqCode.opcode.isSome ∧ req.payload.length < 256

structure QueuedWhole (fifos : BleFifos) (req : BleReq) (appId : UInt8) : Prop where
  whole : (handleBleRequest fifos req appId).2 = true →
    ∃ w, ((handleBleRequest fifos req appId).1.held .tx).getLast? = some w ∧
      req.reqCode.opcode = some w.opcode ∧ w.reqApp = appId ∧ w.payload = req.payload
  refused : ¬ req.Carriable → handleBleRequest fifos req appId = (fifos, false)

theorem addBleMsgToQueue_newest (fifos : BleFifos) (msg : BleMsg) (type : BleCommType) :
    ((addBleMsgToQueue fifos (some msg) type).1.held type).getLast? = some msg.wire := by
  rw [addBleMsgToQueue_held, RingBuffer.pushBounded, List.getLast?_concat]

theorem newMsg_payload {opcode len appId : UInt8} {payload : List UInt8}
    (h : payload.length = len.toNat) : (newMsg opcode len appId payload).wire.payload = payload :=
  Buffer.take_blit_zero h (len_le_size len)

@[simp] theorem newMsg_payload_length (opcode len appId : UInt8) (payload : List UInt8) :
    (newMsg opcode len appId payload).wire.payload.length = len.toNat :=
  BleMsg.body_length _

/-- A message that carries the request's data. -/
theorem queuedWhole_of_newMsg {fifos : BleFifos} {req : BleReq} {opcode len appId : UInt8}
    (hcode : req.reqCode.opcode = some opcode) (hlen : req.payload.length = len.toNat)
    (hcall : handleBleRequest fifos req appId =
      addBleMsgToQueue fifos (some (newMsg opcode len appId req.payload)) .tx) :
    QueuedWhole fifos req appId := by
  refine ⟨fun _ => ⟨_, ?_, hcode, rfl, newMsg_payload hlen⟩, fun hnot => absurd ?_ hnot⟩
  · rw [hcall]
    exact addBleMsgToQueue_newest fifos _ .tx
  · have hlt := len.toNat_lt
    exact ⟨by rw [hcode]; rfl, by omega⟩

theorem queuedWhole_dated {fifos : BleFifos} {req : BleReq} {appId : UInt8}
    (hcode : req.reqCode = .datedWeatherQuery) (hlen : req.reqDataLen.toNat < 256) :
    QueuedWhole fifos req appId := by
  have hpayload : req.payload = req.reqData := if_pos hcode
  have hbyte : req.reqDataLen.toUInt8.toNat = req.reqDataLen.toNat := by
    rw [UInt16.toNat_toUInt8]
    exact Nat.mod_eq_of_lt hlen
  have hsize : maxBlePayloadSize = 256 := rfl
  refine @queuedWhole_of_newMsg fifos req bleOpDatedWeatherQuery req.reqDataLen.toUInt8 appId
    (by rw [hcode]; rfl) (by rw [hpayload, req.data_length, hbyte]) ?_
  simp only [handleBleRequest, hcode, hpayload]
  rw [if_pos (by omega)]

/-- From 256 bytes on the message has as many bytes as the low byte of the length says. -/
theorem not_queuedWhole {fifos : BleFifos} {req : BleReq} {appId : UInt8}
    (hcode : req.reqCode = .datedWeatherQuery) (hlen : 256 ≤ req.reqDataLen.toNat) :
    ¬ QueuedWhole fifos req appId := by
  intro h
  have hpayload : req.payload = req.reqData := if_pos hcode
  have hlong : ¬ req.Carriable := by
    rintro ⟨-, hfits⟩
    rw [hpayload, req.data_length] at hfits
    omega
  have hrefused := congrArg Prod.snd (h.refused hlong)
  simp only [handleBleRequest, hcode, addBleMsgToQueue_ok] at hrefused
  cases hrefused

/-- A request is queued whole or refused, unless it is a dated query with more data than
the header's length byte can count. -/
theorem queuedWhole_iff (fifos : BleFifos) (req : BleReq) (appId : UInt8) :
    QueuedWhole fifos req appId ↔
      (req.reqCode = .datedWeatherQuery → req.reqDataLen.toNat < 256) := by
  constructor
  · intro h hcode
    by_contra hlen
    exact not_queuedWhole hcode (Nat.le_of_not_lt hlen) h
  · intro hlen
    cases hcode : req.reqCode with
    | updateSystemTime =>
      have hpayload : req.payload = [] := if_neg (by rw [hcode]; decide)
      refine @queuedWhole_of_newMsg fifos req bleOpTimeUpdate 0 appId (by rw [hcode]; rfl)
        (by rw [hpayload]; rfl) ?_
      rw [handleBleRequest, hcode, hpayload]
    | updateSystemWeather =>
      have hpayload : req.payload = [] := if_neg (by rw [hcode]; decide)
      refine @queuedWhole_of_newMsg fifos req bleOpWeatherUpdate 0 appId (by rw [hcode]; rfl)
        (by rw [hpayload]; rfl) ?_
      rw [handleBleRequest, hcode, hpayload]
    | datedWeatherQuery => exact queuedWhole_dated hcode (hlen hcode)
    | other code =>
      have hcall : handleBleRequest fifos req appId = (fifos, false) := by
        rw [handleBleRequest, hcode]
      refine ⟨fun hok => ?_, fun _ => hcall⟩
      rw [hcall] at hok
      cases hok

/-- A query with 256 bytes goes out with none. -/
theorem dated_query_emptied :
    let req : BleReq := ⟨.datedWeatherQuery, 256, List.replicate 256 7, List.length_replicate⟩
    (handleBleRequest .init req 3).2 = true ∧
      (handleBleRequest .init req 3).1.held .tx = [⟨3, 3, [], by decide⟩] ∧
      ¬ QueuedWhole .init req 3 :=
  ⟨by decide +kernel, by decide +kernel, not_queuedWhole rfl (by decide)⟩

end MinimalWatch.Ble
