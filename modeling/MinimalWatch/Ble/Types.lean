import MinimalWatch.Lib.Buffer

/-! The messages of the BLE link. `BleMsg` is the record of the firmware: a header and
a payload array of fixed size of which only the first `len` bytes belong to the
message. `WireMsg` is what a message is on the link: the same header fields and
exactly those bytes. Everything said about delivery compares wire messages, so
bytes left over in the arrays never count. -/

namespace MinimalWatch.Ble
open Firmware.Memory

def maxBlePayloadSize : Nat := 256
def bleFifoSize : Nat := 20
def bleMagic : UInt8 := 0xA5
def bleHdrSize : Nat := 3

def bleOpTimeUpdate : UInt8 := 0x01
def bleOpWeatherUpdate : UInt8 := 0x02
def bleOpDatedWeatherQuery : UInt8 := 0x03
def bleOpNotificationSend : UInt8 := 0x04

inductive BleCommType
  | tx
  | rx
  deriving DecidableEq, Repr

structure BleMsgHdr where
  opcode : UInt8
  reqApp : UInt8
  len : UInt8
  deriving DecidableEq, Repr

structure BleMsg where
  hdr : BleMsgHdr
  payload : Buffer UInt8 maxBlePayloadSize
  deriving DecidableEq, Repr

/-- A static message before its first use. -/
def BleMsg.zero : BleMsg := ⟨⟨0, 0, 0⟩, Buffer.fill maxBlePayloadSize 0⟩

/-- The payload bytes that belong to the message. -/
def BleMsg.body (m : BleMsg) : List UInt8 := m.payload.cells.take m.hdr.len.toNat

theorem len_le_size (len : UInt8) : len.toNat ≤ maxBlePayloadSize := by
  have h := len.toNat_lt
  simp only [maxBlePayloadSize]
  omega

@[simp] theorem BleMsg.body_length (m : BleMsg) : m.body.length = m.hdr.len.toNat :=
  m.payload.length_take (len_le_size m.hdr.len)

@[ext] structure WireMsg where
  opcode : UInt8
  reqApp : UInt8
  payload : List UInt8
  payload_lt : payload.length < 256
  deriving DecidableEq, Repr

def WireMsg.len (w : WireMsg) : UInt8 := UInt8.ofNat w.payload.length

@[simp] theorem WireMsg.len_toNat (w : WireMsg) : w.len.toNat = w.payload.length := by
  rw [WireMsg.len, UInt8.toNat_ofNat']
  exact Nat.mod_eq_of_lt w.payload_lt

def WireMsg.hdr (w : WireMsg) : BleMsgHdr := ⟨w.opcode, w.reqApp, w.len⟩

/-- MAGIC, OPCODE, REQ_APP, LEN. -/
def BleMsgHdr.bytes (h : BleMsgHdr) : List UInt8 := [bleMagic, h.opcode, h.reqApp, h.len]

@[simp] theorem BleMsgHdr.bytes_length (h : BleMsgHdr) : h.bytes.length = 4 := rfl

def WireMsg.encode (w : WireMsg) : List UInt8 := w.hdr.bytes ++ w.payload

@[simp] theorem WireMsg.encode_length (w : WireMsg) :
    w.encode.length = 4 + w.payload.length := by
  simp [WireMsg.encode]

def encodeAll (ws : List WireMsg) : List UInt8 := ws.flatMap WireMsg.encode

@[simp] theorem encodeAll_cons (w : WireMsg) (ws : List WireMsg) :
    encodeAll (w :: ws) = w.encode ++ encodeAll ws := rfl

/-- What a firmware message is on the link. -/
def BleMsg.wire (m : BleMsg) : WireMsg :=
  ⟨m.hdr.opcode, m.hdr.reqApp, m.body, by
    rw [m.body_length]
    exact m.hdr.len.toNat_lt⟩

@[simp] theorem BleMsg.wire_payload (m : BleMsg) : m.wire.payload = m.body := rfl

@[simp] theorem BleMsg.wire_hdr (m : BleMsg) : m.wire.hdr = m.hdr := by
  have hlen : m.wire.len = m.hdr.len := by
    apply UInt8.toNat_inj.mp
    rw [WireMsg.len_toNat, BleMsg.wire_payload, BleMsg.body_length]
  simp only [WireMsg.hdr, hlen]
  rfl

/-- Two firmware messages are one message on the link exactly when their headers and
their first `len` payload bytes agree. -/
theorem BleMsg.wire_eq_iff (m m' : BleMsg) :
    m.wire = m'.wire ↔ m.hdr = m'.hdr ∧ m.body = m'.body := by
  constructor
  · intro h
    exact ⟨by rw [← m.wire_hdr, h, m'.wire_hdr], congrArg WireMsg.payload h⟩
  · rintro ⟨hh, hb⟩
    apply WireMsg.ext
    · exact congrArg BleMsgHdr.opcode hh
    · exact congrArg BleMsgHdr.reqApp hh
    · exact hb

/-- A firmware message that stands for a wire message. -/
def WireMsg.msg (w : WireMsg) : BleMsg :=
  ⟨w.hdr, (Buffer.fill maxBlePayloadSize 0).blit 0 w.payload⟩

@[simp] theorem WireMsg.msg_wire (w : WireMsg) : w.msg.wire = w := by
  have hw := w.payload_lt
  have hbody : w.msg.body = w.payload :=
    Buffer.take_blit_zero w.len_toNat.symm (len_le_size w.len)
  ext1
  · rfl
  · rfl
  · exact hbody

/-- Overwriting the front of a message's payload array with another message's body,
under that message's header, gives that message on the link. -/
theorem BleMsg.wire_blit (m : BleMsg) (old : Buffer UInt8 maxBlePayloadSize) :
    (BleMsg.mk m.hdr (old.blit 0 m.body)).wire = m.wire := by
  rw [BleMsg.wire_eq_iff]
  exact ⟨rfl, Buffer.take_blit_zero m.body_length (len_le_size m.hdr.len)⟩

end MinimalWatch.Ble
