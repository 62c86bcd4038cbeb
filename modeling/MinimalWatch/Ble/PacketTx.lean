import MinimalWatch.Ble.Fifo
import MinimalWatch.Lib.Loop

/-! The sender of ble_packet_handler.c. `txIteration` is one pass of the while loop of
`ble_build_next_packet`; the bytes written to the caller's array so far stand for the
array, and their number for the index. The offset never passes the message's
length and the index never passes the MTU, so the 16-bit arithmetic does not wrap. -/

namespace MinimalWatch.Ble
open Firmware Firmware.Memory

structure TxCtx where
  curMsg : BleMsg
  offset : Nat
  msgActive : Bool
  deriving DecidableEq, Repr

def TxCtx.init : TxCtx := ⟨BleMsg.zero, 0, false⟩

def txResetContext (ctx : TxCtx) : TxCtx := { ctx with msgActive := false, offset := 0 }

/-- The static state and the local variables of the loop. -/
structure TxLoop where
  ctx : TxCtx
  fifos : BleFifos
  buffer : List UInt8

/-- Load the next message if needed; `none` is the `break` on an empty FIFO. -/
def txLoad (s : TxLoop) : Option TxLoop :=
  if s.ctx.msgActive then some s
  else
    match getNextBleMsg s.fifos (some s.ctx.curMsg) .tx with
    | (fifos, some msg, true) => some { s with fifos := fifos, ctx := ⟨msg, 0, true⟩ }
    | _ => none

/-- The rest of the pass, with a message loaded. -/
def txWrite (effectiveMtu : Nat) (s : TxLoop) : TxLoop ⊕ TxLoop :=
  let hdr := s.ctx.curMsg.hdr
  let remainingMsg := hdr.len.toNat - s.ctx.offset
  let remainingPkt := effectiveMtu - s.buffer.length
  if s.ctx.offset = 0 ∧ remainingPkt < 1 + bleHdrSize then
    -- the header does not fit
    .inr s
  else
    let buffer := if s.ctx.offset = 0 then s.buffer ++ hdr.bytes else s.buffer
    let remainingPkt := effectiveMtu - buffer.length
    let chunk := if remainingMsg < remainingPkt then remainingMsg else remainingPkt
    let buffer := buffer ++ slice s.ctx.curMsg.payload.cells s.ctx.offset chunk
    let offset := s.ctx.offset + chunk
    let msgActive := if offset ≥ hdr.len.toNat then false else s.ctx.msgActive
    let s := { s with ctx := ⟨s.ctx.curMsg, offset, msgActive⟩, buffer := buffer }
    if buffer.length ≥ effectiveMtu then .inr s else .inl s

/-- One pass of `while (i < effective_mtu)`; `.inr` is the loop's end or a `break`. -/
def txIteration (effectiveMtu : Nat) (s : TxLoop) : TxLoop ⊕ TxLoop :=
  if s.buffer.length < effectiveMtu then
    match txLoad s with
    | none => .inr s
    | some s => txWrite effectiveMtu s
  else .inr s

/-- Passes enough for any packet: each one that goes on has written a byte. -/
def txFuel (effectiveMtu : Nat) : Nat := effectiveMtu + 1

/-- The state after the call, the caller's `out_len` and the answer. -/
def bleBuildNextPacket (ctx : TxCtx) (fifos : BleFifos) (effectiveMtu : Nat)
    (outLen : Option Nat) : TxLoop × Option Nat × Bool :=
  match outLen with
  | none => (⟨ctx, fifos, []⟩, none, false)
  | some _ =>
    let start : TxLoop := ⟨ctx, fifos, [if ctx.msgActive then 1 else 0]⟩
    let final := (Loop.loop (txIteration effectiveMtu) (txFuel effectiveMtu) start).getD start
    (final, some final.buffer.length, decide (1 < final.buffer.length))

/-- What repeated calls have produced. -/
structure TxDrain where
  ctx : TxCtx
  fifos : BleFifos
  packets : List (List UInt8)

/-- One more call; `.inr` when it answers false. -/
def txDrainCall (effectiveMtu : Nat) (s : TxDrain) : TxDrain ⊕ TxDrain :=
  match bleBuildNextPacket s.ctx s.fifos effectiveMtu (some 0) with
  | (final, _, true) => .inl ⟨final.ctx, final.fifos, s.packets ++ [final.buffer]⟩
  | (final, _, false) => .inr ⟨final.ctx, final.fifos, s.packets⟩

/-- Calls enough for whatever a FIFO and the current message can hold. -/
def txDrainFuel : Nat := bleFifoSize * maxBlePayloadSize + 1

/-- The packets of repeated calls until one answers false. -/
def txPackets (ctx : TxCtx) (fifos : BleFifos) (effectiveMtu : Nat) :
    Option (List (List UInt8)) :=
  (Loop.loop (txDrainCall effectiveMtu) txDrainFuel ⟨ctx, fifos, []⟩).map TxDrain.packets

/-! ### One pass in terms of wire messages -/

/-- The message being sent and how many of its payload bytes are gone. -/
abbrev TxCurrent := Option (WireMsg × Nat)

def TxCtx.current (ctx : TxCtx) : TxCurrent :=
  if ctx.msgActive then some (ctx.curMsg.wire, ctx.offset) else none

theorem TxCtx.current_none {ctx : TxCtx} (h : ctx.current = none) : ctx.msgActive = false := by
  unfold TxCtx.current at h
  split at h
  next => cases h
  next hact => simpa using hact

theorem TxCtx.current_some {ctx : TxCtx} {w : WireMsg} {k : Nat}
    (h : ctx.current = some (w, k)) :
    ctx.msgActive = true ∧ ctx.curMsg.wire = w ∧ ctx.offset = k := by
  unfold TxCtx.current at h
  split at h
  next hact =>
    obtain ⟨hw, hk⟩ := Prod.mk.inj (Option.some.inj h)
    exact ⟨hact, hw, hk⟩
  next => cases h

theorem txLoad_active {s : TxLoop} {w : WireMsg} {k : Nat} (h : s.ctx.current = some (w, k)) :
    txLoad s = some s := by
  rw [txLoad, if_pos (TxCtx.current_some h).1]

theorem txLoad_empty {s : TxLoop} (h : s.ctx.current = none) (hq : s.fifos.held .tx = []) :
    txLoad s = none := by
  simp [txLoad, TxCtx.current_none h, getNextBleMsg_nil s.fifos _ .tx hq]

theorem txLoad_next {s : TxLoop} {w : WireMsg} {ws : List WireMsg}
    (h : s.ctx.current = none) (hq : s.fifos.held .tx = w :: ws) :
    ∃ s', txLoad s = some s' ∧ s'.ctx.current = some (w, 0) ∧ s'.fifos.held .tx = ws ∧
      s'.buffer = s.buffer := by
  obtain ⟨fifos', out', hget, hheld, hw⟩ := getNextBleMsg_cons s.fifos s.ctx.curMsg .tx hq
  exact ⟨{ s with fifos := fifos', ctx := ⟨out', 0, true⟩ },
    by simp [txLoad, TxCtx.current_none h, hget], by simp [TxCtx.current, hw], hheld, rfl⟩

/-- The header, which is written while no payload byte is gone. -/
def txHeader (w : WireMsg) (k : Nat) : List UInt8 := if k = 0 then w.hdr.bytes else []

/-- How many payload bytes fit behind it in a packet filled up to `pos`. -/
def txChunk (effectiveMtu pos : Nat) (w : WireMsg) (k : Nat) : Nat :=
  min (w.payload.length - k) (effectiveMtu - (pos + (txHeader w k).length))

def txSent (effectiveMtu pos : Nat) (w : WireMsg) (k : Nat) : List UInt8 :=
  txHeader w k ++ (w.payload.drop k).take (txChunk effectiveMtu pos w k)

def txAfter (effectiveMtu pos : Nat) (w : WireMsg) (k : Nat) : TxCurrent :=
  if w.payload.length ≤ k + txChunk effectiveMtu pos w k then none
  else some (w, k + txChunk effectiveMtu pos w k)

theorem txWrite_noRoom {effectiveMtu : Nat} {s : TxLoop} {w : WireMsg}
    (h : s.ctx.current = some (w, 0)) (hroom : effectiveMtu < s.buffer.length + 4) :
    txWrite effectiveMtu s = .inr s := by
  obtain ⟨-, -, hoff⟩ := TxCtx.current_some h
  have hsize : 1 + bleHdrSize = 4 := rfl
  rw [txWrite, if_pos ⟨hoff, by omega⟩]

theorem body_slice (m : BleMsg) {k c : Nat} (h : k + c ≤ m.hdr.len.toNat) :
    slice m.payload.cells k c = (m.body.drop k).take c := by
  rw [slice, BleMsg.body, List.drop_take, List.take_take, Nat.min_eq_left (by omega)]

theorem txWrite_room {effectiveMtu : Nat} {s : TxLoop} {w : WireMsg} {k : Nat}
    (h : s.ctx.current = some (w, k)) (hroom : k = 0 → s.buffer.length + 4 ≤ effectiveMtu) :
    ∃ s', txWrite effectiveMtu s =
        (if s'.buffer.length ≥ effectiveMtu then .inr s' else .inl s') ∧
      s'.fifos = s.fifos ∧
      s'.buffer = s.buffer ++ txSent effectiveMtu s.buffer.length w k ∧
      s'.ctx.current = txAfter effectiveMtu s.buffer.length w k := by
  obtain ⟨hact, rfl, rfl⟩ := TxCtx.current_some h
  have hsize : 1 + bleHdrSize = 4 := rfl
  have hlen : s.ctx.curMsg.wire.payload.length = s.ctx.curMsg.hdr.len.toNat :=
    s.ctx.curMsg.body_length
  have hhdr : (if s.ctx.offset = 0 then s.buffer ++ s.ctx.curMsg.hdr.bytes else s.buffer) =
      s.buffer ++ txHeader s.ctx.curMsg.wire s.ctx.offset := by
    by_cases hoff : s.ctx.offset = 0 <;> simp [txHeader, hoff]
  have hchunk : (if s.ctx.curMsg.hdr.len.toNat - s.ctx.offset <
        effectiveMtu - (s.buffer ++ txHeader s.ctx.curMsg.wire s.ctx.offset).length
      then s.ctx.curMsg.hdr.len.toNat - s.ctx.offset
      else effectiveMtu - (s.buffer ++ txHeader s.ctx.curMsg.wire s.ctx.offset).length) =
      txChunk effectiveMtu s.buffer.length s.ctx.curMsg.wire s.ctx.offset := by
    rw [txChunk, hlen, List.length_append]
    split_ifs <;> omega
  have hle : txChunk effectiveMtu s.buffer.length s.ctx.curMsg.wire s.ctx.offset ≤
      s.ctx.curMsg.hdr.len.toNat - s.ctx.offset := by
    rw [txChunk, hlen]
    exact Nat.min_le_left _ _
  have hslice : slice s.ctx.curMsg.payload.cells s.ctx.offset
      (txChunk effectiveMtu s.buffer.length s.ctx.curMsg.wire s.ctx.offset) =
      (s.ctx.curMsg.body.drop s.ctx.offset).take
        (txChunk effectiveMtu s.buffer.length s.ctx.curMsg.wire s.ctx.offset) := by
    by_cases hover : s.ctx.offset ≤ s.ctx.curMsg.hdr.len.toNat
    · exact body_slice _ (by omega)
    · have hzero : txChunk effectiveMtu s.buffer.length s.ctx.curMsg.wire s.ctx.offset = 0 := by
        omega
      simp [hzero, slice]
  rw [txWrite, if_neg (by omega)]
  simp only [hhdr, hchunk, hslice, List.append_assoc]
  refine ⟨⟨⟨s.ctx.curMsg, _, _⟩, _, _⟩, rfl, rfl, rfl, ?_⟩
  simp only [TxCtx.current, txAfter, hlen, hact, ge_iff_le]
  by_cases hdone : s.ctx.curMsg.hdr.len.toNat ≤
      s.ctx.offset + txChunk effectiveMtu s.buffer.length s.ctx.curMsg.wire s.ctx.offset
  · simp [hdone]
  · simp [hdone]

end MinimalWatch.Ble
