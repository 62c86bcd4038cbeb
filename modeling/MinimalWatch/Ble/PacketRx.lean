import MinimalWatch.Ble.Stream
import MinimalWatch.Lib.Loop
import MinimalWatch.Lib.Machine
import Mathlib.Data.List.GetD

/-! The receiver of ble_packet_handler.c. `rxIteration` is one pass of the while loop
over a packet, `bleRetrievePacket` the call. Messages handed to
`add_ble_msg_to_queue(.., BLE_RX)` are returned in order. The second half shows that
on every context the receiver can be in, one call is `parsePacket`. -/

namespace MinimalWatch.Ble
open Firmware Firmware.Memory

inductive RxState
  | rxWaitMagic
  | rxReadHeader
  | rxReadPayload
  deriving DecidableEq, Repr

structure RxCtx where
  state : RxState
  curMsg : BleMsg
  offset : Nat
  msgActive : Bool
  deriving DecidableEq, Repr

/-- The static context before the first call. -/
def RxCtx.init : RxCtx := ⟨.rxWaitMagic, BleMsg.zero, 0, false⟩

def rxResetContext (ctx : RxCtx) : RxCtx :=
  { ctx with state := .rxWaitMagic, offset := 0, msgActive := false }

/-- The local variables of the loop, with the messages handed over so far. -/
structure RxLoop where
  ctx : RxCtx
  i : Nat
  enqueued : List BleMsg

def byteAt (pkt : List UInt8) (i : Nat) : UInt8 := pkt.getD i 0

/-- One pass of `while (i < len)`; `.inr` is the loop's end or a `return` in it. -/
def rxIteration (pkt : List UInt8) (s : RxLoop) : RxLoop ⊕ RxLoop :=
  if s.i < pkt.length then
    match s.ctx.state with
    | .rxWaitMagic =>
      if byteAt pkt s.i ≠ bleMagic then
        .inl { s with i := s.i + 1 }
      else if s.i + 4 > pkt.length then
        -- partial header at the packet boundary
        .inr s
      else
        .inl { s with ctx := { s.ctx with state := .rxReadHeader }, i := s.i + 1 }
    | .rxReadHeader =>
      if s.i + 3 > pkt.length then
        .inr s
      else
        let hdr : BleMsgHdr :=
          ⟨byteAt pkt s.i, byteAt pkt (s.i + 1), byteAt pkt (s.i + 2)⟩
        let ctx := { s.ctx with curMsg := { s.ctx.curMsg with hdr := hdr } }
        if hdr.len.toNat > maxBlePayloadSize then
          .inl { s with
            ctx := { ctx with state := .rxWaitMagic, msgActive := false }
            i := s.i + 3 }
        else if hdr.len = 0 then
          .inl {
            ctx := { ctx with state := .rxWaitMagic, offset := 0, msgActive := false }
            i := s.i + 3
            enqueued := s.enqueued ++ [ctx.curMsg] }
        else
          .inl { s with
            ctx := { ctx with state := .rxReadPayload, offset := 0, msgActive := true }
            i := s.i + 3 }
    | .rxReadPayload =>
      let hdr := s.ctx.curMsg.hdr
      if s.ctx.offset > hdr.len.toNat then
        .inl { s with ctx := { s.ctx with state := .rxWaitMagic, msgActive := false } }
      else
        let remainingMsg := hdr.len.toNat - s.ctx.offset
        let remainingPkt := pkt.length - s.i
        let chunk := if remainingMsg < remainingPkt then remainingMsg else remainingPkt
        let curMsg :=
          { s.ctx.curMsg with
            payload := s.ctx.curMsg.payload.blit s.ctx.offset (slice pkt s.i chunk) }
        let offset := s.ctx.offset + chunk
        if offset ≥ hdr.len.toNat then
          .inl {
            ctx := ⟨.rxWaitMagic, curMsg, offset, false⟩
            i := s.i + chunk
            enqueued := s.enqueued ++ [curMsg] }
        else
          .inl { s with
            ctx := { s.ctx with curMsg := curMsg, offset := offset }
            i := s.i + chunk }
  else .inr s

/-- The context after the flag byte, before the stream is read. -/
def rxContinuation (ctx : RxCtx) (msgCont : UInt8) : RxCtx :=
  if msgCont = 0 then
    { ctx with state := .rxWaitMagic, offset := 0, msgActive := false }
  else if ¬ ctx.msgActive then
    -- unexpected continuation packet, resync
    { ctx with state := .rxWaitMagic, offset := 0 }
  else ctx

/-- Passes enough for any packet: at most two for each byte. -/
def rxFuel (pkt : List UInt8) : Nat := 2 * pkt.length + 2

def bleRetrievePacket (ctx : RxCtx) (pkt : List UInt8) : RxCtx × List BleMsg :=
  match pkt with
  | [] => (ctx, [])
  | msgCont :: _ =>
    let start : RxLoop := ⟨rxContinuation ctx msgCont, 1, []⟩
    let final := (Loop.loop (rxIteration pkt) (rxFuel pkt) start).getD start
    (final.ctx, final.enqueued)

/-! ### The contexts the receiver can be in -/

/-- `ctx` holds what the link format says a receiver holds, between two packets. -/
def RxCtx.Represents (ctx : RxCtx) : Option PartialMsg → Prop
  | none => ctx.state = .rxWaitMagic ∧ ctx.msgActive = false
  | some p =>
    ctx.state = .rxReadPayload ∧ ctx.msgActive = true ∧
      ctx.curMsg.hdr.opcode = p.opcode ∧ ctx.curMsg.hdr.reqApp = p.reqApp ∧
      ctx.curMsg.hdr.len.toNat = p.got.length + p.missing + 1 ∧
      ctx.offset = p.got.length ∧ ctx.curMsg.payload.cells.take ctx.offset = p.got

theorem represents_init : RxCtx.init.Represents none := ⟨rfl, rfl⟩

theorem represents_reset (ctx : RxCtx) : (rxResetContext ctx).Represents none := ⟨rfl, rfl⟩

theorem represents_continuation {ctx : RxCtx} {state : Option PartialMsg} (msgCont : UInt8)
    (h : ctx.Represents state) :
    (rxContinuation ctx msgCont).Represents (if msgCont = 0 then none else state) := by
  unfold rxContinuation
  by_cases hzero : msgCont = 0
  · rw [if_pos hzero, if_pos hzero]
    exact ⟨rfl, rfl⟩
  · rw [if_neg hzero, if_neg hzero]
    cases state with
    | none =>
      rw [if_pos (by simp [h.2])]
      exact ⟨rfl, h.2⟩
    | some p =>
      rw [if_neg (by simp [h.2.1])]
      exact h

/-- What the loop has still to do, in terms of the link format: `goal` is the result
of reading the whole body. -/
def RxLoop.Inv (pkt : List UInt8) (goal : Option PartialMsg × List WireMsg) (s : RxLoop) :
    Prop :=
  (∃ state, s.ctx.Represents state ∧
      goal = ((parse state (pkt.drop s.i)).1,
        s.enqueued.map BleMsg.wire ++ (parse state (pkt.drop s.i)).2)) ∨
    (s.ctx.state = .rxReadHeader ∧ s.ctx.msgActive = false ∧ s.i + 3 ≤ pkt.length ∧
      goal = ((parse none (bleMagic :: pkt.drop s.i)).1,
        s.enqueued.map BleMsg.wire ++ (parse none (bleMagic :: pkt.drop s.i)).2))

def RxLoop.measure (pkt : List UInt8) (s : RxLoop) : Nat :=
  2 * (pkt.length - s.i) + if s.ctx.state = .rxWaitMagic then 0 else 1

theorem drop_eq_byteAt {pkt : List UInt8} {i : Nat} (h : i < pkt.length) :
    pkt.drop i = byteAt pkt i :: pkt.drop (i + 1) := by
  rw [List.drop_eq_getElem_cons h, byteAt, List.getD_eq_getElem _ _ h]

/-- The loop's result when it is left: the whole body has been read. -/
def RxLoop.Done (goal : Option PartialMsg × List WireMsg) (s : RxLoop) : Prop :=
  s.ctx.Represents goal.1 ∧ s.enqueued.map BleMsg.wire = goal.2

/-- What one pass owes: progress towards the goal, or the goal. -/
def RxLoop.Advances (pkt : List UInt8) (goal : Option PartialMsg × List WireMsg)
    (s : RxLoop) : RxLoop ⊕ RxLoop → Prop
  | .inl s' => s'.Inv pkt goal ∧ s'.measure pkt < s.measure pkt
  | .inr r => r.Done goal

theorem rxIteration_end {pkt : List UInt8} {goal : Option PartialMsg × List WireMsg}
    {s : RxLoop} (h : s.Inv pkt goal) (hi : ¬ s.i < pkt.length) :
    s.Advances pkt goal (rxIteration pkt s) := by
  rw [rxIteration, if_neg hi]
  rcases h with ⟨state, hrep, hgoal⟩ | ⟨-, -, hlen, -⟩
  · rw [List.drop_eq_nil_of_le (by omega), parse_nil, List.append_nil] at hgoal
    subst hgoal
    exact ⟨hrep, rfl⟩
  · omega

theorem rxIteration_waitMagic {pkt : List UInt8} {goal : Option PartialMsg × List WireMsg}
    {s : RxLoop} (hi : s.i < pkt.length) (hrep : s.ctx.Represents none)
    (hgoal : goal = ((parse none (pkt.drop s.i)).1,
      s.enqueued.map BleMsg.wire ++ (parse none (pkt.drop s.i)).2)) :
    s.Advances pkt goal (rxIteration pkt s) := by
  simp only [rxIteration, if_pos hi, hrep.1]
  by_cases hmagic : byteAt pkt s.i = bleMagic
  · rw [if_neg (by simp [hmagic])]
    by_cases hshort : s.i + 4 > pkt.length
    · rw [if_pos hshort]
      rw [parse_short (by rw [List.length_drop]; omega), List.append_nil] at hgoal
      subst hgoal
      exact ⟨hrep, rfl⟩
    · rw [if_neg hshort]
      refine ⟨Or.inr ⟨rfl, hrep.2, by simp only; omega, ?_⟩, ?_⟩
      · rw [hgoal, drop_eq_byteAt hi, hmagic]
      · simp only [RxLoop.measure, hrep.1]
        simp
        omega
  · rw [if_pos hmagic]
    refine ⟨Or.inl ⟨none, hrep, ?_⟩, ?_⟩
    · rw [hgoal, drop_eq_byteAt hi, parse_skip _ hmagic]
    · simp only [RxLoop.measure, hrep.1]
      simp
      omega

theorem rxIteration_readHeader {pkt : List UInt8} {goal : Option PartialMsg × List WireMsg}
    {s : RxLoop} (hstate : s.ctx.state = .rxReadHeader) (hlen : s.i + 3 ≤ pkt.length)
    (hgoal : goal = ((parse none (bleMagic :: pkt.drop s.i)).1,
      s.enqueued.map BleMsg.wire ++ (parse none (bleMagic :: pkt.drop s.i)).2)) :
    s.Advances pkt goal (rxIteration pkt s) := by
  have hsize := len_le_size (byteAt pkt (s.i + 2))
  have hbytes : pkt.drop s.i = byteAt pkt s.i :: byteAt pkt (s.i + 1) ::
      byteAt pkt (s.i + 2) :: pkt.drop (s.i + 3) := by
    rw [drop_eq_byteAt (by omega), drop_eq_byteAt (by omega : s.i + 1 < pkt.length),
      drop_eq_byteAt (by omega : s.i + 1 + 1 < pkt.length)]
  rw [hbytes, parse_header] at hgoal
  simp only [rxIteration, if_pos (by omega : s.i < pkt.length), hstate]
  rw [if_neg (by omega), if_neg (by omega)]
  by_cases hzero : byteAt pkt (s.i + 2) = 0
  · rw [if_pos hzero]
    have hopen : (byteAt pkt (s.i + 2)).toNat = 0 := by simp [hzero]
    simp only [openMsg, hopen, ↓reduceDIte] at hgoal
    refine ⟨Or.inl ⟨none, ⟨rfl, rfl⟩, ?_⟩, ?_⟩
    · have hwire : (BleMsg.mk ⟨byteAt pkt s.i, byteAt pkt (s.i + 1), byteAt pkt (s.i + 2)⟩
          s.ctx.curMsg.payload).wire =
          ⟨byteAt pkt s.i, byteAt pkt (s.i + 1), [], by decide⟩ := by
        ext1
        · rfl
        · rfl
        · simp [BleMsg.body, hzero]
      simp [hgoal, hwire]
    · simp only [RxLoop.measure, hstate]
      simp
      omega
  · rw [if_neg hzero]
    have hopen : (byteAt pkt (s.i + 2)).toNat ≠ 0 := by
      intro h
      exact hzero (UInt8.toNat_inj.mp h)
    obtain ⟨p, hp, hop, happ, hgot, hmissing⟩ :=
      openMsg_waits (byteAt pkt s.i) (byteAt pkt (s.i + 1)) hopen
    rw [hp] at hgoal
    refine ⟨Or.inl ⟨some p, ⟨rfl, rfl, hop.symm, happ.symm, ?_, by simp [hgot],
      by simp [hgot]⟩, hgoal⟩, ?_⟩
    · simp only [hgot, List.length_nil]
      omega
    · simp only [RxLoop.measure, hstate]
      simp
      omega

theorem rxIteration_readPayload {pkt : List UInt8} {goal : Option PartialMsg × List WireMsg}
    {s : RxLoop} {p : PartialMsg} (hi : s.i < pkt.length) (hrep : s.ctx.Represents (some p))
    (hgoal : goal = ((parse (some p) (pkt.drop s.i)).1,
      s.enqueued.map BleMsg.wire ++ (parse (some p) (pkt.drop s.i)).2)) :
    s.Advances pkt goal (rxIteration pkt s) := by
  obtain ⟨hstate, hactive, hop, happ, hlen, hoff, hgot⟩ := hrep
  have hsize := len_le_size s.ctx.curMsg.hdr.len
  simp only [rxIteration, if_pos hi, hstate]
  rw [if_neg (by omega)]
  by_cases hend : p.missing + 1 ≤ pkt.length - s.i
  · have hchunk : (if s.ctx.curMsg.hdr.len.toNat - s.ctx.offset < pkt.length - s.i
        then s.ctx.curMsg.hdr.len.toNat - s.ctx.offset else pkt.length - s.i) =
        p.missing + 1 := by
      split_ifs <;> omega
    have hslice : (slice pkt s.i (p.missing + 1)).length = p.missing + 1 :=
      slice_length (by omega)
    have hfeed := feeds_finish p (slice pkt s.i (p.missing + 1)) hslice
      (pkt.drop (s.i + (p.missing + 1)))
    rw [slice_append_drop] at hfeed
    rw [hchunk, if_pos (by omega)]
    refine ⟨Or.inl ⟨none, ⟨rfl, rfl⟩, ?_⟩, ?_⟩
    · have hbody : (BleMsg.mk s.ctx.curMsg.hdr (s.ctx.curMsg.payload.blit s.ctx.offset
          (slice pkt s.i (p.missing + 1)))).body =
          p.got ++ slice pkt s.i (p.missing + 1) := by
        have hto : s.ctx.curMsg.hdr.len.toNat =
            s.ctx.offset + (slice pkt s.i (p.missing + 1)).length := by omega
        rw [BleMsg.body, hto, Buffer.take_blit (by omega), hgot]
      have hwire : (BleMsg.mk s.ctx.curMsg.hdr (s.ctx.curMsg.payload.blit s.ctx.offset
          (slice pkt s.i (p.missing + 1)))).wire = p.finish _ hslice := by
        ext1
        · exact hop
        · exact happ
        · exact hbody
      rw [hgoal, hfeed]
      simp [hwire]
    · simp only [RxLoop.measure, hstate]
      simp
      omega
  · have hchunk : (if s.ctx.curMsg.hdr.len.toNat - s.ctx.offset < pkt.length - s.i
        then s.ctx.curMsg.hdr.len.toNat - s.ctx.offset else pkt.length - s.i) =
        pkt.length - s.i := by
      split_ifs <;> omega
    have hslice : (slice pkt s.i (pkt.length - s.i)).length = pkt.length - s.i :=
      slice_length (by omega)
    have hle : (slice pkt s.i (pkt.length - s.i)).length ≤ p.missing := by omega
    have hfeed := feeds_extend p (slice pkt s.i (pkt.length - s.i)) hle
      (pkt.drop (s.i + (pkt.length - s.i)))
    rw [slice_append_drop] at hfeed
    rw [hchunk, if_neg (by omega)]
    refine ⟨Or.inl ⟨some (p.extend _ hle), ⟨rfl, hactive, hop, happ, ?_, ?_, ?_⟩, ?_⟩, ?_⟩
    · simp only [PartialMsg.extend, List.length_append]
      omega
    · simp only [PartialMsg.extend, List.length_append]
      omega
    · have htake := @Buffer.take_blit UInt8 _ s.ctx.curMsg.payload s.ctx.offset
        (slice pkt s.i (pkt.length - s.i)) (by omega)
      rw [hslice, hgot] at htake
      exact htake
    · rw [hgoal, hfeed]
      rfl
    · simp only [RxLoop.measure, hstate]
      simp
      omega

theorem rxIteration_advances {pkt : List UInt8} {goal : Option PartialMsg × List WireMsg}
    {s : RxLoop} (h : s.Inv pkt goal) : s.Advances pkt goal (rxIteration pkt s) := by
  by_cases hi : s.i < pkt.length
  · rcases h with ⟨state, hrep, hgoal⟩ | ⟨hstate, -, hlen, hgoal⟩
    · cases state with
      | none => exact rxIteration_waitMagic hi hrep hgoal
      | some p => exact rxIteration_readPayload hi hrep hgoal
    · exact rxIteration_readHeader hstate hlen hgoal
  · exact rxIteration_end h hi

/-- The loop ends within its fuel and has read the whole body. -/
theorem rxLoop_total {pkt : List UInt8} {goal : Option PartialMsg × List WireMsg} {s : RxLoop}
    (h : s.Inv pkt goal) :
    ∃ r, Loop.loop (rxIteration pkt) (rxFuel pkt) s = some r ∧ r.Done goal := by
  refine Loop.loop_total (RxLoop.Inv pkt goal) (RxLoop.Done goal) (RxLoop.measure pkt)
    (fun s s' hinv hbody => ?_) (fun s r hinv hbody => ?_) h ?_
  · have hadv := rxIteration_advances hinv
    rwa [hbody] at hadv
  · have hadv := rxIteration_advances hinv
    rwa [hbody] at hadv
  · simp only [RxLoop.measure, rxFuel]
    split_ifs <;> omega

/-- One call of the receiver reads the packet as the link format says. -/
theorem bleRetrievePacket_refines {ctx : RxCtx} {state : Option PartialMsg} (pkt : List UInt8)
    (h : ctx.Represents state) :
    (bleRetrievePacket ctx pkt).1.Represents (parsePacket state pkt).1 ∧
      (bleRetrievePacket ctx pkt).2.map BleMsg.wire = (parsePacket state pkt).2 := by
  cases pkt with
  | nil => exact ⟨h, rfl⟩
  | cons msgCont body =>
    have hstart : (RxLoop.mk (rxContinuation ctx msgCont) 1 []).Inv (msgCont :: body)
        (parsePacket state (msgCont :: body)) :=
      Or.inl ⟨_, represents_continuation msgCont h, rfl⟩
    obtain ⟨r, hloop, hrep, hout⟩ := rxLoop_total hstart
    simp only [bleRetrievePacket, hloop, Option.getD_some]
    exact ⟨hrep, hout⟩

/-! ### Runs of the receiver -/

inductive RxEvent
  | packet (pkt : List UInt8)
  | reset
  deriving DecidableEq, Repr

def rxEvent (ctx : RxCtx) : RxEvent → RxCtx × List BleMsg
  | .packet pkt => bleRetrievePacket ctx pkt
  | .reset => (rxResetContext ctx, [])

/-- Packets and context resets in order, with all messages enqueued. -/
def rxRun (ctx : RxCtx) (events : List RxEvent) : RxCtx × List BleMsg :=
  ((Machine.answers rxEvent ctx events).1, (Machine.answers rxEvent ctx events).2.flatten)

def parseEvent (state : Option PartialMsg) : RxEvent → Option PartialMsg × List WireMsg
  | .packet pkt => parsePacket state pkt
  | .reset => (none, [])

def parseRun (state : Option PartialMsg) (events : List RxEvent) :
    Option PartialMsg × List WireMsg :=
  ((Machine.answers parseEvent state events).1,
    (Machine.answers parseEvent state events).2.flatten)

theorem parseRun_cons (state : Option PartialMsg) (event : RxEvent) (rest : List RxEvent) :
    parseRun state (event :: rest) =
      ((parseRun (parseEvent state event).1 rest).1,
        (parseEvent state event).2 ++ (parseRun (parseEvent state event).1 rest).2) := rfl

theorem parseRun_append (state : Option PartialMsg) (first second : List RxEvent) :
    parseRun state (first ++ second) =
      ((parseRun (parseRun state first).1 second).1,
        (parseRun state first).2 ++ (parseRun (parseRun state first).1 second).2) := by
  simp [parseRun, Machine.answers_append]

theorem rxEvent_refines {ctx : RxCtx} {state : Option PartialMsg} (event : RxEvent)
    (h : ctx.Represents state) :
    (rxEvent ctx event).1.Represents (parseEvent state event).1 ∧
      (rxEvent ctx event).2.map BleMsg.wire = (parseEvent state event).2 := by
  cases event with
  | packet pkt => exact bleRetrievePacket_refines pkt h
  | reset => exact ⟨represents_reset ctx, rfl⟩

/-- Every run of the receiver is the same run of the link format's reader. -/
theorem rxRun_refines {ctx : RxCtx} {state : Option PartialMsg} (events : List RxEvent)
    (h : ctx.Represents state) :
    (rxRun ctx events).1.Represents (parseRun state events).1 ∧
      (rxRun ctx events).2.map BleMsg.wire = (parseRun state events).2 := by
  have hevent : ∀ ctx state event, RxCtx.Represents ctx state →
      (rxEvent ctx event).1.Represents (parseEvent state event).1 ∧
        (rxEvent ctx event).2.map BleMsg.wire = (parseEvent state event).2 :=
    fun _ _ event hr => rxEvent_refines event hr
  obtain ⟨hrep, hout⟩ := Machine.answers_simulate (List.map BleMsg.wire) hevent h events
  refine ⟨hrep, ?_⟩
  rw [rxRun, List.map_flatten, hout]
  rfl

/-- Whatever came before, the context holds something the link format knows. -/
theorem rxRun_represents (past : List RxEvent) :
    (rxRun RxCtx.init past).1.Represents (parseRun none past).1 :=
  (rxRun_refines past represents_init).1

end MinimalWatch.Ble
