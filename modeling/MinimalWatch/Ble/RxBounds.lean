import MinimalWatch.Ble.PacketRx

/-! The memory that the receiver touches. `rxAccess` says for a pass of the loop which bytes
of the packet it reads and which cells of the payload it writes, and whether it is the branch
for an offset behind the end of the message. -/

namespace MinimalWatch.Ble
open Firmware Firmware.Memory

/-- The cells from the first index up to the second. -/
structure RxAccess where
  reads : Nat × Nat
  writes : Nat × Nat
  overflow : Bool
  deriving DecidableEq, Repr

def RxAccess.none : RxAccess := ⟨(0, 0), (0, 0), false⟩

/-- The bytes that the pass of `rxIteration` from `s` copies. -/
def rxChunk (pkt : List UInt8) (s : RxLoop) : Nat :=
  let remainingMsg := s.ctx.curMsg.hdr.len.toNat - s.ctx.offset
  let remainingPkt := pkt.length - s.i
  if remainingMsg < remainingPkt then remainingMsg else remainingPkt

def rxAccess (pkt : List UInt8) (s : RxLoop) : RxAccess :=
  if s.i < pkt.length then
    match s.ctx.state with
    | .rxWaitMagic => { RxAccess.none with reads := (s.i, s.i + 1) }
    | .rxReadHeader =>
      if s.i + 3 > pkt.length then .none else { RxAccess.none with reads := (s.i, s.i + 3) }
    | .rxReadPayload =>
      if s.ctx.offset > s.ctx.curMsg.hdr.len.toNat then { RxAccess.none with overflow := true }
      else
        { reads := (s.i, s.i + rxChunk pkt s)
          writes := (s.ctx.offset, s.ctx.offset + rxChunk pkt s)
          overflow := false }
  else .none

/-- Reads are in the packet, writes in the message that the header announces. -/
structure RxAccess.InBounds (a : RxAccess) (len : Nat) (hdrLen : UInt8) : Prop where
  reads : a.reads.2 ≤ len
  writes : a.writes.2 ≤ hdrLen.toNat
  overflow : a.overflow = false

def afterRx (pkt : List UInt8) (s : RxLoop) : RxLoop := (rxIteration pkt s).elim id id

/-- The pass depends on no other byte of the packet, and changes no other cell of the payload. -/
structure RxAccess.Covers (a : RxAccess) (pkt : List UInt8) (s : RxLoop) : Prop where
  reads : ∀ pkt' : List UInt8, pkt'.length = pkt.length →
    (∀ j, a.reads.1 ≤ j → j < a.reads.2 → pkt'[j]? = pkt[j]?) →
    rxIteration pkt' s = rxIteration pkt s
  writes : ∀ k, k < a.writes.1 ∨ a.writes.2 ≤ k →
    (afterRx pkt s).ctx.curMsg.payload.cells[k]? = s.ctx.curMsg.payload.cells[k]?

/-! ### `rxAccess` is what the pass touches -/

theorem slice_congr {pkt pkt' : List UInt8} {i k : Nat}
    (h : ∀ j, i ≤ j → j < i + k → pkt'[j]? = pkt[j]?) : slice pkt' i k = slice pkt i k := by
  apply List.ext_getElem?
  intro j
  simp only [slice, List.getElem?_take, List.getElem?_drop]
  split_ifs with hj
  · exact h _ (by omega) (by omega)
  · rfl

theorem rxIteration_congr {pkt pkt' : List UInt8} {s : RxLoop}
    (hlen : pkt'.length = pkt.length)
    (h : ∀ j, (rxAccess pkt s).reads.1 ≤ j → j < (rxAccess pkt s).reads.2 →
      pkt'[j]? = pkt[j]?) :
    rxIteration pkt' s = rxIteration pkt s := by
  have hbyte : ∀ j, (rxAccess pkt s).reads.1 ≤ j → j < (rxAccess pkt s).reads.2 →
      byteAt pkt' j = byteAt pkt j := by
    intro j hlo hhi
    rw [byteAt, byteAt, List.getD_eq_getElem?_getD, List.getD_eq_getElem?_getD, h j hlo hhi]
  simp only [rxIteration, hlen]
  by_cases hi : s.i < pkt.length
  · simp only [rxAccess, if_pos hi] at h hbyte
    simp only [if_pos hi]
    cases hstate : s.ctx.state with
    | rxWaitMagic =>
      simp only [hstate] at hbyte ⊢
      rw [hbyte s.i (Nat.le_refl _) (Nat.lt_succ_self _)]
    | rxReadHeader =>
      simp only [hstate] at hbyte ⊢
      by_cases hshort : s.i + 3 > pkt.length
      · rw [if_pos hshort, if_pos hshort]
      · rw [if_neg hshort] at hbyte
        simp only at hbyte
        rw [hbyte s.i (by omega) (by omega), hbyte (s.i + 1) (by omega) (by omega),
          hbyte (s.i + 2) (by omega) (by omega)]
    | rxReadPayload =>
      simp only [hstate] at h ⊢
      by_cases hover : s.ctx.offset > s.ctx.curMsg.hdr.len.toNat
      · rw [if_pos hover, if_pos hover]
      · rw [if_neg hover] at h
        have hslice : slice pkt' s.i (rxChunk pkt s) = slice pkt s.i (rxChunk pkt s) :=
          slice_congr h
        rw [rxChunk] at hslice
        rw [hslice]
  · rw [if_neg hi, if_neg hi]

theorem rxChunk_le (pkt : List UInt8) (s : RxLoop) :
    rxChunk pkt s ≤ s.ctx.curMsg.hdr.len.toNat - s.ctx.offset ∧
      rxChunk pkt s ≤ pkt.length - s.i := by
  rw [rxChunk]
  split_ifs <;> omega

theorem afterRx_payload {pkt : List UInt8} {s : RxLoop} {k : Nat}
    (h : k < (rxAccess pkt s).writes.1 ∨ (rxAccess pkt s).writes.2 ≤ k) :
    (afterRx pkt s).ctx.curMsg.payload.cells[k]? = s.ctx.curMsg.payload.cells[k]? := by
  rw [afterRx, rxIteration]
  by_cases hi : s.i < pkt.length
  · rw [rxAccess, if_pos hi] at h
    rw [if_pos hi]
    cases hstate : s.ctx.state with
    | rxWaitMagic =>
      dsimp only
      split_ifs <;> rfl
    | rxReadHeader =>
      dsimp only
      split_ifs <;> rfl
    | rxReadPayload =>
      simp only [hstate] at h ⊢
      by_cases hover : s.ctx.offset > s.ctx.curMsg.hdr.len.toNat
      · rw [if_pos hover]
        rfl
      · rw [if_neg hover] at h ⊢
        have hlen : (slice pkt s.i (rxChunk pkt s)).length = rxChunk pkt s := by
          have hchunk := (rxChunk_le pkt s).2
          exact slice_length (by omega)
        have hblit := @Buffer.getElem?_blit_outside UInt8 _ s.ctx.curMsg.payload s.ctx.offset
          (slice pkt s.i (rxChunk pkt s)) k (by rw [hlen]; exact h)
        rw [rxChunk] at hblit
        split_ifs at hblit ⊢ <;> exact hblit
  · rw [if_neg hi]
    rfl

theorem rxAccess_covers (pkt : List UInt8) (s : RxLoop) : (rxAccess pkt s).Covers pkt s :=
  ⟨fun _ => rxIteration_congr, fun _ => afterRx_payload⟩

/-! ### Bounds -/

/-- The index never passes the end of the packet. -/
theorem afterRx_i_le {pkt : List UInt8} {s : RxLoop} (h : s.i ≤ pkt.length) :
    (afterRx pkt s).i ≤ pkt.length := by
  rw [afterRx, rxIteration]
  by_cases hi : s.i < pkt.length
  · rw [if_pos hi]
    cases s.ctx.state with
    | rxWaitMagic =>
      dsimp only
      split_ifs <;> simp only [Sum.elim_inl, Sum.elim_inr, id_eq] <;> omega
    | rxReadHeader =>
      dsimp only
      split_ifs <;> simp only [Sum.elim_inl, Sum.elim_inr, id_eq] <;> omega
    | rxReadPayload =>
      have hchunk := (rxChunk_le pkt s).2
      rw [rxChunk] at hchunk
      dsimp only at hchunk ⊢
      split_ifs at hchunk ⊢ <;> simp only [Sum.elim_inl, id_eq] <;> omega
  · rw [if_neg hi]
    exact h

theorem rxAccess_inBounds {pkt : List UInt8} {goal : Option PartialMsg × List WireMsg}
    {s : RxLoop} (h : s.Inv pkt goal) :
    (rxAccess pkt s).InBounds pkt.length s.ctx.curMsg.hdr.len := by
  have hchunk := rxChunk_le pkt s
  have hnone : RxAccess.none.InBounds pkt.length s.ctx.curMsg.hdr.len :=
    ⟨Nat.zero_le _, Nat.zero_le _, rfl⟩
  rw [rxAccess]
  by_cases hi : s.i < pkt.length
  · rw [if_pos hi]
    rcases h with ⟨state, hrep, -⟩ | ⟨hstate, -, hlen, -⟩
    · cases state with
      | none =>
        rw [hrep.1]
        exact ⟨hi, Nat.zero_le _, rfl⟩
      | some p =>
        obtain ⟨hstate, -, -, -, hhdr, hoffset, -⟩ := hrep
        rw [hstate]
        simp only
        rw [if_neg (by omega)]
        refine ⟨?_, ?_, rfl⟩ <;> simp only <;> omega
    · rw [hstate]
      simp only
      rw [if_neg (by omega)]
      exact ⟨hlen, Nat.zero_le _, rfl⟩
  · rw [if_neg hi]
    exact hnone

/-- What holds whenever the loop comes round. -/
structure RxLoop.Within (pkt : List UInt8) (s : RxLoop) : Prop where
  inv : ∃ goal, s.Inv pkt goal
  index : s.i ≤ pkt.length

theorem RxLoop.Within.visits {pkt : List UInt8} {s t : RxLoop} (h : s.Within pkt)
    (hvisits : Loop.Visits (rxIteration pkt) s t) : t.Within pkt := by
  refine hvisits.invariant (fun s s' hs hbody => ?_) h
  obtain ⟨goal, hinv⟩ := hs.inv
  have hadv := rxIteration_advances hinv
  have hindex := afterRx_i_le hs.index
  rw [hbody] at hadv
  rw [afterRx, hbody] at hindex
  exact ⟨⟨goal, hadv.1⟩, hindex⟩

/-! ### Between packets -/

/-- Waiting with no message, or inside a payload that is not complete. -/
def RxCtx.Settled (ctx : RxCtx) : Prop :=
  (ctx.state = .rxWaitMagic ∧ ctx.msgActive = false) ∨
    (ctx.state = .rxReadPayload ∧ ctx.msgActive = true ∧
      ctx.offset < ctx.curMsg.hdr.len.toNat)

theorem RxCtx.Represents.settled {ctx : RxCtx} {state : Option PartialMsg}
    (h : ctx.Represents state) : ctx.Settled := by
  cases state with
  | none => exact Or.inl h
  | some p =>
    obtain ⟨hstate, hactive, -, -, hlen, hoffset, -⟩ := h
    exact Or.inr ⟨hstate, hactive, by omega⟩

theorem RxCtx.Settled.not_readHeader {ctx : RxCtx} (h : ctx.Settled) :
    ctx.state ≠ .rxReadHeader := by
  rcases h with ⟨hstate, -⟩ | ⟨hstate, -, -⟩ <;> rw [hstate] <;> decide

/-- The read of the flag byte; an empty packet is not read. -/
def rxFlagRead (pkt : List UInt8) : Option Nat := if pkt.length = 0 then none else some 0

/-- The loop of a call for a packet that is not empty, from its flag byte on. -/
def rxStart (ctx : RxCtx) (pkt : List UInt8) : RxLoop := ⟨rxContinuation ctx (byteAt pkt 0), 1, []⟩

/-- After any packets and resets the context is settled and no header is pending. For any
packet the call then reads inside it and writes inside the message, which a byte bounds, and
nothing else; the overflow branch is not taken, the index stays within the packet, and the
loop ends. -/
theorem rx_in_bounds (past : List RxEvent) (pkt : List UInt8) :
    let ctx := (rxRun .init past).1
    ctx.Settled ∧ ctx.state ≠ .rxReadHeader ∧
    (∀ k, rxFlagRead pkt = some k → k < pkt.length) ∧
    (pkt ≠ [] → ∃ r, Loop.loop (rxIteration pkt) (rxFuel pkt) (rxStart ctx pkt) = some r ∧
      bleRetrievePacket ctx pkt = (r.ctx, r.enqueued)) ∧
    ∀ t, pkt ≠ [] → Loop.Visits (rxIteration pkt) (rxStart ctx pkt) t →
      (rxAccess pkt t).Covers pkt t ∧
      (rxAccess pkt t).InBounds pkt.length t.ctx.curMsg.hdr.len ∧
      t.ctx.curMsg.hdr.len.toNat ≤ 255 ∧ t.i ≤ pkt.length := by
  intro ctx
  have hrep := rxRun_represents past
  have hstart : pkt ≠ [] → ∃ goal, (rxStart ctx pkt).Inv pkt goal := by
    intro _
    exact ⟨_, Or.inl ⟨_, represents_continuation (byteAt pkt 0) hrep, rfl⟩⟩
  refine ⟨hrep.settled, hrep.settled.not_readHeader, fun k hk => ?_, fun hpkt => ?_,
    fun t hpkt hvisits => ?_⟩
  · rw [rxFlagRead] at hk
    split_ifs at hk with hempty
    obtain rfl := Option.some.inj hk
    exact Nat.pos_of_ne_zero hempty
  · obtain ⟨goal, hinv⟩ := hstart hpkt
    obtain ⟨r, hloop, -⟩ := rxLoop_total hinv
    refine ⟨r, hloop, ?_⟩
    cases pkt with
    | nil => exact absurd rfl hpkt
    | cons msgCont body =>
      have hsame : (⟨rxContinuation ctx msgCont, 1, []⟩ : RxLoop) =
          rxStart ctx (msgCont :: body) := rfl
      simp only [bleRetrievePacket, hsame, hloop, Option.getD_some]
  · have hwithin : (rxStart ctx pkt).Within pkt :=
      ⟨hstart hpkt, List.length_pos_iff.mpr hpkt⟩
    obtain ⟨⟨goal, hinv⟩, hindex⟩ := hwithin.visits hvisits
    exact ⟨rxAccess_covers pkt t, rxAccess_inBounds hinv,
      Nat.le_of_lt_succ (UInt8.toNat_lt _), hindex⟩

end MinimalWatch.Ble
