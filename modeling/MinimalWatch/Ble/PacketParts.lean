import MinimalWatch.Ble.Drain
import MinimalWatch.Ble.Sender

/-! What one call of the sender writes and reads. A packet is its flag, a piece of the
payload in progress, whole messages, and at its end perhaps a header with the payload that
fits behind it. `txAccess` says which cells of `tx_buffer` a pass of the loop writes, and
which cells of the payload array its `memcpy` reads. -/

namespace MinimalWatch.Ble
open Firmware

variable {mtu : Nat}

/-! ### The cells that a pass touches -/

/-- The cells from the first index up to the second, and the length of the message. -/
structure TxAccess where
  writes : Nat × Nat
  reads : Nat × Nat
  hdrLen : Nat
  deriving DecidableEq, Repr

def TxAccess.InBounds (effectiveMtu : Nat) (a : TxAccess) : Prop :=
  a.writes.2 ≤ effectiveMtu ∧ a.reads.2 ≤ a.hdrLen

/-- The pass of `txIteration` from `s`; `none` when it leaves the loop before a write. -/
def txAccess (effectiveMtu : Nat) (s : TxLoop) : Option TxAccess :=
  if s.buffer.length < effectiveMtu then
    match txLoad s with
    | none => none
    | some s =>
      let hdrLen := s.ctx.curMsg.hdr.len.toNat
      let remainingMsg := hdrLen - s.ctx.offset
      let remainingPkt := effectiveMtu - s.buffer.length
      if s.ctx.offset = 0 ∧ remainingPkt < 1 + bleHdrSize then none
      else
        let i := if s.ctx.offset = 0 then s.buffer.length + (1 + bleHdrSize) else s.buffer.length
        let remainingPkt := effectiveMtu - i
        let chunk := if remainingMsg < remainingPkt then remainingMsg else remainingPkt
        some ⟨(s.buffer.length, i + chunk), (s.ctx.offset, s.ctx.offset + chunk), hdrLen⟩
  else none

/-- What holds whenever the loop of a call comes round. -/
structure TxLoop.Within (effectiveMtu : Nat) (s : TxLoop) : Prop where
  placed : Placed s.ctx.current
  fits : s.buffer.length ≤ effectiveMtu

theorem afterPass_within_mtu {s : TxLoop} (h : s.Within mtu) : (afterPass mtu s).Within mtu := by
  cases afterPass_move mtu s with
  | rest hsame => rwa [hsame]
  | wait _ hcur _ hbuffer =>
    refine ⟨?_, by rw [hbuffer]; exact h.fits⟩
    rw [hcur]
    exact placed_some (Or.inl rfl)
  | @send w k _ _ hroom hcur _ hbuffer =>
    refine ⟨by rw [hcur]; exact txAfter_placed _ w k, ?_⟩
    have hchunk : txChunk mtu s.buffer.length w k ≤
        mtu - (s.buffer.length + (txHeader w k).length) := Nat.min_le_right _ _
    rw [hbuffer, List.length_append, txSent_length]
    omega

theorem within_visits {s t : TxLoop} (h : s.Within mtu)
    (hvisits : Loop.Visits (txIteration mtu) s t) : t.Within mtu := by
  refine hvisits.invariant (fun s s' hs hbody => ?_) h
  have hafter := afterPass_within_mtu hs
  rwa [afterPass, hbody] at hafter

/-- With a message loaded its offset is within the payload. -/
theorem txLoad_within {s s' : TxLoop} (h : s.Within mtu) (hload : txLoad s = some s') :
    s'.buffer = s.buffer ∧ s'.ctx.offset ≤ s'.ctx.curMsg.hdr.len.toNat := by
  match hcur : s.ctx.current, hqueue : s.fifos.held .tx with
  | some (w, k), _ =>
    obtain ⟨-, hw, hoffset⟩ := TxCtx.current_some hcur
    have hplaced := h.placed w k hcur
    have hlen : w.payload.length = s.ctx.curMsg.hdr.len.toNat := by
      rw [← hw, BleMsg.wire_payload, BleMsg.body_length]
    rw [txLoad_active hcur] at hload
    obtain rfl := Option.some.inj hload
    exact ⟨rfl, by omega⟩
  | none, [] =>
    rw [txLoad_empty hcur hqueue] at hload
    cases hload
  | none, w :: rest =>
    obtain ⟨s'', hload', hcur', -, hbuffer⟩ := txLoad_next hcur hqueue
    obtain ⟨-, -, hoffset⟩ := TxCtx.current_some hcur'
    rw [hload'] at hload
    obtain rfl := Option.some.inj hload
    exact ⟨hbuffer, by omega⟩

theorem elim_leave {σ : Type*} (p : Prop) [Decidable p] (s : σ) :
    Sum.elim id id (if p then .inr s else .inl s) = s := by
  split_ifs <;> rfl

/-- A pass writes from the end of the packet up to its new end, and advances the offset
over what it reads. -/
theorem txAccess_afterPass {s : TxLoop} {a : TxAccess} (h : s.Within mtu)
    (haccess : txAccess mtu s = some a) :
    a.InBounds mtu ∧ a.writes = (s.buffer.length, (afterPass mtu s).buffer.length) ∧
      a.reads.2 = (afterPass mtu s).ctx.offset := by
  have hsize : 1 + bleHdrSize = 4 := rfl
  rw [txAccess] at haccess
  split_ifs at haccess with hpos
  rw [afterPass, txIteration, if_pos hpos]
  cases hload : txLoad s with
  | none =>
    rw [hload] at haccess
    cases haccess
  | some s' =>
    obtain ⟨hbuffer, hoffset⟩ := txLoad_within h hload
    have hlen := len_le_size s'.ctx.curMsg.hdr.len
    rw [hload] at haccess
    simp only [hbuffer, hsize] at haccess
    by_cases hroom : s'.ctx.offset = 0 ∧ mtu - s.buffer.length < 4
    · rw [if_pos hroom] at haccess
      cases haccess
    rw [if_neg hroom] at haccess
    obtain rfl := Option.some.inj haccess
    have hheader : (if s'.ctx.offset = 0 then s.buffer ++ s'.ctx.curMsg.hdr.bytes
        else s.buffer).length =
        if s'.ctx.offset = 0 then s.buffer.length + 4 else s.buffer.length := by
      split_ifs
      · rw [List.length_append, BleMsgHdr.bytes_length]
      · rfl
    simp only [txWrite, hbuffer, hsize, if_neg hroom, elim_leave, List.length_append, hheader]
    refine ⟨⟨?_, ?_⟩, ?_, trivial⟩
    · change (if s'.ctx.offset = 0 then s.buffer.length + 4 else s.buffer.length) + _ ≤ mtu
      split_ifs <;> omega
    · change s'.ctx.offset + _ ≤ s'.ctx.curMsg.hdr.len.toNat
      split_ifs <;> omega
    · rw [Memory.slice_length]
      rw [s'.ctx.curMsg.payload.length_eq]
      split_ifs <;> omega

/-- A pass that leaves before a write. -/
theorem txAccess_none {s : TxLoop} (haccess : txAccess mtu s = none) :
    (afterPass mtu s).buffer = s.buffer := by
  rw [txAccess] at haccess
  rw [afterPass, txIteration]
  by_cases hpos : s.buffer.length < mtu
  · rw [if_pos hpos] at haccess ⊢
    cases hload : txLoad s with
    | none => rfl
    | some s' =>
      have hbuffer : s'.buffer = s.buffer := by
        rw [txLoad] at hload
        split at hload
        · obtain rfl := Option.some.inj hload
          rfl
        · split at hload
          · obtain rfl := Option.some.inj hload
            rfl
          · cases hload
      rw [hload] at haccess
      by_cases hroom : s'.ctx.offset = 0 ∧ mtu - s'.buffer.length < 1 + bleHdrSize
      · simp only [txWrite, if_pos hroom]
        exact hbuffer
      · simp only [if_neg hroom] at haccess
        cases haccess
  · rw [if_neg hpos]
    rfl

/-- A pass writes to the packet below the MTU and reads within its message, or it leaves the
packet as it is. -/
structure PassInBounds (effectiveMtu : Nat) (s : TxLoop) : Prop where
  written : ∀ a, txAccess effectiveMtu s = some a → a.InBounds effectiveMtu ∧
    a.writes = (s.buffer.length, (afterPass effectiveMtu s).buffer.length) ∧
    a.reads.2 = (afterPass effectiveMtu s).ctx.offset
  left : txAccess effectiveMtu s = none → (afterPass effectiveMtu s).buffer = s.buffer

theorem passInBounds {s : TxLoop} (h : s.Within mtu) : PassInBounds mtu s :=
  ⟨fun _ => txAccess_afterPass h, txAccess_none⟩

/-! ### The parts of a packet -/

structure PacketParts where
  /-- Of the payload in progress. -/
  piece : List UInt8
  whole : List WireMsg
  /-- The message at the end, with the number of its payload bytes that fit. -/
  opened : Option (WireMsg × Nat)
  deriving DecidableEq, Repr

def PacketParts.bytes (p : PacketParts) : List UInt8 :=
  p.piece ++ (encodeAll p.whole ++
    p.opened.elim [] fun o => o.1.hdr.bytes ++ o.1.payload.take o.2)

/-- The messages whose header is in the packet. -/
def PacketParts.started (p : PacketParts) : List WireMsg :=
  p.whole ++ p.opened.elim [] fun o => [o.1]

/-- The messages whose header has still to be sent, as the sender sees it. -/
def unstarted : TxCurrent → List WireMsg → List WireMsg
  | none, queue => queue
  | some (w, 0), queue => w :: queue
  | some (_, _ + 1), queue => queue

/-- The parts belong to what the sender has to send, in its order. -/
structure PacketParts.Of (cur : TxCurrent) (queue : List WireMsg) (p : PacketParts) :
    Prop where
  piece : p.piece = [] ∨ ∃ w k, cur = some (w, k) ∧ 0 < k ∧ p.piece <+: w.payload.drop k
  order : p.started <+: unstarted cur queue
  /-- Nothing stands behind a piece that is not the rest of its payload. -/
  behind : p.started ≠ [] → ∀ w k, cur = some (w, k) → 0 < k → p.piece = w.payload.drop k
  proper : ∀ w n, p.opened = some (w, n) → n < w.payload.length

/-- Messages put into a packet that is filled up to `pos`. -/
def startedParts (effectiveMtu : Nat) : List WireMsg → Nat → PacketParts
  | [], _ => ⟨[], [], none⟩
  | w :: rest, pos =>
    if NoRoom effectiveMtu pos 0 then ⟨[], [], none⟩
    else if txAfter effectiveMtu pos w 0 = none then
      let more := startedParts effectiveMtu rest (pos + w.encode.length)
      { more with whole := w :: more.whole }
    else ⟨[], [], some (w, txChunk effectiveMtu pos w 0)⟩

/-- The parts of the next packet. -/
def nextParts (effectiveMtu : Nat) : TxCurrent → List WireMsg → PacketParts
  | none, queue => startedParts effectiveMtu queue 1
  | some (w, 0), queue => startedParts effectiveMtu (w :: queue) 1
  | some (w, k + 1), queue =>
    let sent := txSent effectiveMtu 1 w (k + 1)
    { startedParts effectiveMtu queue (1 + sent.length) with piece := sent }

theorem startedParts_noRoom {ws : List WireMsg} {pos : Nat} (h : NoRoom mtu pos 0) :
    startedParts mtu ws pos = ⟨[], [], none⟩ := by
  cases ws with
  | nil => rfl
  | cons w rest => rw [startedParts, if_pos h]

theorem noRoom_full {pos : Nat} (k : Nat) (h : mtu ≤ pos) : NoRoom mtu pos k := Or.inl h

/-- A write that finishes the message from its header on has all of it. -/
theorem txSent_whole {pos : Nat} {w : WireMsg} (h : txAfter mtu pos w 0 = none) :
    txSent mtu pos w 0 = w.encode := by
  have hall : w.payload.length ≤ 0 + txChunk mtu pos w 0 := by
    rw [txAfter] at h
    split_ifs at h with hall
    exact hall
  rw [txSent, txHeader, if_pos rfl, List.drop_zero, List.take_of_length_le (by omega)]
  rfl

theorem txSent_opened (pos : Nat) (w : WireMsg) :
    txSent mtu pos w 0 = w.hdr.bytes ++ w.payload.take (txChunk mtu pos w 0) := by
  rw [txSent, txHeader, if_pos rfl, List.drop_zero]

theorem txAfter_some {pos : Nat} {w : WireMsg} {k : Nat} (h : txAfter mtu pos w k ≠ none) :
    k + txChunk mtu pos w k < w.payload.length ∧
      txAfter mtu pos w k = some (w, k + txChunk mtu pos w k) := by
  rw [txAfter] at h ⊢
  split_ifs at h ⊢ with hall
  · exact absurd rfl h
  · exact ⟨Nat.lt_of_not_le hall, rfl⟩

theorem startedParts_piece (ws : List WireMsg) (pos : Nat) :
    (startedParts mtu ws pos).piece = [] := by
  induction ws generalizing pos with
  | nil => rfl
  | cons w rest ih =>
    rw [startedParts]
    split_ifs
    · rfl
    · exact ih _
    · rfl

theorem startedParts_order (ws : List WireMsg) (pos : Nat) :
    (startedParts mtu ws pos).started <+: ws := by
  induction ws generalizing pos with
  | nil => exact List.prefix_rfl
  | cons w rest ih =>
    rw [startedParts]
    split_ifs
    · exact List.nil_prefix
    · exact List.cons_prefix_cons.mpr ⟨rfl, ih _⟩
    · exact List.cons_prefix_cons.mpr ⟨rfl, List.nil_prefix⟩

theorem startedParts_proper {ws : List WireMsg} {pos : Nat} {w : WireMsg} {n : Nat}
    (h : (startedParts mtu ws pos).opened = some (w, n)) : n < w.payload.length := by
  induction ws generalizing pos with
  | nil => cases h
  | cons v rest ih =>
    rw [startedParts] at h
    split_ifs at h with hroom hdone
    · exact ih h
    · obtain ⟨hlt, -⟩ := txAfter_some hdone
      obtain ⟨rfl, rfl⟩ := Prod.mk.inj (Option.some.inj h)
      omega

/-- What `fillPacket` leaves in progress, with payload sent, is the opened message. -/
def OpenedBy (cur : TxCurrent) (p : PacketParts) : Prop :=
  ∀ w k, cur = some (w, k) → 0 < k → p.opened = some (w, k)

/-- A write from the header on that ends the packet. -/
theorem txSent_started {rest : List WireMsg} {pos : Nat} {w : WireMsg} (hroom : ¬ NoRoom mtu pos 0)
    (hend : mtu ≤ pos + (txSent mtu pos w 0).length ∨ rest = []) :
    txSent mtu pos w 0 = (startedParts mtu (w :: rest) pos).bytes ∧
      OpenedBy (txAfter mtu pos w 0) (startedParts mtu (w :: rest) pos) := by
  rw [startedParts, if_neg hroom]
  by_cases hdone : txAfter mtu pos w 0 = none
  · have hall := txSent_whole hdone
    have hmore : startedParts mtu rest (pos + w.encode.length) = ⟨[], [], none⟩ := by
      rcases hend with hfull | rfl
      · exact startedParts_noRoom (noRoom_full 0 (by rwa [← hall]))
      · rfl
    rw [if_pos hdone, hmore, hall]
    refine ⟨by simp [PacketParts.bytes, encodeAll], fun v j h => ?_⟩
    rw [hdone] at h
    cases h
  · obtain ⟨hlt, hafter⟩ := txAfter_some hdone
    rw [if_neg hdone, txSent_opened]
    refine ⟨rfl, fun v j h _ => ?_⟩
    rw [hafter, Nat.zero_add] at h
    exact h

theorem fillPacket_started (queue : List WireMsg) (pos : Nat) (w : WireMsg) :
    (fillPacket mtu queue pos w 0).body = (startedParts mtu (w :: queue) pos).bytes ∧
      OpenedBy (fillPacket mtu queue pos w 0).current (startedParts mtu (w :: queue) pos) := by
  have hwait : ∀ (p : PacketParts) (w : WireMsg), OpenedBy (some (w, 0)) p := by
    intro p w v j h hj
    obtain ⟨-, rfl⟩ := Prod.mk.inj (Option.some.inj h)
    omega
  induction queue generalizing pos w with
  | nil =>
    by_cases hroom : NoRoom mtu pos 0
    · rw [fillPacket_noRoom hroom, startedParts_noRoom hroom]
      exact ⟨rfl, hwait _ w⟩
    · rw [fillPacket_last hroom]
      exact txSent_started hroom (Or.inr rfl)
  | cons next rest ih =>
    by_cases hroom : NoRoom mtu pos 0
    · rw [fillPacket_noRoom hroom, startedParts_noRoom hroom]
      exact ⟨rfl, hwait _ w⟩
    by_cases hmore : pos + (txSent mtu pos w 0).length < mtu
    · obtain ⟨-, hnone⟩ := txAfter_none hmore
      have hall := txSent_whole hnone
      obtain ⟨hbody, hopened⟩ := ih (pos + (txSent mtu pos w 0).length) next
      have hpiece := @startedParts_piece mtu (next :: rest) (pos + (txSent mtu pos w 0).length)
      rw [fillPacket_next hroom hmore, startedParts, if_neg hroom, if_pos hnone]
      rw [hall] at hbody hopened hpiece ⊢
      refine ⟨?_, hopened⟩
      simp only [hbody, PacketParts.bytes, hpiece, encodeAll_cons, List.nil_append,
        List.append_assoc]
    · rw [fillPacket_full hroom (by omega)]
      exact txSent_started hroom (Or.inl (by omega))

/-- A packet that goes on with a payload: its piece, then what is started behind it. -/
theorem fillPacket_piece (queue : List WireMsg) {w : WireMsg} {k : Nat} (hmtu : 1 < mtu)
    (hk : 0 < k) :
    (fillPacket mtu queue 1 w k).body = txSent mtu 1 w k ++
        (startedParts mtu queue (1 + (txSent mtu 1 w k).length)).bytes ∧
      (OpenedBy (fillPacket mtu queue 1 w k).current
          (startedParts mtu queue (1 + (txSent mtu 1 w k).length)) ∨
        (startedParts mtu queue (1 + (txSent mtu 1 w k).length)).started = [] ∧
          ∀ v j, (fillPacket mtu queue 1 w k).current = some (v, j) → v = w) := by
  have hroom : ¬ NoRoom mtu 1 k := by
    rw [NoRoom]
    omega
  have hafter : ∀ v j, txAfter mtu 1 w k = some (v, j) → v = w := by
    intro v j h
    rw [txAfter] at h
    split_ifs at h
    exact (Prod.mk.inj (Option.some.inj h)).1.symm
  cases queue with
  | nil =>
    rw [fillPacket_last hroom]
    exact ⟨(List.append_nil _).symm, Or.inr ⟨rfl, hafter⟩⟩
  | cons next rest =>
    by_cases hmore : 1 + (txSent mtu 1 w k).length < mtu
    · obtain ⟨hbody, hopened⟩ :=
        @fillPacket_started mtu rest (1 + (txSent mtu 1 w k).length) next
      rw [fillPacket_next hroom hmore]
      exact ⟨congrArg (txSent mtu 1 w k ++ ·) hbody, Or.inl hopened⟩
    · rw [fillPacket_full hroom (by omega),
        startedParts_noRoom (noRoom_full 0 (Nat.le_of_not_lt hmore))]
      exact ⟨(List.append_nil _).symm, Or.inr ⟨rfl, hafter⟩⟩

theorem nextPacket_body (cur : TxCurrent) (queue : List WireMsg) (hmtu : 1 < mtu) :
    (nextPacket mtu cur queue).body = (nextParts mtu cur queue).bytes := by
  match cur, queue with
  | some (w, 0), queue => exact (fillPacket_started queue 1 w).1
  | some (w, k + 1), queue =>
    have hpiece := @startedParts_piece mtu queue (1 + (txSent mtu 1 w (k + 1)).length)
    rw [nextPacket, (fillPacket_piece queue hmtu (Nat.succ_pos k)).1]
    simp only [nextParts, PacketParts.bytes, hpiece, List.nil_append]
  | none, w :: rest => exact (fillPacket_started rest 1 w).1
  | none, [] => rfl

theorem nextParts_of (cur : TxCurrent) (queue : List WireMsg) :
    (nextParts mtu cur queue).Of cur queue := by
  have hnew : ∀ (cur : TxCurrent) (ws : List WireMsg), unstarted cur queue = ws →
      (∀ w k, cur = some (w, k) → k = 0) → (startedParts mtu ws 1).Of cur queue := by
    intro cur ws hws hcur
    refine ⟨Or.inl (startedParts_piece ws 1), ?_, fun _ w k h hk => ?_, fun w n h => ?_⟩
    · rw [hws]
      exact startedParts_order ws 1
    · have hzero := hcur w k h
      omega
    · exact startedParts_proper h
  match cur with
  | none => exact hnew none queue rfl fun _ _ h => by cases h
  | some (w, 0) =>
    refine hnew _ _ rfl fun v k h => ?_
    exact (Prod.mk.inj (Option.some.inj h)).2.symm
  | some (w, k + 1) =>
    have hhdr : txHeader w (k + 1) = [] := by rw [txHeader, if_neg (Nat.succ_ne_zero k)]
    have hsent : txSent mtu 1 w (k + 1) =
        (w.payload.drop (k + 1)).take (txChunk mtu 1 w (k + 1)) := by
      rw [txSent, hhdr, List.nil_append]
    refine ⟨Or.inr ⟨w, k + 1, rfl, Nat.succ_pos k, ?_⟩, ?_, fun hstarted v j h _ => ?_,
      fun v n h => startedParts_proper h⟩
    · simp only [nextParts, hsent]
      exact List.take_prefix _ _
    · exact startedParts_order queue _
    · obtain ⟨rfl, rfl⟩ := Prod.mk.inj (Option.some.inj h)
      -- behind the piece there is room only when it is the rest of the payload
      by_cases hfull : mtu ≤ 1 + (txSent mtu 1 w (k + 1)).length
      · refine absurd ?_ hstarted
        have hnothing := @startedParts_noRoom mtu queue _ (noRoom_full 0 hfull)
        simp only [nextParts, PacketParts.started, hnothing]
        rfl
      · obtain ⟨hall, -⟩ := @txAfter_none mtu 1 w (k + 1) (by omega)
        simp only [nextParts, hsent]
        rw [List.take_of_length_le]
        rw [List.length_drop]
        omega

/-! ### The call -/

theorem fillPacket_length (queue : List WireMsg) {pos : Nat} (w : WireMsg) (k : Nat)
    (hpos : pos ≤ mtu) : pos + (fillPacket mtu queue pos w k).body.length ≤ mtu := by
  have hwrite : ∀ pos w k, ¬ NoRoom mtu pos k → pos + (txSent mtu pos w k).length ≤ mtu := by
    intro pos w k hroom
    have hhdr := txHeader_length w k
    have hchunk : txChunk mtu pos w k ≤ mtu - (pos + (txHeader w k).length) :=
      Nat.min_le_right _ _
    rw [NoRoom] at hroom
    rw [txSent_length]
    split_ifs at hhdr <;> omega
  induction queue generalizing pos w k with
  | nil =>
    by_cases hroom : NoRoom mtu pos k
    · rw [fillPacket_noRoom hroom]
      exact hpos
    · rw [fillPacket_last hroom]
      exact hwrite pos w k hroom
  | cons next rest ih =>
    by_cases hroom : NoRoom mtu pos k
    · rw [fillPacket_noRoom hroom]
      exact hpos
    by_cases hmore : pos + (txSent mtu pos w k).length < mtu
    · have hrest := ih next 0 (Nat.le_of_lt hmore)
      rw [fillPacket_next hroom hmore]
      simp only [List.length_append]
      omega
    · rw [fillPacket_full hroom (by omega)]
      exact hwrite pos w k hroom

theorem nextPacket_length (cur : TxCurrent) (queue : List WireMsg) (hmtu : 1 ≤ mtu) :
    1 + (nextPacket mtu cur queue).body.length ≤ mtu := by
  match cur, queue with
  | some (w, k), queue => exact fillPacket_length queue w k hmtu
  | none, w :: rest => exact fillPacket_length rest w 0 hmtu
  | none, [] => exact hmtu

theorem nextParts_short (cur : TxCurrent) (queue : List WireMsg) (hmtu : mtu ≤ 1) :
    (nextParts mtu cur queue).bytes = [] := by
  have hnew : ∀ ws pos, 1 ≤ pos → (startedParts mtu ws pos).bytes = [] := by
    intro ws pos hpos
    rw [startedParts_noRoom (noRoom_full 0 (by omega))]
    rfl
  match cur with
  | none => exact hnew queue 1 (Nat.le_refl 1)
  | some (w, 0) => exact hnew (w :: queue) 1 (Nat.le_refl 1)
  | some (w, k + 1) =>
    have hchunk : txChunk mtu 1 w (k + 1) = 0 := by
      have hle : txChunk mtu 1 w (k + 1) ≤ mtu - (1 + (txHeader w (k + 1)).length) :=
        Nat.min_le_right _ _
      omega
    have hsent : txSent mtu 1 w (k + 1) = [] := by
      rw [txSent, txHeader, if_neg (Nat.succ_ne_zero k), hchunk, List.take_zero]
      rfl
    have hmore := hnew queue 1 (Nat.le_refl 1)
    rw [PacketParts.bytes] at hmore ⊢
    simp only [nextParts, hsent, List.length_nil, Nat.add_zero, List.nil_append]
    exact (List.append_eq_nil_iff.mp hmore).2

/-- A call in any state that the sender gets into, with any messages in the FIFO. Every
pass writes below the MTU and reads below the length of its message, `out_len` is within
the MTU, and the packet is a flag and the parts in their order. -/
theorem packet_shape (actions : List TxAction) {s : TxState}
    (hrun : Machine.run txStep .init actions = some s) (fifos : BleFifos)
    {effectiveMtu : Nat} (hmtu : 1 ≤ effectiveMtu) :
    let start : TxLoop := ⟨s.ctx, fifos, [txFlag s.ctx.current]⟩
    let call := bleBuildNextPacket s.ctx fifos effectiveMtu (some 0)
    Loop.loop (txIteration effectiveMtu) (txFuel effectiveMtu) start = some call.1 ∧
      (∀ t, Loop.Visits (txIteration effectiveMtu) start t → PassInBounds effectiveMtu t) ∧
      (∃ outLen, call.2.1 = some outLen ∧ outLen ≤ effectiveMtu ∧
        outLen = call.1.buffer.length) ∧
      ∃ parts : PacketParts, parts.Of s.ctx.current (fifos.held .tx) ∧
        call.1.buffer = txFlag s.ctx.current :: parts.bytes := by
  intro start call
  have hplaced := run_placed hrun
  have hparts := @nextParts_of effectiveMtu s.ctx.current (fifos.held .tx)
  have hstart : start.Within effectiveMtu := ⟨hplaced, hmtu⟩
  have hbounds : ∀ t, Loop.Visits (txIteration effectiveMtu) start t →
      PassInBounds effectiveMtu t := fun t hvisits => passInBounds (within_visits hstart hvisits)
  by_cases hroom : 1 < effectiveMtu
  · obtain ⟨final, hloop, hcall, hbuffer, -, -⟩ := bleBuildNextPacket_fill fifos hroom hplaced
    have hlen := @nextPacket_length effectiveMtu s.ctx.current (fifos.held .tx) hmtu
    have hsize : final.buffer.length ≤ effectiveMtu := by
      rw [hbuffer, List.length_cons]
      omega
    simp only [call, hcall]
    refine ⟨hloop, hbounds, ⟨_, rfl, hsize, rfl⟩, _, hparts, ?_⟩
    rw [hbuffer, nextPacket_body _ _ hroom]
  · obtain ⟨hloop, hcall⟩ := bleBuildNextPacket_short s.ctx fifos (Nat.le_of_not_lt hroom)
    simp only [call, hcall]
    refine ⟨hloop, hbounds, ⟨_, rfl, hmtu, rfl⟩, _, hparts, ?_⟩
    rw [nextParts_short _ _ (Nat.le_of_not_lt hroom)]

/-- The rest of a payload, a whole message, and a header with half of its payload. -/
theorem packet_shape_mixed :
    let long := WireMsg.msg ⟨1, 2, List.replicate 30 9, by decide⟩
    let fifos := queueMsgs .init [WireMsg.msg ⟨3, 4, [7], by decide⟩,
      WireMsg.msg ⟨5, 6, List.replicate 10 8, by decide⟩]
    ∃ (s : TxState) (parts : PacketParts),
      Machine.run txStep .init [.queue long, .build 20] = some s ∧
      parts.Of s.ctx.current (fifos.held .tx) ∧
      (bleBuildNextPacket s.ctx fifos 30 (some 0)).1.buffer =
        txFlag s.ctx.current :: parts.bytes ∧
      (bleBuildNextPacket s.ctx fifos 30 (some 0)).1.buffer =
        1 :: (List.replicate 15 9 ++ [0xA5, 3, 4, 1, 7, 0xA5, 5, 6, 10] ++
          List.replicate 5 8) := by
  intro long fifos
  have hrun : (Machine.run txStep .init [.queue long, .build 20]).map
      (fun s => (bleBuildNextPacket s.ctx fifos 30 (some 0)).1.buffer) =
        some (1 :: (List.replicate 15 9 ++ [0xA5, 3, 4, 1, 7, 0xA5, 5, 6, 10] ++
          List.replicate 5 8)) := by
    decide +kernel
  obtain ⟨s, hs, hpacket⟩ := Option.map_eq_some_iff.mp hrun
  obtain ⟨-, -, -, parts, hof, hbytes⟩ :=
    @packet_shape [.queue long, .build 20] s hs fifos 30 (by decide)
  exact ⟨s, parts, hs, hof, hbytes, hpacket⟩

end MinimalWatch.Ble
