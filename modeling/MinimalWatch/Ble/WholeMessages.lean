import MinimalWatch.Ble.Drain
import MinimalWatch.Ble.PacketRx

/-! Messages of one length on a link whose packets hold a whole number of them, but for
less than a header. The requests of the watch have the lengths 0 and 4. No message is cut
then: a packet loses nothing but the messages in it, and the phone reads the others,
whatever the callbacks do between the passes. -/

namespace MinimalWatch.Ble
open Firmware

/-! ### The dispatch book -/

structure Dispatch where
  accepted : List WireMsg
  /-- The messages that left the FIFO: `true` for those that the sender took, `false` for
  those that were evicted. -/
  left : List (WireMsg × Bool)
  /-- The messages written into the packet in `tx_buffer`. -/
  inHand : List WireMsg
  /-- The messages of each packet that is done with; `true` if its notify succeeded. -/
  packets : List (List WireMsg × Bool)
  /-- What the phone's parser gets: the notified packets, and a reset with each link. -/
  heard : List RxEvent

/-- The message that an action brings. -/
def DrainAction.added : DrainAction → List WireMsg
  | .addMsg msg => [msg.wire]
  | _ => []

namespace Dispatch

def init : Dispatch := ⟨[], [], [], [], []⟩

def leave (d : Dispatch) (ws : List WireMsg) (taken : Bool) : Dispatch :=
  { d with left := d.left ++ ws.map fun w => (w, taken) }

/-- The packet in `tx_buffer` is done with. -/
def close (d : Dispatch) (ok : Bool) : Dispatch :=
  { d with packets := d.packets ++ [(d.inHand, ok)], inHand := [] }

/-- A pass with what it took from the FIFO and what it wrote. -/
def afterPass (d : Dispatch) (before after : TxLoop) : Dispatch :=
  let held := before.fifos.held .tx
  let d := if (after.fifos.held .tx).length < held.length then d.leave (held.take 1) true else d
  if before.buffer.length < after.buffer.length then
    { d with inHand := d.inHand ++ before.ctx.current.elim (held.take 1) fun p => [p.1] }
  else d

def next (s : Drain) (action : DrainAction) (_ : Drain) (d : Dispatch) : Dispatch :=
  match action, s.pc with
  | .connected _ _, _ => { d with heard := d.heard ++ [.reset] }
  | .disconnected _ _, _ => { d with heard := d.heard ++ [.reset] }
  | .addMsg msg, _ =>
    let held := s.fifos.held .tx
    { d.leave (if held.length = bleFifoCapacity then held.take 1 else []) false with
      accepted := d.accepted ++ [msg.wire] }
  | .pass, .building effectiveMtu buffer =>
    d.afterPass ⟨s.ctx, s.fifos, buffer⟩ (Ble.afterPass effectiveMtu ⟨s.ctx, s.fifos, buffer⟩)
  | .testLink, _ => if s.manager.linkUp then d else d.close false
  | .notify err, .notifying packet =>
    if err = 0 then { d.close true with heard := d.heard ++ [.packet packet] }
    else d.close false
  | _, _ => d

/-- An arrival enters the book, and nothing else does. -/
theorem next_accepted (s s' : Drain) (action : DrainAction) (d : Dispatch) :
    (next s action s' d).accepted = d.accepted ++ action.added := by
  cases action with
  | addMsg msg => rfl
  | pass =>
    cases hpc : s.pc with
    | building effectiveMtu buffer =>
      simp only [next, hpc, afterPass, DrainAction.added, List.append_nil]
      split_ifs <;> rfl
    | _ => simp only [next, hpc, DrainAction.added, List.append_nil]
  | testLink =>
    simp only [next, DrainAction.added, List.append_nil]
    split_ifs <;> rfl
  | notify err =>
    cases hpc : s.pc with
    | notifying packet =>
      simp only [next, hpc, DrainAction.added, List.append_nil]
      split_ifs <;> rfl
    | _ => simp only [next, hpc, DrainAction.added, List.append_nil]
  | _ => exact (List.append_nil _).symm

def taken (d : Dispatch) : List WireMsg := (d.left.filter Prod.snd).map Prod.fst

def delivered (d : Dispatch) : List WireMsg := (d.packets.filter Prod.snd).flatMap Prod.fst

end Dispatch

abbrev dispatchStep : Drain × Dispatch → DrainAction → Option (Drain × Dispatch) :=
  Machine.recording drainStep Dispatch.next

def dispatchInit : Drain × Dispatch := (.init, .init)

/-- The message that was taken and has not been put into a packet. -/
def TxCurrent.msgs (cur : TxCurrent) : List WireMsg := cur.toList.map Prod.fst

/-- Every accepted message is on the FIFO or left it once; those taken are in one packet
each, in their order, or in progress; and the phone reads those of the packets whose notify
succeeded, and nothing else. -/
structure DeliversWhole (s : Drain × Dispatch) : Prop where
  accepted : s.2.accepted = s.2.left.map Prod.fst ++ s.1.fifos.held .tx
  taken : s.2.taken = s.2.packets.flatMap Prod.fst ++ s.2.inHand ++ s.1.ctx.current.msgs
  read : ∀ rx, (rxRun (rxResetContext rx) s.2.heard).2.map BleMsg.wire = s.2.delivered

/-- Behind the flag there is room for a whole number of messages with `n` payload bytes and
less than a header. -/
def Divides (n effectiveMtu : Nat) : Prop := (effectiveMtu - 1) % (n + 4) < 4

instance (n effectiveMtu : Nat) : Decidable (Divides n effectiveMtu) :=
  inferInstanceAs (Decidable (_ < _))

/-- The messages have `n` payload bytes, and the MTUs are such. -/
def DrainAction.Uniform (n : Nat) : DrainAction → Prop
  | .addMsg msg => msg.hdr.len.toNat = n
  | .mtuUpdated _ gattMtu => Divides n (gattMtu - 3)
  | _ => True

instance (n : Nat) (action : DrainAction) : Decidable (action.Uniform n) :=
  match action with
  | .addMsg msg => inferInstanceAs (Decidable (msg.hdr.len.toNat = n))
  | .mtuUpdated _ gattMtu => inferInstanceAs (Decidable (Divides n (gattMtu - 3)))
  | .connected _ _ => .isTrue trivial
  | .disconnected _ _ => .isTrue trivial
  | .cccCfgChanged _ => .isTrue trivial
  | .populate => .isTrue trivial
  | .pass => .isTrue trivial
  | .testLink => .isTrue trivial
  | .notify _ => .isTrue trivial

/-! ### The messages of a packet -/

@[simp] theorem encodeAll_append (xs ys : List WireMsg) :
    encodeAll (xs ++ ys) = encodeAll xs ++ encodeAll ys := List.flatMap_append

theorem feeds_encodeAll (ws : List WireMsg) : Feeds none (encodeAll ws) none ws := by
  induction ws with
  | nil => exact .refl none
  | cons w ws ih => exact (feeds_encode w).trans ih

/-- A reader that waits for a header reads a packet of whole messages with either flag. -/
theorem parsePacket_whole (flag : UInt8) (ws : List WireMsg) :
    parsePacket none (flag :: encodeAll ws) = (none, ws) := by
  rw [parsePacket, ite_self]
  exact (feeds_encodeAll ws).parse_eq

theorem encodeAll_length {n : Nat} {ws : List WireMsg} (h : ∀ w ∈ ws, w.payload.length = n) :
    (encodeAll ws).length = (n + 4) * ws.length := by
  induction ws with
  | nil => rfl
  | cons w ws ih =>
    obtain ⟨hw, hws⟩ := List.forall_mem_cons.mp h
    rw [encodeAll_cons, List.length_append, WireMsg.encode_length, hw, ih hws, List.length_cons,
      Nat.mul_succ]
    omega

/-- Room for a header behind whole messages is room for the message. -/
theorem room_of_divides {n effectiveMtu q : Nat} (hdiv : Divides n effectiveMtu)
    (hroom : 1 + (n + 4) * q + 4 ≤ effectiveMtu) : 1 + (n + 4) * q + (n + 4) ≤ effectiveMtu := by
  have hsplit := Nat.div_add_mod (effectiveMtu - 1) (n + 4)
  rw [Divides] at hdiv
  have hless : q < (effectiveMtu - 1) / (n + 4) := by
    by_contra hle
    have hmul := Nat.mul_le_mul_left (n + 4) (Nat.le_of_not_lt hle)
    omega
  have hmul := Nat.mul_le_mul_left (n + 4) hless
  rw [Nat.mul_succ] at hmul
  omega

/-- With room for all of it, a message is written in one go. -/
theorem txSent_uncut {effectiveMtu pos : Nat} {w : WireMsg}
    (hroom : pos + (w.payload.length + 4) ≤ effectiveMtu) :
    txSent effectiveMtu pos w 0 = w.encode ∧ txAfter effectiveMtu pos w 0 = none := by
  have hhdr : txHeader w 0 = w.hdr.bytes := if_pos rfl
  have hchunk : txChunk effectiveMtu pos w 0 = w.payload.length := by
    rw [txChunk, hhdr, BleMsgHdr.bytes_length]
    omega
  constructor
  · rw [txSent, hhdr, hchunk, List.drop_zero, List.take_length]
    rfl
  · rw [txAfter, hchunk, if_pos (by omega)]

/-! ### What every step keeps -/

/-- The packet in `tx_buffer` holds whole messages, and nothing is sent yet of the one in
progress. -/
structure WholePart (n : Nat) (cur : TxCurrent) (queue inHand : List WireMsg)
    (buffer : Option (List UInt8)) : Prop where
  current : ∀ w k, cur = some (w, k) → k = 0 ∧ w.payload.length = n
  waiting : ∀ w ∈ queue, w.payload.length = n
  packed : ∀ w ∈ inHand, w.payload.length = n
  packet : ∀ b, buffer = some b → ∃ flag, b = flag :: encodeAll inHand
  idle : buffer = none → inHand = []

theorem WholePart.length {n : Nat} {cur : TxCurrent} {queue inHand : List WireMsg}
    {buffer : List UInt8} (h : WholePart n cur queue inHand (some buffer)) :
    buffer.length = 1 + (n + 4) * inHand.length := by
  obtain ⟨flag, rfl⟩ := h.packet _ rfl
  rw [List.length_cons, encodeAll_length h.packed, Nat.add_comm]

theorem Serves.mem_queue {s : TxLoop} {w v : WireMsg} {k : Nat} {queue : List WireMsg}
    (h : Serves s w k queue) (hv : v ∈ queue) : v ∈ s.fifos.held .tx := by
  cases h with
  | current _ => exact hv
  | taken _ hheld => exact hheld ▸ List.mem_cons_of_mem _ hv

/-- The message that a pass serves has its length. -/
theorem Serves.whole {n : Nat} {s : TxLoop} {w : WireMsg} {k : Nat} {queue inHand : List WireMsg}
    {buffer : Option (List UInt8)} (h : Serves s w k queue)
    (hpart : WholePart n s.ctx.current (s.fifos.held .tx) inHand buffer) :
    k = 0 ∧ w.payload.length = n := by
  cases h with
  | current hcur => exact hpart.current w k hcur
  | taken _ hheld =>
    exact ⟨rfl, hpart.waiting w (hheld ▸ List.mem_cons_self)⟩

/-- What a pass does where messages are whole. -/
inductive WholeMove (n effectiveMtu : Nat) (s r : TxLoop) : Prop
  | rest (h : r = s)
  | load {w : WireMsg} {queue : List WireMsg} (hserves : Serves s w 0 queue)
      (hcur : r.ctx.current = some (w, 0)) (hqueue : r.fifos.held .tx = queue)
      (hbuffer : r.buffer = s.buffer)
  | write {w : WireMsg} {queue : List WireMsg} (hserves : Serves s w 0 queue)
      (hlen : w.payload.length = n) (hcur : r.ctx.current = none)
      (hqueue : r.fifos.held .tx = queue) (hbuffer : r.buffer = s.buffer ++ w.encode)

theorem afterPass_whole {n effectiveMtu : Nat} {s : TxLoop} {inHand : List WireMsg}
    (hdiv : Divides n effectiveMtu)
    (h : WholePart n s.ctx.current (s.fifos.held .tx) inHand (some s.buffer)) :
    WholeMove n effectiveMtu s (afterPass effectiveMtu s) := by
  cases afterPass_move effectiveMtu s with
  | rest hrest => exact .rest hrest
  | wait hserves hcur hqueue hbuffer => exact .load hserves hcur hqueue hbuffer
  | @send w k queue hserves hroom hcur hqueue hbuffer =>
    obtain ⟨rfl, hlen⟩ := hserves.whole h
    rw [txHeader, if_pos rfl, BleMsgHdr.bytes_length, h.length] at hroom
    have hfits := room_of_divides hdiv hroom
    rw [← h.length, ← hlen] at hfits
    obtain ⟨hsent, hafter⟩ := txSent_uncut hfits
    rw [hafter] at hcur
    rw [hsent] at hbuffer
    exact .write hserves hlen hcur hqueue hbuffer

/-- The book with the message in progress and the FIFO. -/
structure Dispatch.Balances (d : Dispatch) (cur : TxCurrent) (queue : List WireMsg) : Prop where
  accepted : d.accepted = d.left.map Prod.fst ++ queue
  taken : d.taken = d.packets.flatMap Prod.fst ++ d.inHand ++ cur.msgs

namespace Dispatch

@[simp] theorem leave_taken (d : Dispatch) (ws : List WireMsg) (taken : Bool) :
    (d.leave ws taken).taken = d.taken ++ if taken then ws else [] := by
  cases taken <;> simp [leave, Dispatch.taken, List.filter_map, Function.comp_def]

@[simp] theorem leave_left (d : Dispatch) (ws : List WireMsg) (taken : Bool) :
    (d.leave ws taken).left.map Prod.fst = d.left.map Prod.fst ++ ws := by
  simp [leave, Function.comp_def]

/-- The book once the pass has its message. -/
def load (d : Dispatch) (cur : TxCurrent) (w : WireMsg) : Dispatch :=
  if cur = none then d.leave [w] true else d

theorem afterPass_serves {s r : TxLoop} {w : WireMsg} {queue : List WireMsg} (d : Dispatch)
    (hserves : Serves s w 0 queue) (hqueue : r.fifos.held .tx = queue) :
    d.afterPass s r = if s.buffer.length < r.buffer.length then
      { d.load s.ctx.current w with inHand := d.inHand ++ [w] } else d.load s.ctx.current w := by
  cases hserves with
  | current hcur => simp [afterPass, load, hqueue, hcur]
  | taken hcur hheld => simp [afterPass, load, hqueue, hcur, hheld, leave]

theorem Balances.load {d : Dispatch} {s : TxLoop} {w : WireMsg} {queue : List WireMsg}
    (h : d.Balances s.ctx.current (s.fifos.held .tx)) (hserves : Serves s w 0 queue) :
    (d.load s.ctx.current w).Balances (some (w, 0)) queue := by
  cases hserves with
  | current hcur =>
    rw [Dispatch.load, hcur, if_neg (by simp)]
    rwa [hcur] at h
  | taken hcur hheld =>
    rw [hcur, hheld] at h
    rw [Dispatch.load, hcur, if_pos rfl]
    refine ⟨?_, ?_⟩
    · rw [leave_left, List.append_assoc]
      exact h.accepted
    · rw [leave_taken, h.taken, if_pos rfl]
      simp [TxCurrent.msgs, leave]

theorem Balances.write {d : Dispatch} {w : WireMsg} {queue : List WireMsg}
    (h : d.Balances (some (w, 0)) queue) :
    Balances { d with inHand := d.inHand ++ [w] } none queue :=
  ⟨h.accepted, by simpa [TxCurrent.msgs, Dispatch.taken] using h.taken⟩

end Dispatch

theorem WholePart.put {n : Nat} {cur : TxCurrent} {queue queue' inHand : List WireMsg}
    {buffer : List UInt8} {w : WireMsg} (h : WholePart n cur queue inHand (some buffer))
    (hsub : ∀ v ∈ queue', v ∈ queue) (hlen : w.payload.length = n) :
    WholePart n none queue' (inHand ++ [w]) (some (buffer ++ w.encode)) := by
  refine ⟨fun _ _ hnone => (by cases hnone), fun v hv => h.waiting v (hsub v hv), ?_, ?_,
    fun hnone => (by cases hnone)⟩
  · intro v hv
    rcases List.mem_append.mp hv with hold | hnew
    · exact h.packed v hold
    · rwa [List.mem_singleton.mp hnew]
  · rintro b ⟨⟩
    obtain ⟨flag, rfl⟩ := h.packet _ rfl
    exact ⟨flag, by rw [encodeAll_append, encodeAll_cons]; simp [encodeAll]⟩

/-- One pass. -/
theorem whole_afterPass {n effectiveMtu : Nat} {s r : TxLoop} {d : Dispatch}
    (hmove : WholeMove n effectiveMtu s r)
    (hpart : WholePart n s.ctx.current (s.fifos.held .tx) d.inHand (some s.buffer))
    (hbook : d.Balances s.ctx.current (s.fifos.held .tx)) :
    WholePart n r.ctx.current (r.fifos.held .tx) (d.afterPass s r).inHand (some r.buffer) ∧
      (d.afterPass s r).Balances r.ctx.current (r.fifos.held .tx) := by
  have hload : ∀ w, (d.load s.ctx.current w).inHand = d.inHand := by
    intro w
    rw [Dispatch.load]
    split_ifs <;> rfl
  cases hmove with
  | rest h =>
    subst h
    have hsame : d.afterPass r r = d := by simp [Dispatch.afterPass]
    rw [hsame]
    exact ⟨hpart, hbook⟩
  | @load w queue hserves hcur hqueue hbuffer =>
    rw [d.afterPass_serves hserves hqueue, hbuffer, if_neg (Nat.lt_irrefl _), hload, hcur, hqueue]
    refine ⟨⟨?_, fun v hv => hpart.waiting v (hserves.mem_queue hv), hpart.packed, hpart.packet,
      hpart.idle⟩, hbook.load hserves⟩
    rintro v k ⟨⟩
    exact ⟨rfl, (hserves.whole hpart).2⟩
  | @write w queue hserves hlen hcur hqueue hbuffer =>
    have hmore : s.buffer.length < r.buffer.length := by
      rw [hbuffer, List.length_append, WireMsg.encode_length]
      omega
    rw [d.afterPass_serves hserves hqueue, if_pos hmore, hcur, hqueue, hbuffer]
    have hwrite := (hbook.load hserves).write
    rw [hload] at hwrite
    exact ⟨hpart.put (fun v hv => hserves.mem_queue hv) hlen, hwrite⟩

theorem Dispatch.afterPass_rest (d : Dispatch) (s r : TxLoop) :
    (d.afterPass s r).heard = d.heard ∧ (d.afterPass s r).delivered = d.delivered := by
  rw [Dispatch.afterPass]
  split_ifs <;> exact ⟨rfl, rfl⟩

/-! ### Runs -/

structure WholeInv (n : Nat) (s : Drain × Dispatch) : Prop where
  mtu : Divides n s.1.manager.effectiveMtu
  building : ∀ effectiveMtu buffer, s.1.pc = .building effectiveMtu buffer →
    Divides n effectiveMtu
  part : WholePart n s.1.ctx.current (s.1.fifos.held .tx) s.2.inHand s.1.pc.buffer
  book : s.2.Balances s.1.ctx.current (s.1.fifos.held .tx)
  heard : parseRun none s.2.heard = (none, s.2.delivered)

theorem wholeInv_init (n : Nat) : WholeInv n dispatchInit where
  mtu := by
    have hzero : (0 : Nat) - 1 = 0 := rfl
    rw [Divides]
    change (0 - 1) % (n + 4) < 4
    rw [hzero, Nat.zero_mod]
    omega
  building := fun _ _ h => by cases h
  part := ⟨fun _ _ h => (by cases h), fun w hw => absurd hw List.not_mem_nil,
    fun w hw => absurd hw List.not_mem_nil, fun _ h => (by cases h), fun _ => rfl⟩
  book := ⟨rfl, rfl⟩
  heard := rfl

/-- The next packet is begun with nothing in hand. -/
theorem WholeInv.startBuild {n : Nat} {s : Drain × Dispatch} {d : Dispatch}
    (h : WholeInv n s) (hhand : d.inHand = [])
    (hbook : d.Balances s.1.ctx.current (s.1.fifos.held .tx))
    (hheard : parseRun none d.heard = (none, d.delivered)) : WholeInv n (s.1.startBuild, d) where
  mtu := h.mtu
  building := by
    rintro _ _ ⟨⟩
    exact h.mtu
  part := by
    refine ⟨h.part.current, h.part.waiting, fun w hw => ?_, ?_, fun hnone => (by cases hnone)⟩
    · rw [hhand] at hw
      exact absurd hw List.not_mem_nil
    · rintro b ⟨⟩
      exact ⟨_, by rw [hhand]; rfl⟩
  book := hbook
  heard := hheard

theorem Dispatch.Balances.close {d : Dispatch} {cur : TxCurrent} {queue : List WireMsg}
    (h : d.Balances cur queue) (ok : Bool) : (d.close ok).Balances cur queue := by
  refine ⟨h.accepted, ?_⟩
  have htaken := h.taken
  simpa [Dispatch.close, Dispatch.taken] using htaken

theorem Dispatch.close_delivered (d : Dispatch) (ok : Bool) :
    (d.close ok).delivered = d.delivered ++ if ok then d.inHand else [] := by
  cases ok <;> simp [Dispatch.close, Dispatch.delivered]

/-- A packet that is not sent leaves the phone where it was. -/
theorem WholeInv.dropped {n : Nat} {s : Drain × Dispatch} (h : WholeInv n s) :
    WholeInv n (s.1.startBuild, s.2.close false) := by
  refine h.startBuild rfl (h.book.close false) ?_
  rw [Dispatch.close_delivered]
  simpa [Dispatch.close] using h.heard

theorem WholeInv.sent {n : Nat} {s : Drain × Dispatch} {packet : List UInt8} (h : WholeInv n s)
    (hpc : s.1.pc = .notifying packet) :
    WholeInv n (s.1.startBuild,
      { s.2.close true with heard := s.2.heard ++ [.packet packet] }) := by
  obtain ⟨flag, hpacket⟩ := h.part.packet packet (by rw [hpc]; rfl)
  have hbook := h.book.close true
  refine h.startBuild rfl ⟨hbook.accepted, hbook.taken⟩ ?_
  have hread : parseRun none (s.2.heard ++ [.packet packet]) =
      (none, s.2.delivered ++ s.2.inHand) := by
    rw [parseRun_append, h.heard, parseRun_cons, parseEvent, hpacket, parsePacket_whole]
    simp [parseRun, Machine.answers]
  have hdelivered := s.2.close_delivered true
  rw [if_pos rfl] at hdelivered
  change parseRun none (s.2.heard ++ [.packet packet]) = (none, (s.2.close true).delivered)
  rw [hread, hdelivered]

theorem WholeInv.pass {n : Nat} {s : Drain × Dispatch} {effectiveMtu : Nat}
    {buffer : List UInt8} (h : WholeInv n s) (hpc : s.1.pc = .building effectiveMtu buffer) :
    WholeInv n (s.1.pass effectiveMtu buffer, s.2.afterPass ⟨s.1.ctx, s.1.fifos, buffer⟩
      (afterPass effectiveMtu ⟨s.1.ctx, s.1.fifos, buffer⟩)) := by
  obtain ⟨hmanager, hctx, hfifos⟩ := pass_after s.1 effectiveMtu buffer
  obtain ⟨hheard, hdelivered⟩ := s.2.afterPass_rest ⟨s.1.ctx, s.1.fifos, buffer⟩
    (afterPass effectiveMtu ⟨s.1.ctx, s.1.fifos, buffer⟩)
  have hdiv := h.building effectiveMtu buffer hpc
  have hpart := h.part
  rw [hpc] at hpart
  have hmove := @afterPass_whole n effectiveMtu ⟨s.1.ctx, s.1.fifos, buffer⟩ _ hdiv hpart
  obtain ⟨hpart', hbook⟩ := whole_afterPass hmove hpart h.book
  refine ⟨by rw [hmanager]; exact h.mtu, fun m b hb => ?_, ?_, ?_, ?_⟩
  · rw [Drain.pass] at hb
    split at hb
    · obtain ⟨rfl, -⟩ := DrainPc.building.inj hb
      exact hdiv
    · simp only at hb
      split_ifs at hb
  · rw [hctx, hfifos]
    rcases pass_pc s.1 effectiveMtu buffer with hbuffer | ⟨hidle, hshort⟩
    · rw [hbuffer]
      exact hpart'
    · rw [hidle]
      refine ⟨hpart'.current, hpart'.waiting, hpart'.packed, fun _ hb => (by cases hb), fun _ => ?_⟩
      have hnone : (n + 4) * (s.2.afterPass ⟨s.1.ctx, s.1.fifos, buffer⟩
          (afterPass effectiveMtu ⟨s.1.ctx, s.1.fifos, buffer⟩)).inHand.length = 0 := by
        rw [hpart'.length] at hshort
        omega
      exact List.eq_nil_of_length_eq_zero ((Nat.mul_eq_zero.mp hnone).resolve_left (by omega))
  · rw [hctx, hfifos]
    exact hbook
  · rw [hheard, hdelivered]
    exact h.heard

/-- A link that comes or goes finds the phone's parser waiting for a header. -/
theorem WholeInv.heard_reset {n : Nat} {s : Drain × Dispatch} (h : WholeInv n s) :
    parseRun none (s.2.heard ++ [.reset]) = (none, s.2.delivered) := by
  rw [parseRun_append, h.heard]
  simp [parseRun, parseEvent, Machine.answers]

/-- An arrival, and the message that it may evict. -/
theorem WholeInv.arrive {n : Nat} {s : Drain × Dispatch} {msg : BleMsg} (h : WholeInv n s)
    (hlen : msg.hdr.len.toNat = n) (s' : Drain) :
    WholeInv n ({ s.1 with fifos := (addBleMsgToQueue s.1.fifos (some msg) .tx).1 },
      Dispatch.next s.1 (.addMsg msg) s' s.2) := by
  have hheld := addBleMsgToQueue_held s.1.fifos msg .tx
  have hsplit := RingBuffer.pushBounded_split bleFifoCapacity (s.1.fifos.held .tx) msg.wire
  refine ⟨h.mtu, h.building, ?_, ?_, h.heard⟩
  · refine ⟨h.part.current, fun w hw => ?_, h.part.packed, h.part.packet, h.part.idle⟩
    rw [hheld] at hw
    rcases RingBuffer.mem_pushBounded hw with hold | rfl
    · exact h.part.waiting w hold
    · rw [BleMsg.wire_payload, BleMsg.body_length, hlen]
  · refine ⟨?_, ?_⟩
    · simp only [Dispatch.next, Dispatch.leave_left, hheld]
      rw [List.append_assoc, hsplit, h.book.accepted, List.append_assoc]
    · have htaken := s.2.leave_taken
        (if (s.1.fifos.held .tx).length = bleFifoCapacity then (s.1.fifos.held .tx).take 1 else [])
        false
      rw [if_neg Bool.false_ne_true, List.append_nil] at htaken
      exact htaken.trans h.book.taken

theorem wholeInv_step {n : Nat} {s s' : Drain × Dispatch} {action : DrainAction}
    (h : WholeInv n s) (huniform : action.Uniform n) (hstep : dispatchStep s action = some s') :
    WholeInv n s' := by
  obtain ⟨d, hd, rfl⟩ := Machine.recording_some _ _ hstep
  cases drainStep_move hd with
  | connected conn err =>
    refine ⟨?_, h.building, h.part, ⟨h.book.accepted, h.book.taken⟩, ?_⟩
    · simp only [BleManager.connected]
      split_ifs
      · exact h.mtu
      · cases s.1.manager.bleConn <;> exact h.mtu
    · exact h.heard_reset
  | disconnected conn reason =>
    exact ⟨h.mtu, h.building, h.part, ⟨h.book.accepted, h.book.taken⟩, h.heard_reset⟩
  | cccCfgChanged value => exact ⟨h.mtu, h.building, h.part, h.book, h.heard⟩
  | mtuUpdated conn gattMtu =>
    refine ⟨?_, h.building, h.part, h.book, h.heard⟩
    rw [BleManager.mtuUpdated]
    split_ifs with hthree
    · exact huniform
    · rwa [DrainAction.Uniform, Nat.sub_eq_zero_of_le (by omega)] at huniform
  | addMsg msg => exact h.arrive huniform _
  | start hpc hup =>
    have hhand := h.part.idle (by rw [hpc]; rfl)
    exact h.startBuild hhand h.book h.heard
  | refuse hpc hdown => exact h
  | @pass effectiveMtu buffer hpc =>
    have hnext : Dispatch.next s.1 .pass (s.1.pass effectiveMtu buffer) s.2 =
        s.2.afterPass ⟨s.1.ctx, s.1.fifos, buffer⟩
          (afterPass effectiveMtu ⟨s.1.ctx, s.1.fifos, buffer⟩) := by
      simp only [Dispatch.next, hpc]
    rw [hnext]
    exact h.pass hpc
  | send hpc hup =>
    have hpart := h.part
    rw [hpc] at hpart
    simp only [Dispatch.next, if_pos hup]
    exact ⟨h.mtu, fun _ _ hb => (by cases hb), hpart, h.book, h.heard⟩
  | discard hpc hdown =>
    simp only [Dispatch.next, if_neg hdown]
    exact h.dropped
  | notify hpc err =>
    simp only [Dispatch.next, hpc]
    split_ifs
    · exact h.sent hpc
    · exact h.dropped

theorem WholeInv.deliversWhole {n : Nat} {s : Drain × Dispatch} (h : WholeInv n s) :
    DeliversWhole s where
  accepted := h.book.accepted
  taken := h.book.taken
  read rx := by rw [(rxRun_refines s.2.heard (represents_reset rx)).2, h.heard]

/-- With messages of one length on a link that such messages divide, a message arrives
whole, or is lost with its packet, or is evicted, whatever callbacks, arrivals and failed
notifies come between the passes. -/
theorem messages_whole {n : Nat} (actions : List DrainAction)
    (huniform : ∀ a ∈ actions, a.Uniform n) :
    Machine.Always dispatchStep DeliversWhole dispatchInit actions := by
  have hinv : Machine.Always dispatchStep (WholeInv n) dispatchInit actions :=
    Machine.always_of_eachStep (wholeInv_init n)
      (fun _ _ _ h ha hstep => wholeInv_step h ha hstep) (Machine.eachStep_of_forall huniform)
  exact hinv.mono fun _ => WholeInv.deliversWhole

/-- Three dated queries at the default MTU: the packet with the first two is lost, and the
phone reads the third from a packet whose flag says continuation. -/
theorem messages_whole_lost :
    let query (app : UInt8) : WireMsg := ⟨bleOpDatedWeatherQuery, app, [7, 8, 7, 0xEA], by decide⟩
    let actions : List DrainAction := [.connected 0 0, .cccCfgChanged 1, .mtuUpdated 0 23,
      .addMsg (query 11).msg, .addMsg (query 12).msg, .addMsg (query 13).msg, .populate, .pass,
      .pass, .pass, .testLink, .notify (-12), .pass, .pass, .testLink, .notify 0, .pass]
    ∃ s, Machine.run dispatchStep dispatchInit actions = some s ∧ s.1.pc.buffer = none ∧
      s.2.delivered = [query 13] ∧ DeliversWhole s := by
  intro query actions
  have hrun : ∃ s ∈ Machine.run dispatchStep dispatchInit actions,
      s.1.pc.buffer = none ∧ s.2.delivered = [query 13] := by
    decide +kernel
  obtain ⟨s, hs, hidle, hdelivered⟩ := hrun
  have huniform : ∀ a ∈ actions, a.Uniform 4 := by decide +kernel
  exact ⟨s, hs, hidle, hdelivered,
    messages_whole actions huniform actions [] s (List.append_nil _).symm hs⟩

end MinimalWatch.Ble
