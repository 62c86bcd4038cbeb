import MinimalWatch.Ble.Drain
import MinimalWatch.Ble.RoundTrip

/-! What becomes of the messages that the TX FIFO has accepted. A record beside the drain
numbers them and follows each byte of their encodings into the packets, and the packets
into `bt_gatt_notify`. Bytes are lost at two places: where the link is found down with a
packet built, and where the stack refuses one. -/

namespace MinimalWatch.Ble
open Firmware

/-- A byte of an accepted message: its number, and the place in its encoding. -/
abbrev ByteId := Nat × Nat

structure Custody where
  accepted : List WireMsg
  /-- The messages on the FIFO, by number. -/
  queued : List Nat
  /-- The message that `tx_cur_msg` was loaded with last. -/
  current : Nat
  evicted : List Nat
  /-- All bytes that were put into a packet. -/
  written : List ByteId
  /-- The bytes behind the flag of the packet in `tx_buffer`. -/
  inHand : List ByteId
  /-- The bytes of the packets whose notify succeeded. -/
  notified : List ByteId
  deriving DecidableEq, Repr

namespace Custody

def init : Custody := ⟨[], [], 0, [], [], [], []⟩

/-- An arrival; the oldest message of a full FIFO goes. -/
def accept (c : Custody) (w : WireMsg) : Custody :=
  { c with
    accepted := c.accepted ++ [w]
    queued := RingBuffer.pushBounded bleFifoCapacity c.queued c.accepted.length
    evicted := c.evicted ++ if c.queued.length = bleFifoCapacity then c.queued.take 1 else [] }

def take (c : Custody) : Custody :=
  { c with current := c.queued.headD 0, queued := c.queued.tail }

/-- `n` bytes of the current message go into the packet. -/
def write (c : Custody) (start n : Nat) : Custody :=
  let bytes := (List.range' start n).map fun j => (c.current, j)
  { c with written := c.written ++ bytes, inHand := c.inHand ++ bytes }

def drop (c : Custody) : Custody := { c with inHand := [] }

def deliver (c : Custody) : Custody :=
  { c with notified := c.notified ++ c.inHand, inHand := [] }

/-- The byte that a number stands for. -/
def byte (c : Custody) (id : ByteId) : Option UInt8 :=
  (c.accepted[id.1]?).bind fun w => w.encode[id.2]?

/-- A pass with what it has taken from the FIFO and written. -/
def afterPass (c : Custody) (before after : TxLoop) : Custody :=
  let c := if (after.fifos.held .tx).length < (before.fifos.held .tx).length then c.take else c
  c.write (before.ctx.current.elim 0 fun p => resent p.2)
    (after.buffer.length - before.buffer.length)

def next (s : Drain) (action : DrainAction) (_ : Drain) (c : Custody) : Custody :=
  match action, s.pc with
  | .addMsg msg, _ => c.accept msg.wire
  | .pass, .building effectiveMtu buffer =>
    let start : TxLoop := ⟨s.ctx, s.fifos, buffer⟩
    c.afterPass start (Ble.afterPass effectiveMtu start)
  | .testLink, _ => if s.manager.linkUp then c else c.drop
  | .notify err, _ => if err = 0 then c.deliver else c.drop
  | _, _ => c

end Custody

abbrev custodyStep : Drain × Custody → DrainAction → Option (Drain × Custody) :=
  Machine.recording drainStep Custody.next

def custodyInit : Drain × Custody := (.init, .init)

/-- The message is on the FIFO or in progress. -/
def Custody.Keeps (c : Custody) (cur : TxCurrent) (id : Nat) : Prop :=
  id ∈ c.queued ∨ (cur.isSome ∧ id = c.current)

/-- An accepted message is kept, or was evicted, or all its bytes are in packets that were
notified or in the one in hand. -/
def NoRequestLost (s : Drain × Custody) : Prop :=
  ∀ id w, s.2.accepted[id]? = some w → s.2.Keeps s.1.ctx.current id ∨ id ∈ s.2.evicted ∨
    ∀ j < w.encode.length, (id, j) ∈ s.2.notified ++ s.2.inHand

/-- The packets that were notified and the one in hand are all that was ever built. -/
def NothingDropped (s : Drain × Custody) : Prop :=
  s.2.written = s.2.notified ++ s.2.inHand

/-- A packet that is built finds the link up and is not refused. -/
def SendsAll (s : Drain × Custody) : DrainAction → Prop
  | .testLink => s.1.manager.linkUp = true
  | .notify err => err = 0
  | _ => True

/-! ### The record is a record of the drain -/

/-- The numbers name what the FIFO, `tx_cur_msg` and the packet in hand hold, and what is
not kept or evicted was written to its last byte. -/
structure Custody.Follows (c : Custody) (cur : TxCurrent) (queue : List WireMsg)
    (buffer : Option (List UInt8)) : Prop where
  queue : c.queued.map (fun id => c.accepted[id]?) = queue.map some
  placed : Placed cur
  current : ∀ w k, cur = some (w, k) →
    c.accepted[c.current]? = some w ∧ ∀ j < resent k, (c.current, j) ∈ c.written
  packet : ∀ b, buffer = some b → 0 < b.length ∧ c.inHand.map c.byte = (b.drop 1).map some
  idle : buffer = none → c.inHand = []
  settled : ∀ id w, c.accepted[id]? = some w → c.Keeps cur id ∨ id ∈ c.evicted ∨
    ∀ j < w.encode.length, (id, j) ∈ c.written

namespace Custody.Follows
variable {c : Custody} {cur : TxCurrent} {queue : List WireMsg} {buffer : Option (List UInt8)}

theorem queued_length (h : c.Follows cur queue buffer) : c.queued.length = queue.length := by
  have hlen := congrArg List.length h.queue
  rwa [List.length_map, List.length_map] at hlen

/-- Names go on naming the same when more is known. -/
theorem map_eq_some_mono {α β : Type*} {f g : α → Option β} {xs : List α} {ys : List β}
    (h : xs.map f = ys.map some) (hfg : ∀ a b, f a = some b → g a = some b) :
    xs.map g = ys.map some := by
  rw [← h]
  apply List.map_congr_left
  intro a ha
  have hmem : f a ∈ ys.map some := h ▸ List.mem_map_of_mem ha
  obtain ⟨b, -, hb⟩ := List.mem_map.mp hmem
  rw [hfg a b hb.symm, hb]

theorem accept (h : c.Follows cur queue buffer) (w : WireMsg) :
    (c.accept w).Follows cur (RingBuffer.pushBounded bleFifoCapacity queue w) buffer := by
  have hold : ∀ (id : Nat) (v : WireMsg), c.accepted[id]? = some v →
      (c.accepted ++ [w])[id]? = some v := fun id v hv => by
    rw [List.getElem?_append_left (List.getElem?_eq_some_iff.mp hv).1, hv]
  have hnew : (c.accepted ++ [w])[c.accepted.length]? = some w := List.getElem?_concat_length
  have hqueue := map_eq_some_mono h.queue hold
  refine ⟨?_, h.placed, fun v k hv => ⟨hold _ v (h.current v k hv).1, (h.current v k hv).2⟩, ?_,
    h.idle, ?_⟩
  · simp only [Custody.accept, RingBuffer.pushBounded, h.queued_length, List.map_append,
      List.map_cons, List.map_nil, hnew]
    split_ifs
    · rw [List.map_tail, hqueue, List.map_tail]
    · rw [hqueue]
  · intro b hb
    obtain ⟨hpos, hbytes⟩ := h.packet b hb
    refine ⟨hpos, map_eq_some_mono hbytes fun id x hx => ?_⟩
    obtain ⟨v, hv, hx⟩ := Option.bind_eq_some_iff.mp hx
    exact Option.bind_eq_some_iff.mpr ⟨v, hold id.1 v hv, hx⟩
  · intro id v hv
    simp only [Custody.accept, Custody.Keeps, RingBuffer.pushBounded] at hv ⊢
    by_cases hlt : id < c.accepted.length
    · rw [List.getElem?_append_left hlt] at hv
      rcases h.settled id v hv with (hqueued | hcur) | hevicted | hwritten
      · split_ifs with hfull
        · cases hq : c.queued with
          | nil => rw [hq] at hqueued; cases hqueued
          | cons head tail =>
            rw [hq] at hqueued
            rcases List.mem_cons.mp hqueued with rfl | htail
            · exact Or.inr (Or.inl (by simp))
            · exact Or.inl (Or.inl (by simp [htail]))
        · exact Or.inl (Or.inl (List.mem_append_left _ hqueued))
      · exact Or.inl (Or.inr hcur)
      · exact Or.inr (Or.inl (List.mem_append_left _ hevicted))
      · exact Or.inr (Or.inr hwritten)
    · have hid : id = c.accepted.length := by
        have hlen := (List.getElem?_eq_some_iff.mp hv).1
        rw [List.length_append, List.length_singleton] at hlen
        omega
      exact Or.inl (Or.inl (by simp [hid]))

theorem take {w : WireMsg} {rest : List WireMsg} (h : c.Follows none (w :: rest) buffer) :
    c.take.Follows (some (w, 0)) rest buffer := by
  obtain ⟨id, ids, hids⟩ : ∃ id ids, c.queued = id :: ids := by
    have hlen := h.queued_length
    exact List.exists_cons_of_length_pos (by rw [hlen]; exact Nat.succ_pos _)
  have hqueue := h.queue
  rw [hids, List.map_cons, List.map_cons] at hqueue
  obtain ⟨hhead, htail⟩ := List.cons.inj hqueue
  refine ⟨?_, fun v k hv => Or.inl (Prod.mk.inj (Option.some.inj hv)).2.symm, ?_, h.packet,
    h.idle, ?_⟩
  · simp only [Custody.take, hids, List.tail_cons]
    exact htail
  · intro v k hv
    obtain ⟨rfl, rfl⟩ := Prod.mk.inj (Option.some.inj hv)
    simp only [Custody.take, hids, List.headD_cons]
    exact ⟨hhead, fun j hj => by simp [resent] at hj⟩
  · intro i v hv
    rcases h.settled i v hv with (hqueued | hcur) | hrest
    · rw [hids] at hqueued
      rcases List.mem_cons.mp hqueued with rfl | hlater
      · exact Or.inl (Or.inr ⟨rfl, by simp [Custody.take, hids]⟩)
      · exact Or.inl (Or.inl (by simpa [Custody.take, hids] using hlater))
    · cases hcur.1
    · exact Or.inr hrest

theorem map_getElem?_range' {α : Type*} {l : List α} {start n : Nat}
    (h : ((l.drop start).take n).length = n) :
    (List.range' start n).map (fun j => l[j]?) = ((l.drop start).take n).map some := by
  apply List.ext_getElem?
  intro i
  by_cases hi : i < n
  · have hlt : i < ((l.drop start).take n).length := by rw [h]; exact hi
    have hget := List.getElem?_eq_getElem hlt
    rw [List.getElem?_take_of_lt hi, List.getElem?_drop] at hget
    rw [List.getElem?_map, List.getElem?_map, List.getElem?_range' hi,
      List.getElem?_eq_getElem hlt]
    simp only [Option.map_some, Nat.one_mul, hget]
  · rw [List.getElem?_eq_none, List.getElem?_eq_none]
    · rw [List.length_map, h]
      omega
    · rw [List.length_map, List.length_range']
      omega

theorem mem_write_bytes {c : Custody} {start n j : Nat} (h : j < start + n)
    (hold : j < start → (c.current, j) ∈ c.written) :
    (c.current, j) ∈ (c.write start n).written := by
  by_cases hj : j < start
  · exact List.mem_append_left _ (hold hj)
  · refine List.mem_append_right _ (List.mem_map_of_mem (List.mem_range'_1.mpr ?_))
    omega

/-- The place in the encoding up to which the message is gone after a write. -/
theorem resent_write (mtu pos : Nat) (w : WireMsg) (k : Nat) :
    4 + (k + txChunk mtu pos w k) ≤ resent k + (txSent mtu pos w k).length := by
  rw [txSent_length, txHeader_length, resent]
  split_ifs <;> omega

theorem write {mtu k : Nat} {w : WireMsg} {b : List UInt8}
    (h : c.Follows (some (w, k)) queue (some b)) :
    (c.write (resent k) (txSent mtu b.length w k).length).Follows (txAfter mtu b.length w k)
      queue (some (b ++ txSent mtu b.length w k)) := by
  obtain ⟨hw, hgone⟩ := h.current w k rfl
  obtain ⟨hpos, hbytes⟩ := h.packet b rfl
  have hend := resent_write mtu b.length w k
  refine ⟨h.queue, txAfter_placed _ w k, ?_, ?_, fun hnone => (by cases hnone), ?_⟩
  · intro v k' hv
    rw [txAfter] at hv
    split_ifs at hv with hdone
    obtain ⟨rfl, rfl⟩ := Prod.mk.inj (Option.some.inj hv)
    refine ⟨hw, fun j hj => mem_write_bytes ?_ (hgone j)⟩
    rw [resent] at hj
    split_ifs at hj <;> omega
  · intro b' hb'
    obtain rfl := Option.some.inj hb'
    refine ⟨by rw [List.length_append]; omega, ?_⟩
    have hsent := @txSent_eq_encode mtu b.length w k
    have hrange := @map_getElem?_range' _ w.encode (resent k) (txSent mtu b.length w k).length
      (by rw [← hsent])
    rw [← hsent] at hrange
    have hnew : ((List.range' (resent k) (txSent mtu b.length w k).length).map
        fun j => (c.current, j)).map c.byte = (txSent mtu b.length w k).map some := by
      rw [List.map_map, ← hrange]
      apply List.map_congr_left
      intro j _
      simp only [Function.comp, Custody.byte, hw, Option.bind_some]
    rw [List.drop_append_of_le_length hpos, List.map_append, ← hbytes, ← hnew,
      ← List.map_append]
    rfl
  · intro id v hv
    rcases h.settled id v hv with (hqueued | hcur) | hevicted | hwritten
    · exact Or.inl (Or.inl hqueued)
    · obtain rfl : id = c.current := hcur.2
      obtain rfl : w = v := Option.some.inj (hw.symm.trans hv)
      by_cases hdone : w.payload.length ≤ k + txChunk mtu b.length w k
      · refine Or.inr (Or.inr fun j hj => mem_write_bytes ?_ (hgone j))
        rw [w.encode_length] at hj
        omega
      · exact Or.inl (Or.inr ⟨by rw [txAfter, if_neg hdone]; rfl, rfl⟩)
    · exact Or.inr (Or.inl hevicted)
    · exact Or.inr (Or.inr fun j hj => List.mem_append_left _ (hwritten j hj))

/-- A pass with nothing written. -/
theorem write_nothing (h : c.Follows cur queue buffer) (start : Nat) :
    (c.write start 0).Follows cur queue buffer := by
  have hsame : c.write start 0 = c := by simp [Custody.write]
  rwa [hsame]

theorem pass {effectiveMtu : Nat} {before after : TxLoop}
    (h : c.Follows before.ctx.current (before.fifos.held .tx) (some before.buffer))
    (hmove : TxMove effectiveMtu before after) :
    (c.afterPass before after).Follows after.ctx.current (after.fifos.held .tx)
      (some after.buffer) := by
  cases hmove with
  | rest hsame =>
    subst hsame
    simp only [Custody.afterPass, Nat.lt_irrefl, if_false, Nat.sub_self]
    exact h.write_nothing _
  | wait hserves hcur hqueue hbuffer =>
    simp only [Custody.afterPass, hcur, hqueue, hbuffer, Nat.sub_self]
    apply write_nothing
    cases hserves with
    | current hcur' =>
      rw [if_neg (Nat.lt_irrefl _)]
      rwa [hcur'] at h
    | taken hcur' hqueue' =>
      rw [hcur', hqueue'] at h
      rw [hqueue', List.length_cons, if_pos (Nat.lt_succ_self _)]
      exact h.take
  | @send w k queue hserves hroom hcur hqueue hbuffer =>
    simp only [Custody.afterPass, hcur, hqueue, hbuffer, List.length_append, Nat.add_sub_cancel_left]
    cases hserves with
    | current hcur' =>
      rw [if_neg (Nat.lt_irrefl _)]
      rw [hcur'] at h ⊢
      exact h.write
    | taken hcur' hqueue' =>
      rw [hcur', hqueue'] at h
      rw [hcur', hqueue', List.length_cons, if_pos (Nat.lt_succ_self _)]
      exact h.take.write

end Custody.Follows

/-! ### One step -/

/-- The record follows the state. -/
def Followed (s : Drain × Custody) : Prop :=
  s.2.Follows s.1.ctx.current (s.1.fifos.held .tx) s.1.pc.buffer

theorem followed_init : Followed custodyInit := by
  refine ⟨rfl, fun w k hw => ?_, fun w k hw => ?_, fun b hb => ?_, fun _ => rfl, ?_⟩
  · cases hw
  · cases hw
  · cases hb
  · intro id w hw
    cases hw

/-- The next packet is begun with nothing in hand. -/
theorem Custody.Follows.startBuild {c : Custody} {s : Drain} {buffer : Option (List UInt8)}
    (h : c.Follows s.ctx.current (s.fifos.held .tx) buffer) (hhand : c.inHand = []) :
    c.Follows s.startBuild.ctx.current (s.startBuild.fifos.held .tx) s.startBuild.pc.buffer := by
  refine ⟨h.queue, h.placed, h.current, fun b hb => ?_, fun hnone => (by cases hnone), h.settled⟩
  obtain rfl := Option.some.inj hb
  exact ⟨Nat.succ_pos _, by rw [hhand]; rfl⟩

/-- The packet in hand is done with. -/
theorem Custody.Follows.emptied {c : Custody} {s : Drain} {notified : List ByteId}
    (h : c.Follows s.ctx.current (s.fifos.held .tx) s.pc.buffer) :
    Custody.Follows { c with notified := notified, inHand := [] } s.startBuild.ctx.current
      (s.startBuild.fifos.held .tx) s.startBuild.pc.buffer := by
  refine ⟨h.queue, h.placed, h.current, fun b hb => ?_, fun _ => rfl, h.settled⟩
  obtain rfl := Option.some.inj hb
  exact ⟨Nat.succ_pos _, rfl⟩

theorem followed_pass {s : Drain} {c : Custody} {effectiveMtu : Nat} {buffer : List UInt8}
    (h : c.Follows s.ctx.current (s.fifos.held .tx) (some buffer)) :
    Followed (s.pass effectiveMtu buffer, c.afterPass ⟨s.ctx, s.fifos, buffer⟩
      (afterPass effectiveMtu ⟨s.ctx, s.fifos, buffer⟩)) := by
  obtain ⟨-, hctx, hfifos⟩ := pass_after s effectiveMtu buffer
  have hpass := h.pass (afterPass_move effectiveMtu ⟨s.ctx, s.fifos, buffer⟩)
  rw [Followed, hctx, hfifos]
  rcases pass_pc s effectiveMtu buffer with hbuffer | ⟨hidle, hshort⟩
  · rw [hbuffer]
    exact hpass
  · obtain ⟨-, hbytes⟩ := hpass.packet _ rfl
    rw [List.drop_eq_nil_of_le hshort] at hbytes
    refine ⟨hpass.queue, hpass.placed, hpass.current, fun b hb => ?_,
      fun _ => List.map_eq_nil_iff.mp hbytes, hpass.settled⟩
    rw [hidle] at hb
    cases hb

theorem followed_step {s s' : Drain × Custody} {action : DrainAction} (h : Followed s)
    (hstep : custodyStep s action = some s') : Followed s' := by
  obtain ⟨d, hd, rfl⟩ := Machine.recording_some _ _ hstep
  have hfollows := h
  rw [Followed] at h
  cases drainStep_move hd with
  | addMsg msg =>
    have hheld := addBleMsgToQueue_held s.1.fifos msg .tx
    rw [Followed]
    simp only [Custody.next, hheld]
    exact h.accept msg.wire
  | start hpc hup =>
    rw [hpc] at h
    exact h.startBuild (h.idle rfl)
  | @pass effectiveMtu buffer hpc =>
    rw [hpc] at h
    have hrecord : Custody.next s.1 .pass (s.1.pass effectiveMtu buffer) s.2 =
        s.2.afterPass ⟨s.1.ctx, s.1.fifos, buffer⟩
          (afterPass effectiveMtu ⟨s.1.ctx, s.1.fifos, buffer⟩) := by
      simp only [Custody.next, hpc]
    rw [hrecord]
    exact followed_pass h
  | send hpc hup =>
    simp only [Custody.next, if_pos hup]
    rw [hpc] at h
    exact h
  | discard hpc hdown =>
    simp only [Custody.next, if_neg hdown]
    exact h.emptied
  | notify hpc err =>
    simp only [Custody.next]
    split_ifs
    · exact h.emptied
    · exact h.emptied
  | _ => exact hfollows

/-- A packet that leaves the loop has a byte behind its flag. -/
def DrainPc.Packed : DrainPc → Prop
  | .built packet => 1 < packet.length
  | .notifying packet => 1 < packet.length
  | _ => True

theorem packed_step {s s' : Drain} {action : DrainAction} (h : s.pc.Packed)
    (hstep : drainStep s action = some s') : s'.pc.Packed := by
  cases drainStep_move hstep with
  | @pass effectiveMtu buffer hpc =>
    rw [Drain.pass]
    cases txIteration effectiveMtu ⟨s.ctx, s.fifos, buffer⟩ with
    | inl r => trivial
    | inr r =>
      simp only
      split_ifs with hlen
      · exact hlen
      · trivial
  | send hpc hup =>
    rw [hpc] at h
    exact h
  | start hpc hup => trivial
  | discard hpc hdown => trivial
  | notify hpc err => trivial
  | _ => exact h

/-- What holds while nothing is dropped. -/
structure CustodyInv (s : Drain × Custody) : Prop where
  followed : Followed s
  packed : s.1.pc.Packed
  kept : NothingDropped s

theorem custodyInv_init : CustodyInv custodyInit := ⟨followed_init, trivial, rfl⟩

theorem CustodyInv.noRequestLost {s : Drain × Custody} (h : CustodyInv s) : NoRequestLost s := by
  intro id w hw
  rcases h.followed.settled id w hw with hkeeps | hevicted | hwritten
  · exact Or.inl hkeeps
  · exact Or.inr (Or.inl hevicted)
  · have hkept := h.kept
    rw [NothingDropped] at hkept
    rw [hkept] at hwritten
    exact Or.inr (Or.inr hwritten)

theorem nothingDropped_step {s s' : Drain × Custody} {action : DrainAction}
    (h : NothingDropped s) (hsends : SendsAll s action)
    (hstep : custodyStep s action = some s') : NothingDropped s' := by
  obtain ⟨d, hd, rfl⟩ := Machine.recording_some _ _ hstep
  rw [NothingDropped] at h ⊢
  cases drainStep_move hd with
  | pass hpc =>
    simp only [Custody.next, hpc, Custody.afterPass, Custody.write]
    split_ifs <;> simp only [Custody.take, h, List.append_assoc]
  | send hpc hup =>
    simp only [Custody.next, if_pos hup]
    exact h
  | discard hpc hdown => exact absurd hsends hdown
  | notify hpc err =>
    rw [SendsAll] at hsends
    simp only [Custody.next, if_pos hsends, Custody.deliver, List.append_nil]
    exact h
  | _ => exact h

/-- Dropping a packet leaves a gap behind. -/
theorem not_kept_of_drop {s : Drain × Custody} {packet : List UInt8} (h : CustodyInv s)
    (hbuffer : s.1.pc.buffer = some packet) (hlen : 1 < packet.length) :
    s.2.written ≠ s.2.notified := by
  intro hsame
  have hkept := h.kept
  rw [NothingDropped, hsame] at hkept
  have hnil : s.2.inHand = [] := by simpa using hkept
  have hbytes := (h.followed.packet packet hbuffer).2
  rw [hnil] at hbytes
  have hcount := congrArg List.length hbytes
  rw [List.length_map, List.length_map, List.length_drop, List.length_nil] at hcount
  omega

theorem nothingDropped_break {s s' : Drain × Custody} {action : DrainAction}
    (h : CustodyInv s) (hsends : ¬ SendsAll s action)
    (hstep : custodyStep s action = some s') : ¬ NothingDropped s' := by
  obtain ⟨d, hd, rfl⟩ := Machine.recording_some _ _ hstep
  have hpacked := h.packed
  cases drainStep_move hd with
  | send hpc hup => exact absurd hup hsends
  | discard hpc hdown =>
    rw [hpc] at hpacked
    have hgap := not_kept_of_drop h (by rw [hpc]; rfl) hpacked
    simpa only [NothingDropped, Custody.next, if_neg hdown, Custody.drop,
      List.append_nil] using hgap
  | notify hpc err =>
    rw [hpc] at hpacked
    have hgap := not_kept_of_drop h (by rw [hpc]; rfl) hpacked
    rw [SendsAll] at hsends
    simpa only [NothingDropped, Custody.next, if_neg hsends, Custody.drop,
      List.append_nil] using hgap
  | _ => exact absurd trivial hsends

/-- Along any run of the drain with callbacks and arrivals: while every packet that is
built finds the link up and is not refused, no request is lost. That condition on the
steps is the exact one for every byte put into a packet to be notified. -/
theorem noRequestLost_of_sendsAll (actions : List DrainAction) :
    (Machine.EachStep custodyStep SendsAll custodyInit actions →
      Machine.Always custodyStep NoRequestLost custodyInit actions) ∧
    (Machine.Always custodyStep NothingDropped custodyInit actions ↔
      Machine.EachStep custodyStep SendsAll custodyInit actions) := by
  have hstep : ∀ s action s', CustodyInv s → SendsAll s action →
      custodyStep s action = some s' → CustodyInv s' := by
    intro s action s' h hsends hs
    obtain ⟨d, hd, heq⟩ := Machine.recording_some _ _ hs
    refine ⟨followed_step h.followed hs, ?_, nothingDropped_step h.kept hsends hs⟩
    rw [heq]
    exact packed_step h.packed hd
  refine ⟨fun hsends => ?_, ?_⟩
  · exact (Machine.always_of_eachStep custodyInv_init hstep hsends).mono
      fun _ h => h.noRequestLost
  · exact Machine.always_iff_eachStep custodyInv_init (fun _ h => h.kept) hstep
      fun _ _ _ h hsends hs => nothingDropped_break h hsends hs

/-- A request of two bytes is taken off the FIFO and built into a packet; the link goes
down before the test, and the loop goes on and ends with the request gone. -/
theorem request_lost_on_disconnect :
    let request : BleMsg := (WireMsg.mk 1 1 [7, 8] (by decide)).msg
    let actions : List DrainAction := [.connected 1 0, .mtuUpdated 1 247, .cccCfgChanged 1,
      .addMsg request, .populate, .pass, .pass, .disconnected 1 0x13, .testLink, .pass]
    ∃ s, Machine.run custodyStep custodyInit actions = some s ∧
      s.2 = ⟨[request.wire], [], 0, [], [(0, 0), (0, 1), (0, 2), (0, 3), (0, 4), (0, 5)], [], []⟩ ∧
      s.1.ctx.current = none ∧ ¬ NoRequestLost s := by
  intro request actions
  have hrun : (Machine.run custodyStep custodyInit actions).map (fun s =>
      (s.2, s.1.ctx.current)) = some (⟨[request.wire], [], 0, [],
        [(0, 0), (0, 1), (0, 2), (0, 3), (0, 4), (0, 5)], [], []⟩, none) := by
    decide +kernel
  obtain ⟨s, hs, hfacts⟩ := Option.map_eq_some_iff.mp hrun
  obtain ⟨hrecord, hcur⟩ := Prod.mk.inj hfacts
  refine ⟨s, hs, hrecord, hcur, fun h => ?_⟩
  have hrequest := h 0 request.wire (by rw [hrecord]; rfl)
  rw [hrecord, hcur] at hrequest
  rcases hrequest with (hqueued | hactive) | hevicted | hnotified
  · cases hqueued
  · cases hactive.1
  · cases hevicted
  · cases hnotified 0 (by decide)

end MinimalWatch.Ble
