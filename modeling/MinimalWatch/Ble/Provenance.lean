import MinimalWatch.Ble.PacketRx
import Mathlib.Data.List.Induction

/-! Where received messages come from. Whatever packets arrive, every message handed
over is a block of the byte stream: the concatenation of the packet bodies without
their flag bytes. `OpenAt` follows the message in progress back to the position of
its header; blocks that are complete stay where they are as the stream grows. -/

namespace MinimalWatch.Ble
open Firmware Firmware.Memory

/-- A message and the position in the stream where its header starts. -/
structure Block where
  start : Nat
  msg : WireMsg

def Block.stop (b : Block) : Nat := b.start + b.msg.encode.length

def RxEvent.body : RxEvent → List UInt8
  | .packet pkt => pkt.tail
  | .reset => []

/-- A context reset, or a packet with MSG_CONT = 0. -/
def RxEvent.Interrupts : RxEvent → Prop
  | .packet pkt => pkt.head? = some 0
  | .reset => True

instance (event : RxEvent) : Decidable event.Interrupts :=
  match event with
  | .packet pkt => inferInstanceAs (Decidable (pkt.head? = some 0))
  | .reset => inferInstanceAs (Decidable True)

/-- The packet bodies without their first byte, one after the other. -/
def streamOf (events : List RxEvent) : List UInt8 := events.flatMap RxEvent.body

/-- The four bytes from `start` on arrived in one packet. -/
def HeaderInPacket (events : List RxEvent) (start : Nat) : Prop :=
  ∃ before pkt after, events = before ++ .packet pkt :: after ∧
    (streamOf before).length ≤ start ∧ start + 4 ≤ (streamOf before).length + pkt.tail.length

/-- Nothing between `start` and `stop` dropped the message in progress. -/
def Uninterrupted (events : List RxEvent) (start stop : Nat) : Prop :=
  ∀ before event after, events = before ++ event :: after → event.Interrupts →
    ¬ (start < (streamOf before).length ∧ (streamOf before).length < stop)

structure Block.In (events : List RxEvent) (b : Block) : Prop where
  bytes : slice (streamOf events) b.start b.msg.encode.length = b.msg.encode
  header : HeaderInPacket events b.start
  unbroken : Uninterrupted events b.start b.stop

/-! ### Reading one body -/

/-- Blocks of a stream, in order and disjoint, between two positions. -/
def Chain (stream : List UInt8) (good : Nat → Prop) : Nat → List Block → Nat → Prop
  | lo, [], hi => lo ≤ hi
  | lo, b :: blocks, hi =>
    (lo ≤ b.start ∧ good b.start ∧
      slice stream b.start b.msg.encode.length = b.msg.encode) ∧
    Chain stream good b.stop blocks hi

def PartialMsg.bytes (p : PartialMsg) : List UInt8 :=
  [bleMagic, p.opcode, p.reqApp, UInt8.ofNat (p.got.length + p.missing + 1)] ++ p.got

/-- The receiver's state at position `pos`: a message in progress started after `lo`,
at a good position, and its bytes are those before `pos`. -/
def OpenAt (stream : List UInt8) (good : Nat → Prop) (lo pos : Nat) :
    Option PartialMsg → Prop
  | none => lo ≤ pos
  | some p => ∃ start, lo ≤ start ∧ good start ∧ start + p.bytes.length = pos ∧
      slice stream start p.bytes.length = p.bytes

theorem PartialMsg.bytes_length (p : PartialMsg) : p.bytes.length = 4 + p.got.length := by
  simp [PartialMsg.bytes]
  omega

theorem PartialMsg.extend_bytes (p : PartialMsg) {bytes : List UInt8}
    (h : bytes.length ≤ p.missing) : (p.extend bytes h).bytes = p.bytes ++ bytes := by
  have hlen : (p.got ++ bytes).length + (p.missing - bytes.length) + 1 =
      p.got.length + p.missing + 1 := by
    rw [List.length_append]
    omega
  simp only [PartialMsg.bytes, PartialMsg.extend, hlen, List.append_assoc]

theorem PartialMsg.finish_encode (p : PartialMsg) {bytes : List UInt8}
    (h : bytes.length = p.missing + 1) : (p.finish bytes h).encode = p.bytes ++ bytes := by
  have hlen : (p.got ++ bytes).length = p.got.length + p.missing + 1 := by
    rw [List.length_append]
    omega
  simp only [WireMsg.encode, WireMsg.hdr, BleMsgHdr.bytes, WireMsg.len, PartialMsg.bytes,
    PartialMsg.finish, hlen, List.append_assoc]

theorem PartialMsg.push_encode {p : PartialMsg} {b : UInt8} {w : WireMsg}
    (h : p.push b = .inl w) : w.encode = p.bytes ++ [b] := by
  unfold PartialMsg.push at h
  split at h
  · rw [← Sum.inl.inj h, PartialMsg.finish_encode]
  · cases h

theorem PartialMsg.push_bytes {p p' : PartialMsg} {b : UInt8} (h : p.push b = .inr p') :
    p'.bytes = p.bytes ++ [b] := by
  unfold PartialMsg.push at h
  split at h
  · cases h
  · rw [← Sum.inr.inj h, PartialMsg.extend_bytes]

theorem openMsg_encode {opcode reqApp len : UInt8} {w : WireMsg}
    (h : openMsg opcode reqApp len = .inl w) :
    w.encode = [bleMagic, opcode, reqApp, len] := by
  unfold openMsg at h
  split at h
  next hzero =>
    have hlen : len = 0 := UInt8.toNat_inj.mp hzero
    rw [← Sum.inl.inj h, hlen]
    rfl
  next => cases h

theorem openMsg_bytes {opcode reqApp len : UInt8} {p : PartialMsg}
    (h : openMsg opcode reqApp len = .inr p) :
    p.bytes = [bleMagic, opcode, reqApp, len] := by
  unfold openMsg at h
  split at h
  next => cases h
  next hpos =>
    have hlen : ([] : List UInt8).length + (len.toNat - 1) + 1 = len.toNat := by
      rw [List.length_nil]
      omega
    rw [← Sum.inr.inj h]
    simp only [PartialMsg.bytes, hlen, UInt8.ofNat_toNat, List.append_nil]

theorem slice_of_drop {stream front rest : List UInt8} {start : Nat}
    (h : stream.drop start = front ++ rest) : slice stream start front.length = front := by
  rw [slice, h, List.take_left]

theorem slice_snoc {stream rest front : List UInt8} {start : Nat} {b : UInt8}
    (hfront : slice stream start front.length = front)
    (h : stream.drop (start + front.length) = b :: rest) :
    slice stream start (front ++ [b]).length = front ++ [b] := by
  have hdrop : (stream.drop start).drop front.length = b :: rest := by rw [List.drop_drop, h]
  rw [slice] at hfront ⊢
  rw [List.length_append, List.take_add, hfront, hdrop]
  rfl

theorem drop_add_of_drop {stream front rest : List UInt8} {pos : Nat}
    (h : stream.drop pos = front ++ rest) : stream.drop (pos + front.length) = rest := by
  rw [← List.drop_drop, h, List.drop_left]

theorem le_of_drop {stream front rest : List UInt8} {pos : Nat}
    (h : stream.drop pos = front ++ rest) (hpos : pos ≤ stream.length) :
    pos + front.length ≤ stream.length := by
  have hlen := congrArg List.length h
  rw [List.length_drop, List.length_append] at hlen
  omega

theorem good_later {good : Nat → Prop} {pos len : Nat}
    (h : ∀ start, pos ≤ start → start + 4 ≤ len → good start) (n : Nat) :
    ∀ start, pos + n ≤ start → start + 4 ≤ len → good start :=
  fun start hstart => h start (Nat.le_trans (Nat.le_add_right pos n) hstart)

/-- Reading the rest of a stream finds a chain of blocks and ends at its end. -/
theorem parse_chain {stream : List UInt8} {good : Nat → Prop} (state : Option PartialMsg)
    (bytes : List UInt8) {lo pos : Nat} (hdrop : stream.drop pos = bytes)
    (hpos : pos ≤ stream.length) (hopen : OpenAt stream good lo pos state)
    (hgood : ∀ start, pos ≤ start → start + 4 ≤ stream.length → good start) :
    ∃ blocks hi, blocks.map Block.msg = (parse state bytes).2 ∧
      Chain stream good lo blocks hi ∧
      OpenAt stream good hi stream.length (parse state bytes).1 := by
  induction state, bytes using parse.induct generalizing lo pos with
  | case1 opcode reqApp len rest w hw ih =>
    have hrest := @drop_add_of_drop stream [bleMagic, opcode, reqApp, len] rest pos hdrop
    have hle := @le_of_drop stream [bleMagic, opcode, reqApp, len] rest pos hdrop hpos
    have hw' := openMsg_encode hw
    obtain ⟨blocks, hi, hmsgs, hchain, hend⟩ := ih hrest hle
      (Nat.le_refl _) (good_later hgood _)
    rw [parse_header, hw]
    refine ⟨⟨pos, w⟩ :: blocks, hi, by simp [hmsgs], ⟨⟨hopen, ?_, ?_⟩, ?_⟩, hend⟩
    · exact hgood pos (Nat.le_refl _) hle
    · rw [hw']
      exact slice_of_drop hdrop
    · rw [Block.stop, hw']
      exact hchain
  | case2 opcode reqApp len rest p hp ih =>
    have hrest := @drop_add_of_drop stream [bleMagic, opcode, reqApp, len] rest pos hdrop
    have hle := @le_of_drop stream [bleMagic, opcode, reqApp, len] rest pos hdrop hpos
    have hp' := openMsg_bytes hp
    have hstart : OpenAt stream good lo (pos + [bleMagic, opcode, reqApp, len].length)
        (some p) := by
      refine ⟨pos, hopen, hgood pos (Nat.le_refl _) hle, by rw [hp'], ?_⟩
      rw [hp']
      exact slice_of_drop hdrop
    rw [parse_header, hp]
    exact ih hrest hle hstart (good_later hgood _)
  | case3 b opcode reqApp len rest hne ih =>
    have hrest := @drop_add_of_drop stream [b] (opcode :: reqApp :: len :: rest) pos hdrop
    have hle := @le_of_drop stream [b] (opcode :: reqApp :: len :: rest) pos hdrop hpos
    rw [parse_skip _ hne]
    exact ih hrest hle (Nat.le_succ_of_le hopen) (good_later hgood _)
  | case4 p b rest w hw ih =>
    obtain ⟨start, hlo, hstart, hat, hslice⟩ := hopen
    have hrest := @drop_add_of_drop stream [b] rest pos hdrop
    have hle := @le_of_drop stream [b] rest pos hdrop hpos
    have hw' := PartialMsg.push_encode hw
    obtain ⟨blocks, hi, hmsgs, hchain, hend⟩ := ih hrest hle
      (Nat.le_refl _) (good_later hgood _)
    simp only [parse, hw]
    refine ⟨⟨start, w⟩ :: blocks, hi, by simp [hmsgs], ⟨⟨hlo, hstart, ?_⟩, ?_⟩, hend⟩
    · rw [hw']
      exact slice_snoc hslice (by rw [hat, hdrop])
    · have hstop : Block.stop ⟨start, w⟩ = pos + [b].length := by
        rw [Block.stop, hw', List.length_append, ← hat, Nat.add_assoc]
      rw [hstop]
      exact hchain
  | case5 p b rest p' hp ih =>
    obtain ⟨start, hlo, hstart, hat, hslice⟩ := hopen
    have hrest := @drop_add_of_drop stream [b] rest pos hdrop
    have hle := @le_of_drop stream [b] rest pos hdrop hpos
    have hp' := PartialMsg.push_bytes hp
    have hopen' : OpenAt stream good lo (pos + [b].length) (some p') := by
      refine ⟨start, hlo, hstart, ?_, ?_⟩
      · rw [hp', List.length_append, ← hat, Nat.add_assoc]
      · rw [hp']
        exact slice_snoc hslice (by rw [hat, hdrop])
    simp only [parse, hp]
    exact ih hrest hle hopen' (good_later hgood _)
  | case6 bytes state hhead hbody =>
    have hparse : parse state bytes = (state, []) := by
      rw [parse]
      · exact hhead
      · exact hbody
    rw [hparse]
    refine ⟨[], lo, rfl, Nat.le_refl _, ?_⟩
    cases state with
    | none => exact Nat.le_trans hopen hpos
    | some p =>
      have hend : bytes = [] := by
        cases bytes with
        | nil => rfl
        | cons b rest => exact (hbody p b rest rfl rfl).elim
      rw [hend, List.drop_eq_nil_iff] at hdrop
      rwa [Nat.le_antisymm hdrop hpos]

theorem OpenAt.le {stream : List UInt8} {good : Nat → Prop} {lo pos : Nat}
    {state : Option PartialMsg} (h : OpenAt stream good lo pos state) : lo ≤ pos := by
  cases state with
  | none => exact h
  | some p =>
    obtain ⟨start, hlo, -, hat, -⟩ := h
    omega

theorem Chain.mem {stream : List UInt8} {good : Nat → Prop} {lo hi : Nat} {blocks : List Block}
    (h : Chain stream good lo blocks hi) :
    blocks.Pairwise (fun a b => a.stop ≤ b.start) ∧ lo ≤ hi ∧
      ∀ b ∈ blocks, lo ≤ b.start ∧ b.stop ≤ hi ∧ good b.start ∧
        slice stream b.start b.msg.encode.length = b.msg.encode := by
  induction blocks generalizing lo with
  | nil => exact ⟨.nil, h, by simp⟩
  | cons b blocks ih =>
    obtain ⟨⟨hlo, hgood, hslice⟩, hrest⟩ := h
    obtain ⟨hpair, hle, hmem⟩ := ih hrest
    have hstop : b.start ≤ b.stop := Nat.le_add_right _ _
    refine ⟨hpair.cons fun c hc => (hmem c hc).1, by omega, fun c hc => ?_⟩
    rcases List.mem_cons.mp hc with rfl | hc
    · exact ⟨hlo, hle, hgood, hslice⟩
    · obtain ⟨hc, hmore⟩ := hmem c hc
      exact ⟨by omega, hmore⟩

/-! ### Whole runs -/

theorem parseEvent_eq (state : Option PartialMsg) (event : RxEvent) :
    parseEvent state event =
      parse (if event.Interrupts then none else state) event.body := by
  rcases event with (_ | ⟨msgCont, body⟩) | _
  · simp [parseEvent, parsePacket, RxEvent.Interrupts, RxEvent.body]
  · simp [parseEvent, parsePacket, RxEvent.Interrupts, RxEvent.body]
  · simp [parseEvent, RxEvent.Interrupts, RxEvent.body]

@[simp] theorem streamOf_snoc (events : List RxEvent) (event : RxEvent) :
    streamOf (events ++ [event]) = streamOf events ++ event.body := by
  simp [streamOf]

theorem snoc_split {events before after : List RxEvent} {event e : RxEvent}
    (h : events ++ [event] = before ++ e :: after) :
    (before = events ∧ e = event) ∨ ∃ after', events = before ++ e :: after' := by
  rcases List.eq_nil_or_concat after with rfl | ⟨after', last, rfl⟩
  · obtain ⟨hb, he⟩ := List.append_inj' h rfl
    exact Or.inl ⟨hb.symm, (List.cons.inj he).1.symm⟩
  · rw [List.concat_eq_append, ← List.cons_append, ← List.append_assoc] at h
    exact Or.inr ⟨after', (List.append_inj' h rfl).1⟩

theorem streamOf_before_le {events before after : List RxEvent} {e : RxEvent}
    (h : events = before ++ e :: after) :
    (streamOf before).length ≤ (streamOf events).length := by
  rw [h]
  simp [streamOf]

theorem slice_append_left {xs : List UInt8} (ys : List UInt8) {start n : Nat}
    (h : start + n ≤ xs.length) : slice (xs ++ ys) start n = slice xs start n := by
  rw [slice, slice, List.drop_append_of_le_length (by omega),
    List.take_append_of_le_length (by rw [List.length_drop]; omega)]

/-- Where a message in progress may have started: nothing dropped it since. -/
def OpenStart (events : List RxEvent) (start : Nat) : Prop :=
  HeaderInPacket events start ∧
    ∀ before event after, events = before ++ event :: after → event.Interrupts →
      (streamOf before).length ≤ start

theorem HeaderInPacket.snoc {events : List RxEvent} {start : Nat} (event : RxEvent)
    (h : HeaderInPacket events start) : HeaderInPacket (events ++ [event]) start := by
  obtain ⟨before, pkt, after, hsplit, hbounds⟩ := h
  exact ⟨before, pkt, after ++ [event], by rw [hsplit]; simp, hbounds⟩

theorem Block.In.snoc {events : List RxEvent} {b : Block} (event : RxEvent) (h : b.In events)
    (hstop : b.stop ≤ (streamOf events).length) : b.In (events ++ [event]) := by
  refine ⟨?_, h.header.snoc event, fun before e after hsplit hint => ?_⟩
  · rw [streamOf_snoc, slice_append_left _ hstop]
    exact h.bytes
  · rcases snoc_split hsplit with ⟨rfl, -⟩ | ⟨after', hevents⟩
    · omega
    · exact h.unbroken before e after' hevents hint

theorem OpenStart.snoc {events : List RxEvent} {start : Nat} {event : RxEvent}
    (h : OpenStart events start) (hint : ¬ event.Interrupts) :
    OpenStart (events ++ [event]) start := by
  refine ⟨h.1.snoc event, fun before e after hsplit he => ?_⟩
  rcases snoc_split hsplit with ⟨-, rfl⟩ | ⟨after', hevents⟩
  · exact absurd he hint
  · exact h.2 before e after' hevents he

/-- A header that lies in the last packet may start a message. -/
theorem openStart_last {events : List RxEvent} {event : RxEvent} {start : Nat}
    (hlo : (streamOf events).length ≤ start)
    (hhi : start + 4 ≤ (streamOf (events ++ [event])).length) :
    OpenStart (events ++ [event]) start := by
  rw [streamOf_snoc, List.length_append] at hhi
  constructor
  · cases event with
    | packet pkt => exact ⟨events, pkt, [], rfl, hlo, hhi⟩
    | reset =>
      simp only [RxEvent.body, List.length_nil] at hhi
      omega
  · intro before e after hsplit _
    rcases snoc_split hsplit with ⟨rfl, -⟩ | ⟨after', hevents⟩
    · exact hlo
    · exact Nat.le_trans (streamOf_before_le hevents) hlo

/-- The state before the last body is read: what the packet's start left open. -/
theorem OpenAt.snoc {events : List RxEvent} {lo : Nat} {state : Option PartialMsg}
    (event : RxEvent)
    (h : OpenAt (streamOf events) (OpenStart events) lo (streamOf events).length state) :
    OpenAt (streamOf (events ++ [event])) (OpenStart (events ++ [event])) lo
      (streamOf events).length (if event.Interrupts then none else state) := by
  by_cases hint : event.Interrupts
  · rw [if_pos hint]
    exact h.le
  · rw [if_neg hint]
    cases state with
    | none => exact h
    | some p =>
      obtain ⟨start, hlo, hstart, hat, hslice⟩ := h
      refine ⟨start, hlo, hstart.snoc hint, hat, ?_⟩
      rw [streamOf_snoc, slice_append_left _ (Nat.le_of_eq hat)]
      exact hslice

/-- The blocks of a run so far, all before `hi`, and the message in progress after it. -/
structure Traced (events : List RxEvent) (blocks : List Block) (hi : Nat) : Prop where
  msgs : blocks.map Block.msg = (parseRun none events).2
  disjoint : blocks.Pairwise fun a b => a.stop ≤ b.start
  blocks_in : ∀ b ∈ blocks, b.In events ∧ b.stop ≤ hi
  open_at : OpenAt (streamOf events) (OpenStart events) hi (streamOf events).length
    (parseRun none events).1

theorem traced_snoc {events : List RxEvent} {blocks : List Block} {hi : Nat}
    (h : Traced events blocks hi) (event : RxEvent) :
    ∃ blocks' hi', Traced (events ++ [event]) blocks' hi' := by
  have hdrop : (streamOf (events ++ [event])).drop (streamOf events).length = event.body := by
    rw [streamOf_snoc, List.drop_left]
  have hlen : (streamOf events).length ≤ (streamOf (events ++ [event])).length := by
    rw [streamOf_snoc, List.length_append]
    omega
  obtain ⟨new, hi', hmsgs, hchain, hopen⟩ := parse_chain _ _ hdrop hlen (h.open_at.snoc event)
    fun start hlo hhi => openStart_last hlo hhi
  obtain ⟨hpair, hle, hmem⟩ := hchain.mem
  have hrun : parseRun none (events ++ [event]) =
      ((parseEvent (parseRun none events).1 event).1,
        (parseRun none events).2 ++ (parseEvent (parseRun none events).1 event).2) := by
    rw [parseRun_append, parseRun_cons]
    simp [parseRun, Machine.answers]
  rw [← parseEvent_eq] at hmsgs hopen
  refine ⟨blocks ++ new, hi', ⟨?_, ?_, fun b hb => ?_, ?_⟩⟩
  · rw [List.map_append, h.msgs, hmsgs, hrun]
  · refine List.pairwise_append.mpr ⟨h.disjoint, hpair, fun a ha b hb => ?_⟩
    exact Nat.le_trans (h.blocks_in a ha).2 (hmem b hb).1
  · rcases List.mem_append.mp hb with hold | hnew
    · obtain ⟨hin, hstop⟩ := h.blocks_in b hold
      exact ⟨hin.snoc event (Nat.le_trans hstop h.open_at.le), Nat.le_trans hstop hle⟩
    · obtain ⟨-, hstop, hstart, hslice⟩ := hmem b hnew
      refine ⟨⟨hslice, hstart.1, fun before e after hsplit he => ?_⟩, hstop⟩
      have hbefore := hstart.2 before e after hsplit he
      omega
  · rw [hrun]
    exact hopen

theorem exists_traced (events : List RxEvent) : ∃ blocks hi, Traced events blocks hi := by
  induction events using List.reverseRecOn with
  | nil => exact ⟨[], 0, rfl, .nil, by simp, Nat.le_refl 0⟩
  | append_singleton events event ih =>
    obtain ⟨blocks, hi, h⟩ := ih
    exact traced_snoc h event

/-- The receiver invents nothing: what it hands over, for any packets and resets, are
disjoint blocks of the byte stream in order, each the encoding of its message, with
its header in one packet and nothing in between that drops a message. -/
theorem received_are_blocks (events : List RxEvent) :
    ∃ blocks : List Block,
      blocks.map Block.msg = (rxRun RxCtx.init events).2.map BleMsg.wire ∧
      blocks.Pairwise (fun a b => a.stop ≤ b.start) ∧ ∀ b ∈ blocks, b.In events := by
  obtain ⟨blocks, hi, h⟩ := exists_traced events
  refine ⟨blocks, ?_, h.disjoint, fun b hb => (h.blocks_in b hb).1⟩
  rw [h.msgs, (rxRun_refines events represents_init).2]

end MinimalWatch.Ble
