import MinimalWatch.Ble.Types
import MinimalWatch.Lib.Machine
import MinimalWatch.Lib.RingBuffer

/-! The two message FIFOs of ble_fifo.c, one for each direction. The rings are
`RingBuffer`s; `queues` reads off the messages they hold, oldest first, as wire
messages. Every call is one critical section, so a run is a list of calls. -/

namespace MinimalWatch.Ble
open Firmware

abbrev BleFifo := RingBuffer BleMsg bleFifoSize

structure BleFifos where
  bleTxFifo : BleFifo
  bleRxFifo : BleFifo

namespace BleFifos

/-- The two static FIFOs before their first use. -/
def init : BleFifos :=
  ⟨.fresh bleFifoSize (by decide) BleMsg.zero, .fresh bleFifoSize (by decide) BleMsg.zero⟩

def ring (fifos : BleFifos) : BleCommType → BleFifo
  | .tx => fifos.bleTxFifo
  | .rx => fifos.bleRxFifo

def setRing (fifos : BleFifos) (type : BleCommType) (ring : BleFifo) : BleFifos :=
  match type with
  | .tx => { fifos with bleTxFifo := ring }
  | .rx => { fifos with bleRxFifo := ring }

@[simp] theorem ring_setRing (fifos : BleFifos) (type : BleCommType) (r : BleFifo) :
    (fifos.setRing type r).ring type = r := by
  cases type <;> rfl

theorem ring_setRing_ne (fifos : BleFifos) {type other : BleCommType} (r : BleFifo)
    (h : other ≠ type) : (fifos.setRing type r).ring other = fifos.ring other := by
  cases type <;> cases other <;> first | rfl | exact absurd rfl h

end BleFifos

/-- The record assignment and the `memcpy` of `len` bytes into a slot. -/
def storeMsg (msg slot : BleMsg) : BleMsg := ⟨msg.hdr, slot.payload.blit 0 msg.body⟩

@[simp] theorem storeMsg_wire (msg slot : BleMsg) : (storeMsg msg slot).wire = msg.wire :=
  msg.wire_blit slot.payload

def addBleMsgToQueue (fifos : BleFifos) (msg : Option BleMsg) (type : BleCommType) :
    BleFifos × Bool :=
  match msg with
  | none => (fifos, false)
  | some msg =>
    if msg.hdr.len.toNat > maxBlePayloadSize then (fifos, false)
    else
      let fifo := fifos.ring type
      -- discarding oldest messages
      let fifo := if fifo.isFull then fifo.advanceRead else fifo
      (fifos.setRing type (fifo.store (storeMsg msg)), true)

/-- The answer and what the caller's record holds afterwards. A NULL record discards
the pop and answers true, as the source documents. -/
def getNextBleMsg (fifos : BleFifos) (outMsg : Option BleMsg) (type : BleCommType) :
    BleFifos × Option BleMsg × Bool :=
  match outMsg with
  | none => (fifos, none, true)
  | some out =>
    let fifo := fifos.ring type
    if fifo.isEmpty then (fifos, some out, false)
    else (fifos.setRing type fifo.advanceRead, some (storeMsg fifo.front out), true)

/-! What the two calls do to the held messages. -/

def BleFifos.held (fifos : BleFifos) (type : BleCommType) : List WireMsg :=
  (fifos.ring type).contents.map BleMsg.wire

@[simp] theorem BleFifos.init_held (type : BleCommType) : BleFifos.init.held type = [] := by
  cases type <;> simp [BleFifos.held, BleFifos.init, BleFifos.ring]

/-- The capacity of a direction: one slot of the ring stays free. -/
def bleFifoCapacity : Nat := bleFifoSize - 1

theorem BleFifos.held_length_le (fifos : BleFifos) (type : BleCommType) :
    (fifos.held type).length ≤ bleFifoCapacity := by
  rw [BleFifos.held, List.length_map, RingBuffer.contents_length]
  exact Nat.le_pred_of_lt (fifos.ring type).count_lt

theorem addBleMsgToQueue_ok (fifos : BleFifos) (msg : BleMsg) (type : BleCommType) :
    (addBleMsgToQueue fifos (some msg) type).2 = true := by
  have h := len_le_size msg.hdr.len
  rw [addBleMsgToQueue, if_neg (by omega)]

theorem addBleMsgToQueue_other (fifos : BleFifos) (msg : Option BleMsg)
    {type other : BleCommType} (h : other ≠ type) :
    (addBleMsgToQueue fifos msg type).1.ring other = fifos.ring other := by
  cases msg with
  | none => rfl
  | some msg =>
    simp only [addBleMsgToQueue]
    split
    · rfl
    · exact fifos.ring_setRing_ne _ h

theorem addBleMsgToQueue_held (fifos : BleFifos) (msg : BleMsg) (type : BleCommType) :
    (addBleMsgToQueue fifos (some msg) type).1.held type =
      RingBuffer.pushBounded bleFifoCapacity (fifos.held type) msg.wire := by
  have hlen := len_le_size msg.hdr.len
  have hcount := (fifos.ring type).count_lt
  have hcap : bleFifoCapacity + 1 = bleFifoSize := rfl
  have hpos : 0 < bleFifoCapacity := by decide
  rw [addBleMsgToQueue, if_neg (by omega)]
  simp only [BleFifos.held, BleFifos.ring_setRing, RingBuffer.pushBounded, List.length_map,
    RingBuffer.contents_length]
  have hfull_iff := (fifos.ring type).isFull_iff
  rw [RingBuffer.contents_length] at hfull_iff
  by_cases hfull : (fifos.ring type).isFull = true
  · have hroom := hfull_iff.mp hfull
    have hadv := (fifos.ring type).count_advanceRead (by omega)
    have hcons := (fifos.ring type).contents_eq_cons (by omega)
    rw [if_pos hfull, if_pos (by omega), RingBuffer.contents_store _ _ (by omega), hcons]
    simp
  · have hroom := mt hfull_iff.mpr hfull
    rw [if_neg hfull, if_neg (by omega), RingBuffer.contents_store _ _ (by omega)]
    simp

theorem getNextBleMsg_other (fifos : BleFifos) (out : Option BleMsg)
    {type other : BleCommType} (h : other ≠ type) :
    (getNextBleMsg fifos out type).1.ring other = fifos.ring other := by
  cases out with
  | none => rfl
  | some out =>
    simp only [getNextBleMsg]
    split
    · rfl
    · exact fifos.ring_setRing_ne _ h

/-- On an empty direction nothing changes, the caller's record included. -/
theorem getNextBleMsg_nil (fifos : BleFifos) (out : BleMsg) (type : BleCommType)
    (h : fifos.held type = []) :
    getNextBleMsg fifos (some out) type = (fifos, some out, false) := by
  have hempty : (fifos.ring type).isEmpty = true := by
    rw [RingBuffer.isEmpty_iff]
    exact List.map_eq_nil_iff.mp h
  simp [getNextBleMsg, hempty]

theorem getNextBleMsg_cons (fifos : BleFifos) (out : BleMsg) (type : BleCommType)
    {w : WireMsg} {rest : List WireMsg} (h : fifos.held type = w :: rest) :
    ∃ fifos' out', getNextBleMsg fifos (some out) type = (fifos', some out', true) ∧
      fifos'.held type = rest ∧ out'.wire = w := by
  have hpos : 0 < (fifos.ring type).count := by
    rw [← RingBuffer.contents_length, ← List.length_map (f := BleMsg.wire)]
    change 0 < (fifos.held type).length
    rw [h]
    simp
  have hne : ¬ (fifos.ring type).isEmpty = true := by
    rw [RingBuffer.isEmpty_iff, ← List.length_eq_zero_iff, RingBuffer.contents_length]
    omega
  have hcons := (fifos.ring type).contents_eq_cons hpos
  rw [BleFifos.held, hcons, List.map_cons] at h
  obtain ⟨hw, hrest⟩ := List.cons.inj h
  refine ⟨fifos.setRing type (fifos.ring type).advanceRead,
    storeMsg (fifos.ring type).front out, ?_, ?_, ?_⟩
  · simp [getNextBleMsg, hne]
  · rw [BleFifos.held, BleFifos.ring_setRing, hrest]
  · rw [storeMsg_wire, hw]

/-! The pair of FIFOs against a pair of bounded queues of wire messages. -/

inductive FifoCall
  | add (msg : BleMsg) (type : BleCommType)
  | get (out : BleMsg) (type : BleCommType)

def FifoCall.type : FifoCall → BleCommType
  | .add _ type => type
  | .get _ type => type

inductive FifoAnswer
  | added (ok : Bool)
  | got (ok : Bool) (out : Option BleMsg)

def fifoCall (fifos : BleFifos) : FifoCall → BleFifos × FifoAnswer
  | .add msg type =>
    let (fifos', ok) := addBleMsgToQueue fifos (some msg) type
    (fifos', .added ok)
  | .get out type =>
    let (fifos', out', ok) := getNextBleMsg fifos (some out) type
    (fifos', .got ok out')

/-- One queue of wire messages for each direction. -/
abbrev MsgQueues := BleCommType → List WireMsg

inductive QueueAnswer
  | added (ok : Bool)
  | got (msg : Option WireMsg)
  deriving DecidableEq, Repr

/-- The intended meaning of a call: an add always succeeds and evicts the oldest of
a full queue, a get takes the oldest message if there is one. -/
def queueCall (queues : MsgQueues) : FifoCall → MsgQueues × QueueAnswer
  | .add msg type =>
    (Function.update queues type
      (RingBuffer.pushBounded bleFifoCapacity (queues type) msg.wire), .added true)
  | .get _ type =>
    match queues type with
    | [] => (queues, .got none)
    | w :: rest => (Function.update queues type rest, .got (some w))

/-- What an answer says about messages: the record of a failed get says nothing. -/
def FifoAnswer.view : FifoAnswer → QueueAnswer
  | .added ok => .added ok
  | .got ok out => .got (if ok then out.map BleMsg.wire else none)

theorem fifoCall_other (fifos : BleFifos) (call : FifoCall) {other : BleCommType}
    (h : other ≠ call.type) : (fifoCall fifos call).1.ring other = fifos.ring other := by
  cases call with
  | add msg type => exact addBleMsgToQueue_other fifos (some msg) h
  | get out type => exact getNextBleMsg_other fifos (some out) h

theorem held_eq_update {fifos fifos' : BleFifos} {type : BleCommType} {queue : List WireMsg}
    (hsame : fifos'.held type = queue)
    (hother : ∀ other, other ≠ type → fifos'.ring other = fifos.ring other) :
    fifos'.held = Function.update fifos.held type queue := by
  funext other
  by_cases h : other = type
  · subst h
    rw [Function.update_self, hsame]
  · rw [Function.update_of_ne h, BleFifos.held, BleFifos.held, hother other h]

/-- One call on the rings is one call on the queues they hold. -/
theorem fifoCall_refines (fifos : BleFifos) (call : FifoCall) :
    queueCall fifos.held call = ((fifoCall fifos call).1.held, (fifoCall fifos call).2.view) := by
  have hother := @fifoCall_other fifos call
  cases call with
  | add msg type =>
    have hheld := held_eq_update (addBleMsgToQueue_held fifos msg type) fun _ h => hother h
    have hok := addBleMsgToQueue_ok fifos msg type
    simp only [queueCall, fifoCall, FifoAnswer.view, hok]
    rw [hheld]
  | get out type =>
    cases hq : fifos.held type with
    | nil => simp [queueCall, fifoCall, hq, getNextBleMsg_nil fifos out type hq, FifoAnswer.view]
    | cons w rest =>
      obtain ⟨fifos', out', hget, hrest, hw⟩ := getNextBleMsg_cons fifos out type hq
      have hheld := @held_eq_update fifos fifos' type rest hrest fun other h => by
        have hsame := hother h
        simpa [fifoCall, hget] using hsame
      simp [queueCall, fifoCall, hq, hget, FifoAnswer.view, hheld, hw]

/-- For every sequence of calls the two rings behave as two independent bounded
queues of capacity 19 that keep the newest messages: same answers, same messages
held. The indices stay below the ring size, a call on one direction leaves the
other ring alone, and a get is refused, with no change at all, exactly on empty. -/
theorem bleFifos_refine_queues (fifos : BleFifos) (calls : List FifoCall) :
    let reached := (Machine.answers fifoCall fifos calls).1
    Machine.answers queueCall fifos.held calls =
        (reached.held, (Machine.answers fifoCall fifos calls).2.map FifoAnswer.view) ∧
      (∀ type, (reached.ring type).readIdx < bleFifoSize ∧
        (reached.ring type).writeIdx < bleFifoSize) ∧
      (∀ call other, other ≠ call.type →
        (fifoCall reached call).1.ring other = reached.ring other) ∧
      ∀ out type, fifoCall reached (.get out type) = (reached, .got false (some out)) ↔
        reached.held type = [] := by
  intro reached
  refine ⟨Machine.answers_refine BleFifos.held FifoAnswer.view fifoCall_refines fifos calls,
    fun type => ⟨(reached.ring type).read_lt, (reached.ring type).write_lt⟩,
    fun call other h => fifoCall_other reached call h, fun out type => ⟨fun hget => ?_, fun hq => ?_⟩⟩
  · cases hq : reached.held type with
    | nil => rfl
    | cons w rest =>
      obtain ⟨fifos', out', hsome, -, -⟩ := getNextBleMsg_cons reached out type hq
      simp [fifoCall, hsome] at hget
  · simp [fifoCall, getNextBleMsg_nil reached out type hq]

end MinimalWatch.Ble
