import MinimalWatch.Ble.Connection
import MinimalWatch.Ble.Fifo
import MinimalWatch.Ble.Fragmentation
import MinimalWatch.Ble.Response

/-! The receiving side of ble_manager.c, from the write of the phone to the watch. The
callbacks run on the thread of the stack: `mw_rx_write_cb` parses a packet and adds the
messages in it one at a time, `connected` and `disconnected` reset the parser.
`process_rx_buffers` runs on the maintenance thread and takes the messages out into one
record on its stack. A ledger beside the run counts what was received, what left the FIFO
and what was handled. -/

namespace MinimalWatch.Ble
open Firmware

/-! ### The two threads -/

/-- The write callback, with its answer; `len` is the length the stack gives for `buf`. -/
def mwRxWriteCb (ctx : RxCtx) (buf : Option (List UInt8)) (len : Nat) :
    (RxCtx × List BleMsg) × Nat :=
  match buf with
  | none => ((ctx, []), len)
  | some bytes =>
    if len = 0 then ((ctx, []), len) else (bleRetrievePacket ctx (bytes.take len), len)

inductive ReaderPc
  | idle
  /-- At the condition of the loop. -/
  | fetching
  /-- In its body, with a message in the record. -/
  | handling
  deriving DecidableEq, Repr

structure Inbox where
  manager : BleManager
  fifos : BleFifos
  /-- What the parser has still to add of the packet in hand. -/
  toAdd : List BleMsg
  /-- `msg` of `process_rx_buffers`. -/
  msg : BleMsg
  pc : ReaderPc
  watch : Watch

def Inbox.init (watch : Watch) : Inbox := ⟨.init, .init, [], .zero, .idle, watch⟩

inductive InboxAction
  | connected (conn : BtConn) (err : UInt8)
  | disconnected (conn : BtConn) (reason : UInt8)
  | write (buf : Option (List UInt8)) (len : Nat)
  | add
  /-- The call of `process_rx_buffers`, with what its stack holds. -/
  | process (stack : BleMsg)
  | fetch
  | handle (frame : Frame)
  /-- Another thread changes the watch. -/
  | others (change : Watch → Watch)

namespace Inbox

def write (s : Inbox) (buf : Option (List UInt8)) (len : Nat) : Inbox :=
  let (ctx, msgs) := (mwRxWriteCb s.manager.rxCtx buf len).1
  { s with manager := { s.manager with rxCtx := ctx }, toAdd := msgs }

def fetch (s : Inbox) : Inbox :=
  match getNextBleMsg s.fifos (some s.msg) .rx with
  | (fifos, out, ok) =>
    { s with
      fifos := fifos
      msg := out.getD s.msg
      pc := if ok then .handling else .idle }

end Inbox

/-- The callbacks of the stack follow each other; the maintenance thread comes between any
two of their calls on the FIFO. -/
def inboxStep (s : Inbox) : InboxAction → Option Inbox
  | .connected conn err =>
    if s.toAdd = [] then some { s with manager := s.manager.connected conn err } else none
  | .disconnected conn reason =>
    if s.toAdd = [] then some { s with manager := s.manager.disconnected conn reason } else none
  | .write buf len => if s.toAdd = [] then some (s.write buf len) else none
  | .add =>
    match s.toAdd with
    | [] => none
    | msg :: rest =>
      some { s with fifos := (addBleMsgToQueue s.fifos (some msg) .rx).1, toAdd := rest }
  | .process stack => if s.pc = .idle then some { s with msg := stack, pc := .fetching } else none
  | .fetch => if s.pc = .fetching then some s.fetch else none
  | .handle frame =>
    if s.pc = .handling then
      some { s with watch := handleBleResponse s.watch frame s.msg, pc := .fetching }
    else none
  | .others change => some { s with watch := change s.watch }

/-- What a step does. -/
inductive InboxMove (s : Inbox) : InboxAction → Inbox → Prop
  | connected (conn : BtConn) (err : UInt8) (hnone : s.toAdd = []) :
      InboxMove s (.connected conn err) { s with manager := s.manager.connected conn err }
  | disconnected (conn : BtConn) (reason : UInt8) (hnone : s.toAdd = []) :
      InboxMove s (.disconnected conn reason)
        { s with manager := s.manager.disconnected conn reason }
  | write (buf : Option (List UInt8)) (len : Nat) (hnone : s.toAdd = []) :
      InboxMove s (.write buf len) (s.write buf len)
  | add {msg : BleMsg} {rest : List BleMsg} (hmsgs : s.toAdd = msg :: rest) :
      InboxMove s .add
        { s with fifos := (addBleMsgToQueue s.fifos (some msg) .rx).1, toAdd := rest }
  | process (stack : BleMsg) (hpc : s.pc = .idle) :
      InboxMove s (.process stack) { s with msg := stack, pc := .fetching }
  | leave (hpc : s.pc = .fetching) (hnil : s.fifos.held .rx = []) :
      InboxMove s .fetch { s with pc := .idle }
  | take {w : WireMsg} {rest : List WireMsg} (hpc : s.pc = .fetching)
      (hcons : s.fifos.held .rx = w :: rest) (fifos : BleFifos) (out : BleMsg)
      (hheld : fifos.held .rx = rest) (hout : out.wire = w) :
      InboxMove s .fetch { s with fifos := fifos, msg := out, pc := .handling }
  | handle (frame : Frame) (hpc : s.pc = .handling) :
      InboxMove s (.handle frame)
        { s with watch := handleBleResponse s.watch frame s.msg, pc := .fetching }
  | others (change : Watch → Watch) :
      InboxMove s (.others change) { s with watch := change s.watch }

theorem inboxStep_move {s s' : Inbox} {action : InboxAction}
    (h : inboxStep s action = some s') : InboxMove s action s' := by
  cases action with
  | connected conn err =>
    obtain ⟨hnone, ⟨⟩⟩ := Option.ite_none_right_eq_some.mp h
    exact .connected conn err hnone
  | disconnected conn reason =>
    obtain ⟨hnone, ⟨⟩⟩ := Option.ite_none_right_eq_some.mp h
    exact .disconnected conn reason hnone
  | write buf len =>
    obtain ⟨hnone, ⟨⟩⟩ := Option.ite_none_right_eq_some.mp h
    exact .write buf len hnone
  | add =>
    cases hmsgs : s.toAdd with
    | nil => simp [inboxStep, hmsgs] at h
    | cons msg rest =>
      simp only [inboxStep, hmsgs] at h
      exact Option.some.inj h ▸ .add hmsgs
  | process stack =>
    obtain ⟨hpc, ⟨⟩⟩ := Option.ite_none_right_eq_some.mp h
    exact .process stack hpc
  | fetch =>
    obtain ⟨hpc, ⟨⟩⟩ := Option.ite_none_right_eq_some.mp h
    cases hheld : s.fifos.held .rx with
    | nil =>
      have hget := getNextBleMsg_nil s.fifos s.msg .rx hheld
      simp only [Inbox.fetch, hget, Option.getD_some, Bool.false_eq_true, ↓reduceIte]
      exact .leave hpc hheld
    | cons w rest =>
      obtain ⟨fifos, out, hget, hrest, hout⟩ := getNextBleMsg_cons s.fifos s.msg .rx hheld
      simp only [Inbox.fetch, hget, Option.getD_some, ↓reduceIte]
      exact .take hpc hheld fifos out hrest hout
  | handle frame =>
    obtain ⟨hpc, ⟨⟩⟩ := Option.ite_none_right_eq_some.mp h
    exact .handle frame hpc
  | others change => exact Option.some.inj h ▸ .others change

/-! ### The ledger -/

structure Ledger where
  /-- The packets written and the resets made. -/
  events : List RxEvent
  /-- The messages that left the FIFO; `true` stands for those that the loop took. -/
  left : List (WireMsg × Bool)
  handled : List (WireMsg × Frame)

namespace Ledger

def init : Ledger := ⟨[], [], []⟩

def mark (taken : Bool) (ws : List WireMsg) : List (WireMsg × Bool) :=
  ws.map fun w => (w, taken)

/-- The bytes that the callback passes on. -/
def written (buf : Option (List UInt8)) (len : Nat) : List UInt8 := buf.elim [] (List.take len)

def next (s : Inbox) (action : InboxAction) (_ : Inbox) (l : Ledger) : Ledger :=
  match action with
  | .connected _ err =>
    if err = 0 ∧ s.manager.bleConn = none then { l with events := l.events ++ [.reset] } else l
  | .disconnected _ _ => { l with events := l.events ++ [.reset] }
  | .write buf len =>
    if written buf len = [] then l else { l with events := l.events ++ [.packet (written buf len)] }
  | .add =>
    if (s.fifos.held .rx).length = bleFifoCapacity then
      { l with left := l.left ++ mark false ((s.fifos.held .rx).take 1) }
    else l
  | .fetch => { l with left := l.left ++ mark true ((s.fifos.held .rx).take 1) }
  | .handle frame => { l with handled := l.handled ++ [(s.msg.wire, frame)] }
  | _ => l

def taken (l : Ledger) : List WireMsg := (l.left.filter Prod.snd).map Prod.fst

@[simp] theorem mark_fst (taken : Bool) (ws : List WireMsg) : (mark taken ws).map Prod.fst = ws := by
  simp [mark, Function.comp_def]

@[simp] theorem mark_taken (taken : Bool) (ws : List WireMsg) :
    ((mark taken ws).filter Prod.snd).map Prod.fst = if taken then ws else [] := by
  cases taken <;> simp [mark, List.filter_map, Function.comp_def]

end Ledger

abbrev ledgerStep : Inbox × Ledger → InboxAction → Option (Inbox × Ledger) :=
  Machine.recording inboxStep Ledger.next

def ledgerInit (watch : Watch) : Inbox × Ledger := (.init watch, .init)

/-- The message in the record while its handler has not run. -/
def Inbox.inHand (s : Inbox) : List WireMsg := if s.pc = .handling then [s.msg.wire] else []

theorem Inbox.inHand_handling {s : Inbox} (h : s.pc = .handling) : s.inHand = [s.msg.wire] :=
  if_pos h

theorem Inbox.inHand_other {s : Inbox} (h : s.pc ≠ .handling) : s.inHand = [] := if_neg h

/-- The books balance: the messages in the packets are those that left the FIFO, those on it
and those still to be added, in this order, and the handler was called for those that the
loop took, in this order. -/
structure Balanced (s : Inbox × Ledger) : Prop where
  parser : s.1.manager.rxCtx.Represents (parseRun none s.2.events).1
  received : (parseRun none s.2.events).2 =
    s.2.left.map Prod.fst ++ s.1.fifos.held .rx ++ s.1.toAdd.map BleMsg.wire
  taken : s.2.taken = s.2.handled.map Prod.fst ++ s.1.inHand

/-- An add finds a free slot. -/
def FindsRoom (s : Inbox) : InboxAction → Prop
  | .add => (s.fifos.held .rx).length < bleFifoCapacity
  | _ => True

instance (s : Inbox) (action : InboxAction) : Decidable (FindsRoom s action) :=
  match action with
  | .add => inferInstanceAs (Decidable ((s.fifos.held .rx).length < bleFifoCapacity))
  | .connected _ _ => inferInstanceAs (Decidable True)
  | .disconnected _ _ => inferInstanceAs (Decidable True)
  | .write _ _ => inferInstanceAs (Decidable True)
  | .process _ => inferInstanceAs (Decidable True)
  | .fetch => inferInstanceAs (Decidable True)
  | .handle _ => inferInstanceAs (Decidable True)
  | .others _ => inferInstanceAs (Decidable True)

def NothingEvicted (s : Inbox × Ledger) : Prop := ∀ p ∈ s.2.left, p.2 = true

theorem balanced_init (watch : Watch) : Balanced (ledgerInit watch) where
  parser := represents_init
  received := by
    have hheld := BleFifos.init_held .rx
    simp only [ledgerInit, Inbox.init, Ledger.init, hheld]
    rfl
  taken := rfl

theorem mwRxWriteCb_eq (ctx : RxCtx) (buf : Option (List UInt8)) (len : Nat) :
    (mwRxWriteCb ctx buf len).1 = bleRetrievePacket ctx (Ledger.written buf len) := by
  cases buf with
  | none => rfl
  | some bytes =>
    rw [mwRxWriteCb]
    split_ifs with hlen
    · simp [Ledger.written, hlen, bleRetrievePacket]
    · rfl

/-- What an event adds to what was parsed. -/
theorem parseRun_snoc (events : List RxEvent) (event : RxEvent) :
    parseRun none (events ++ [event]) =
      ((parseEvent (parseRun none events).1 event).1,
        (parseRun none events).2 ++ (parseEvent (parseRun none events).1 event).2) := by
  rw [parseRun_append, parseRun_cons]
  simp [parseRun, Machine.answers]

theorem parseRun_reset (events : List RxEvent) :
    parseRun none (events ++ [.reset]) = (none, (parseRun none events).2) := by
  rw [parseRun_snoc]
  simp [parseEvent]

theorem Ledger.taken_append (l : Ledger) (more : List (WireMsg × Bool)) :
    Ledger.taken { l with left := l.left ++ more } =
      l.taken ++ (more.filter Prod.snd).map Prod.fst := by
  simp [Ledger.taken]

section Steps
variable {s : Inbox} {l : Ledger} (h : Balanced (s, l))
include h

theorem Balanced.connected (conn : BtConn) (err : UInt8) (s' : Inbox) :
    Balanced ({ s with manager := s.manager.connected conn err },
      Ledger.next s (.connected conn err) s' l) := by
  simp only [Ledger.next, BleManager.connected]
  by_cases herr : err = 0
  · cases hconn : s.manager.bleConn with
    | none =>
      rw [if_neg (by simp [herr]), if_pos ⟨herr, rfl⟩]
      refine ⟨?_, ?_, h.taken⟩
      · simp only [parseRun_reset]
        exact represents_reset _
      · simp only [parseRun_reset]
        exact h.received
    | some c =>
      rw [if_neg (by simp [herr]), if_neg (by simp)]
      exact ⟨h.parser, h.received, h.taken⟩
  · rw [if_pos herr, if_neg (by simp [herr])]
    exact ⟨h.parser, h.received, h.taken⟩

theorem Balanced.disconnected (conn : BtConn) (reason : UInt8) (s' : Inbox) :
    Balanced ({ s with manager := s.manager.disconnected conn reason },
      Ledger.next s (.disconnected conn reason) s' l) := by
  refine ⟨?_, ?_, h.taken⟩
  · simp only [Ledger.next, parseRun_reset]
    exact represents_reset _
  · simp only [Ledger.next, parseRun_reset]
    exact h.received

theorem Balanced.write (buf : Option (List UInt8)) (len : Nat) (s' : Inbox)
    (hnone : s.toAdd = []) :
    Balanced (s.write buf len, Ledger.next s (.write buf len) s' l) := by
  obtain ⟨hrep, hout⟩ := bleRetrievePacket_refines (Ledger.written buf len) h.parser
  have hreceived := h.received
  simp only [hnone, List.map_nil, List.append_nil] at hreceived
  simp only [Ledger.next]
  split_ifs with hempty
  · rw [hempty] at hrep hout
    refine ⟨?_, ?_, h.taken⟩
    · simp only [Inbox.write, mwRxWriteCb_eq, hempty]
      exact hrep
    · simp only [Inbox.write, mwRxWriteCb_eq, hempty]
      rw [hreceived, hout]
      exact (List.append_nil _).symm
  · refine ⟨?_, ?_, h.taken⟩
    · simp only [parseRun_snoc, Inbox.write, mwRxWriteCb_eq]
      exact hrep
    · simp only [parseRun_snoc, Inbox.write, mwRxWriteCb_eq, parseEvent]
      rw [hreceived, hout]

theorem Balanced.add (s' : Inbox) {msg : BleMsg} {rest : List BleMsg}
    (hmsgs : s.toAdd = msg :: rest) :
    Balanced ({ s with fifos := (addBleMsgToQueue s.fifos (some msg) .rx).1, toAdd := rest },
      Ledger.next s .add s' l) := by
  have hsplit := RingBuffer.pushBounded_split bleFifoCapacity (s.fifos.held .rx) msg.wire
  have hreceived := h.received
  rw [hmsgs, List.map_cons, List.append_cons, List.append_assoc (l.left.map Prod.fst), ← hsplit]
    at hreceived
  simp only [Ledger.next]
  split_ifs at hreceived ⊢ with hfull
  · refine ⟨h.parser, ?_, ?_⟩
    · simp only [addBleMsgToQueue_held, List.map_append, Ledger.mark_fst]
      rw [hreceived]
      simp only [List.append_assoc]
    · rw [Ledger.taken_append, Ledger.mark_taken, if_neg (by simp), List.append_nil]
      exact h.taken
  · refine ⟨h.parser, ?_, h.taken⟩
    simp only [addBleMsgToQueue_held]
    exact hreceived

theorem Balanced.process (stack : BleMsg) (hpc : s.pc = .idle) :
    Balanced ({ s with msg := stack, pc := .fetching }, l) := by
  have htaken := h.taken
  rw [Inbox.inHand_other (by simp [hpc])] at htaken
  exact ⟨h.parser, h.received, htaken⟩

theorem Balanced.leave (hpc : s.pc = .fetching) (hnil : s.fifos.held .rx = []) (s' : Inbox) :
    Balanced ({ s with pc := .idle }, Ledger.next s .fetch s' l) := by
  have htaken := h.taken
  rw [Inbox.inHand_other (by simp [hpc])] at htaken
  simp only [Ledger.next, hnil, List.take_nil, Ledger.mark, List.map_nil, List.append_nil]
  exact ⟨h.parser, h.received, htaken⟩

theorem Balanced.take {w : WireMsg} {rest : List WireMsg} (hpc : s.pc = .fetching)
    (hcons : s.fifos.held .rx = w :: rest) (s' : Inbox) {fifos : BleFifos} {out : BleMsg}
    (hheld : fifos.held .rx = rest) (hout : out.wire = w) :
    Balanced ({ s with fifos := fifos, msg := out, pc := .handling },
      Ledger.next s .fetch s' l) := by
  have htaken := h.taken
  rw [Inbox.inHand_other (by simp [hpc]), List.append_nil] at htaken
  simp only [Ledger.next, hcons, List.take_succ_cons, List.take_zero]
  refine ⟨h.parser, ?_, ?_⟩
  · rw [h.received, hcons, hheld]
    simp
  · rw [Ledger.taken_append, htaken, Ledger.mark_taken, Inbox.inHand_handling rfl, hout, if_pos rfl]

theorem Balanced.handle (frame : Frame) (hpc : s.pc = .handling) (s' : Inbox) (watch : Watch) :
    Balanced ({ s with watch := watch, pc := .fetching }, Ledger.next s (.handle frame) s' l) := by
  have htaken := h.taken
  rw [Inbox.inHand_handling hpc] at htaken
  refine ⟨h.parser, h.received, ?_⟩
  rw [Inbox.inHand_other (by simp)]
  change l.taken = (l.handled ++ [(s.msg.wire, frame)]).map Prod.fst ++ []
  rw [htaken]
  simp

end Steps

/-- What one step does to the books. -/
theorem balanced_step {s s' : Inbox × Ledger} {action : InboxAction} (h : Balanced s)
    (hstep : ledgerStep s action = some s') : Balanced s' := by
  obtain ⟨s, l⟩ := s
  obtain ⟨t, ht, rfl⟩ := Machine.recording_some _ _ hstep
  cases inboxStep_move ht with
  | connected conn err _ => exact h.connected conn err _
  | disconnected conn reason _ => exact h.disconnected conn reason _
  | write buf len hnone => exact h.write buf len _ hnone
  | add hmsgs => exact h.add _ hmsgs
  | process stack hpc => exact h.process stack hpc
  | leave hpc hnil => exact h.leave hpc hnil _
  | take hpc hcons fifos out hheld hout => exact h.take hpc hcons _ hheld hout
  | handle frame hpc => exact h.handle frame hpc _ _
  | others change => exact ⟨h.parser, h.received, h.taken⟩

theorem nothingEvicted_step {s s' : Inbox × Ledger} {action : InboxAction}
    (h : NothingEvicted s) (hroom : FindsRoom s.1 action) (hstep : ledgerStep s action = some s') :
    NothingEvicted s' := by
  obtain ⟨t, -, rfl⟩ := Machine.recording_some _ _ hstep
  intro p hp
  cases action with
  | connected conn err =>
    simp only [Ledger.next] at hp
    split_ifs at hp
    · exact h p hp
    · exact h p hp
  | write buf len =>
    simp only [Ledger.next] at hp
    split_ifs at hp
    · exact h p hp
    · exact h p hp
  | add =>
    have hlt : (s.1.fifos.held .rx).length < bleFifoCapacity := hroom
    simp only [Ledger.next, if_neg (Nat.ne_of_lt hlt)] at hp
    exact h p hp
  | fetch =>
    rcases List.mem_append.mp hp with hold | hnew
    · exact h p hold
    · obtain ⟨w, -, rfl⟩ := List.mem_map.mp hnew
      rfl
  | _ => exact h p hp

theorem evicted_step {s s' : Inbox × Ledger} {action : InboxAction}
    (hfull : ¬ FindsRoom s.1 action) (hstep : ledgerStep s action = some s') :
    ¬ NothingEvicted s' := by
  obtain ⟨t, -, rfl⟩ := Machine.recording_some _ _ hstep
  intro h
  cases action with
  | add =>
    have hle := s.1.fifos.held_length_le .rx
    have hlen : (s.1.fifos.held .rx).length = bleFifoCapacity :=
      Nat.le_antisymm hle (Nat.not_lt.mp hfull)
    obtain ⟨w, rest, hcons⟩ := List.exists_cons_of_length_eq_add_one
      (hlen.trans (by rfl : bleFifoCapacity = 18 + 1))
    have hmem : (w, false) ∈ (Ledger.next s.1 .add t s.2).left := by
      simp only [Ledger.next]
      rw [if_pos hlen, hcons]
      simp [Ledger.mark]
    exact Bool.false_ne_true (h _ hmem)
  | _ => exact hfull trivial

/-- At every moment of every run, whatever the phone writes, however the link comes and goes,
and wherever the threads stand, each message of the packets is handled exactly once, or is on
its way, or was evicted, in the order of the packets; and none is evicted exactly when every
add finds a free slot. -/
theorem inbox_accounts (watch : Watch) (actions : List InboxAction) :
    Machine.Always ledgerStep Balanced (ledgerInit watch) actions ∧
      (Machine.Always ledgerStep NothingEvicted (ledgerInit watch) actions ↔
        Machine.EachStep ledgerStep (fun s => FindsRoom s.1) (ledgerInit watch) actions) := by
  constructor
  · exact Machine.always_of_invariant actions (balanced_init watch)
      fun _ _ _ h hstep => balanced_step h hstep
  · exact Machine.always_iff_eachStep (fun _ hp => absurd hp List.not_mem_nil) (fun _ h => h)
      (fun _ _ _ h hroom hstep => nothingEvicted_step h hroom hstep)
      (fun _ _ _ _ hfull hstep => evicted_step hfull hstep)

end MinimalWatch.Ble
