import MinimalWatch.Ble.Inbox

/-! From packets to effects. The handler sees of a message what it is on the link, so the
bytes that an earlier message left in the record of `process_rx_buffers` do not count. With
the ledger this gives the whole way: a legal fragmentation of a list of messages, written
while the maintenance thread reads, changes the watch as the messages do one after the
other. -/

namespace MinimalWatch.Ble
open Firmware Firmware.Memory MinimalWatch.App MinimalWatch.Notification

/-! ### The handler and the record -/

theorem parseDateTimePayload_congr {msg msg' : BleMsg} (h : msg.wire = msg'.wire)
    (hlen : msg.hdr.len.toNat = timePayloadLen) (hlen' : msg'.hdr.len.toNat = timePayloadLen) :
    parseDateTimePayload msg.payload.cells = parseDateTimePayload msg'.payload.cells := by
  apply encodeEpoch_inj
  rw [encodeEpoch_parse (hlen ▸ payload_length msg), encodeEpoch_parse (hlen' ▸ payload_length msg'),
    take_payload hlen, take_payload hlen', h]

theorem parseWeatherPayload_congr {msg msg' : BleMsg} (h : msg.wire = msg'.wire)
    (hlen : msg.hdr.len.toNat = weatherPayloadLen)
    (hlen' : msg'.hdr.len.toNat = weatherPayloadLen) :
    parseWeatherPayload msg.payload.cells = parseWeatherPayload msg'.payload.cells := by
  apply WeatherSync.encode_inj
  rw [encode_parseWeatherPayload (hlen ▸ payload_length msg),
    encode_parseWeatherPayload (hlen' ▸ payload_length msg'), take_payload hlen,
    take_payload hlen', h]

/-- Messages that are one on the link have one effect. -/
theorem handleBleResponse_congr (w : Watch) (frame : Frame) {msg msg' : BleMsg}
    (h : msg.wire = msg'.wire) :
    handleBleResponse w frame msg = handleBleResponse w frame msg' := by
  obtain ⟨hhdr, hbody⟩ := (BleMsg.wire_eq_iff msg msg').mp h
  have htake : msg'.payload.cells.take msg'.hdr.len.toNat =
      msg.payload.cells.take msg'.hdr.len.toNat := by
    rw [BleMsg.body, BleMsg.body, hhdr] at hbody
    exact hbody.symm
  rw [handleBleResponse, handleBleResponse]
  simp only [hhdr]
  by_cases htime : msg'.hdr.opcode = bleOpTimeUpdate
  · rw [if_pos htime, if_pos htime]
    split_ifs with hlen
    · rw [parseDateTimePayload_congr h (hhdr ▸ hlen) hlen]
    · rfl
  · rw [if_neg htime, if_neg htime]
    by_cases hlen : msg'.hdr.len.toNat = weatherPayloadLen
    · rw [parseWeatherPayload_congr h (hhdr ▸ hlen) hlen,
        parseNotificationPayload_congr htake frame.notification]
    · simp only [if_neg hlen, parseNotificationPayload_congr htake frame.notification]

/-! ### Runs with the link up and room in the FIFO -/

/-- The connection does not change. -/
def InboxAction.KeepsLink : InboxAction → Prop
  | .connected _ _ => False
  | .disconnected _ _ => False
  | _ => True

def InboxAction.packet : InboxAction → Option (List UInt8)
  | .write buf len =>
    if Ledger.written buf len = [] then none else some (Ledger.written buf len)
  | _ => none

/-- A change of the watch: a message handled on some stack, or another thread's. -/
abbrev Change := (WireMsg × Frame) ⊕ (Watch → Watch)

def Change.apply (w : Watch) : Change → Watch
  | .inl (msg, frame) => handleBleResponse w frame msg.msg
  | .inr change => change w

/-- The change that an action is due to make, without the message. -/
def InboxAction.change : InboxAction → Option (Frame ⊕ (Watch → Watch))
  | .handle frame => some (.inl frame)
  | .others change => some (.inr change)
  | _ => none

/-- What a run adds to the ledger and to the watch. -/
structure Adds (s t : Inbox × Ledger) (actions : List InboxAction) (changes : List Change) :
    Prop where
  events : t.2.events = s.2.events ++ (actions.filterMap InboxAction.packet).map .packet
  left : ∃ out, t.2.left = s.2.left ++ Ledger.mark true out
  handled : t.2.handled = s.2.handled ++ changes.filterMap Sum.getLeft?
  order : changes.map (Sum.map Prod.snd id) = actions.filterMap InboxAction.change
  watch : t.1.watch = changes.foldl Change.apply s.1.watch

theorem Adds.refl (s : Inbox × Ledger) : Adds s s [] [] where
  events := (List.append_nil _).symm
  left := ⟨[], (List.append_nil _).symm⟩
  handled := (List.append_nil _).symm
  order := rfl
  watch := rfl

theorem Adds.trans {s t u : Inbox × Ledger} {first second : List InboxAction}
    {changes changes' : List Change} (h : Adds s t first changes) (h' : Adds t u second changes') :
    Adds s u (first ++ second) (changes ++ changes') := by
  obtain ⟨out, hout⟩ := h.left
  obtain ⟨out', hout'⟩ := h'.left
  refine ⟨?_, ⟨out ++ out', ?_⟩, ?_, ?_, ?_⟩
  · rw [h'.events, h.events]
    simp
  · rw [hout', hout, Ledger.mark, Ledger.mark, Ledger.mark, List.map_append, List.append_assoc]
  · rw [h'.handled, h.handled]
    simp
  · rw [List.map_append, h.order, h'.order, List.filterMap_append]
  · rw [h'.watch, h.watch, List.foldl_append]

/-- One step, the link kept and no add to a full FIFO. -/
theorem adds_step {s t : Inbox × Ledger} {action : InboxAction} (hlink : action.KeepsLink)
    (hroom : FindsRoom s.1 action) (hstep : ledgerStep s action = some t) :
    ∃ changes, Adds s t [action] changes := by
  obtain ⟨s', hs', rfl⟩ := Machine.recording_some _ _ hstep
  have hsame : ∀ ws : List (WireMsg × Bool), ∃ out, ws = ws ++ Ledger.mark true out :=
    fun ws => ⟨[], (List.append_nil _).symm⟩
  cases inboxStep_move hs' with
  | connected conn err _ => exact hlink.elim
  | disconnected conn reason _ => exact hlink.elim
  | write buf len _ =>
    refine ⟨[], ?_, ?_, ?_, rfl, rfl⟩
    · simp only [Ledger.next, InboxAction.packet, List.filterMap_cons, List.filterMap_nil]
      split_ifs <;> simp
    · simp only [Ledger.next]
      split_ifs <;> exact hsame _
    · simp only [Ledger.next]
      split_ifs <;> simp
  | add _ =>
    have hlt : (s.1.fifos.held .rx).length < bleFifoCapacity := hroom
    simp only [Ledger.next, if_neg (Nat.ne_of_lt hlt)]
    exact ⟨[], by simp [InboxAction.packet], hsame _, by simp, rfl, rfl⟩
  | process stack _ => exact ⟨[], by simp [Ledger.next, InboxAction.packet], hsame _,
      by simp [Ledger.next], rfl, rfl⟩
  | leave _ _ => exact ⟨[], by simp [Ledger.next, InboxAction.packet], ⟨_, rfl⟩,
      by simp [Ledger.next], rfl, rfl⟩
  | take _ _ fifos out _ _ => exact ⟨[], by simp [Ledger.next, InboxAction.packet], ⟨_, rfl⟩,
      by simp [Ledger.next], rfl, rfl⟩
  | handle frame _ =>
    refine ⟨[.inl (s.1.msg.wire, frame)], by simp [Ledger.next, InboxAction.packet], hsame _,
      by simp [Ledger.next], rfl, ?_⟩
    exact handleBleResponse_congr s.1.watch frame s.1.msg.wire.msg_wire.symm
  | others change =>
    exact ⟨[.inr change], by simp [Ledger.next, InboxAction.packet], hsame _,
      by simp [Ledger.next], rfl, rfl⟩

theorem adds_run {s t : Inbox × Ledger} {actions : List InboxAction}
    (hlink : ∀ a ∈ actions, a.KeepsLink) (hroom : Machine.EachStep inboxStep FindsRoom s.1 actions)
    (hrun : Machine.run ledgerStep s actions = some t) : ∃ changes, Adds s t actions changes := by
  induction actions generalizing s with
  | nil =>
    cases hrun
    exact ⟨[], .refl _⟩
  | cons a rest ih =>
    obtain ⟨s', hstep, hrest⟩ := (Machine.run_cons_eq_some ledgerStep).mp hrun
    obtain ⟨u, hu, rfl⟩ := Machine.recording_some inboxStep Ledger.next hstep
    obtain ⟨changes, hfirst⟩ := adds_step (hlink a List.mem_cons_self) (hroom.head hu) hstep
    obtain ⟨changes', hafter⟩ := ih (fun b hb => hlink b (List.mem_cons_of_mem a hb))
      (hroom.tail hu) hrest
    exact ⟨changes ++ changes', hfirst.trans hafter⟩

/-! ### From the link to the watch -/

/-- Nothing is on its way: no packet in hand, no message on the FIFO or in the record. -/
def Inbox.Drained (s : Inbox) : Prop := s.toAdd = [] ∧ s.fifos.held .rx = [] ∧ s.inHand = []

instance (s : Inbox) : Decidable s.Drained :=
  inferInstanceAs (Decidable (_ ∧ _ ∧ _))

/-- With nothing on its way, all messages that were not evicted have been handled. -/
theorem Balanced.drained {s : Inbox × Ledger} (h : Balanced s) (hs : s.1.Drained) :
    (parseRun none s.2.events).2 = s.2.left.map Prod.fst ∧
      s.2.taken = s.2.handled.map Prod.fst := by
  obtain ⟨hadd, hheld, hhand⟩ := hs
  have hreceived := h.received
  have htaken := h.taken
  rw [hadd, hheld, List.map_nil, List.append_nil, List.append_nil] at hreceived
  rw [hhand, List.append_nil] at htaken
  exact ⟨hreceived, htaken⟩

/-- A legal fragmentation is parsed to its messages whatever was parsed before. -/
theorem LegalFragmentation.parseRun_eq {ws : List WireMsg} {packets : List BlePacket}
    (h : LegalFragmentation ws packets) (state : Option PartialMsg) :
    (parseRun state (packets.map fun p => .packet p.bytes)).2 = ws := by
  have hnone := congrArg Prod.snd h.start.parseRun_eq
  cases packets with
  | nil => exact hnone
  | cons p rest =>
    have hzero : p.msgCont = 0 := by
      have hcut := h.cuts [] p rest rfl
      simpa [Place.Allows] using hcut
    rw [List.map_cons, parseRun_cons] at hnone ⊢
    simp only [parseEvent, parsePacket, BlePacket.bytes, hzero, ↓reduceIte] at hnone ⊢
    exact hnone

/-- With the watch drained before and after, the link kept and each add finding a free slot,
the packets of a legal fragmentation change the watch as its messages do, handled once each
and in order, between the changes that other threads make; whatever came before, whatever the
stacks held, and wherever the two threads stood when the packets came. -/
theorem fragmentation_performed {watch : Watch} {past actions : List InboxAction} {s t : Inbox}
    {ws : List WireMsg} {packets : List BlePacket}
    (hpast : Machine.run inboxStep (Inbox.init watch) past = some s) (hs : s.Drained)
    (hlink : ∀ a ∈ actions, a.KeepsLink)
    (hroom : Machine.EachStep inboxStep FindsRoom s actions)
    (hlegal : LegalFragmentation ws packets)
    (hpackets : actions.filterMap InboxAction.packet = packets.map BlePacket.bytes)
    (hrun : Machine.run inboxStep s actions = some t) (ht : t.Drained) :
    ∃ changes : List Change, (changes.filterMap Sum.getLeft?).map Prod.fst = ws ∧
      changes.map (Sum.map Prod.snd id) = actions.filterMap InboxAction.change ∧
      t.watch = changes.foldl Change.apply s.watch := by
  obtain ⟨l, hl⟩ := Machine.run_recording inboxStep Ledger.next Ledger.init hpast
  obtain ⟨l', hl'⟩ := Machine.run_recording inboxStep Ledger.next l hrun
  have hbalanced : Balanced (s, l) := Machine.run_invariant (balanced_init watch)
    (fun _ _ _ h hstep => balanced_step h hstep) hl
  have hbalanced' : Balanced (t, l') := Machine.run_invariant hbalanced
    (fun _ _ _ h hstep => balanced_step h hstep) hl'
  obtain ⟨changes, hadds⟩ := adds_run hlink hroom hl'
  obtain ⟨hreceived, htaken⟩ := hbalanced.drained hs
  obtain ⟨hreceived', htaken'⟩ := hbalanced'.drained ht
  obtain ⟨out, hout⟩ := hadds.left
  have hleft : l'.left = l.left ++ Ledger.mark true out := hout
  have hws : out = ws := by
    have hevents : l'.events = l.events ++ packets.map fun p => .packet p.bytes := by
      have hadded := hadds.events
      rw [hpackets, List.map_map] at hadded
      exact hadded
    have hparse := hlegal.parseRun_eq (parseRun none l.events).1
    simp only [hevents, parseRun_append, hreceived, hparse, hleft, List.map_append,
      Ledger.mark_fst] at hreceived'
    exact (List.append_cancel_left hreceived').symm
  have hdone : (changes.filterMap Sum.getLeft?).map Prod.fst = out := by
    have hhandled : l'.handled = l.handled ++ changes.filterMap Sum.getLeft? := hadds.handled
    have hboth := Ledger.taken_append l (Ledger.mark true out)
    rw [Ledger.mark_taken, if_pos rfl, ← hleft] at hboth
    simp only [hhandled, List.map_append, ← htaken] at htaken'
    exact (List.append_cancel_left (hboth.symm.trans htaken')).symm
  exact ⟨changes, hdone.trans hws, hadds.order, hadds.watch⟩

/-- The watch with its static stores zeroed. -/
def Watch.zero : Watch where
  timeState := ⟨0, 0, 0⟩
  weatherState := ⟨0, .fill hoursPerDay ⟨0, 0, 0, 0, 0⟩⟩
  notifications := .init
  app := .init fun _ => 0

/-- A stack with nothing on it. -/
def Frame.zero : Frame := ⟨0, .zero⟩

/-- A time update cut inside its payload; the maintenance thread looks in between. -/
theorem fragmentation_performed_time :
    let actions : List InboxAction :=
      [.write (some [0, 0xA5, 1, 0, 4, 0x65, 0x4F]) 7, .process .zero, .fetch,
        .write (some [1, 0x52, 0x80]) 3, .add, .process .zero, .fetch, .handle .zero, .fetch]
    ∃ t, Machine.run inboxStep (.init .zero) actions = some t ∧
      t.watch.timeState = ⟨0x654F5280, 0, 1⟩ := by
  intro actions
  let ws : List WireMsg := [⟨1, 0, [0x65, 0x4F, 0x52, 0x80], by decide⟩]
  let packets : List BlePacket := [⟨0, [0xA5, 1, 0, 4, 0x65, 0x4F]⟩, ⟨1, [0x52, 0x80]⟩]
  have hlegal : LegalFragmentation ws packets := by
    refine ⟨by decide, by decide, ?_⟩
    rintro (_ | ⟨a, _ | ⟨b, before⟩⟩) p after hsplit
    all_goals simp [packets] at hsplit
    · obtain ⟨rfl, -⟩ := hsplit
      decide
    · obtain ⟨rfl, rfl, -⟩ := hsplit
      decide
  have hdrained : ∃ t ∈ Machine.run inboxStep (.init .zero) actions, t.Drained := by
    decide +kernel
  obtain ⟨t, hrun, ht⟩ := hdrained
  have hroom : Machine.EachStep inboxStep FindsRoom (.init .zero) actions := by decide +kernel
  obtain ⟨changes, hmsgs, horder, hwatch⟩ := @fragmentation_performed .zero [] actions
    (.init .zero) t ws packets rfl (by decide +kernel) (by simp [actions, InboxAction.KeepsLink])
    hroom hlegal (by decide) hrun ht
  have hone : changes = [.inl (⟨1, 0, [0x65, 0x4F, 0x52, 0x80], by decide⟩, .zero)] := by
    change changes.map (Sum.map Prod.snd id) = [.inl .zero] at horder
    rcases changes with _ | ⟨⟨m, f⟩ | g, _ | ⟨d, rest⟩⟩
    all_goals simp at horder
    simp only [List.filterMap_cons, List.filterMap_nil, Sum.getLeft?_inl, List.map_cons,
      List.map_nil, ws, List.cons.injEq, and_true] at hmsgs
    rw [hmsgs, horder]
  refine ⟨t, hrun, ?_⟩
  rw [hwatch, hone]
  decide +kernel

/-! ### The loop of the reader -/

/-- What keeps the loop going: the messages on the FIFO, and the test that finds it empty. -/
def Inbox.workload (s : Inbox) : Nat :=
  (s.fifos.held .rx).length + if s.pc = .idle then 0 else 1

def InboxAction.isFetch : InboxAction → Bool
  | .fetch => true
  | _ => false

/-- What gives the loop work: a message, or a new call. -/
def InboxAction.feeds : InboxAction → Bool
  | .add => true
  | .process _ => true
  | _ => false

theorem workload_step {s t : Inbox} {action : InboxAction} (hstep : inboxStep s action = some t) :
    t.workload + [action].countP InboxAction.isFetch ≤
      s.workload + [action].countP InboxAction.feeds := by
  simp only [List.countP_singleton, Inbox.workload]
  cases inboxStep_move hstep with
  | @add msg rest hmsgs =>
    have hpush := RingBuffer.pushBounded_length_le bleFifoCapacity (s.fifos.held .rx) msg.wire
    simp only [addBleMsgToQueue_held, InboxAction.isFetch, InboxAction.feeds]
    simp
    omega
  | process stack hpc => simp [hpc, InboxAction.isFetch, InboxAction.feeds]
  | leave hpc hnil => simp [hpc, hnil, InboxAction.isFetch, InboxAction.feeds]
  | take hpc hcons fifos out hheld hout =>
    simp [hpc, hcons, hheld, InboxAction.isFetch, InboxAction.feeds]
  | handle frame hpc => simp [hpc, InboxAction.isFetch, InboxAction.feeds]
  | _ => exact Nat.le_refl _

theorem workload_run {s t : Inbox} {actions : List InboxAction}
    (hrun : Machine.run inboxStep s actions = some t) :
    t.workload + actions.countP InboxAction.isFetch ≤
      s.workload + actions.countP InboxAction.feeds := by
  induction actions generalizing s with
  | nil =>
    cases hrun
    exact Nat.le_refl _
  | cons a rest ih =>
    obtain ⟨s', hstep, hrest⟩ := (Machine.run_cons_eq_some inboxStep).mp hrun
    have hfirst := workload_step hstep
    have hafter := ih hrest
    rw [List.countP_cons]
    rw [List.countP_cons]
    simp only [List.countP_singleton] at hfirst
    omega

/-- The passes of the loop over messages handled on these stacks, and its last test. -/
def loopSteps : List Frame → List InboxAction
  | [] => [.fetch]
  | frame :: frames => .fetch :: .handle frame :: loopSteps frames

/-- The watch after the messages, handled one after the other. -/
def handleAll (w : Watch) (done : List (WireMsg × Frame)) : Watch :=
  (done.map Sum.inl).foldl Change.apply w

theorem loopSteps_drain {s : Inbox} {frames : List Frame} (hpc : s.pc = .fetching)
    (hlen : frames.length = (s.fifos.held .rx).length) :
    ∃ t, Machine.run inboxStep s (loopSteps frames) = some t ∧ t.pc = .idle ∧
      t.fifos.held .rx = [] ∧ t.watch = handleAll s.watch ((s.fifos.held .rx).zip frames) := by
  induction frames generalizing s with
  | nil =>
    have hnil : s.fifos.held .rx = [] := List.length_eq_zero_iff.mp hlen.symm
    have hfetch : s.fetch = { s with pc := .idle } := by
      simp [Inbox.fetch, getNextBleMsg_nil s.fifos s.msg .rx hnil]
    refine ⟨{ s with pc := .idle }, ?_, rfl, hnil, ?_⟩
    · simp [loopSteps, Machine.run, inboxStep, hpc, hfetch]
    · rw [List.zip_nil_right]
      rfl
  | cons frame frames ih =>
    obtain ⟨w, rest, hcons⟩ := List.exists_cons_of_length_eq_add_one hlen.symm
    obtain ⟨fifos, out, hget, hrest, hout⟩ := getNextBleMsg_cons s.fifos s.msg .rx hcons
    have hfetch : s.fetch = { s with fifos := fifos, msg := out, pc := .handling } := by
      simp [Inbox.fetch, hget]
    have hhandle : handleBleResponse s.watch frame out = Change.apply s.watch (.inl (w, frame)) :=
      handleBleResponse_congr s.watch frame (hout.trans w.msg_wire.symm)
    let s' : Inbox :=
      { s with
        fifos := fifos
        msg := out
        pc := .fetching
        watch := Change.apply s.watch (.inl (w, frame)) }
    have hlen' : frames.length = (s'.fifos.held .rx).length := by
      rw [hcons, List.length_cons, List.length_cons] at hlen
      rw [hrest]
      omega
    obtain ⟨t, hrun, hidle, hnil, hwatch⟩ := @ih s' rfl hlen'
    refine ⟨t, ?_, hidle, hnil, ?_⟩
    · rw [loopSteps, Machine.run_cons inboxStep _ (by rw [inboxStep, if_pos hpc, hfetch]),
        Machine.run_cons inboxStep _ (by rw [inboxStep, if_pos rfl, hhandle])]
      exact hrun
    · rw [hwatch, hrest, hcons]
      rfl

/-- In every run the loop of `process_rx_buffers` is tested at most once for each message it
can find and once more for each call, so only arrivals keep it going; and a call left alone
ends with the FIFO empty, having handled what was on it, in order. -/
theorem processRxBuffers_ends (s : Inbox) :
    (∀ actions t, Machine.run inboxStep s actions = some t →
      actions.countP InboxAction.isFetch ≤ s.workload + actions.countP InboxAction.feeds) ∧
    (s.pc = .idle → ∀ stack frames, frames.length = (s.fifos.held .rx).length →
      ∃ t, Machine.run inboxStep s (.process stack :: loopSteps frames) = some t ∧
        t.pc = .idle ∧ t.fifos.held .rx = [] ∧
        t.watch = handleAll s.watch ((s.fifos.held .rx).zip frames)) := by
  constructor
  · intro actions t hrun
    have hwork := workload_run hrun
    omega
  · intro hidle stack frames hlen
    obtain ⟨t, hrun, hend⟩ := @loopSteps_drain { s with msg := stack, pc := .fetching } frames rfl
      hlen
    refine ⟨t, ?_, hend⟩
    rw [Machine.run_cons inboxStep _ (by rw [inboxStep, if_pos hidle])]
    exact hrun

/-- One message on the FIFO and a call. -/
theorem processRxBuffers_ends_time :
    ∃ s t : Inbox, s.fifos.held .rx = [⟨1, 0, [0x65, 0x4F, 0x52, 0x80], by decide⟩] ∧
      Machine.run inboxStep s [.process .zero, .fetch, .handle .zero, .fetch] = some t ∧
      t.pc = .idle ∧ t.fifos.held .rx = [] ∧ t.watch.timeState = ⟨0x654F5280, 0, 1⟩ := by
  let w : WireMsg := ⟨1, 0, [0x65, 0x4F, 0x52, 0x80], by decide⟩
  let s : Inbox :=
    { Inbox.init .zero with fifos := (addBleMsgToQueue BleFifos.init (some w.msg) .rx).1 }
  have hheld : s.fifos.held .rx = [w] := by decide +kernel
  obtain ⟨hbound, hends⟩ := processRxBuffers_ends s
  obtain ⟨t, hrun, hidle, hnil, hwatch⟩ := hends rfl .zero [.zero] (by rw [hheld]; rfl)
  refine ⟨s, t, hheld, hrun, hidle, hnil, ?_⟩
  rw [hwatch, hheld]
  decide +kernel

end MinimalWatch.Ble
