import MinimalWatch.Ble.Drain
import MinimalWatch.Ble.PacketFill

/-! `populate_tx_buffers` where `bt_gatt_notify` may fail. A packet whose notify fails is
gone: nothing builds it anew, and the peer reads the others. `Peer` is what the peer knows
of the stream, told from the cut of the packets and from which of them were lost. `listens`
ends in a `Harm` where bytes of one message can be taken for another's; where it does not,
the peer completes messages of the queue only. -/

namespace MinimalWatch.Ble
open Firmware

variable {mtu : Nat}

/-! ### Notifies that fail -/

/-- `populate_tx_buffers` within its loop. -/
structure Populate where
  ctx : TxCtx
  fifos : BleFifos
  /-- How often `bt_gatt_notify` has been called. -/
  calls : Nat
  notified : List (List UInt8)

/-- One pass of its loop, with the link up. -/
def populatePass (effectiveMtu : Nat) (oks : Nat → Bool) (s : Populate) :
    Populate ⊕ Populate :=
  match bleBuildNextPacket s.ctx s.fifos effectiveMtu (some 0) with
  | (final, _, true) =>
    .inl ⟨final.ctx, final.fifos, s.calls + 1,
      if oks s.calls then s.notified ++ [final.buffer] else s.notified⟩
  | (final, _, false) => .inr ⟨final.ctx, final.fifos, s.calls, s.notified⟩

/-- The packets whose notify succeeded; `oks` is the stack's answer to each call. -/
def populateTxBuffers (ctx : TxCtx) (fifos : BleFifos) (effectiveMtu : Nat)
    (oks : Nat → Bool) : Option (List (List UInt8)) :=
  (Loop.loop (populatePass effectiveMtu oks) txDrainFuel ⟨ctx, fifos, 0, []⟩).map
    Populate.notified

def succeeded {α : Type*} : (Nat → Bool) → List α → List α
  | _, [] => []
  | oks, p :: rest =>
    if oks 0 then p :: succeeded (fun i => oks (i + 1)) rest
    else succeeded (fun i => oks (i + 1)) rest

theorem succeeded_map {α β : Type*} (f : α → β) (oks : Nat → Bool) (packets : List α) :
    succeeded oks (packets.map f) = (succeeded oks packets).map f := by
  induction packets generalizing oks with
  | nil => rfl
  | cons p rest ih =>
    rw [List.map_cons, succeeded, succeeded, ih]
    split_ifs <;> rfl

/-- The answers decide which packets arrive, never which are built. -/
theorem loop_populatePass {oks : Nat → Bool} {fuel : Nat} {s r : TxDrain}
    (hloop : Loop.loop (txDrainCall mtu) fuel s = some r) (calls : Nat)
    (notified : List (List UInt8)) :
    ∃ sent r', r.packets = s.packets ++ sent ∧
      Loop.loop (populatePass mtu oks) fuel ⟨s.ctx, s.fifos, calls, notified⟩ = some r' ∧
      r'.notified = notified ++ succeeded (fun i => oks (calls + i)) sent := by
  induction fuel generalizing s calls notified with
  | zero => cases hloop
  | succ fuel ih =>
    rcases hcall : bleBuildNextPacket s.ctx s.fifos mtu (some 0) with ⟨final, outLen, more⟩
    cases more with
    | false =>
      have hdrain : txDrainCall mtu s = .inr ⟨final.ctx, final.fifos, s.packets⟩ := by
        rw [txDrainCall, hcall]
      have hpass : populatePass mtu oks ⟨s.ctx, s.fifos, calls, notified⟩ =
          .inr ⟨final.ctx, final.fifos, calls, notified⟩ := by
        rw [populatePass, hcall]
      rw [Loop.loop_leave fuel hdrain] at hloop
      obtain rfl := Option.some.inj hloop
      exact ⟨[], _, (List.append_nil _).symm, Loop.loop_leave fuel hpass,
        (List.append_nil _).symm⟩
    | true =>
      have hdrain : txDrainCall mtu s =
          .inl ⟨final.ctx, final.fifos, s.packets ++ [final.buffer]⟩ := by
        rw [txDrainCall, hcall]
      have hpass : populatePass mtu oks ⟨s.ctx, s.fifos, calls, notified⟩ =
          .inl ⟨final.ctx, final.fifos, calls + 1,
            if oks calls then notified ++ [final.buffer] else notified⟩ := by
        rw [populatePass, hcall]
      rw [Loop.loop_continue fuel hdrain] at hloop
      obtain ⟨sent, r', hpackets, hloop', hnotified⟩ := ih hloop (calls + 1)
        (if oks calls then notified ++ [final.buffer] else notified)
      refine ⟨final.buffer :: sent, r', ?_, ?_, ?_⟩
      · rw [hpackets, List.append_assoc, List.singleton_append]
      · rw [Loop.loop_continue fuel hpass, hloop']
      · have hshift : (fun i => oks (calls + (i + 1))) = fun i => oks (calls + 1 + i) := by
          funext i
          rw [Nat.add_right_comm, Nat.add_assoc]
        rw [hnotified, succeeded, hshift]
        cases oks calls with
        | false => simp
        | true => simp

theorem populateTxBuffers_eq {ctx : TxCtx} {fifos : BleFifos} {packets : List (List UInt8)}
    (oks : Nat → Bool) (h : txPackets ctx fifos mtu = some packets) :
    populateTxBuffers ctx fifos mtu oks = some (succeeded oks packets) := by
  obtain ⟨r, hloop, rfl⟩ := Option.map_eq_some_iff.mp h
  obtain ⟨sent, r', hpackets, hloop', hnotified⟩ := @loop_populatePass mtu oks _ _ _ hloop 0 []
  rw [populateTxBuffers, hloop', Option.map_some, hnotified, hpackets]
  simp

/-! ### The same in the steps of the drain -/

/-- The packets whose notify succeeded, beside the drain. -/
def notifiedNext (s : Drain) (action : DrainAction) (_ : Drain)
    (notified : List (List UInt8)) : List (List UInt8) :=
  match action, s.pc with
  | .notify err, .notifying packet => if err = 0 then notified ++ [packet] else notified
  | _, _ => notified

abbrev notifiedStep :
    Drain × List (List UInt8) → DrainAction → Option (Drain × List (List UInt8)) :=
  Machine.recording drainStep notifiedNext

/-- What `populate_tx_buffers` does where no callback and no arrival comes between. -/
def DrainAction.Undisturbed : DrainAction → Prop
  | .populate | .pass | .testLink | .notify _ => True
  | _ => False

section Steps
variable {manager : BleManager} {oks : Nat → Bool}

/-- The passes of one call of `ble_build_next_packet`. -/
theorem passes_run {fuel : Nat} {s r : TxLoop} (notified : List (List UInt8))
    (hloop : Loop.loop (txIteration mtu) fuel s = some r) :
    ∃ n, ∀ rest, Machine.run notifiedStep
        (⟨manager, s.ctx, s.fifos, .building mtu s.buffer⟩, notified)
        (List.replicate n .pass ++ rest) =
      Machine.run notifiedStep (⟨manager, r.ctx, r.fifos,
        if 1 < r.buffer.length then .built r.buffer else .idle⟩, notified) rest := by
  induction fuel generalizing s with
  | zero => cases hloop
  | succ fuel ih =>
    cases hiter : txIteration mtu s with
    | inl s' =>
      have hpass : notifiedStep (⟨manager, s.ctx, s.fifos, .building mtu s.buffer⟩, notified)
          .pass = some (⟨manager, s'.ctx, s'.fifos, .building mtu s'.buffer⟩, notified) := by
        simp [Machine.recording, drainStep, Drain.pass, hiter, notifiedNext]
      rw [Loop.loop_continue fuel hiter] at hloop
      obtain ⟨n, hrest⟩ := ih hloop
      refine ⟨n + 1, fun rest => ?_⟩
      rw [List.replicate_succ, List.cons_append, Machine.run_cons _ _ hpass, hrest]
    | inr r' =>
      rw [Loop.loop_leave fuel hiter] at hloop
      obtain rfl := Option.some.inj hloop
      have hpass : notifiedStep (⟨manager, s.ctx, s.fifos, .building mtu s.buffer⟩, notified)
          .pass = some (⟨manager, r'.ctx, r'.fifos,
            if 1 < r'.buffer.length then .built r'.buffer else .idle⟩, notified) := by
        simp [Machine.recording, drainStep, Drain.pass, hiter, notifiedNext]
      exact ⟨1, fun rest => Machine.run_cons _ rest hpass⟩

/-- The loop of `populate_tx_buffers`, from a call of `ble_build_next_packet` on. -/
theorem populatePass_run {fuel : Nat} {s r : Populate} (hmtu : 1 < mtu)
    (hup : manager.linkUp = true) (hmanager : manager.effectiveMtu = mtu)
    (hsend : Sendable mtu s.ctx.current (s.fifos.held .tx))
    (hloop : Loop.loop (populatePass mtu oks) fuel s = some r) :
    ∃ actions : List DrainAction, (∀ a ∈ actions, a.Undisturbed) ∧
      Machine.run notifiedStep
        ((Drain.mk manager s.ctx s.fifos .idle).startBuild, s.notified) actions =
          some (⟨manager, r.ctx, r.fifos, .idle⟩, r.notified) := by
  induction fuel generalizing s with
  | zero => cases hloop
  | succ fuel ih =>
    obtain ⟨final, hbuild, hcall, hbuffer, hcur, hqueue⟩ :=
      bleBuildNextPacket_fill s.fifos hmtu hsend.placed
    obtain ⟨-, hsend'⟩ := nextPacket_reads hmtu hsend
    rw [← hcur, ← hqueue] at hsend'
    obtain ⟨n, hpasses⟩ := @passes_run mtu manager _ _ _ s.notified hbuild
    have hstart : (Drain.mk manager s.ctx s.fifos .idle).startBuild =
        ⟨manager, s.ctx, s.fifos, .building mtu [txFlag s.ctx.current]⟩ := by
      rw [Drain.startBuild, hmanager, ← txFlag_current]
    have hundisturbed : ∀ a ∈ List.replicate n DrainAction.pass, a.Undisturbed := by
      intro a ha
      rw [List.eq_of_mem_replicate ha]
      trivial
    rw [hstart]
    by_cases hmore : 1 < final.buffer.length
    · have hpass : populatePass mtu oks s = .inl ⟨final.ctx, final.fifos, s.calls + 1,
          if oks s.calls then s.notified ++ [final.buffer] else s.notified⟩ := by
        simp [populatePass, hcall, hmore]
      rw [Loop.loop_continue fuel hpass] at hloop
      obtain ⟨actions, hquiet, hrun⟩ := ih hsend' hloop
      let err : Int := if oks s.calls then 0 else 1
      refine ⟨List.replicate n .pass ++ .testLink :: .notify err :: actions, ?_, ?_⟩
      · intro a ha
        rcases List.mem_append.mp ha with ha | ha
        · exact hundisturbed a ha
        · rcases List.mem_cons.mp ha with rfl | ha
          · trivial
          · rcases List.mem_cons.mp ha with rfl | ha
            · trivial
            · exact hquiet a ha
      · have htest : notifiedStep
            (⟨manager, final.ctx, final.fifos, .built final.buffer⟩, s.notified) .testLink =
              some (⟨manager, final.ctx, final.fifos, .notifying final.buffer⟩, s.notified) := by
          simp [Machine.recording, drainStep, hup, notifiedNext]
        have hnotify : notifiedStep
            (⟨manager, final.ctx, final.fifos, .notifying final.buffer⟩, s.notified)
            (.notify err) =
              some ((Drain.mk manager final.ctx final.fifos .idle).startBuild,
                if oks s.calls then s.notified ++ [final.buffer] else s.notified) := by
          cases hok : oks s.calls with
          | false => simp [Machine.recording, drainStep, notifiedNext, err, hok, Drain.startBuild]
          | true => simp [Machine.recording, drainStep, notifiedNext, err, hok, Drain.startBuild]
        rw [hpasses, if_pos hmore, Machine.run_cons _ _ htest, Machine.run_cons _ _ hnotify]
        exact hrun
    · have hpass : populatePass mtu oks s =
          .inr ⟨final.ctx, final.fifos, s.calls, s.notified⟩ := by
        simp [populatePass, hcall, hmore]
      rw [Loop.loop_leave fuel hpass] at hloop
      obtain rfl := Option.some.inj hloop
      refine ⟨List.replicate n .pass, hundisturbed, ?_⟩
      have hend := hpasses []
      rw [List.append_nil, if_neg hmore] at hend
      rw [hend]
      rfl

/-- `populateTxBuffers` is a run of the drain with the link up and nothing in between. -/
theorem populateTxBuffers_run {ctx : TxCtx} {fifos : BleFifos} {packets : List (List UInt8)}
    (hmtu : 1 < mtu) (hup : manager.linkUp = true) (hmanager : manager.effectiveMtu = mtu)
    (hsend : Sendable mtu ctx.current (fifos.held .tx))
    (h : populateTxBuffers ctx fifos mtu oks = some packets) :
    ∃ (actions : List DrainAction) (s : Drain), (∀ a ∈ actions, a.Undisturbed) ∧
      Machine.run notifiedStep (⟨manager, ctx, fifos, .idle⟩, []) actions = some (s, packets) ∧
      s.pc = .idle := by
  obtain ⟨r, hloop, rfl⟩ := Option.map_eq_some_iff.mp h
  obtain ⟨actions, hquiet, hrun⟩ := populatePass_run hmtu hup hmanager hsend hloop
  have hpopulate : notifiedStep (⟨manager, ctx, fifos, .idle⟩, []) .populate =
      some ((Drain.mk manager ctx fifos .idle).startBuild, []) := by
    simp [Machine.recording, drainStep, hup, notifiedNext]
  refine ⟨.populate :: actions, ⟨manager, r.ctx, r.fifos, .idle⟩,
    List.forall_mem_cons.mpr ⟨trivial, hquiet⟩, ?_, rfl⟩
  rw [Machine.run_cons _ _ hpopulate]
  exact hrun

end Steps

/-! ### What the peer knows -/

inductive Peer
  /-- No message in progress. -/
  | idle
  /-- The message in progress, with all that was sent of it. -/
  | following
  /-- A message with a gap in it, and so many bytes from its end. -/
  | behind (missing : Nat)
  deriving DecidableEq, Repr

/-- What the peer can take for a message, or for the end of one. -/
inductive Harm
  /-- A header within the payload of a message whose start was lost. -/
  | payload
  /-- The end of such a payload, with the header behind it. -/
  | header
  /-- Later bytes, which fill a gap. -/
  | gap
  deriving DecidableEq, Repr

namespace Peer

/-- A peer that has read all up to where the sender stands. -/
def inStep : Option (Nat × Nat) → Peer
  | some (_, _ + 1) => .following
  | _ => .idle

/-- The packet was lost. -/
def miss (peer : Peer) (p : PacketShape) : Peer :=
  match peer, p.start with
  | .following, some (n, k) => .behind (n - k)
  | _, _ => peer

/-- The packet arrived. -/
def hear (peer : Peer) (p : PacketShape) : Except Harm Peer :=
  match p.start, peer with
  | none, _ => .ok (inStep p.stop)
  | some _, .following => .ok (inStep p.stop)
  | some (n, k), .idle =>
    if k = 0 then .ok (inStep p.stop)
    -- the end of a payload, with no room for a header in it
    else if p.size < 4 then .ok .idle
    else if p.size ≤ n - k then .error .payload
    else .error .header
  | some _, .behind missing =>
    if p.size < missing then .ok (.behind (missing - p.size)) else .error .gap

section Hear
variable (n k size : Nat) (stop : Option (Nat × Nat))

theorem hear_idle : Peer.idle.hear ⟨some (n, k), size, stop⟩ =
    if k = 0 then .ok (inStep stop)
    else if size < 4 then .ok .idle
    else if size ≤ n - k then .error .payload
    else .error .header := rfl

theorem hear_behind (missing : Nat) : (Peer.behind missing).hear ⟨some (n, k), size, stop⟩ =
    if size < missing then .ok (.behind (missing - size)) else .error .gap := rfl

end Hear

theorem inStep_ne_behind (cur : Option (Nat × Nat)) (missing : Nat) :
    inStep cur ≠ .behind missing := by
  match cur with
  | none | some (_, 0) | some (_, _ + 1) => exact nofun

theorem behind_of_hear {peer : Peer} {p : PacketShape} {missing : Nat}
    (h : peer.hear p = .ok (.behind missing)) :
    p.start ≠ none ∧ ∃ before, peer = .behind before ∧ p.size < before := by
  obtain ⟨start, size, stop⟩ := p
  match start, peer with
  | none, _ => exact absurd (Except.ok.inj h) (inStep_ne_behind stop missing)
  | some (n, k), .following => exact absurd (Except.ok.inj h) (inStep_ne_behind stop missing)
  | some (n, k), .idle =>
    rw [hear_idle] at h
    split_ifs at h
    · exact absurd (Except.ok.inj h) (inStep_ne_behind stop missing)
    · cases h
  | some (n, k), .behind before =>
    rw [hear_behind] at h
    split_ifs at h with hsize
    exact ⟨Option.some_ne_none _, before, rfl, hsize⟩

theorem hear_error {peer : Peer} {p : PacketShape} {harm : Harm}
    (h : peer.hear p = .error harm) : ∃ n k, p.start = some (n, k) ∧
      (peer = .idle ∧ 0 < k ∧ 4 ≤ p.size ∧
          (harm = .payload ∧ p.size ≤ n - k ∨ harm = .header ∧ n - k < p.size) ∨
        ∃ missing, peer = .behind missing ∧ missing ≤ p.size ∧ harm = .gap) := by
  obtain ⟨start, size, stop⟩ := p
  match start, peer with
  | none, _ => cases h
  | some (n, k), .following => cases h
  | some (n, k), .idle =>
    refine ⟨n, k, rfl, Or.inl ⟨rfl, ?_⟩⟩
    rw [hear_idle] at h
    split_ifs at h with hk hsize hpayload
    · exact ⟨by omega, Nat.le_of_not_lt hsize, Or.inl ⟨(Except.error.inj h).symm, hpayload⟩⟩
    · exact ⟨by omega, Nat.le_of_not_lt hsize,
        Or.inr ⟨(Except.error.inj h).symm, Nat.lt_of_not_le hpayload⟩⟩
  | some (n, k), .behind missing =>
    refine ⟨n, k, rfl, Or.inr ⟨missing, rfl, ?_⟩⟩
    rw [hear_behind] at h
    split_ifs at h with hsize
    exact ⟨Nat.le_of_not_lt hsize, (Except.error.inj h).symm⟩

end Peer

def listens : Peer → (Nat → Bool) → List PacketShape → Except Harm Peer
  | peer, _, [] => .ok peer
  | peer, oks, p :: rest =>
    if oks 0 then
      match peer.hear p with
      | .ok peer' => listens peer' (fun i => oks (i + 1)) rest
      | .error harm => .error harm
    else listens (peer.miss p) (fun i => oks (i + 1)) rest

/-- With these answers of `bt_gatt_notify`, messages of these lengths are cut into packets
that can do no harm. -/
def Harmless (effectiveMtu : Nat) (oks : Nat → Bool) (lens : List Nat) : Prop :=
  ∃ peer, listens .idle oks (cutPackets effectiveMtu txDrainFuel none lens) = .ok peer

/-! ### The peer's context -/

theorem TxPacket.shape_started (w : WireMsg) (k : Nat) (body : List UInt8)
    (stop : TxCurrent) : (TxPacket.mk (some (w, k)) body stop).shape =
      ⟨some (w.payload.length, k), body.length, stop.lens⟩ := rfl

/-- The peer's context, for what it knows. -/
def Hears (peer : Peer) (cur : TxCurrent) (held : Option PartialMsg) : Prop :=
  match peer with
  | .idle => held = none
  | .following => held = heldBy cur ∧ ∃ w k, cur = some (w, k + 1)
  | .behind missing => ∃ p, held = some p ∧ p.missing + 1 = missing

theorem hears_inStep (cur : TxCurrent) : Hears (.inStep cur.lens) cur (heldBy cur) := by
  match cur with
  | none => rfl
  | some (w, 0) => exact heldBy_header w
  | some (w, k + 1) => exact ⟨rfl, w, k, rfl⟩

theorem Hears.miss {peer : Peer} {p : TxPacket} {held : Option PartialMsg}
    (h : Hears peer p.start held) (hplaced : Placed p.start) :
    Hears (peer.miss p.shape) p.stop held := by
  cases peer with
  | idle => exact h
  | behind missing => exact h
  | following =>
    obtain ⟨hheld, w, k, hstart⟩ := h
    have hk := (hplaced w (k + 1) hstart).resolve_left (Nat.succ_ne_zero k)
    rw [hstart, heldBy_payload (Nat.succ_pos k) hk] at hheld
    simp only [Peer.miss, TxPacket.shape, hstart, TxCurrent.lens, Option.map_some]
    refine ⟨_, hheld, ?_⟩
    simp only [WireMsg.received]
    omega

theorem parsePacket_bytes (held : Option PartialMsg) (p : TxPacket) :
    parsePacket held p.bytes = parse (if p.start.isSome then held else none) p.body := by
  rw [TxPacket.bytes, parsePacket, txFlag]
  cases p.start with
  | none => rfl
  | some _ => rfl

/-- A packet that is read without harm. -/
theorem Hears.hear {peer peer' : Peer} {cur : TxCurrent} {queue out : List WireMsg}
    {f : Filled} {held : Option PartialMsg} (h : Hears peer cur held)
    (hreads : f.Reads cur queue out)
    (hhear : peer.hear (TxPacket.mk cur f.body f.current).shape = .ok peer') :
    Hears peer' f.current (parsePacket held (TxPacket.mk cur f.body f.current).bytes).1 ∧
      ((parsePacket held (TxPacket.mk cur f.body f.current).bytes).2 ++
        unsent f.current f.queue).Sublist (unsent cur queue) := by
  have hinstep : ∀ state, state = heldBy cur → .ok (.inStep f.current.lens) =
        (.ok peer' : Except Harm Peer) →
      Hears peer' f.current (parse state f.body).1 ∧
        ((parse state f.body).2 ++ unsent f.current f.queue).Sublist (unsent cur queue) := by
    rintro state rfl hok
    obtain rfl := Except.ok.inj hok
    rw [hreads.feeds.parse_eq, hreads.rest]
    exact ⟨hears_inStep f.current, List.Sublist.refl _⟩
  have hrest : (unsent f.current f.queue).Sublist (unsent cur queue) := by
    rw [← hreads.rest]
    exact List.sublist_append_right _ _
  rw [parsePacket_bytes]
  match cur, peer with
  | none, _ => exact hinstep none rfl hhear
  | some (w, k), .following => exact hinstep held h.1 hhear
  | some (w, k), .idle =>
    obtain rfl : held = none := h
    rw [TxPacket.shape_started, Peer.hear_idle] at hhear
    rw [Option.isSome_some, if_pos rfl]
    by_cases hk : k = 0
    · subst hk
      exact hinstep none (heldBy_header w).symm hhear
    rw [if_neg hk] at hhear
    by_cases hsize : f.body.length < 4
    · rw [if_pos hsize] at hhear
      obtain rfl := Except.ok.inj hhear
      rw [parse_short hsize]
      exact ⟨rfl, hrest⟩
    · rw [if_neg hsize] at hhear
      split_ifs at hhear
  | some (w, k), .behind missing =>
    obtain ⟨p, rfl, hmissing⟩ := h
    rw [TxPacket.shape_started, Peer.hear_behind] at hhear
    by_cases hsize : f.body.length < missing
    · rw [if_pos hsize] at hhear
      obtain rfl := Except.ok.inj hhear
      rw [Option.isSome_some, if_pos rfl, (feeds_extend p f.body (by omega)).parse_eq]
      refine ⟨⟨_, rfl, ?_⟩, hrest⟩
      simp only [PartialMsg.extend]
      omega
    · rw [if_neg hsize] at hhear
      cases hhear

/-! ### Whole drains -/

/-- The peer's reading of packets. -/
def heardMsgs (held : Option PartialMsg) (packets : List TxPacket) : List WireMsg :=
  (parseRun held (packets.map fun p => RxEvent.packet p.bytes)).2

theorem heardMsgs_cons (held : Option PartialMsg) (p : TxPacket) (packets : List TxPacket) :
    heardMsgs held (p :: packets) = (parsePacket held p.bytes).2 ++
      heardMsgs (parsePacket held p.bytes).1 packets := by
  rw [heardMsgs, List.map_cons, parseRun_cons]
  rfl

/-- Where the lost packets do no harm, the peer completes messages of the queue only, in
their order. -/
theorem heardMsgs_sublist {fuel : Nat} {cur : TxCurrent} {queue : List WireMsg} {peer : Peer}
    {oks : Nat → Bool} {held : Option PartialMsg} (hmtu : 1 < mtu)
    (hsend : Sendable mtu cur queue) (hhears : Hears peer cur held)
    (hlisten : ∃ peer', listens peer oks
      ((sentPackets mtu fuel cur queue).map TxPacket.shape) = .ok peer') :
    (heardMsgs held (succeeded oks (sentPackets mtu fuel cur queue))).Sublist
      (unsent cur queue) := by
  induction fuel generalizing cur queue peer oks held with
  | zero => exact List.nil_sublist _
  | succ fuel ih =>
    obtain ⟨⟨out, hreads⟩, hsend'⟩ := nextPacket_reads hmtu hsend
    obtain ⟨peer', hlisten⟩ := hlisten
    rw [sentPackets] at hlisten ⊢
    split_ifs at hlisten ⊢ with hempty
    · exact List.nil_sublist _
    rw [List.map_cons, listens] at hlisten
    rw [succeeded]
    split_ifs at hlisten ⊢
    · cases hhear : peer.hear (TxPacket.mk cur (nextPacket mtu cur queue).body
          (nextPacket mtu cur queue).current).shape with
      | error harm =>
        rw [hhear] at hlisten
        cases hlisten
      | ok next =>
        rw [hhear] at hlisten
        obtain ⟨hhears', hout⟩ := hhears.hear hreads hhear
        rw [heardMsgs_cons]
        exact (List.Sublist.append (List.Sublist.refl _)
          (ih hsend' hhears' ⟨peer', hlisten⟩)).trans hout
    · have hrest : (unsent (nextPacket mtu cur queue).current
          (nextPacket mtu cur queue).queue).Sublist (unsent cur queue) := by
        rw [← hreads.rest]
        exact List.sublist_append_right _ _
      have hmiss := @Hears.miss peer (TxPacket.mk cur (nextPacket mtu cur queue).body
        (nextPacket mtu cur queue).current) held hhears hsend.placed
      exact (ih hsend' hmiss ⟨peer', hlisten⟩).trans hrest

/-- The messages that a peer completes, from a context that was reset. -/
def decoded (ctx : TxCtx) (fifos : BleFifos) (effectiveMtu : Nat) (oks : Nat → Bool)
    (rx : RxCtx) : Option (List WireMsg) :=
  (populateTxBuffers ctx fifos effectiveMtu oks).map fun packets =>
    (rxRun (rxResetContext rx) (packets.map RxEvent.packet)).2.map BleMsg.wire

/-- With no notify failing, the peer has the messages of the queue. -/
def DecodesAll (ctx : TxCtx) (fifos : BleFifos) (effectiveMtu : Nat) (rx : RxCtx) : Prop :=
  decoded ctx fifos effectiveMtu (fun _ => true) rx = some (fifos.held .tx)

/-- The peer has nothing but messages of the queue, in their order. -/
def DeliversInOrder (ctx : TxCtx) (fifos : BleFifos) (effectiveMtu : Nat) (oks : Nat → Bool)
    (rx : RxCtx) : Prop :=
  ∃ out, decoded ctx fifos effectiveMtu oks rx = some out ∧ out.Sublist (fifos.held .tx)

theorem succeeded_all {α : Type*} (packets : List α) :
    succeeded (fun _ => true) packets = packets := by
  induction packets with
  | nil => rfl
  | cons p rest ih => rw [succeeded, if_pos rfl, ih]

section Decoded
variable {ctx : TxCtx} {fifos : BleFifos} (hmtu : 20 ≤ mtu) (hidle : ctx.msgActive = false)
  (hclear : HeadersClear mtu 1 (payloadLens (fifos.held .tx)))
include hmtu hidle hclear

theorem txPackets_clear :
    txPackets ctx fifos mtu =
        some ((sentPackets mtu txDrainFuel none (fifos.held .tx)).map TxPacket.bytes) ∧
      heardMsgs none (sentPackets mtu txDrainFuel none (fifos.held .tx)) = fifos.held .tx := by
  have hcur : ctx.current = none := by simp [TxCtx.current, hidle]
  obtain ⟨packets, hpackets, hout⟩ := txPackets_outcome hmtu hcur rfl (txWork_lt (fifos.held_length_le .tx))
  have hsend : Sendable mtu ctx.current (fifos.held .tx) := by
    rw [hcur]
    exact ⟨placed_none, hclear⟩
  obtain rfl := txPackets_eq (by omega) hsend hpackets
  rw [hcur] at hpackets hout
  refine ⟨hpackets, ?_⟩
  rcases hout with ⟨-, hall⟩ | ⟨_, _, _, hbreak, -⟩
  · rwa [received, List.map_map] at hall
  · exact absurd hclear hbreak.notClear

theorem decoded_eq (oks : Nat → Bool) (rx : RxCtx) : decoded ctx fifos mtu oks rx = some
    (heardMsgs none (succeeded oks (sentPackets mtu txDrainFuel none (fifos.held .tx)))) := by
  obtain ⟨hpackets, -⟩ := txPackets_clear hmtu hidle hclear
  rw [decoded, populateTxBuffers_eq oks hpackets, Option.map_some,
    (rxRun_refines _ (represents_reset rx)).2, succeeded_map, List.map_map]
  rfl

theorem decodesAll_of_clear (rx : RxCtx) : DecodesAll ctx fifos mtu rx := by
  rw [DecodesAll, decoded_eq hmtu hidle hclear, succeeded_all,
    (txPackets_clear hmtu hidle hclear).2]

theorem deliversInOrder_of_harmless {oks : Nat → Bool} (rx : RxCtx)
    (h : Harmless mtu oks (payloadLens (fifos.held .tx))) :
    DeliversInOrder ctx fifos mtu oks rx := by
  refine ⟨_, decoded_eq hmtu hidle hclear oks rx, ?_⟩
  have hsend : Sendable mtu none (fifos.held .tx) := ⟨placed_none, hclear⟩
  have hstart : Hears .idle none none := rfl
  exact heardMsgs_sublist (by omega) hsend hstart (by rwa [sentPackets_shape])

end Decoded

end MinimalWatch.Ble
