import MinimalWatch.Ble.Connection
import MinimalWatch.Ble.Layout

/-! `populate_tx_buffers` of ble_manager.c in steps, between which the callbacks of the
stack run and other threads queue messages: the test at its start, each pass of the loop
that builds a packet, the test of the link, and `bt_gatt_notify` with the answer that the
stack gives. `ble_conn` and the flags are read anew at each of them. -/

namespace MinimalWatch.Ble
open Firmware

/-! ### One pass over a message -/

/-- The message that a pass works on: the one in progress, or the oldest of the queue. -/
inductive Serves (s : TxLoop) : WireMsg → Nat → List WireMsg → Prop
  | current {w : WireMsg} {k : Nat} (hcur : s.ctx.current = some (w, k)) :
      Serves s w k (s.fifos.held .tx)
  | taken {w : WireMsg} {rest : List WireMsg} (hcur : s.ctx.current = none)
      (hqueue : s.fifos.held .tx = w :: rest) : Serves s w 0 rest

/-- What a pass leaves behind. -/
inductive TxMove (effectiveMtu : Nat) (s r : TxLoop) : Prop
  | rest (h : r = s)
  | wait {w : WireMsg} {queue : List WireMsg} (hserves : Serves s w 0 queue)
      (hcur : r.ctx.current = some (w, 0)) (hqueue : r.fifos.held .tx = queue)
      (hbuffer : r.buffer = s.buffer)
  | send {w : WireMsg} {k : Nat} {queue : List WireMsg} (hserves : Serves s w k queue)
      (hroom : s.buffer.length + (txHeader w k).length ≤ effectiveMtu)
      (hcur : r.ctx.current = txAfter effectiveMtu s.buffer.length w k)
      (hqueue : r.fifos.held .tx = queue)
      (hbuffer : r.buffer = s.buffer ++ txSent effectiveMtu s.buffer.length w k)

/-- The state after a pass, whether or not the loop goes on. -/
def afterPass (effectiveMtu : Nat) (s : TxLoop) : TxLoop :=
  (txIteration effectiveMtu s).elim id id

theorem txWrite_move {effectiveMtu : Nat} {s s₀ : TxLoop} {w : WireMsg} {k : Nat}
    {queue : List WireMsg} (hserves : Serves s₀ w k queue) (hbuffer : s.buffer = s₀.buffer)
    (hcur : s.ctx.current = some (w, k)) (hqueue : s.fifos.held .tx = queue)
    (hpos : s.buffer.length < effectiveMtu) :
    TxMove effectiveMtu s₀ ((txWrite effectiveMtu s).elim id id) := by
  have hhdr := txHeader_length w k
  by_cases hnoroom : k = 0 ∧ effectiveMtu < s.buffer.length + 4
  · obtain ⟨rfl, hlong⟩ := hnoroom
    rw [txWrite_noRoom hcur hlong]
    exact .wait hserves hcur hqueue hbuffer
  · obtain ⟨r, hwrite, hfifos, hbuffer', hcur'⟩ :=
      @txWrite_room effectiveMtu s w k hcur (by omega)
    have hafter : (txWrite effectiveMtu s).elim id id = r := by
      rw [hwrite]
      split_ifs <;> rfl
    rw [hafter]
    rw [hbuffer] at hbuffer' hcur' hnoroom hpos
    refine .send hserves ?_ hcur' (by rw [hfifos, hqueue]) hbuffer'
    split_ifs at hhdr <;> omega

theorem afterPass_move (effectiveMtu : Nat) (s : TxLoop) :
    TxMove effectiveMtu s (afterPass effectiveMtu s) := by
  rw [afterPass, txIteration]
  by_cases hpos : s.buffer.length < effectiveMtu
  · rw [if_pos hpos]
    match hcur : s.ctx.current, hqueue : s.fifos.held .tx with
    | some (w, k), _ =>
      rw [txLoad_active hcur]
      exact txWrite_move (.current hcur) rfl hcur rfl hpos
    | none, [] =>
      rw [txLoad_empty hcur hqueue]
      exact .rest rfl
    | none, w :: rest =>
      obtain ⟨s', hload, hcur', hqueue', hbuffer⟩ := txLoad_next hcur hqueue
      rw [hload]
      exact txWrite_move (.taken hcur hqueue) hbuffer hcur' hqueue' (by rwa [hbuffer])
  · rw [if_neg hpos]
    exact .rest rfl

/-! ### The thread and the callbacks -/

inductive DrainPc
  | idle
  /-- Inside `ble_build_next_packet`, called with this MTU. -/
  | building (effectiveMtu : Nat) (buffer : List UInt8)
  /-- The packet is in `tx_buffer`. -/
  | built (packet : List UInt8)
  /-- The link has been found up. -/
  | notifying (packet : List UInt8)

structure Drain where
  manager : BleManager
  ctx : TxCtx
  fifos : BleFifos
  pc : DrainPc

def Drain.init : Drain := ⟨.init, .init, .init, .idle⟩

def BleManager.linkUp (m : BleManager) : Bool :=
  m.bleConn.isSome && m.bleConnected && m.notificationsEnabled

inductive DrainAction
  | connected (conn : BtConn) (err : UInt8)
  | disconnected (conn : BtConn) (reason : UInt8)
  | cccCfgChanged (value : Nat)
  | mtuUpdated (conn : BtConn) (gattMtu : Nat)
  | addMsg (msg : BleMsg)
  | populate
  | pass
  | testLink
  | notify (err : Int)
  deriving DecidableEq, Repr

namespace Drain

/-- The call of `ble_build_next_packet` in the condition of the loop. -/
def startBuild (s : Drain) : Drain :=
  { s with pc := .building s.manager.effectiveMtu [if s.ctx.msgActive then 1 else 0] }

/-- One pass; at the end of the loop a packet of the flag alone answers false. -/
def pass (s : Drain) (effectiveMtu : Nat) (buffer : List UInt8) : Drain :=
  match txIteration effectiveMtu ⟨s.ctx, s.fifos, buffer⟩ with
  | .inl r => { s with ctx := r.ctx, fifos := r.fifos, pc := .building effectiveMtu r.buffer }
  | .inr r =>
    { s with
      ctx := r.ctx
      fifos := r.fifos
      pc := if 1 < r.buffer.length then .built r.buffer else .idle }

end Drain

def drainStep (s : Drain) : DrainAction → Option Drain
  | .connected conn err => some { s with manager := s.manager.connected conn err }
  | .disconnected conn reason => some { s with manager := s.manager.disconnected conn reason }
  | .cccCfgChanged value => some { s with manager := s.manager.mwCccCfgChanged value }
  | .mtuUpdated _ gattMtu => some { s with manager := s.manager.mtuUpdated gattMtu }
  | .addMsg msg => some { s with fifos := (addBleMsgToQueue s.fifos (some msg) .tx).1 }
  | .populate =>
    match s.pc with
    | .idle => some (if s.manager.linkUp then s.startBuild else s)
    | _ => none
  | .pass =>
    match s.pc with
    | .building effectiveMtu buffer => some (s.pass effectiveMtu buffer)
    | _ => none
  | .testLink =>
    match s.pc with
    | .built packet =>
      some (if s.manager.linkUp then { s with pc := .notifying packet } else s.startBuild)
    | _ => none
  | .notify _ =>
    match s.pc with
    | .notifying _ => some s.startBuild
    | _ => none

/-- What a step does, and where the thread stands for it. -/
inductive DrainMove (s : Drain) : DrainAction → Drain → Prop
  | connected (conn : BtConn) (err : UInt8) :
      DrainMove s (.connected conn err) { s with manager := s.manager.connected conn err }
  | disconnected (conn : BtConn) (reason : UInt8) :
      DrainMove s (.disconnected conn reason)
        { s with manager := s.manager.disconnected conn reason }
  | cccCfgChanged (value : Nat) :
      DrainMove s (.cccCfgChanged value) { s with manager := s.manager.mwCccCfgChanged value }
  | mtuUpdated (conn : BtConn) (gattMtu : Nat) :
      DrainMove s (.mtuUpdated conn gattMtu) { s with manager := s.manager.mtuUpdated gattMtu }
  | addMsg (msg : BleMsg) :
      DrainMove s (.addMsg msg) { s with fifos := (addBleMsgToQueue s.fifos (some msg) .tx).1 }
  | start (hpc : s.pc = .idle) (hup : s.manager.linkUp = true) :
      DrainMove s .populate s.startBuild
  | refuse (hpc : s.pc = .idle) (hdown : ¬ s.manager.linkUp = true) : DrainMove s .populate s
  | pass {effectiveMtu : Nat} {buffer : List UInt8} (hpc : s.pc = .building effectiveMtu buffer) :
      DrainMove s .pass (s.pass effectiveMtu buffer)
  | send {packet : List UInt8} (hpc : s.pc = .built packet) (hup : s.manager.linkUp = true) :
      DrainMove s .testLink { s with pc := .notifying packet }
  | discard {packet : List UInt8} (hpc : s.pc = .built packet)
      (hdown : ¬ s.manager.linkUp = true) : DrainMove s .testLink s.startBuild
  | notify {packet : List UInt8} (hpc : s.pc = .notifying packet) (err : Int) :
      DrainMove s (.notify err) s.startBuild

theorem drainStep_move {s s' : Drain} {action : DrainAction}
    (h : drainStep s action = some s') : DrainMove s action s' := by
  cases action with
  | connected conn err => exact Option.some.inj h ▸ .connected conn err
  | disconnected conn reason => exact Option.some.inj h ▸ .disconnected conn reason
  | cccCfgChanged value => exact Option.some.inj h ▸ .cccCfgChanged value
  | mtuUpdated conn gattMtu => exact Option.some.inj h ▸ .mtuUpdated conn gattMtu
  | addMsg msg => exact Option.some.inj h ▸ .addMsg msg
  | populate =>
    cases hpc : s.pc with
    | idle =>
      simp only [drainStep, hpc] at h
      split_ifs at h with hup
      · exact Option.some.inj h ▸ .start hpc hup
      · exact Option.some.inj h ▸ .refuse hpc hup
    | _ => simp [drainStep, hpc] at h
  | pass =>
    cases hpc : s.pc with
    | building effectiveMtu buffer =>
      simp only [drainStep, hpc] at h
      exact Option.some.inj h ▸ .pass hpc
    | _ => simp [drainStep, hpc] at h
  | testLink =>
    cases hpc : s.pc with
    | built packet =>
      simp only [drainStep, hpc] at h
      split_ifs at h with hup
      · exact Option.some.inj h ▸ .send hpc hup
      · exact Option.some.inj h ▸ .discard hpc hup
    | _ => simp [drainStep, hpc] at h
  | notify err =>
    cases hpc : s.pc with
    | notifying packet =>
      simp only [drainStep, hpc] at h
      exact Option.some.inj h ▸ .notify hpc err
    | _ => simp [drainStep, hpc] at h

/-! ### What a step does to the packet in hand -/

def DrainPc.buffer : DrainPc → Option (List UInt8)
  | .idle => none
  | .building _ buffer => some buffer
  | .built packet => some packet
  | .notifying packet => some packet

theorem pass_after (s : Drain) (effectiveMtu : Nat) (buffer : List UInt8) :
    (s.pass effectiveMtu buffer).manager = s.manager ∧
    (s.pass effectiveMtu buffer).ctx = (afterPass effectiveMtu ⟨s.ctx, s.fifos, buffer⟩).ctx ∧
    (s.pass effectiveMtu buffer).fifos =
      (afterPass effectiveMtu ⟨s.ctx, s.fifos, buffer⟩).fifos := by
  rw [Drain.pass, afterPass]
  cases txIteration effectiveMtu ⟨s.ctx, s.fifos, buffer⟩ with
  | inl r => exact ⟨rfl, rfl, rfl⟩
  | inr r => exact ⟨rfl, rfl, rfl⟩

/-- The loop goes on, or its packet is in hand, or it has written nothing. -/
theorem pass_pc (s : Drain) (effectiveMtu : Nat) (buffer : List UInt8) :
    (s.pass effectiveMtu buffer).pc.buffer =
        some (afterPass effectiveMtu ⟨s.ctx, s.fifos, buffer⟩).buffer ∨
      (s.pass effectiveMtu buffer).pc = .idle ∧
        (afterPass effectiveMtu ⟨s.ctx, s.fifos, buffer⟩).buffer.length ≤ 1 := by
  rw [Drain.pass, afterPass]
  cases txIteration effectiveMtu ⟨s.ctx, s.fifos, buffer⟩ with
  | inl r => exact Or.inl rfl
  | inr r =>
    simp only [Sum.elim_inr, id]
    split_ifs with hlen
    · exact Or.inl rfl
    · exact Or.inr ⟨rfl, by omega⟩

end MinimalWatch.Ble
