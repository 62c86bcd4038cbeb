import MinimalWatch.Ble.Drain

/-! Packets against the ATT MTU of the connection that they are sent on. `effective_mtu` is
one variable for all connections and is set by `mtu_updated` alone, so a packet may be
built for the MTU of a connection that is gone. The record has the MTU of each connection
as the stack has it. -/

namespace MinimalWatch.Ble
open Firmware

/-- The ATT MTU of a new connection. -/
def defaultAttMtu : Nat := 23

/-- Opcode and handle, which a notification has in front of its value. -/
def notifyHeaderSize : Nat := 3

structure StackMtu where
  alive : List BtConn
  attMtu : BtConn → Nat
  /-- The `effective_mtu` that the packet in `tx_buffer` was built with. -/
  builtFor : Nat

namespace StackMtu

def init : StackMtu := ⟨[], fun _ => defaultAttMtu, 0⟩

def report (m : StackMtu) : DrainAction → StackMtu
  | .connected conn err =>
    if err = 0 then
      { m with
        alive := conn :: m.alive
        attMtu := Function.update m.attMtu conn defaultAttMtu }
    else m
  | .disconnected conn _ => { m with alive := m.alive.erase conn }
  | .mtuUpdated conn gattMtu => { m with attMtu := Function.update m.attMtu conn gattMtu }
  | _ => m

def next (_ : Drain) (action : DrainAction) (s' : Drain) (m : StackMtu) : StackMtu :=
  match s'.pc with
  | .building effectiveMtu _ => { m.report action with builtFor := effectiveMtu }
  | _ => m.report action

end StackMtu

abbrev mtuStep : Drain × StackMtu → DrainAction → Option (Drain × StackMtu) :=
  Machine.recording drainStep StackMtu.next

def mtuInit : Drain × StackMtu := (.init, .init)

/-- The connections that a notify goes to: `ble_conn`, or all of them when it is NULL. -/
def targets (s : Drain × StackMtu) : List BtConn :=
  s.1.manager.bleConn.elim s.2.alive fun conn => [conn]

/-- `n` bytes can be notified on each connection that the notify goes to. -/
def Room (s : Drain × StackMtu) (n : Nat) : Prop :=
  ∀ conn ∈ targets s, n + notifyHeaderSize ≤ s.2.attMtu conn

/-- The packet that `bt_gatt_notify` is about to be called with. -/
def DrainPc.notified? : DrainPc → Option (List UInt8)
  | .notifying packet => some packet
  | _ => none

theorem notified?_some {pc : DrainPc} {packet : List UInt8} (h : pc.notified? = some packet) :
    pc = .notifying packet := by
  cases pc with
  | notifying p => rw [Option.some.inj h]
  | _ => cases h

/-- A packet that is notified fits the connection. -/
def PacketsFit (s : Drain × StackMtu) : DrainAction → Prop
  | .notify _ => ∀ packet, s.1.pc = .notifying packet → Room s packet.length
  | _ => True

/-- A packet is notified where the MTU that it was built for holds. -/
def MtuHolds (s : Drain × StackMtu) : DrainAction → Prop
  | .notify _ => Room s s.2.builtFor
  | _ => True

/-- The bytes in `tx_buffer` are within the MTU that they are built for. -/
def BuiltWithin (s : Drain × StackMtu) : Prop :=
  match s.1.pc with
  | .idle => True
  | .building effectiveMtu buffer =>
    s.2.builtFor = effectiveMtu ∧ (1 < buffer.length → buffer.length ≤ effectiveMtu)
  | .built packet => packet.length ≤ s.2.builtFor
  | .notifying packet => packet.length ≤ s.2.builtFor

theorem afterPass_within {effectiveMtu : Nat} {s : TxLoop}
    (h : 1 < s.buffer.length → s.buffer.length ≤ effectiveMtu) :
    1 < (afterPass effectiveMtu s).buffer.length →
      (afterPass effectiveMtu s).buffer.length ≤ effectiveMtu := by
  cases afterPass_move effectiveMtu s with
  | rest hsame => rwa [hsame]
  | wait hserves hcur hqueue hbuffer => rwa [hbuffer]
  | @send w k queue hserves hroom hcur hqueue hbuffer =>
    intro _
    have hchunk : txChunk effectiveMtu s.buffer.length w k ≤
        effectiveMtu - (s.buffer.length + (txHeader w k).length) := Nat.min_le_right _ _
    rw [hbuffer, List.length_append, txSent_length]
    omega

@[simp] theorem report_builtFor (m : StackMtu) (action : DrainAction) :
    (m.report action).builtFor = m.builtFor := by
  cases action with
  | connected conn err =>
    rw [StackMtu.report]
    split_ifs <;> rfl
  | _ => rfl

theorem builtWithin_startBuild (s : Drain) (action : DrainAction) (m : StackMtu) :
    BuiltWithin (s.startBuild, StackMtu.next s action s.startBuild m) :=
  ⟨rfl, fun h => absurd h (Nat.lt_irrefl 1)⟩

theorem builtWithin_pass {s : Drain} {m : StackMtu} {effectiveMtu : Nat} {buffer : List UInt8}
    (hfor : m.builtFor = effectiveMtu)
    (hlen : 1 < buffer.length → buffer.length ≤ effectiveMtu) :
    BuiltWithin (s.pass effectiveMtu buffer,
      StackMtu.next s .pass (s.pass effectiveMtu buffer) m) := by
  have hwithin := @afterPass_within effectiveMtu ⟨s.ctx, s.fifos, buffer⟩ hlen
  rw [Drain.pass]
  rw [afterPass] at hwithin
  cases hiter : txIteration effectiveMtu ⟨s.ctx, s.fifos, buffer⟩ with
  | inl r =>
    rw [hiter] at hwithin
    exact ⟨rfl, hwithin⟩
  | inr r =>
    rw [hiter] at hwithin
    by_cases hpacked : 1 < r.buffer.length
    · simp only [if_pos hpacked]
      change r.buffer.length ≤ m.builtFor
      rw [hfor]
      exact hwithin hpacked
    · simp only [if_neg hpacked]
      trivial

/-- A step that leaves the thread where it is. -/
theorem builtWithin_keep {s s' : Drain} {m : StackMtu} (action : DrainAction)
    (h : BuiltWithin (s, m)) (hpc : s'.pc = s.pc) :
    BuiltWithin (s', StackMtu.next s action s' m) := by
  cases hold : s.pc with
  | idle => simp only [BuiltWithin, hpc, hold]
  | building effectiveMtu buffer =>
    simp only [BuiltWithin, StackMtu.next, hpc, hold, true_and] at h ⊢
    exact h.2
  | built packet =>
    simp only [BuiltWithin, StackMtu.next, hpc, hold, report_builtFor] at h ⊢
    exact h
  | notifying packet =>
    simp only [BuiltWithin, StackMtu.next, hpc, hold, report_builtFor] at h ⊢
    exact h

theorem builtWithin_step {s s' : Drain × StackMtu} {action : DrainAction} (h : BuiltWithin s)
    (hstep : mtuStep s action = some s') : BuiltWithin s' := by
  obtain ⟨d, hd, rfl⟩ := Machine.recording_some _ _ hstep
  cases drainStep_move hd with
  | start hpc hup => exact builtWithin_startBuild s.1 _ s.2
  | pass hpc =>
    rw [BuiltWithin, hpc] at h
    exact builtWithin_pass h.1 h.2
  | send hpc hup =>
    rw [BuiltWithin, hpc] at h
    exact h
  | discard hpc hdown => exact builtWithin_startBuild s.1 _ s.2
  | notify hpc err => exact builtWithin_startBuild s.1 _ s.2
  | _ => exact builtWithin_keep _ h rfl

theorem packetsFit_of_mtuHolds {s : Drain × StackMtu} {action : DrainAction}
    (h : BuiltWithin s) (hmtu : MtuHolds s action) : PacketsFit s action := by
  cases action with
  | notify err =>
    intro packet hpc conn hconn
    rw [BuiltWithin, hpc] at h
    have hroom := hmtu conn hconn
    have hlen : packet.length ≤ s.2.builtFor := h
    omega
  | _ => trivial

instance (s : Drain × StackMtu) (n : Nat) : Decidable (Room s n) :=
  inferInstanceAs (Decidable (∀ conn ∈ targets s, n + notifyHeaderSize ≤ s.2.attMtu conn))

instance (s : Drain × StackMtu) (action : DrainAction) : Decidable (MtuHolds s action) :=
  match action with
  | .notify _ => inferInstanceAs (Decidable (Room s s.2.builtFor))
  | .connected _ _ | .disconnected _ _ | .cccCfgChanged _ | .mtuUpdated _ _ | .addMsg _ |
    .populate | .pass | .testLink => isTrue trivial

/-- Along any run of callbacks and drains: all packets fit the connection that they are
sent on while each is sent where the MTU that it was built for holds. -/
theorem packetsFit_of_mtuHolds_run (actions : List DrainAction)
    (h : Machine.EachStep mtuStep MtuHolds mtuInit actions) :
    Machine.EachStep mtuStep PacketsFit mtuInit actions := by
  have hinit : BuiltWithin mtuInit := trivial
  exact Machine.EachStep.imp hinit (fun s action s' hwithin hmtu hstep =>
    ⟨builtWithin_step hwithin hstep, packetsFit_of_mtuHolds hwithin hmtu⟩) h

/-- Two phones one after the other, each with an MTU exchange of its own. -/
theorem packetsFit_second_phone :
    let request : BleMsg := (WireMsg.mk 1 1 (List.replicate 50 7) (by decide)).msg
    let actions : List DrainAction := [.connected 1 0, .mtuUpdated 1 247, .disconnected 1 0x13,
      .connected 2 0, .mtuUpdated 2 65, .cccCfgChanged 1, .addMsg request, .populate, .pass,
      .pass, .testLink, .notify 0]
    Machine.EachStep mtuStep MtuHolds mtuInit actions ∧
      Machine.EachStep mtuStep PacketsFit mtuInit actions := by
  intro request actions
  have hholds : Machine.EachStep mtuStep MtuHolds mtuInit actions := by decide +kernel
  exact ⟨hholds, packetsFit_of_mtuHolds_run actions hholds⟩

/-- A phone that had exchanged an MTU of 247 leaves; to the next one, which has not yet
exchanged any, a packet of 55 bytes is sent. -/
theorem stale_mtu_packet :
    let request : BleMsg := (WireMsg.mk 1 1 (List.replicate 50 7) (by decide)).msg
    let actions : List DrainAction := [.connected 1 0, .mtuUpdated 1 247, .disconnected 1 0x13,
      .connected 2 0, .cccCfgChanged 1, .addMsg request, .populate, .pass, .pass, .testLink]
    ∃ s packet, Machine.run mtuStep mtuInit actions = some s ∧ s.1.pc = .notifying packet ∧
      packet.length = 55 ∧ targets s = [2] ∧ s.2.attMtu 2 = 23 ∧
      ¬ Machine.EachStep mtuStep PacketsFit mtuInit (actions ++ [.notify 0]) := by
  intro request actions
  have hrun : (Machine.run mtuStep mtuInit actions).map (fun s =>
      (s.1.pc.notified?.map List.length, targets s, s.2.attMtu 2)) =
      some (some 55, [2], 23) := by
    decide +kernel
  obtain ⟨s, hs, hfacts⟩ := Option.map_eq_some_iff.mp hrun
  simp only [Prod.mk.injEq] at hfacts
  obtain ⟨hpacket, htargets, hatt⟩ := hfacts
  obtain ⟨packet, hpacket, hlen⟩ := Option.map_eq_some_iff.mp hpacket
  have hpc := notified?_some hpacket
  refine ⟨s, packet, hs, hpc, hlen, htargets, hatt, fun h => ?_⟩
  obtain ⟨s', hs'⟩ : ∃ s', mtuStep s (.notify 0) = some s' := by
    simp [Machine.recording, drainStep, hpc]
  have hroom := h actions (.notify 0) [] s s' rfl hs hs' packet hpc 2
    (by rw [htargets]; exact List.mem_singleton_self 2)
  rw [hlen, hatt] at hroom
  exact absurd hroom (by decide)

end MinimalWatch.Ble
