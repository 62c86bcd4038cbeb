import MinimalWatch.Ble.PacketFill

/-! The sender over any sequence of its calls: messages are queued, packets are built for
whatever MTU the connection has, the context is reset. A call either has nothing to send
or lowers `txWork`, so calls repeated with nothing new to send drain the FIFO. -/

namespace MinimalWatch.Ble
open Firmware

variable {mtu : Nat}

/-- The static state of the sender. -/
structure TxState where
  ctx : TxCtx
  fifos : BleFifos

def TxState.init : TxState := ⟨.init, .init⟩

inductive TxAction
  | queue (msg : BleMsg)
  | build (effectiveMtu : Nat)
  | reset

def txStep (s : TxState) : TxAction → Option TxState
  | .queue msg => some { s with fifos := (addBleMsgToQueue s.fifos (some msg) .tx).1 }
  | .build effectiveMtu =>
    let final := (bleBuildNextPacket s.ctx s.fifos effectiveMtu (some 0)).1
    some ⟨final.ctx, final.fifos⟩
  | .reset => some { s with ctx := txResetContext s.ctx }

/-! ### What every call relies on -/

/-- With no room behind the flag the call leaves everything as it is. -/
theorem bleBuildNextPacket_short (ctx : TxCtx) (fifos : BleFifos) (hmtu : mtu ≤ 1) :
    Loop.loop (txIteration mtu) (txFuel mtu) ⟨ctx, fifos, [txFlag ctx.current]⟩ =
        some ⟨ctx, fifos, [txFlag ctx.current]⟩ ∧
      bleBuildNextPacket ctx fifos mtu (some 0) =
        (⟨ctx, fifos, [txFlag ctx.current]⟩, some 1, false) := by
  have hiter : txIteration mtu ⟨ctx, fifos, [txFlag ctx.current]⟩ =
      .inr ⟨ctx, fifos, [txFlag ctx.current]⟩ := by
    rw [txIteration, if_neg (by simpa using hmtu)]
  have hloop := Loop.loop_leave mtu hiter
  refine ⟨hloop, ?_⟩
  rw [← txFlag_current] at hloop ⊢
  simp only [bleBuildNextPacket, txFuel, hloop, Option.getD_some]
  rfl

theorem fillPacket_placed (queue : List WireMsg) (pos : Nat) {w : WireMsg} {k : Nat}
    (h : k = 0 ∨ k < w.payload.length) : Placed (fillPacket mtu queue pos w k).current := by
  induction queue generalizing pos w k with
  | nil =>
    by_cases hroom : NoRoom mtu pos k
    · rw [fillPacket_noRoom hroom]
      exact placed_some h
    · rw [fillPacket_last hroom]
      exact txAfter_placed pos w k
  | cons next rest ih =>
    by_cases hroom : NoRoom mtu pos k
    · rw [fillPacket_noRoom hroom]
      exact placed_some h
    by_cases hmore : pos + (txSent mtu pos w k).length < mtu
    · rw [fillPacket_next hroom hmore]
      exact ih _ (Or.inl rfl)
    · rw [fillPacket_full hroom (by omega)]
      exact txAfter_placed pos w k

theorem nextPacket_placed {cur : TxCurrent} (queue : List WireMsg) (h : Placed cur) :
    Placed (nextPacket mtu cur queue).current := by
  match cur, queue with
  | some (w, k), queue => exact fillPacket_placed queue 1 (h w k rfl)
  | none, w :: rest => exact fillPacket_placed rest 1 (Or.inl rfl)
  | none, [] => exact placed_none

theorem txStep_placed {s s' : TxState} {action : TxAction} (h : Placed s.ctx.current)
    (hstep : txStep s action = some s') : Placed s'.ctx.current := by
  cases action with
  | queue msg =>
    obtain rfl := Option.some.inj hstep
    exact h
  | build effectiveMtu =>
    obtain rfl := Option.some.inj hstep
    by_cases hmtu : 1 < effectiveMtu
    · obtain ⟨final, -, hcall, -, hcur, -⟩ := bleBuildNextPacket_fill s.fifos hmtu h
      simp only [hcall, hcur]
      exact nextPacket_placed _ h
    · have hshort := (bleBuildNextPacket_short s.ctx s.fifos (Nat.le_of_not_lt hmtu)).2
      simp only [hshort]
      exact h
  | reset =>
    obtain rfl := Option.some.inj hstep
    exact placed_none

theorem run_placed {actions : List TxAction} {s : TxState}
    (hrun : Machine.run txStep .init actions = some s) : Placed s.ctx.current :=
  @Machine.run_invariant TxState TxAction txStep (fun s => Placed s.ctx.current) .init s actions
    placed_none (fun _ _ _ h hstep => txStep_placed h hstep) hrun

/-! ### Progress -/

theorem txWork_next (w : WireMsg) (queue : List WireMsg) :
    txWork (some (w, 0)) queue = txWork none (w :: queue) := by
  simp [txWork]

theorem txWork_after (pos : Nat) (w : WireMsg) (k : Nat) (queue : List WireMsg) :
    txWork (txAfter mtu pos w k) queue ≤ txWork (some (w, k)) queue :=
  Nat.le_trans (Nat.le_add_right _ _) (txWork_write pos w k queue).1

theorem fillPacket_work (queue : List WireMsg) (pos : Nat) (w : WireMsg) (k : Nat) :
    txWork (fillPacket mtu queue pos w k).current (fillPacket mtu queue pos w k).queue ≤
      txWork (some (w, k)) queue := by
  induction queue generalizing pos w k with
  | nil =>
    by_cases hroom : NoRoom mtu pos k
    · simp only [fillPacket_noRoom hroom, Nat.le_refl]
    · rw [fillPacket_last hroom]
      exact txWork_after pos w k []
  | cons next rest ih =>
    by_cases hroom : NoRoom mtu pos k
    · simp only [fillPacket_noRoom hroom, Nat.le_refl]
    have hle := @txWork_after mtu pos w k (next :: rest)
    by_cases hmore : pos + (txSent mtu pos w k).length < mtu
    · obtain ⟨-, hnone⟩ := txAfter_none hmore
      rw [hnone, ← txWork_next] at hle
      rw [fillPacket_next hroom hmore]
      exact Nat.le_trans (ih _ next 0) hle
    · rw [fillPacket_full hroom (by omega)]
      exact hle

/-- Behind the flag there is room for a header and for payload after it. -/
theorem fillPacket_progress (queue : List WireMsg) {w : WireMsg} {k : Nat} (hmtu : 20 ≤ mtu)
    (hplaced : k = 0 ∨ k < w.payload.length) :
    (fillPacket mtu queue 1 w k).body ≠ [] ∧
      txWork (fillPacket mtu queue 1 w k).current (fillPacket mtu queue 1 w k).queue <
        txWork (some (w, k)) queue := by
  have hroom : ¬ NoRoom mtu 1 k := by
    rw [NoRoom]
    omega
  have hsent := txSent_pos hroom hplaced
  have hnonempty : txSent mtu 1 w k ≠ [] := List.length_pos_iff.mp hsent
  have hhdr := txHeader_length w k
  have hchunk : txChunk mtu 1 w k =
      min (w.payload.length - k) (mtu - (1 + (txHeader w k).length)) := rfl
  obtain ⟨hle, hdone⟩ := @txWork_write mtu 1 w k queue
  have hless : txWork (txAfter mtu 1 w k) queue < txWork (some (w, k)) queue := by
    by_cases hall : w.payload.length ≤ k + txChunk mtu 1 w k
    · exact hdone hall
    · split_ifs at hhdr <;> omega
  cases queue with
  | nil =>
    rw [fillPacket_last hroom]
    exact ⟨hnonempty, hless⟩
  | cons next rest =>
    by_cases hmore : 1 + (txSent mtu 1 w k).length < mtu
    · have hrest := @fillPacket_work mtu rest (1 + (txSent mtu 1 w k).length) next 0
      obtain ⟨-, hnone⟩ := txAfter_none hmore
      rw [hnone, ← txWork_next] at hless
      rw [fillPacket_next hroom hmore]
      exact ⟨by simp [hnonempty], Nat.lt_of_le_of_lt hrest hless⟩
    · rw [fillPacket_full hroom (by omega)]
      exact ⟨hnonempty, hless⟩

/-- An empty packet means that there is nothing left to send; any other packet has done
some of the work. -/
theorem nextPacket_progress {cur : TxCurrent} {queue : List WireMsg} (hmtu : 20 ≤ mtu)
    (hplaced : Placed cur) :
    ((nextPacket mtu cur queue).body = [] ∧ cur = none ∧ queue = []) ∨
      ((nextPacket mtu cur queue).body ≠ [] ∧
        txWork (nextPacket mtu cur queue).current (nextPacket mtu cur queue).queue <
          txWork cur queue) := by
  match cur, queue with
  | some (w, k), queue => exact Or.inr (fillPacket_progress queue hmtu (hplaced w k rfl))
  | none, w :: rest =>
    have hgo := fillPacket_progress rest hmtu (Or.inl rfl : 0 = 0 ∨ 0 < w.payload.length)
    rw [txWork_next] at hgo
    exact Or.inr hgo
  | none, [] => exact Or.inl ⟨rfl, rfl, rfl⟩

/-! ### Calls repeated until one answers false -/

/-- A call that answers true has done some of the work; one that answers false leaves
nothing behind. -/
theorem txDrainCall_progress {s : TxDrain} (hmtu : 20 ≤ mtu) (h : Placed s.ctx.current) :
    match txDrainCall mtu s with
    | .inl s' => Placed s'.ctx.current ∧
        txWork s'.ctx.current (s'.fifos.held .tx) < txWork s.ctx.current (s.fifos.held .tx)
    | .inr r => r.fifos.held .tx = [] ∧ r.ctx.msgActive = false := by
  obtain ⟨final, -, hcall, hbuffer, hcur, hqueue⟩ :=
    @bleBuildNextPacket_fill mtu s.ctx s.fifos (by omega) h
  have hplaced := @nextPacket_placed mtu s.ctx.current (s.fifos.held .tx) h
  rcases @nextPacket_progress mtu s.ctx.current (s.fifos.held .tx) hmtu h
    with ⟨hbody, hnone, hempty⟩ | ⟨hbody, hless⟩
  · simp only [txDrainCall, hcall, hbuffer, hbody, List.length_singleton, Nat.lt_irrefl,
      decide_false]
    rw [hnone, hempty] at hcur hqueue
    exact ⟨hqueue, TxCtx.current_none hcur⟩
  · have hpos := List.length_pos_iff.mpr hbody
    simp only [txDrainCall, hcall, hbuffer, List.length_cons, Nat.lt_add_left_iff_pos, hpos,
      decide_true, hcur, hqueue]
    exact ⟨hplaced, hless⟩

theorem txWork_lt_fuel (ctx : TxCtx) (fifos : BleFifos) :
    txWork ctx.current (fifos.held .tx) < txDrainFuel := by
  have hheld := queueWork_le (fifos.held .tx)
  have hcount := fifos.held_length_le .tx
  have hcap : bleFifoCapacity = 19 := rfl
  have hfuel : txDrainFuel = 20 * 256 + 1 := rfl
  match hcur : ctx.current with
  | none =>
    simp only [txWork, Option.elim_none]
    omega
  | some (w, k) =>
    have hw := w.payload_lt
    simp only [txWork, Option.elim_some]
    omega

/-- From any state that the sender gets into and with any messages in the FIFO, calls
with nothing new queued come to one that answers false. It leaves the FIFO empty and no
message in progress. -/
theorem drain_ends (actions : List TxAction) {s : TxState}
    (hrun : Machine.run txStep .init actions = some s) (fifos : BleFifos)
    {effectiveMtu : Nat} (hmtu : 20 ≤ effectiveMtu) :
    ∃ r, Loop.loop (txDrainCall effectiveMtu) txDrainFuel ⟨s.ctx, fifos, []⟩ = some r ∧
      r.fifos.held .tx = [] ∧ r.ctx.msgActive = false := by
  refine Loop.loop_total (fun s : TxDrain => Placed s.ctx.current)
    (fun r : TxDrain => r.fifos.held .tx = [] ∧ r.ctx.msgActive = false)
    (fun s : TxDrain => txWork s.ctx.current (s.fifos.held .tx))
    (fun s s' hplaced hbody => ?_) (fun s r hplaced hbody => ?_) (run_placed hrun)
    (txWork_lt_fuel s.ctx fifos)
  · have hgo := txDrainCall_progress hmtu hplaced
    rwa [hbody] at hgo
  · have hend := txDrainCall_progress hmtu hplaced
    rwa [hbody] at hend

/-- A header that filled its packet is in progress, and another message waits. -/
theorem drain_ends_header_sent :
    let ms := [WireMsg.msg ⟨1, 2, [1, 2, 3, 4, 5, 6, 7, 8, 9, 10, 11], by decide⟩,
      WireMsg.msg ⟨3, 4, [7], by decide⟩]
    let actions := ms.map TxAction.queue ++ [.build 20]
    ∃ s r, Machine.run txStep .init actions = some s ∧ s.ctx.msgActive = true ∧
      s.ctx.offset = 0 ∧
      Loop.loop (txDrainCall 20) txDrainFuel ⟨s.ctx, queueMsgs .init ms, []⟩ = some r ∧
      r.fifos.held .tx = [] ∧ r.ctx.msgActive = false := by
  intro ms actions
  have hrun : (Machine.run txStep .init actions).map (fun s => (s.ctx.msgActive, s.ctx.offset)) =
      some (true, 0) := by
    decide +kernel
  obtain ⟨s, hs, hctx⟩ := Option.map_eq_some_iff.mp hrun
  obtain ⟨hactive, hoffset⟩ := Prod.mk.inj hctx
  obtain ⟨r, hloop, hend⟩ := drain_ends actions hs (queueMsgs .init ms) (Nat.le_refl 20)
  exact ⟨s, r, hs, hactive, hoffset, hloop, hend⟩

end MinimalWatch.Ble
