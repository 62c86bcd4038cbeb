import MinimalWatch.Ble.PacketParts

/-! The continuation flag, with every packet read by the peer. The flag says that a message
is loaded. It is right when payload of that message has been sent: a message loaded where
its header did not fit, or whose header filled the packet, makes the next packet start
with a header under a set flag. Otherwise sender and peer agree on what is in progress. -/

namespace MinimalWatch.Ble
open Firmware

variable {mtu : Nat}

/-- The last message whose header has been sent, after a packet with these parts. -/
def PacketParts.lastHeader (p : PacketParts) (before : Option WireMsg) : Option WireMsg :=
  p.started.getLast?.or before

structure TxLink where
  tx : TxState
  /-- The message of the last header that is in a packet. -/
  headerSent : Option WireMsg
  peer : RxCtx

namespace TxLink

def init : TxLink := ⟨.init, none, .init⟩

def call (s : TxLink) (effectiveMtu : Nat) : TxLoop × Option Nat × Bool :=
  bleBuildNextPacket s.tx.ctx s.tx.fifos effectiveMtu (some 0)

def parts (s : TxLink) (effectiveMtu : Nat) : PacketParts :=
  nextParts effectiveMtu s.tx.ctx.current (s.tx.fifos.held .tx)

/-- An ATT MTU is at least 23, so that 20 bytes are left for a packet. -/
def step (s : TxLink) : TxAction → Option TxLink
  | .build effectiveMtu =>
    if effectiveMtu < 20 then none
    else
      let (final, _, sent) := s.call effectiveMtu
      if sent then
        some ⟨⟨final.ctx, final.fifos⟩, (s.parts effectiveMtu).lastHeader s.headerSent,
          (bleRetrievePacket s.peer final.buffer).1⟩
      else some { s with tx := ⟨final.ctx, final.fifos⟩ }
  | action => (txStep s.tx action).map fun tx => { s with tx := tx }

/-- The packet starts with payload of the message whose header was sent last. -/
def GoesOn (s : TxLink) (effectiveMtu : Nat) : Prop :=
  (s.parts effectiveMtu).piece ≠ [] ∧ s.headerSent.isSome ∧
    s.tx.ctx.current.map Prod.fst = s.headerSent

def StartsWithHeader (s : TxLink) (effectiveMtu : Nat) : Prop :=
  (s.parts effectiveMtu).piece = [] ∧ (s.parts effectiveMtu).started ≠ []

/-- The branch of `ble_retrieve_packet` that logs an unexpected continuation. -/
def Resyncs (s : TxLink) (packet : List UInt8) : Prop :=
  (∃ msgCont ∈ packet.head?, msgCont ≠ 0) ∧ s.peer.msgActive = false

/-- What is asked of a call that answers true. -/
def FlagTells (s : TxLink) : TxAction → Prop
  | .build effectiveMtu =>
    let (final, _, sent) := s.call effectiveMtu
    sent = true →
      (final.buffer.head? = some 1 ↔ s.GoesOn effectiveMtu) ∧
      (s.StartsWithHeader effectiveMtu → final.buffer.head? = some 0) ∧
      ¬ s.Resyncs final.buffer
  | _ => True

/-- A loaded message has payload sent. -/
def PayloadBegun (s : TxLink) : TxAction → Prop
  | .build _ => s.tx.ctx.msgActive = true → s.tx.ctx.offset ≠ 0
  | _ => True

instance (s : TxLink) (effectiveMtu : Nat) : Decidable (s.GoesOn effectiveMtu) :=
  inferInstanceAs (Decidable (_ ∧ _))

instance (s : TxLink) (effectiveMtu : Nat) : Decidable (s.StartsWithHeader effectiveMtu) :=
  inferInstanceAs (Decidable (_ ∧ _))

instance (s : TxLink) (packet : List UInt8) : Decidable (s.Resyncs packet) :=
  inferInstanceAs (Decidable (_ ∧ _))

instance (s : TxLink) : (action : TxAction) → Decidable (s.FlagTells action)
  | .build _ => inferInstanceAs (Decidable (_ → _))
  | .queue _ => inferInstanceAs (Decidable True)
  | .reset => inferInstanceAs (Decidable True)

end TxLink

/-! ### A packet that starts with a payload -/

theorem nextParts_piece_of_header {cur : TxCurrent} (queue : List WireMsg)
    (h : ∀ w k, cur = some (w, k) → k = 0) : (nextParts mtu cur queue).piece = [] := by
  match cur with
  | none => exact startedParts_piece queue 1
  | some (w, 0) => exact startedParts_piece (w :: queue) 1
  | some (w, k + 1) =>
    have hzero := h w (k + 1) rfl
    omega

theorem nextParts_piece_ne_nil {w : WireMsg} {k : Nat} (queue : List WireMsg) (hmtu : 1 < mtu)
    (hk : 0 < k) (hlt : k < w.payload.length) :
    (nextParts mtu (some (w, k)) queue).piece ≠ [] := by
  obtain ⟨j, rfl⟩ := Nat.exists_eq_succ_of_ne_zero (Nat.ne_of_gt hk)
  have hroom : ¬ NoRoom mtu 1 (j + 1) := by
    rw [NoRoom]
    omega
  exact List.length_pos_iff.mp (txSent_pos hroom (Or.inr hlt))

/-- The header of what is in progress after the packet, with payload sent, was the last. -/
theorem nextParts_lastHeader {cur : TxCurrent} {before : Option WireMsg}
    (queue : List WireMsg) (hmtu : 1 < mtu)
    (hbefore : ∀ w k, cur = some (w, k) → 0 < k → before = some w) {v : WireMsg} {j : Nat}
    (h : (nextPacket mtu cur queue).current = some (v, j)) (hj : 0 < j) :
    (nextParts mtu cur queue).lastHeader before = some v := by
  have hopened : ∀ p : PacketParts, OpenedBy (some (v, j)) p → p.lastHeader before = some v := by
    intro p hp
    have hlast := hp v j rfl hj
    simp [PacketParts.lastHeader, PacketParts.started, hlast]
  rcases cur with _ | ⟨w, _ | k⟩
  · rcases queue with _ | ⟨w, rest⟩
    · cases h
    · have hstarted := (@fillPacket_started mtu rest 1 w).2
      rw [nextPacket] at h
      rw [h] at hstarted
      exact hopened _ hstarted
  · have hstarted := (@fillPacket_started mtu queue 1 w).2
    rw [nextPacket] at h
    rw [h] at hstarted
    exact hopened _ hstarted
  · have hpiece := (@fillPacket_piece mtu queue w (k + 1) hmtu (Nat.succ_pos k)).2
    rw [nextPacket] at h
    rw [h] at hpiece
    rcases hpiece with hstarted | ⟨hnothing, hsame⟩
    · exact hopened _ hstarted
    · have hempty : (nextParts mtu (some (w, k + 1)) queue).started = [] := hnothing
      rw [PacketParts.lastHeader, hempty, hbefore w (k + 1) rfl (Nat.succ_pos k),
        hsame v j rfl]
      rfl

/-! ### What the peer reads -/

/-- Read behind all that was sent before, a packet leaves the peer in step with the sender,
unless it ends with a message loaded and no payload of it sent. -/
def InStep (cur : TxCurrent) (f : Filled) : Prop :=
  (∃ v, f.current = some (v, 0)) ∨ ∃ out, Feeds (heldBy cur) f.body (heldBy f.current) out

theorem txSent_inStep {pos : Nat} {w : WireMsg} {k : Nat} (queue : List WireMsg)
    (hplaced : k = 0 ∨ k < w.payload.length) :
    InStep (some (w, k)) ⟨txSent mtu pos w k, txAfter mtu pos w k, queue⟩ := by
  rcases @txSent_feeds mtu pos w k hplaced with ⟨hnone, hfeeds⟩ | ⟨hlt, hafter, hfeeds⟩
  · rw [hnone]
    exact Or.inr ⟨[w], hfeeds⟩
  · rw [hafter]
    rcases Nat.eq_zero_or_pos (k + txChunk mtu pos w k) with hzero | hpos
    · rw [hzero]
      exact Or.inl ⟨w, rfl⟩
    · rw [← heldBy_payload hpos hlt] at hfeeds
      exact Or.inr ⟨[], hfeeds⟩

theorem fillPacket_inStep (queue : List WireMsg) (pos : Nat) {w : WireMsg} {k : Nat}
    (hplaced : k = 0 ∨ k < w.payload.length) :
    InStep (some (w, k)) (fillPacket mtu queue pos w k) := by
  induction queue generalizing pos w k with
  | nil =>
    by_cases hroom : NoRoom mtu pos k
    · rw [fillPacket_noRoom hroom]
      exact Or.inr ⟨[], .refl _⟩
    · rw [fillPacket_last hroom]
      exact txSent_inStep [] hplaced
  | cons next rest ih =>
    by_cases hroom : NoRoom mtu pos k
    · rw [fillPacket_noRoom hroom]
      exact Or.inr ⟨[], .refl _⟩
    by_cases hmore : pos + (txSent mtu pos w k).length < mtu
    · obtain ⟨hdone, -⟩ := txAfter_none hmore
      have hsent := feeds_txSent_last hplaced hdone
      rw [fillPacket_next hroom hmore]
      rcases @ih (pos + (txSent mtu pos w k).length) next 0 (Or.inl rfl) with hloaded | ⟨out, hrest⟩
      · exact Or.inl hloaded
      · rw [heldBy_header] at hrest
        exact Or.inr ⟨[w] ++ out, hsent.trans hrest⟩
    · rw [fillPacket_full hroom (by omega)]
      exact txSent_inStep (next :: rest) hplaced

theorem nextPacket_inStep {cur : TxCurrent} (queue : List WireMsg) (hplaced : Placed cur) :
    InStep cur (nextPacket mtu cur queue) := by
  match cur, queue with
  | some (w, k), queue => exact fillPacket_inStep queue 1 (hplaced w k rfl)
  | none, w :: rest =>
    have hgo := @fillPacket_inStep mtu rest 1 w 0 (Or.inl rfl)
    rwa [InStep, heldBy_header] at hgo
  | none, [] => exact Or.inr ⟨[], .refl _⟩

/-! ### The link -/

namespace TxLink

structure Synced (s : TxLink) : Prop where
  placed : Placed s.tx.ctx.current
  header : ∀ w k, s.tx.ctx.current = some (w, k) → 0 < k → s.headerSent = some w
  peer : ∃ held, s.peer.Represents held ∧
    ∀ w k, s.tx.ctx.current = some (w, k) → 0 < k → held = heldBy (some (w, k))

theorem synced_idle {s : TxLink} {held : Option PartialMsg} (h : s.tx.ctx.current = none)
    (hheld : s.peer.Represents held) : s.Synced := by
  have hnone : ∀ w k, s.tx.ctx.current ≠ some (w, k) := by
    intro w k hcur
    rw [h] at hcur
    cases hcur
  refine ⟨?_, fun w k hcur => absurd hcur (hnone w k),
    ⟨held, hheld, fun w k hcur => absurd hcur (hnone w k)⟩⟩
  rw [h]
  exact placed_none

/-- What a call is in terms of the message in progress and the queue. -/
theorem call_fill {s : TxLink} (hmtu : 1 < mtu) (hplaced : Placed s.tx.ctx.current) :
    ∃ final, s.call mtu = (final, some final.buffer.length,
        decide (1 < final.buffer.length)) ∧
      final.buffer = txFlag s.tx.ctx.current ::
        (nextPacket mtu s.tx.ctx.current (s.tx.fifos.held .tx)).body ∧
      final.ctx.current = (nextPacket mtu s.tx.ctx.current (s.tx.fifos.held .tx)).current := by
  obtain ⟨final, -, hcall, hbuffer, hcur, -⟩ := bleBuildNextPacket_fill s.tx.fifos hmtu hplaced
  exact ⟨final, hcall, hbuffer, hcur⟩

/-- The message in progress under `PayloadBegun`. -/
theorem PayloadBegun.current {s : TxLink} (h : s.PayloadBegun (.build mtu)) :
    s.tx.ctx.current = none ∨ ∃ w k, s.tx.ctx.current = some (w, k) ∧ 0 < k := by
  match hcur : s.tx.ctx.current with
  | none => exact Or.inl rfl
  | some (w, k) =>
    obtain ⟨hactive, -, rfl⟩ := TxCtx.current_some hcur
    exact Or.inr ⟨w, _, rfl, Nat.pos_of_ne_zero (h hactive)⟩

/-- With payload begun the peer, when it reads the packet, holds what the sender takes it to
hold. -/
theorem Synced.holds {s : TxLink} (h : s.Synced) (hbegun : s.PayloadBegun (.build mtu)) :
    ∃ held, s.peer.Represents held ∧
      (if txFlag s.tx.ctx.current = 0 then none else held) = heldBy s.tx.ctx.current := by
  obtain ⟨held, hrep, hheld⟩ := h.peer
  refine ⟨held, hrep, ?_⟩
  rcases hbegun.current with hcur | ⟨w, k, hcur, hk⟩
  · rw [hcur]
    rfl
  · rw [hheld w k hcur hk, hcur]
    exact if_neg (by simp [txFlag])

theorem synced_build {s s' : TxLink} (hmtu : 20 ≤ mtu) (h : s.Synced)
    (hbegun : s.PayloadBegun (.build mtu)) (hstep : s.step (.build mtu) = some s') :
    s'.Synced := by
  obtain ⟨final, hcall, hbuffer, hcur⟩ := @call_fill mtu s (by omega) h.placed
  have hplaced' := @nextPacket_placed mtu s.tx.ctx.current (s.tx.fifos.held .tx) h.placed
  rw [step, if_neg (by omega), hcall] at hstep
  simp only [hbuffer, List.length_cons, Nat.lt_add_left_iff_pos, decide_eq_true_eq] at hstep
  by_cases hsent : 0 < (nextPacket mtu s.tx.ctx.current (s.tx.fifos.held .tx)).body.length
  · rw [if_pos hsent] at hstep
    obtain rfl := Option.some.inj hstep
    obtain ⟨held, hrep, hheld⟩ := h.holds hbegun
    have hread := (bleRetrievePacket_refines (txFlag s.tx.ctx.current ::
      (nextPacket mtu s.tx.ctx.current (s.tx.fifos.held .tx)).body) hrep).1
    rw [parsePacket, hheld] at hread
    refine ⟨?_, ?_, _, hread, ?_⟩
    · simp only [hcur]
      exact hplaced'
    · intro v j hv hj
      simp only [hcur] at hv
      exact nextParts_lastHeader _ (by omega) h.header hv hj
    · intro v j hv hj
      simp only [hcur] at hv
      rcases @nextPacket_inStep mtu s.tx.ctx.current (s.tx.fifos.held .tx) h.placed
        with ⟨u, hloaded⟩ | ⟨out, hfeeds⟩
      · rw [hloaded] at hv
        obtain ⟨-, rfl⟩ := Prod.mk.inj (Option.some.inj hv)
        omega
      · rw [hfeeds.parse_eq, hv]
  · rw [if_neg hsent] at hstep
    obtain rfl := Option.some.inj hstep
    obtain ⟨held, hrep, -⟩ := h.peer
    have hempty := List.eq_nil_of_length_eq_zero (Nat.eq_zero_of_not_pos hsent)
    rcases @nextPacket_progress mtu s.tx.ctx.current (s.tx.fifos.held .tx) hmtu h.placed
      with ⟨-, hnone, hqueue⟩ | ⟨hbody, -⟩
    · rw [hnone, hqueue] at hcur
      exact synced_idle hcur hrep
    · exact absurd hempty hbody

theorem synced_step {s s' : TxLink} {action : TxAction} (h : s.Synced)
    (hbegun : s.PayloadBegun action) (hstep : s.step action = some s') : s'.Synced := by
  cases action with
  | queue msg =>
    obtain rfl := Option.some.inj hstep
    exact ⟨h.placed, h.header, h.peer⟩
  | build effectiveMtu =>
    by_cases hmtu : effectiveMtu < 20
    · rw [step, if_pos hmtu] at hstep
      cases hstep
    · exact synced_build (Nat.le_of_not_lt hmtu) h hbegun hstep
  | reset =>
    obtain rfl := Option.some.inj hstep
    obtain ⟨held, hrep, -⟩ := h.peer
    exact synced_idle rfl hrep

theorem flagTells_build {s : TxLink} (hmtu : 20 ≤ mtu) (h : s.Synced)
    (hbegun : s.PayloadBegun (.build mtu)) : s.FlagTells (.build mtu) := by
  obtain ⟨final, hcall, hbuffer, -⟩ := @call_fill mtu s (by omega) h.placed
  rw [FlagTells, hcall]
  intro _
  simp only [hbuffer, List.head?_cons, Option.some.injEq]
  rcases hbegun.current with hcur | ⟨w, k, hcur, hk⟩
  · have hpiece := @nextParts_piece_of_header mtu none (s.tx.fifos.held .tx)
      fun _ _ h => by cases h
    simp only [GoesOn, StartsWithHeader, Resyncs, parts, hcur, hpiece, txFlag]
    simp
  · have hlt := (h.placed w k hcur).resolve_left (Nat.ne_of_gt hk)
    have hpiece := nextParts_piece_ne_nil (s.tx.fifos.held .tx) (by omega : 1 < mtu) hk hlt
    have hheader := h.header w k hcur hk
    obtain ⟨held, hrep, hheld⟩ := h.peer
    rw [hheld w k hcur hk, heldBy_payload hk hlt] at hrep
    have hactive := hrep.2.1
    simp [GoesOn, StartsWithHeader, Resyncs, parts, hcur, hpiece, txFlag, hheader, hactive]

/-- With no payload sent a header comes first, under a set flag. -/
theorem not_flagTells {s : TxLink} (hmtu : 20 ≤ mtu) (h : ¬ s.PayloadBegun (.build mtu)) :
    ¬ s.FlagTells (.build mtu) := by
  simp only [PayloadBegun, ne_eq, Classical.not_imp, not_not] at h
  obtain ⟨hactive, hoffset⟩ := h
  have hcur : s.tx.ctx.current = some (s.tx.ctx.curMsg.wire, 0) := by
    rw [TxCtx.current, if_pos hactive, hoffset]
  have hplaced : Placed s.tx.ctx.current := by
    rw [hcur]
    exact placed_some (Or.inl rfl)
  obtain ⟨final, hcall, hbuffer, -⟩ := @call_fill mtu s (by omega) hplaced
  have hpiece := @nextParts_piece_of_header mtu s.tx.ctx.current (s.tx.fifos.held .tx)
    fun w k hw => by
      rw [hcur] at hw
      exact (Prod.mk.inj (Option.some.inj hw)).2.symm
  have hflag : final.buffer.head? = some 1 := by
    rw [hbuffer, hcur]
    rfl
  have hsent : decide (1 < final.buffer.length) = true := by
    rcases @nextPacket_progress mtu s.tx.ctx.current (s.tx.fifos.held .tx) hmtu hplaced
      with ⟨-, hnone, -⟩ | ⟨hbody, -⟩
    · rw [hcur] at hnone
      cases hnone
    · have hpos := List.length_pos_iff.mpr hbody
      simp [hbuffer, hpos]
  rw [FlagTells, hcall]
  intro htells
  exact ((htells hsent).1.mp hflag).1 hpiece

/-- Along every run of the sender, for MTUs from 20 on, the flag of every packet tells the
truth and the peer never resyncs exactly when no packet is built with a message loaded of
which no payload byte has been sent. -/
theorem flagTells_iff (actions : List TxAction) :
    Machine.EachStep step FlagTells init actions ↔
      Machine.EachStep step PayloadBegun init actions := by
  have hinit : init.Synced := synced_idle rfl represents_init
  constructor
  · intro h
    refine @Machine.EachStep.imp TxLink TxAction step (fun _ => True) PayloadBegun FlagTells
      init actions trivial (fun s action s' _ htells hstep => ⟨trivial, ?_⟩) h
    cases action with
    | build effectiveMtu =>
      by_contra hbegun
      have hmtu : ¬ effectiveMtu < 20 := by
        intro hmtu
        rw [step, if_pos hmtu] at hstep
        cases hstep
      exact not_flagTells (Nat.le_of_not_lt hmtu) hbegun htells
    | _ => trivial
  · intro h
    refine Machine.EachStep.imp hinit (fun s action s' hsync hbegun hstep => ?_) h
    refine ⟨synced_step hsync hbegun hstep, ?_⟩
    cases action with
    | build effectiveMtu =>
      have hmtu : ¬ effectiveMtu < 20 := by
        intro hmtu
        rw [step, if_pos hmtu] at hstep
        cases hstep
      exact flagTells_build (Nat.le_of_not_lt hmtu) hsync hbegun
    | _ => trivial

/-- A message of 12 bytes leaves no room for the second header. The second packet starts
with that header, under a set flag, and the peer resyncs. -/
theorem flag_set_before_header :
    let actions := [TxAction.queue (WireMsg.msg ⟨1, 2, List.replicate 12 9, by decide⟩),
      .queue (WireMsg.msg ⟨3, 4, [7], by decide⟩), .build 20]
    ¬ Machine.EachStep step FlagTells init (actions ++ [.build 20]) ∧
      ((Machine.run step init actions).map fun s =>
        ((s.call 20).1.buffer, decide (s.Resyncs (s.call 20).1.buffer))) =
          some ([1, 0xA5, 3, 4, 1, 7], true) := by
  decide +kernel

end TxLink

end MinimalWatch.Ble
