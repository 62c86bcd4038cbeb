import MinimalWatch.Ble.RoundTrip

/-! A call of the sender as a function of the message in progress and the queue, apart
from the loop that computes it. How a packet is cut depends on the payload lengths only,
and a receiver that has read all packets so far reads the next one as it was written. -/

namespace MinimalWatch.Ble
open Firmware

variable {mtu : Nat}

/-- The bytes behind the flag, and what is left to send. -/
structure Filled where
  body : List UInt8
  current : TxCurrent
  queue : List WireMsg

/-- No byte of a message from offset `k` on can be put at `pos`. -/
def NoRoom (effectiveMtu pos k : Nat) : Prop :=
  effectiveMtu ≤ pos ∨ (k = 0 ∧ effectiveMtu < pos + 4)

instance (effectiveMtu pos k : Nat) : Decidable (NoRoom effectiveMtu pos k) :=
  inferInstanceAs (Decidable (_ ∨ _))

/-- The packet from `pos` on, where `w` goes on from offset `k`. -/
def fillPacket (effectiveMtu : Nat) (queue : List WireMsg) (pos : Nat) (w : WireMsg)
    (k : Nat) : Filled :=
  if NoRoom effectiveMtu pos k then ⟨[], some (w, k), queue⟩
  else
    let sent := txSent effectiveMtu pos w k
    match queue with
    | [] => ⟨sent, txAfter effectiveMtu pos w k, []⟩
    | next :: rest =>
      if pos + sent.length < effectiveMtu then
        let more := fillPacket effectiveMtu rest (pos + sent.length) next 0
        { more with body := sent ++ more.body }
      else ⟨sent, txAfter effectiveMtu pos w k, next :: rest⟩

def nextPacket (effectiveMtu : Nat) : TxCurrent → List WireMsg → Filled
  | some (w, k), queue => fillPacket effectiveMtu queue 1 w k
  | none, w :: rest => fillPacket effectiveMtu rest 1 w 0
  | none, [] => ⟨[], none, []⟩

theorem fillPacket_noRoom {queue : List WireMsg} {pos : Nat} {w : WireMsg} {k : Nat}
    (h : NoRoom mtu pos k) : fillPacket mtu queue pos w k = ⟨[], some (w, k), queue⟩ := by
  rw [fillPacket.eq_def, if_pos h]

theorem fillPacket_full {queue : List WireMsg} {pos : Nat} {w : WireMsg} {k : Nat}
    (h : ¬ NoRoom mtu pos k) (hfull : mtu ≤ pos + (txSent mtu pos w k).length) :
    fillPacket mtu queue pos w k = ⟨txSent mtu pos w k, txAfter mtu pos w k, queue⟩ := by
  rw [fillPacket.eq_def, if_neg h]
  cases queue with
  | nil => rfl
  | cons next rest => simp only [if_neg (Nat.not_lt.mpr hfull)]

theorem fillPacket_last {pos : Nat} {w : WireMsg} {k : Nat} (h : ¬ NoRoom mtu pos k) :
    fillPacket mtu [] pos w k = ⟨txSent mtu pos w k, txAfter mtu pos w k, []⟩ := by
  rw [fillPacket.eq_def, if_neg h]

theorem fillPacket_next {next : WireMsg} {rest : List WireMsg} {pos : Nat} {w : WireMsg}
    {k : Nat} (h : ¬ NoRoom mtu pos k) (hroom : pos + (txSent mtu pos w k).length < mtu) :
    fillPacket mtu (next :: rest) pos w k =
      { fillPacket mtu rest (pos + (txSent mtu pos w k).length) next 0 with
        body := txSent mtu pos w k ++
          (fillPacket mtu rest (pos + (txSent mtu pos w k).length) next 0).body } := by
  rw [fillPacket.eq_def, if_neg h]
  simp only [if_pos hroom]

/-- A write that does not finish the message fills the packet. -/
theorem txAfter_none {pos : Nat} {w : WireMsg} {k : Nat}
    (hroom : pos + (txSent mtu pos w k).length < mtu) :
    w.payload.length ≤ k + txChunk mtu pos w k ∧ txAfter mtu pos w k = none := by
  have hhdr := txHeader_length w k
  have hchunk : txChunk mtu pos w k =
      min (w.payload.length - k) (mtu - (pos + (txHeader w k).length)) := rfl
  have hlen := @txSent_length mtu pos w k
  have hdone : w.payload.length ≤ k + txChunk mtu pos w k := by
    split_ifs at hhdr <;> omega
  exact ⟨hdone, by rw [txAfter, if_pos hdone]⟩

theorem txSent_pos {pos : Nat} {w : WireMsg} {k : Nat} (h : ¬ NoRoom mtu pos k)
    (hplaced : k = 0 ∨ k < w.payload.length) : 0 < (txSent mtu pos w k).length := by
  have hhdr := txHeader_length w k
  have hchunk : txChunk mtu pos w k =
      min (w.payload.length - k) (mtu - (pos + (txHeader w k).length)) := rfl
  rw [NoRoom] at h
  rw [txSent_length]
  split_ifs at hhdr <;> omega

/-! ### The loop computes it -/

theorem txIteration_load {s s' : TxLoop} {p : WireMsg × Nat} (hload : txLoad s = some s')
    (hbuffer : s'.buffer = s.buffer) (hcur : s'.ctx.current = some p)
    (hpos : s.buffer.length < mtu) : txIteration mtu s = txIteration mtu s' := by
  rw [txIteration, txIteration, hload, @txLoad_active s' p.1 p.2 hcur, hbuffer, if_pos hpos,
    if_pos hpos]

theorem loop_load {s s' : TxLoop} {p : WireMsg × Nat} (fuel : Nat)
    (hload : txLoad s = some s') (hbuffer : s'.buffer = s.buffer)
    (hcur : s'.ctx.current = some p) (hpos : s.buffer.length < mtu) :
    Loop.loop (txIteration mtu) fuel s = Loop.loop (txIteration mtu) fuel s' := by
  cases fuel with
  | zero => rfl
  | succ fuel => rw [Loop.loop, Loop.loop, txIteration_load hload hbuffer hcur hpos]

/-- The loop has ended and left behind what the function says. -/
def EndsWith (effectiveMtu fuel : Nat) (s : TxLoop) (f : Filled) : Prop :=
  ∃ r, Loop.loop (txIteration effectiveMtu) fuel s = some r ∧ r.buffer = s.buffer ++ f.body ∧
    r.ctx.current = f.current ∧ r.fifos.held .tx = f.queue

theorem endsWith_leave {fuel : Nat} {s r : TxLoop} {f : Filled} (hfuel : 0 < fuel)
    (hiter : txIteration mtu s = .inr r) (hbuffer : r.buffer = s.buffer ++ f.body)
    (hcur : r.ctx.current = f.current) (hqueue : r.fifos.held .tx = f.queue) :
    EndsWith mtu fuel s f := by
  obtain ⟨fuel, rfl⟩ := Nat.exists_eq_succ_of_ne_zero (Nat.ne_of_gt hfuel)
  exact ⟨r, Loop.loop_leave fuel hiter, hbuffer, hcur, hqueue⟩

/-- A pass that writes and goes on. -/
theorem EndsWith.continue {fuel : Nat} {s s' : TxLoop} {sent : List UInt8} {f : Filled}
    (hiter : txIteration mtu s = .inl s') (hbuffer : s'.buffer = s.buffer ++ sent)
    (h : EndsWith mtu fuel s' f) :
    EndsWith mtu (fuel + 1) s { f with body := sent ++ f.body } := by
  obtain ⟨r, hloop, hbody, hcur, hqueue⟩ := h
  refine ⟨r, ?_, ?_, hcur, hqueue⟩
  · rw [Loop.loop_continue fuel hiter, hloop]
  · rw [hbody, hbuffer, List.append_assoc]

theorem txIteration_drained {s : TxLoop} (hcur : s.ctx.current = none)
    (hqueue : s.fifos.held .tx = []) : txIteration mtu s = .inr s := by
  rw [txIteration]
  split_ifs
  · rw [txLoad_empty hcur hqueue]
  · rfl

/-- A pass with no room. -/
theorem txIteration_noRoom {s : TxLoop} {w : WireMsg} {k : Nat}
    (hcur : s.ctx.current = some (w, k)) (h : NoRoom mtu s.buffer.length k) :
    txIteration mtu s = .inr s := by
  rw [txIteration]
  split_ifs with hpos
  · rcases h with hfull | ⟨rfl, hroom⟩
    · omega
    · rw [txLoad_active hcur]
      exact txWrite_noRoom hcur hroom
  · rfl

theorem txIteration_room {s : TxLoop} {w : WireMsg} {k : Nat}
    (hcur : s.ctx.current = some (w, k)) (h : ¬ NoRoom mtu s.buffer.length k) :
    ∃ s', txIteration mtu s = (if s'.buffer.length ≥ mtu then .inr s' else .inl s') ∧
      s'.fifos = s.fifos ∧
      s'.buffer = s.buffer ++ txSent mtu s.buffer.length w k ∧
      s'.ctx.current = txAfter mtu s.buffer.length w k := by
  rw [NoRoom] at h
  rw [txIteration, if_pos (by omega), txLoad_active hcur]
  exact txWrite_room hcur (by omega)

theorem loop_fillPacket {queue : List WireMsg} {fuel : Nat} {s : TxLoop} {w : WireMsg}
    {k : Nat} (hcur : s.ctx.current = some (w, k)) (hplaced : k = 0 ∨ k < w.payload.length)
    (hqueue : s.fifos.held .tx = queue) (hfuel : mtu - s.buffer.length < fuel) :
    EndsWith mtu fuel s (fillPacket mtu queue s.buffer.length w k) := by
  induction queue generalizing s w k fuel with
  | nil =>
    by_cases hroom : NoRoom mtu s.buffer.length k
    · rw [fillPacket_noRoom hroom]
      exact endsWith_leave (by omega) (txIteration_noRoom hcur hroom) (by simp) hcur hqueue
    obtain ⟨s', hiter, hfifos, hbuffer, hcur'⟩ := txIteration_room hcur hroom
    have hlen := congrArg List.length hbuffer
    rw [List.length_append] at hlen
    rw [← hfifos] at hqueue
    rw [fillPacket_last hroom]
    split_ifs at hiter with hfull
    · exact endsWith_leave (by omega) hiter hbuffer hcur' hqueue
    · obtain ⟨-, hnone⟩ := @txAfter_none mtu s.buffer.length w k (by omega)
      have hnext := @txIteration_drained mtu s' (hcur'.trans hnone) hqueue
      have hend : EndsWith mtu (fuel - 1) s' ⟨[], txAfter mtu s.buffer.length w k, []⟩ :=
        endsWith_leave (by omega) hnext (by simp) hcur' hqueue
      have hgo := hend.continue hiter hbuffer
      rw [Nat.sub_add_cancel (by omega)] at hgo
      simpa using hgo
  | cons next rest ih =>
    by_cases hroom : NoRoom mtu s.buffer.length k
    · rw [fillPacket_noRoom hroom]
      exact endsWith_leave (by omega) (txIteration_noRoom hcur hroom) (by simp) hcur hqueue
    obtain ⟨s', hiter, hfifos, hbuffer, hcur'⟩ := txIteration_room hcur hroom
    have hlen := congrArg List.length hbuffer
    rw [List.length_append] at hlen
    rw [← hfifos] at hqueue
    split_ifs at hiter with hfull
    · rw [fillPacket_full hroom (by omega)]
      exact endsWith_leave (by omega) hiter hbuffer hcur' hqueue
    · have hsent := txSent_pos hroom hplaced
      have hmore : s.buffer.length + (txSent mtu s.buffer.length w k).length < mtu := by omega
      obtain ⟨-, hnone⟩ := txAfter_none hmore
      obtain ⟨s'', hload, hcur'', hqueue'', hbuffer''⟩ :=
        txLoad_next (hcur'.trans hnone) hqueue
      have hend := @ih (fuel - 1) s'' next 0 hcur'' (Or.inl rfl) hqueue'' (by rw [hbuffer'']; omega)
      rw [EndsWith, ← loop_load (fuel - 1) hload hbuffer'' hcur'' (by omega), hbuffer'', hlen,
        ← EndsWith] at hend
      have hgo := hend.continue hiter hbuffer
      rw [Nat.sub_add_cancel (by omega)] at hgo
      rw [fillPacket_next hroom hmore]
      exact hgo

/-- The continuation flag. -/
def txFlag (cur : TxCurrent) : UInt8 := if cur.isSome then 1 else 0

theorem txFlag_current (ctx : TxCtx) :
    (if ctx.msgActive then 1 else 0 : UInt8) = txFlag ctx.current := by
  cases hactive : ctx.msgActive with
  | true => simp [txFlag, TxCtx.current, hactive]
  | false => simp [txFlag, TxCtx.current, hactive]

/-- One call of the sender. -/
theorem bleBuildNextPacket_fill {ctx : TxCtx} (fifos : BleFifos) (hmtu : 1 < mtu)
    (hplaced : Placed ctx.current) :
    ∃ final, Loop.loop (txIteration mtu) (txFuel mtu) ⟨ctx, fifos, [txFlag ctx.current]⟩ =
        some final ∧
      bleBuildNextPacket ctx fifos mtu (some 0) =
        (final, some final.buffer.length, decide (1 < final.buffer.length)) ∧
      final.buffer = txFlag ctx.current ::
        (nextPacket mtu ctx.current (fifos.held .tx)).body ∧
      final.ctx.current = (nextPacket mtu ctx.current (fifos.held .tx)).current ∧
      final.fifos.held .tx = (nextPacket mtu ctx.current (fifos.held .tx)).queue := by
  have hfuel : mtu - 1 < txFuel mtu := by
    rw [txFuel]
    omega
  have hend : EndsWith mtu (txFuel mtu) ⟨ctx, fifos, [txFlag ctx.current]⟩
      (nextPacket mtu ctx.current (fifos.held .tx)) := by
    rcases hcur : ctx.current with _ | ⟨w, k⟩
    · rcases hqueue : fifos.held .tx with _ | ⟨w, rest⟩
      · have hiter := @txIteration_drained mtu ⟨ctx, fifos, [txFlag none]⟩ hcur hqueue
        exact endsWith_leave (Nat.succ_pos _) hiter rfl hcur hqueue
      · obtain ⟨s', hload, hcur', hqueue', hbuffer'⟩ :=
          @txLoad_next ⟨ctx, fifos, [txFlag none]⟩ w rest hcur hqueue
        have hfill := @loop_fillPacket mtu rest (txFuel mtu) s' w 0 hcur' (Or.inl rfl) hqueue'
          (by rw [hbuffer']; exact hfuel)
        rw [EndsWith, ← loop_load (txFuel mtu) hload hbuffer' hcur' hmtu, hbuffer',
          ← EndsWith] at hfill
        exact hfill
    · exact loop_fillPacket hcur (hplaced w k hcur) rfl hfuel
  obtain ⟨r, hloop, hbuffer, hcur, hqueue⟩ := hend
  refine ⟨r, hloop, ?_, hbuffer, hcur, hqueue⟩
  rw [← txFlag_current] at hloop
  simp only [bleBuildNextPacket, hloop, Option.getD_some]

/-! ### What the packet says -/

section Reading
variable {queue : List WireMsg} {pos k : Nat} {w : WireMsg}

/-- Read behind all that was sent before, a packet completes the messages that it ends,
and leaves the receiver in step with the sender. -/
structure Filled.Reads (f : Filled) (cur : TxCurrent) (queue out : List WireMsg) : Prop where
  feeds : Feeds (heldBy cur) f.body (heldBy f.current) out
  rest : out ++ unsent f.current f.queue = unsent cur queue

/-- What the next call of the sender relies on. -/
structure Sendable (effectiveMtu : Nat) (cur : TxCurrent) (queue : List WireMsg) : Prop where
  placed : Placed cur
  clear : RestClear effectiveMtu 1 cur queue

theorem PacketEnded.sendable {cur : TxCurrent} (hmtu : 1 < mtu) (hplaced : Placed cur)
    (hend : PacketEnded mtu pos cur queue) (hclear : RestClear mtu pos cur queue) :
    Sendable mtu cur queue :=
  ⟨hplaced, (restClear_next hmtu hplaced hend).mp hclear⟩

theorem Filled.Reads.prepend {f : Filled} {next : WireMsg} {rest out : List WireMsg}
    {sent : List UInt8} (h : f.Reads (some (next, 0)) rest out)
    (hsent : Feeds (heldBy (some (w, k))) sent none [w]) :
    Filled.Reads { f with body := sent ++ f.body } (some (w, k)) (next :: rest) (w :: out) := by
  have hfeeds := h.feeds
  rw [heldBy_header] at hfeeds
  refine ⟨hsent.trans hfeeds, ?_⟩
  simp only [List.cons_append, h.rest]
  rfl

/-- A packet with nothing behind `pos`. -/
theorem reads_noRoom (hmtu : 1 < mtu) (hpos : pos ≤ mtu) (h : NoRoom mtu pos k)
    (hplaced : k = 0 ∨ k < w.payload.length) (hclear : RestClear mtu pos (some (w, k)) queue) :
    (Filled.mk [] (some (w, k)) queue).Reads (some (w, k)) queue [] ∧
      Sendable mtu (some (w, k)) queue := by
  have hend : PacketEnded mtu pos (some (w, k)) queue := by
    rcases h with hfull | ⟨rfl, hroom⟩
    · exact Or.inr (Or.inr (by omega))
    · exact Or.inr (Or.inl ⟨w, rfl, hroom⟩)
  exact ⟨⟨.refl _, rfl⟩, hend.sendable hmtu (placed_some hplaced) hclear⟩

/-- One write: it completes the message, or fills the packet. -/
theorem txSent_reads (h : ¬ NoRoom mtu pos k) (hplaced : k = 0 ∨ k < w.payload.length)
    (hclear : RestClear mtu pos (some (w, k)) queue) :
    pos + (txSent mtu pos w k).length ≤ mtu ∧
    RestClear mtu (pos + (txSent mtu pos w k).length) (txAfter mtu pos w k) queue ∧
    ((txAfter mtu pos w k = none ∧ Feeds (heldBy (some (w, k))) (txSent mtu pos w k) none [w]) ∨
      (pos + (txSent mtu pos w k).length = mtu ∧ ∃ k', txAfter mtu pos w k = some (w, k') ∧
        Feeds (heldBy (some (w, k))) (txSent mtu pos w k) (heldBy (some (w, k'))) [])) := by
  rw [NoRoom] at h
  have hlen := @txSent_length mtu pos w k
  have hhdr := txHeader_length w k
  have hchunk : txChunk mtu pos w k =
      min (w.payload.length - k) (mtu - (pos + (txHeader w k).length)) := rfl
  have hwritten : w.payload.length = 0 ∨ 0 < k + txChunk mtu pos w k := by
    by_contra hnone
    obtain rfl : k = 0 := by omega
    exact (@not_restClear_flush mtu pos w queue (by omega) (by omega) (by omega)).2 hclear
  have hrest := (restClear_write queue (by omega) hplaced (by omega) hwritten).mp hclear
  refine ⟨by split_ifs at hhdr <;> omega, hrest, ?_⟩
  rcases @txSent_feeds mtu pos w k hplaced with hlast | ⟨hlt, hafter, hpart⟩
  · exact Or.inl hlast
  · refine Or.inr ⟨by split_ifs at hhdr <;> omega, k + txChunk mtu pos w k, hafter, ?_⟩
    rw [heldBy_payload (by omega) hlt]
    exact hpart

/-- A packet that ends with the write. -/
theorem reads_txSent (hmtu : 1 < mtu) (h : ¬ NoRoom mtu pos k)
    (hplaced : k = 0 ∨ k < w.payload.length) (hclear : RestClear mtu pos (some (w, k)) queue)
    (hend : mtu ≤ pos + (txSent mtu pos w k).length ∨ queue = []) :
    (∃ out, (Filled.mk (txSent mtu pos w k) (txAfter mtu pos w k) queue).Reads
        (some (w, k)) queue out) ∧
      Sendable mtu (txAfter mtu pos w k) queue := by
  obtain ⟨hfits, hrest, hwrite⟩ := txSent_reads h hplaced hclear
  have hplaced' := @txAfter_placed mtu pos w k
  rcases hwrite with ⟨hnone, hfeeds⟩ | ⟨hfull, k', hsome, hfeeds⟩
  · have hended : PacketEnded mtu (pos + (txSent mtu pos w k).length) none queue := by
      rcases hend with hfull | hempty
      · exact Or.inr (Or.inr (by omega))
      · exact Or.inl ⟨rfl, hempty⟩
    rw [hnone] at hrest hplaced' ⊢
    exact ⟨⟨[w], hfeeds, rfl⟩, hended.sendable hmtu hplaced' hrest⟩
  · rw [hsome] at hrest hplaced' ⊢
    exact ⟨⟨[], hfeeds, rfl⟩,
      PacketEnded.sendable hmtu hplaced' (Or.inr (Or.inr hfull)) hrest⟩

theorem fillPacket_reads (hmtu : 1 < mtu) (hpos : pos ≤ mtu)
    (hplaced : k = 0 ∨ k < w.payload.length) (hclear : RestClear mtu pos (some (w, k)) queue) :
    (∃ out, (fillPacket mtu queue pos w k).Reads (some (w, k)) queue out) ∧
      Sendable mtu (fillPacket mtu queue pos w k).current
        (fillPacket mtu queue pos w k).queue := by
  induction queue generalizing pos w k with
  | nil =>
    by_cases hroom : NoRoom mtu pos k
    · obtain ⟨hreads, hsend⟩ := reads_noRoom hmtu hpos hroom hplaced hclear
      rw [fillPacket_noRoom hroom]
      exact ⟨⟨[], hreads⟩, hsend⟩
    · rw [fillPacket_last hroom]
      exact reads_txSent hmtu hroom hplaced hclear (Or.inr rfl)
  | cons next rest ih =>
    by_cases hroom : NoRoom mtu pos k
    · obtain ⟨hreads, hsend⟩ := reads_noRoom hmtu hpos hroom hplaced hclear
      rw [fillPacket_noRoom hroom]
      exact ⟨⟨[], hreads⟩, hsend⟩
    by_cases hmore : pos + (txSent mtu pos w k).length < mtu
    · obtain ⟨-, hrest, ⟨hnone, hfeeds⟩ | ⟨hfull, -⟩⟩ := txSent_reads hroom hplaced hclear
      · rw [hnone] at hrest
        obtain ⟨⟨out, hreads⟩, hsend⟩ := ih (Nat.le_of_lt hmore) (Or.inl rfl) hrest
        rw [fillPacket_next hroom hmore]
        exact ⟨⟨w :: out, hreads.prepend hfeeds⟩, hsend⟩
      · omega
    · rw [fillPacket_full hroom (by omega)]
      exact reads_txSent hmtu hroom hplaced hclear (Or.inl (by omega))

theorem nextPacket_reads {cur : TxCurrent} (hmtu : 1 < mtu) (h : Sendable mtu cur queue) :
    (∃ out, (nextPacket mtu cur queue).Reads cur queue out) ∧
      Sendable mtu (nextPacket mtu cur queue).current (nextPacket mtu cur queue).queue := by
  match cur, queue with
  | some (w, k), queue =>
    exact fillPacket_reads hmtu (Nat.le_of_lt hmtu) (h.placed w k rfl) h.clear
  | none, w :: rest =>
    obtain ⟨⟨out, hreads⟩, hsend⟩ :=
      fillPacket_reads hmtu (Nat.le_of_lt hmtu) (Or.inl rfl) h.clear
    have hfeeds := hreads.feeds
    rw [heldBy_header] at hfeeds
    exact ⟨⟨out, hfeeds, hreads.rest⟩, hsend⟩
  | none, [] => exact ⟨⟨[], .refl _, rfl⟩, h⟩

end Reading

/-! ### All packets of a drain -/

/-- A packet with where the sender stood before and after it. -/
structure TxPacket where
  start : TxCurrent
  body : List UInt8
  stop : TxCurrent

def TxPacket.bytes (p : TxPacket) : List UInt8 := txFlag p.start :: p.body

/-- The packets of calls repeated until one answers false. -/
def sentPackets (effectiveMtu : Nat) : Nat → TxCurrent → List WireMsg → List TxPacket
  | 0, _, _ => []
  | fuel + 1, cur, queue =>
    let filled := nextPacket effectiveMtu cur queue
    if filled.body = [] then []
    else ⟨cur, filled.body, filled.current⟩ ::
      sentPackets effectiveMtu fuel filled.current filled.queue

theorem loop_txDrainCall {fuel : Nat} {s r : TxDrain} (hmtu : 1 < mtu)
    (h : Sendable mtu s.ctx.current (s.fifos.held .tx))
    (hloop : Loop.loop (txDrainCall mtu) fuel s = some r) :
    r.packets = s.packets ++
      (sentPackets mtu fuel s.ctx.current (s.fifos.held .tx)).map TxPacket.bytes := by
  induction fuel generalizing s with
  | zero => cases hloop
  | succ fuel ih =>
    obtain ⟨final, -, hcall, hbuffer, hcur, hqueue⟩ :=
      bleBuildNextPacket_fill s.fifos hmtu h.placed
    obtain ⟨-, hsend⟩ := nextPacket_reads hmtu h
    rw [sentPackets]
    by_cases hempty : (nextPacket mtu s.ctx.current (s.fifos.held .tx)).body = []
    · have hlast : txDrainCall mtu s = .inr ⟨final.ctx, final.fifos, s.packets⟩ := by
        simp [txDrainCall, hcall, hbuffer, hempty]
      rw [Loop.loop_leave fuel hlast] at hloop
      obtain rfl := Option.some.inj hloop
      simp [hempty]
    · have hpos := List.length_pos_iff.mpr hempty
      have hmore : txDrainCall mtu s =
          .inl ⟨final.ctx, final.fifos, s.packets ++ [final.buffer]⟩ := by
        simp [txDrainCall, hcall, hbuffer, hpos]
      rw [Loop.loop_continue fuel hmore] at hloop
      have hrest := @ih ⟨final.ctx, final.fifos, s.packets ++ [final.buffer]⟩
        (by rw [hcur, hqueue]; exact hsend) hloop
      rw [hrest, hcur, hqueue, hbuffer]
      simp [hempty, TxPacket.bytes]

/-- With the FIFO left alone, the packets of `txPackets`. -/
theorem txPackets_eq {ctx : TxCtx} {fifos : BleFifos} {packets : List (List UInt8)}
    (hmtu : 1 < mtu) (h : Sendable mtu ctx.current (fifos.held .tx))
    (hpackets : txPackets ctx fifos mtu = some packets) :
    packets = (sentPackets mtu txDrainFuel ctx.current (fifos.held .tx)).map TxPacket.bytes := by
  obtain ⟨r, hloop, rfl⟩ := Option.map_eq_some_iff.mp hpackets
  have hall := @loop_txDrainCall mtu txDrainFuel ⟨ctx, fifos, []⟩ r hmtu h hloop
  simpa using hall

/-! ### The cut from the lengths alone -/

/-- The length of the message in progress, and the bytes that are gone. -/
def TxCurrent.lens (cur : TxCurrent) : Option (Nat × Nat) :=
  cur.map fun p => (p.1.payload.length, p.2)

structure FilledLens where
  size : Nat
  current : Option (Nat × Nat)
  queue : List Nat

def Filled.lens (f : Filled) : FilledLens :=
  ⟨f.body.length, f.current.lens, payloadLens f.queue⟩

def headerLen (k : Nat) : Nat := if k = 0 then 4 else 0

/-- `txChunk` for a message of `n` bytes. -/
def chunkLen (effectiveMtu pos n k : Nat) : Nat :=
  min (n - k) (effectiveMtu - (pos + headerLen k))

/-- `fillPacket` where a message of `n` bytes goes on from offset `k`. -/
def fillLens (effectiveMtu : Nat) (lens : List Nat) (pos n k : Nat) : FilledLens :=
  if NoRoom effectiveMtu pos k then ⟨0, some (n, k), lens⟩
  else
    let chunk := chunkLen effectiveMtu pos n k
    let size := headerLen k + chunk
    let after := if n ≤ k + chunk then none else some (n, k + chunk)
    match lens with
    | [] => ⟨size, after, []⟩
    | next :: rest =>
      if pos + size < effectiveMtu then
        let more := fillLens effectiveMtu rest (pos + size) next 0
        { more with size := size + more.size }
      else ⟨size, after, next :: rest⟩

def nextLens (effectiveMtu : Nat) : Option (Nat × Nat) → List Nat → FilledLens
  | some (n, k), lens => fillLens effectiveMtu lens 1 n k
  | none, n :: rest => fillLens effectiveMtu rest 1 n 0
  | none, [] => ⟨0, none, []⟩

structure PacketShape where
  start : Option (Nat × Nat)
  size : Nat
  stop : Option (Nat × Nat)
  deriving DecidableEq, Repr

def TxPacket.shape (p : TxPacket) : PacketShape := ⟨p.start.lens, p.body.length, p.stop.lens⟩

/-- How messages of these lengths are cut. -/
def cutPackets (effectiveMtu : Nat) : Nat → Option (Nat × Nat) → List Nat → List PacketShape
  | 0, _, _ => []
  | fuel + 1, cur, lens =>
    let filled := nextLens effectiveMtu cur lens
    if filled.size = 0 then []
    else ⟨cur, filled.size, filled.current⟩ ::
      cutPackets effectiveMtu fuel filled.current filled.queue

theorem txChunk_eq (pos : Nat) (w : WireMsg) (k : Nat) :
    txChunk mtu pos w k = chunkLen mtu pos w.payload.length k := by
  rw [txChunk, txHeader_length, chunkLen, headerLen]

theorem txSent_size (pos : Nat) (w : WireMsg) (k : Nat) :
    (txSent mtu pos w k).length = headerLen k + chunkLen mtu pos w.payload.length k := by
  rw [txSent_length, txChunk_eq, txHeader_length, headerLen]

theorem txAfter_lens (pos : Nat) (w : WireMsg) (k : Nat) :
    TxCurrent.lens (txAfter mtu pos w k) =
      if w.payload.length ≤ k + chunkLen mtu pos w.payload.length k then none
      else some (w.payload.length, k + chunkLen mtu pos w.payload.length k) := by
  rw [txAfter, txChunk_eq]
  split_ifs <;> rfl

theorem fillPacket_lens (queue : List WireMsg) (pos : Nat) (w : WireMsg) (k : Nat) :
    (fillPacket mtu queue pos w k).lens =
      fillLens mtu (payloadLens queue) pos w.payload.length k := by
  induction queue generalizing pos w k with
  | nil =>
    rw [fillPacket.eq_def, fillLens.eq_def, payloadLens, List.map_nil]
    by_cases hroom : NoRoom mtu pos k
    · rw [if_pos hroom, if_pos hroom]
      rfl
    · rw [if_neg hroom, if_neg hroom]
      simp only [Filled.lens, txSent_size, txAfter_lens, payloadLens, List.map_nil]
  | cons next rest ih =>
    have hrest := ih (pos + (txSent mtu pos w k).length) next 0
    rw [txSent_size, payloadLens] at hrest
    rw [fillPacket.eq_def, fillLens.eq_def, payloadLens, List.map_cons]
    by_cases hroom : NoRoom mtu pos k
    · rw [if_pos hroom, if_pos hroom]
      rfl
    rw [if_neg hroom, if_neg hroom]
    simp only [txSent_size, ← hrest]
    by_cases hmore : pos + (headerLen k + chunkLen mtu pos w.payload.length k) < mtu
    · rw [if_pos hmore, if_pos hmore]
      simp only [Filled.lens, List.length_append, txSent_size]
    · rw [if_neg hmore, if_neg hmore]
      simp only [Filled.lens, txSent_size, txAfter_lens, payloadLens, List.map_cons]

theorem nextPacket_lens (cur : TxCurrent) (queue : List WireMsg) :
    (nextPacket mtu cur queue).lens = nextLens mtu cur.lens (payloadLens queue) := by
  match cur, queue with
  | some (w, k), queue => exact fillPacket_lens queue 1 w k
  | none, w :: rest => exact fillPacket_lens rest 1 w 0
  | none, [] => rfl

theorem sentPackets_shape (fuel : Nat) (cur : TxCurrent) (queue : List WireMsg) :
    (sentPackets mtu fuel cur queue).map TxPacket.shape =
      cutPackets mtu fuel cur.lens (payloadLens queue) := by
  induction fuel generalizing cur queue with
  | zero => rfl
  | succ fuel ih =>
    have hlens := @nextPacket_lens mtu cur queue
    rw [sentPackets, cutPackets, ← hlens]
    simp only [Filled.lens, List.length_eq_zero_iff]
    split_ifs
    · rfl
    · rw [List.map_cons, ih]
      rfl

end MinimalWatch.Ble
