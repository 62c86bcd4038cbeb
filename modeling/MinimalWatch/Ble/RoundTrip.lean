import Mathlib.Algebra.GroupWithZero.Nat
import MinimalWatch.Ble.Layout
import MinimalWatch.Ble.PacketRx

/-! The sender's packets given to the receiver. While no header is sent twice, sender
and receiver agree on the message in progress (`Synced`). A repeated header is read
as payload (`Resending`), and the message that comes of it is `WireMsg.garbled`; what
the receiver makes of the bytes after that is left open (`Lost`). Which of these a
run ends in is decided by `HeadersClear` alone. -/

namespace MinimalWatch.Ble
open Firmware Firmware.Memory

variable {mtu : Nat}

/-! ### The bytes of one write -/

/-- What a receiver that agrees with the sender holds. -/
def heldBy : TxCurrent → Option PartialMsg
  | some (w, k) =>
    if h : 0 < k ∧ k < w.payload.length then some (w.received k h.2) else none
  | none => none

@[simp] theorem heldBy_header (w : WireMsg) : heldBy (some (w, 0)) = none := by
  simp [heldBy]

theorem heldBy_payload {w : WireMsg} {k : Nat} (hk : 0 < k) (h : k < w.payload.length) :
    heldBy (some (w, k)) = some (w.received k h) := dif_pos ⟨hk, h⟩

theorem txChunk_le (pos : Nat) (w : WireMsg) (k : Nat) :
    txChunk mtu pos w k ≤ w.payload.length - k := Nat.min_le_left _ _

/-- A write with payload to come. -/
theorem feeds_txSent_part {pos : Nat} {w : WireMsg} {k : Nat}
    (h : k + txChunk mtu pos w k < w.payload.length) :
    Feeds (heldBy (some (w, k))) (txSent mtu pos w k)
      (some (w.received (k + txChunk mtu pos w k) h)) [] := by
  have hpart := feeds_payload_part w h
  rcases Nat.eq_zero_or_pos k with rfl | hk
  · rw [heldBy_header, txSent, txHeader, if_pos rfl]
    exact (feeds_header w (by omega)).trans hpart
  · rw [heldBy_payload hk (by omega), txSent, txHeader, if_neg (by omega)]
    exact hpart

/-- A write that completes the message. -/
theorem feeds_txSent_last {pos : Nat} {w : WireMsg} {k : Nat}
    (hplaced : k = 0 ∨ k < w.payload.length)
    (h : w.payload.length ≤ k + txChunk mtu pos w k) :
    Feeds (heldBy (some (w, k))) (txSent mtu pos w k) none [w] := by
  have hle := @txChunk_le mtu pos w k
  have htake : (w.payload.drop k).take (txChunk mtu pos w k) = w.payload.drop k := by
    rw [List.take_of_length_le]
    rw [List.length_drop]
    omega
  rcases Nat.eq_zero_or_pos k with rfl | hk
  · rw [heldBy_header, txSent, htake, txHeader, if_pos rfl, List.drop_zero]
    exact feeds_encode w
  · have hlt : k < w.payload.length := hplaced.resolve_left (by omega)
    rw [heldBy_payload hk hlt, txSent, htake, txHeader, if_neg (by omega), List.nil_append]
    exact feeds_payload_rest w hlt

/-- One write: the message is complete, or waits for the rest of its payload. -/
theorem txSent_feeds {pos : Nat} {w : WireMsg} {k : Nat}
    (hplaced : k = 0 ∨ k < w.payload.length) :
    (txAfter mtu pos w k = none ∧
        Feeds (heldBy (some (w, k))) (txSent mtu pos w k) none [w]) ∨
      ∃ h : k + txChunk mtu pos w k < w.payload.length,
        txAfter mtu pos w k = some (w, k + txChunk mtu pos w k) ∧
          Feeds (heldBy (some (w, k))) (txSent mtu pos w k)
            (some (w.received (k + txChunk mtu pos w k) h)) [] := by
  by_cases hdone : w.payload.length ≤ k + txChunk mtu pos w k
  · exact Or.inl ⟨by rw [txAfter, if_pos hdone], feeds_txSent_last hplaced hdone⟩
  · have hlt := Nat.lt_of_not_le hdone
    exact Or.inr ⟨hlt, by rw [txAfter, if_neg hdone], feeds_txSent_part hlt⟩

/-! ### A repeated header -/

/-- The message a receiver makes of `w` when the header comes twice. -/
def WireMsg.garbled (w : WireMsg) : WireMsg :=
  ⟨w.opcode, w.reqApp, w.encode.take w.payload.length, by
    have hw := w.payload_lt
    rw [List.length_take]
    omega⟩

@[simp] theorem WireMsg.garbled_length (w : WireMsg) :
    w.garbled.payload.length = w.payload.length := by
  simp [WireMsg.garbled]

/-- A repeated header stands in the place of payload. -/
theorem WireMsg.garbled_received {w : WireMsg} (h : 0 < w.payload.length) :
    w.garbled.received 0 (by rwa [w.garbled_length]) = w.received 0 h := by
  ext1
  · rfl
  · rfl
  · simp [WireMsg.received]
  · simp [WireMsg.received]

/-- How much of the garbled payload has arrived when the sender starts again. -/
def resent (k : Nat) : Nat := if k = 0 then 0 else 4 + k

theorem txSent_eq_encode (pos : Nat) (w : WireMsg) (k : Nat) :
    txSent mtu pos w k = (w.encode.drop (resent k)).take (txSent mtu pos w k).length := by
  rw [txSent_length, txSent, WireMsg.encode]
  rcases Nat.eq_zero_or_pos k with rfl | hk
  · rw [resent, if_pos rfl, txHeader, if_pos rfl, List.drop_zero, List.drop_zero,
      List.take_length_add_append]
  · have hdrop : (w.hdr.bytes ++ w.payload).drop (w.hdr.bytes.length + k) = w.payload.drop k :=
      List.drop_length_add_append ..
    rw [w.hdr.bytes_length] at hdrop
    rw [resent, if_neg (by omega), txHeader, if_neg (by omega), hdrop, List.length_nil,
      Nat.zero_add, List.nil_append]

theorem garbled_drop_take {w : WireMsg} {j m : Nat} (h : j + m ≤ w.payload.length) :
    (w.garbled.payload.drop j).take m = (w.encode.drop j).take m := by
  rw [WireMsg.garbled, List.drop_take, List.take_take, Nat.min_eq_left (by omega)]

theorem feeds_resent_part {pos : Nat} {w : WireMsg} {k : Nat}
    (h : resent k + (txSent mtu pos w k).length < w.garbled.payload.length) :
    Feeds (some (w.garbled.received (resent k) (by omega))) (txSent mtu pos w k)
      (some (w.garbled.received (resent k + (txSent mtu pos w k).length) h)) [] := by
  have hfeed := feeds_payload_part w.garbled h
  rwa [garbled_drop_take (by rw [← w.garbled_length]; omega), ← txSent_eq_encode] at hfeed

theorem feeds_resent_last {pos : Nat} {w : WireMsg} {k : Nat}
    (hk : resent k < w.garbled.payload.length)
    (h : w.garbled.payload.length ≤ resent k + (txSent mtu pos w k).length) :
    ∃ last tail, txSent mtu pos w k = last ++ tail ∧
      Feeds (some (w.garbled.received (resent k) hk)) last none [w.garbled] := by
  have hn := w.garbled_length
  have hlast : w.garbled.payload.drop (resent k) =
      (txSent mtu pos w k).take (w.payload.length - resent k) := by
    rw [txSent_eq_encode, List.take_take, Nat.min_eq_left (by omega),
      ← garbled_drop_take (by omega), List.take_of_length_le]
    rw [List.length_drop]
    omega
  refine ⟨_, (txSent mtu pos w k).drop (w.payload.length - resent k),
    (List.take_append_drop _ _).symm, ?_⟩
  rw [← hlast]
  exact feeds_payload_rest w.garbled hk

/-! ### Sender and receiver within one packet -/

section Packet
variable (mtu) (all : List WireMsg) (held : Option PartialMsg) (sofar : List WireMsg)
  (cur : TxCurrent) (queue : List WireMsg) (pos : Nat) (body : List UInt8)

/-- `all` breaks at `w`, whose header is sent twice. -/
structure Breaks (before : List WireMsg) (w : WireMsg) : Prop where
  notClear : ¬ HeadersClear mtu 1 (payloadLens all)
  split : ∃ after, all = before ++ w :: after
  nonempty : 0 < w.payload.length

/-- The receiver held `held` and had completed `sofar` when the packet started; after
`body` it agrees with the sender. -/
def Synced : Prop :=
  ∃ out, Feeds held body (heldBy cur) out ∧ sofar ++ out ++ unsent cur queue = all ∧
    (RestClear mtu pos cur queue ↔ HeadersClear mtu 1 (payloadLens all))

/-- The receiver has read a header of `w` and takes the repeated one for payload. -/
def Resending : Prop :=
  ∃ before w k out, Breaks mtu all before w ∧ cur = some (w, k) ∧
    (k = 0 → pos = 1 ∨ pos = mtu) ∧ sofar ++ out = before ∧
    ∃ h : resent k < w.garbled.payload.length,
      Feeds held body (some (w.garbled.received (resent k) h)) out

/-- The garbled message is complete, whatever follows. -/
def Lost : Prop :=
  ∃ before w, Breaks mtu all before w ∧
    ∀ rest, ∃ more, sofar ++ (parse held (body ++ rest)).2 = before ++ w.garbled :: more

def Linked : Prop :=
  Synced mtu all held sofar cur queue pos body ∨ Resending mtu all held sofar cur pos body ∨
    Lost mtu all held sofar body

end Packet

section Steps
variable {all : List WireMsg} {held : Option PartialMsg} {sofar : List WireMsg}
  {queue : List WireMsg} {pos : Nat} {body : List UInt8} {w : WireMsg} {k : Nat}

theorem Linked.load {ws : List WireMsg}
    (h : Linked mtu all held sofar none (w :: ws) pos body) :
    Linked mtu all held sofar (some (w, 0)) ws pos body := by
  rcases h with ⟨out, hfeed, hall, hclear⟩ | ⟨_, _, _, _, _, hcur, _⟩ | hlost
  · refine Or.inl ⟨out, ?_, hall, hclear⟩
    rwa [heldBy_header]
  · cases hcur
  · exact Or.inr (Or.inr hlost)

theorem Synced.write (h : Synced mtu all held sofar (some (w, k)) queue pos body)
    (hpos : pos < mtu) (hplaced : k = 0 ∨ k < w.payload.length)
    (hroom : k = 0 → pos + 4 ≤ mtu) :
    Linked mtu all held sofar (txAfter mtu pos w k) queue (pos + (txSent mtu pos w k).length)
      (body ++ txSent mtu pos w k) := by
  obtain ⟨out, hfeed, hall, hclear⟩ := h
  rcases @txSent_feeds mtu pos w k hplaced with ⟨hafter, hlast⟩ | ⟨hlt, hafter, hpart⟩
  · left
    have hwrite := restClear_write queue hpos hplaced hroom (by
      rw [txAfter] at hafter
      split_ifs at hafter
      omega)
    rw [hafter] at hwrite ⊢
    refine ⟨out ++ [w], hfeed.trans hlast, ?_, ?_⟩
    · rw [← hall]
      simp [unsent]
    · rw [← hwrite, hclear]
  by_cases hsome : 0 < k + txChunk mtu pos w k
  · left
    have hwrite := restClear_write queue hpos hplaced hroom (Or.inr hsome)
    rw [hafter] at hwrite ⊢
    refine ⟨out ++ [], ?_, ?_, ?_⟩
    · rw [heldBy_payload hsome hlt]
      exact hfeed.trans hpart
    · rw [← hall]
      simp [unsent]
    · rw [← hwrite, hclear]
  · right; left
    obtain ⟨rfl, hchunk⟩ : k = 0 ∧ txChunk mtu pos w k = 0 := by omega
    have hn : 0 < w.payload.length := by omega
    obtain ⟨hfull, hnot⟩ := @not_restClear_flush mtu pos w queue (hroom rfl) hn hchunk
    have hlen := @txSent_length mtu pos w 0
    rw [txHeader_length, if_pos rfl] at hlen
    have hbreak : Breaks mtu all (sofar ++ out) w :=
      ⟨fun hall => hnot (hclear.mpr hall), ⟨queue, by rw [← hall]; simp [unsent]⟩, hn⟩
    refine ⟨sofar ++ out, w, 0, out ++ [], hbreak, ?_, fun _ => Or.inr (by omega), by simp,
      ?_, ?_⟩
    · rw [hafter, hchunk]
    · rw [w.garbled_length]
      exact hn
    · have hhalf := hfeed.trans hpart
      simp only [hchunk, Nat.add_zero] at hhalf
      rw [← WireMsg.garbled_received hn] at hhalf
      exact hhalf

theorem Resending.write (h : Resending mtu all held sofar (some (w, k)) pos body)
    (hmtu : 20 ≤ mtu) (hpos : pos < mtu) :
    Linked mtu all held sofar (txAfter mtu pos w k) queue (pos + (txSent mtu pos w k).length)
      (body ++ txSent mtu pos w k) := by
  obtain ⟨before, v, j, out, hbreak, hcur, hat, hout, hlt, hfeed⟩ := h
  obtain ⟨rfl, rfl⟩ : w = v ∧ k = j := by simpa using hcur
  have hn := w.garbled_length
  have hpositive := hbreak.nonempty
  have hlen := @txSent_length mtu pos w k
  have hhdr := txHeader_length w k
  have hchunk : txChunk mtu pos w k =
      min (w.payload.length - k) (mtu - (pos + (txHeader w k).length)) := rfl
  by_cases hpart : resent k + (txSent mtu pos w k).length < w.garbled.payload.length
  · right; left
    have hnext : k + txChunk mtu pos w k < w.payload.length ∧ 0 < k + txChunk mtu pos w k ∧
        resent (k + txChunk mtu pos w k) = resent k + (txSent mtu pos w k).length := by
      -- a header sent again starts its packet, so payload follows it
      simp only [resent] at hpart hlt ⊢
      rcases Nat.eq_zero_or_pos k with rfl | hk
      · have hstart := hat rfl
        simp only [↓reduceIte] at hhdr hpart
        rw [if_neg (by omega), if_pos rfl]
        omega
      · rw [if_neg (by omega)] at hhdr hpart
        rw [if_neg (by omega), if_neg (by omega)]
        omega
    obtain ⟨hlt', hsome, hresent⟩ := hnext
    refine ⟨before, w, k + txChunk mtu pos w k, out ++ [], hbreak, ?_, fun hzero => ?_, ?_, ?_⟩
    · rw [txAfter, if_neg (by omega)]
    · omega
    · rw [List.append_nil, hout]
    · simp only [hresent]
      exact ⟨hpart, hfeed.trans (feeds_resent_part hpart)⟩
  · right; right
    obtain ⟨last, tail, hsent, hlast⟩ := feeds_resent_last hlt (Nat.le_of_not_lt hpart)
    refine ⟨before, w, hbreak, fun rest => ⟨(parse none (tail ++ rest)).2, ?_⟩⟩
    have hread := hfeed.trans hlast (tail ++ rest)
    rw [hsent]
    simp only [List.append_assoc] at hread ⊢
    rw [hread, ← hout]
    simp

theorem Lost.write (h : Lost mtu all held sofar body) (bytes : List UInt8) :
    Lost mtu all held sofar (body ++ bytes) := by
  obtain ⟨before, w, hbreak, hparse⟩ := h
  refine ⟨before, w, hbreak, fun rest => ?_⟩
  rw [List.append_assoc]
  exact hparse (bytes ++ rest)

end Steps

/-! ### One call of the sender -/

/-- Bytes of work left: every write that moves past position 1 lowers it. -/
def txWork (cur : TxCurrent) (queue : List WireMsg) : Nat :=
  (cur.elim 0 fun p => p.1.payload.length - p.2 + 1) +
    (queue.map fun w => w.payload.length + 1).sum

section Call
variable {all : List WireMsg} {held : Option PartialMsg} {sofar : List WireMsg} {flag : UInt8}
  {work : Nat}

variable (mtu all held sofar flag work) in
structure TxLoop.Inv (s : TxLoop) : Prop where
  placed : Placed s.ctx.current
  starts : 1 ≤ s.buffer.length
  fits : s.buffer.length ≤ mtu
  linked : ∃ body, s.buffer = flag :: body ∧
    Linked mtu all held sofar s.ctx.current (s.fifos.held .tx) s.buffer.length body
  work_le : txWork s.ctx.current (s.fifos.held .tx) ≤ work
  work_lt : 1 < s.buffer.length → txWork s.ctx.current (s.fifos.held .tx) < work

variable (mtu all held sofar flag work) in
/-- What the loop leaves behind: an ended packet, empty only when nothing is left. -/
structure TxLoop.Done (s : TxLoop) : Prop where
  inv : s.Inv mtu all held sofar flag work
  ended : PacketEnded mtu s.buffer.length s.ctx.current (s.fifos.held .tx)
  idle : s.buffer.length ≤ 1 → s.ctx.current = none ∧ s.fifos.held .tx = []

variable (mtu all held sofar flag work) in
def TxLoop.Advances (s : TxLoop) : TxLoop ⊕ TxLoop → Prop
  | .inl s' =>
    s'.Inv mtu all held sofar flag work ∧ mtu - s'.buffer.length < mtu - s.buffer.length
  | .inr r => r.Done mtu all held sofar flag work

theorem txAfter_placed (pos : Nat) (w : WireMsg) (k : Nat) : Placed (txAfter mtu pos w k) := by
  intro v j h
  unfold txAfter at h
  split at h
  next => cases h
  next hnot =>
    obtain ⟨rfl, rfl⟩ := Prod.mk.inj (Option.some.inj h)
    exact Or.inr (by omega)

theorem txWork_write (pos : Nat) (w : WireMsg) (k : Nat) (queue : List WireMsg) :
    txWork (txAfter mtu pos w k) queue + txChunk mtu pos w k ≤ txWork (some (w, k)) queue ∧
      (w.payload.length ≤ k + txChunk mtu pos w k →
        txWork (txAfter mtu pos w k) queue < txWork (some (w, k)) queue) := by
  have hle := @txChunk_le mtu pos w k
  unfold txAfter
  split_ifs with hdone
  · simp only [txWork, Option.elim_none, Option.elim_some]
    omega
  · simp only [txWork, Option.elim_some]
    omega

theorem txWrite_advances {s : TxLoop} {w : WireMsg} {k : Nat} (hmtu : 20 ≤ mtu)
    (h : s.Inv mtu all held sofar flag work) (hpos : s.buffer.length < mtu)
    (hcur : s.ctx.current = some (w, k)) :
    s.Advances mtu all held sofar flag work (txWrite mtu s) := by
  obtain ⟨body, hbuffer, hlinked⟩ := h.linked
  have hplaced := h.placed w k hcur
  have hstarts := h.starts
  by_cases hnoroom : k = 0 ∧ mtu < s.buffer.length + 4
  · obtain ⟨rfl, hlong⟩ := hnoroom
    rw [txWrite_noRoom hcur hlong]
    exact ⟨h, Or.inr (Or.inl ⟨w, hcur, hlong⟩), by omega⟩
  have hroom : k = 0 → s.buffer.length + 4 ≤ mtu := by omega
  obtain ⟨s', hwrite, hfifos, hbuffer', hcur'⟩ := txWrite_room hcur hroom
  have hlen := @txSent_length mtu s.buffer.length w k
  have hhdr := txHeader_length w k
  have hchunk : txChunk mtu s.buffer.length w k =
      min (w.payload.length - k) (mtu - (s.buffer.length + (txHeader w k).length)) := rfl
  have hlen' : s'.buffer.length =
      s.buffer.length + (txSent mtu s.buffer.length w k).length := by
    rw [hbuffer', List.length_append]
  have hmore : s.buffer.length < s'.buffer.length ∧ s'.buffer.length ≤ mtu := by
    split_ifs at hhdr <;> omega
  have hwork := h.work_le
  have hworklt := h.work_lt
  obtain ⟨hwork', hworkdone⟩ := @txWork_write mtu s.buffer.length w k (s.fifos.held .tx)
  have hinv : s'.Inv mtu all held sofar flag work := by
    refine ⟨?_, by omega, hmore.2, ⟨body ++ txSent mtu s.buffer.length w k, ?_, ?_⟩, ?_, ?_⟩
    · rw [hcur']
      exact txAfter_placed _ w k
    · rw [hbuffer', hbuffer]
      rfl
    · rw [hcur] at hlinked
      rw [hcur', hfifos, hlen']
      rcases hlinked with hsync | hresend | hlost
      · exact hsync.write hpos hplaced hroom
      · exact hresend.write hmtu hpos
      · exact Or.inr (Or.inr (hlost.write _))
    · rw [hcur', hfifos]
      rw [hcur] at hwork
      omega
    · intro _
      rw [hcur', hfifos]
      rw [hcur] at hwork hworklt
      -- at position 1 there is room for payload behind the header
      by_cases hfirst : 1 < s.buffer.length
      · have hlt := hworklt hfirst
        omega
      · by_cases hdone : w.payload.length ≤ k + txChunk mtu s.buffer.length w k
        · have hlt := hworkdone hdone
          omega
        · split_ifs at hhdr <;> omega
  rw [hwrite]
  by_cases hfull : s'.buffer.length ≥ mtu
  · rw [if_pos hfull]
    exact ⟨hinv, Or.inr (Or.inr (by omega)), by omega⟩
  · rw [if_neg hfull]
    exact ⟨hinv, by omega⟩

theorem txIteration_advances {s : TxLoop} (hmtu : 20 ≤ mtu)
    (h : s.Inv mtu all held sofar flag work) :
    s.Advances mtu all held sofar flag work (txIteration mtu s) := by
  have hfits := h.fits
  by_cases hpos : s.buffer.length < mtu
  · rw [txIteration, if_pos hpos]
    match hcur : s.ctx.current, hqueue : s.fifos.held .tx with
    | some (w, k), _ =>
      rw [txLoad_active hcur]
      exact txWrite_advances hmtu h hpos hcur
    | none, [] =>
      rw [txLoad_empty hcur hqueue]
      exact ⟨h, Or.inl ⟨hcur, hqueue⟩, fun _ => ⟨hcur, hqueue⟩⟩
    | none, w :: ws =>
      obtain ⟨s', hload, hcur', hqueue', hbuffer'⟩ := txLoad_next hcur hqueue
      obtain ⟨body, hbuffer, hlinked⟩ := h.linked
      have hwork : txWork (some (w, 0)) ws = txWork none (w :: ws) := by
        simp [txWork]
      have hwork_le := h.work_le
      have hwork_lt := h.work_lt
      rw [hcur, hqueue] at hlinked hwork_le hwork_lt
      have hinv : s'.Inv mtu all held sofar flag work := by
        refine ⟨?_, by rw [hbuffer']; exact h.starts, by rw [hbuffer']; exact hfits,
          ⟨body, by rw [hbuffer', hbuffer], ?_⟩, ?_, ?_⟩
        · rw [hcur']
          intro v j hv
          exact Or.inl (Prod.mk.inj (Option.some.inj hv)).2.symm
        · rw [hcur', hqueue', hbuffer']
          exact hlinked.load
        · rw [hcur', hqueue', hwork]
          exact hwork_le
        · rw [hcur', hqueue', hwork, hbuffer']
          exact hwork_lt
      have hadv := txWrite_advances hmtu hinv (by rw [hbuffer']; exact hpos) hcur'
      rw [hload]
      simp only
      unfold TxLoop.Advances at hadv ⊢
      rwa [hbuffer'] at hadv
  · rw [txIteration, if_neg hpos]
    exact ⟨h, Or.inr (Or.inr (by omega)), by omega⟩

/-- The loop of one call ends within its fuel. -/
theorem txLoop_total {s : TxLoop} (hmtu : 20 ≤ mtu)
    (h : s.Inv mtu all held sofar flag work) :
    ∃ r, Loop.loop (txIteration mtu) (txFuel mtu) s = some r ∧
      r.Done mtu all held sofar flag work := by
  refine Loop.loop_total (TxLoop.Inv mtu all held sofar flag work)
    (TxLoop.Done mtu all held sofar flag work) (fun s => mtu - s.buffer.length)
    (fun s s' hinv hbody => ?_) (fun s r hinv hbody => ?_) h ?_
  · have hadv := txIteration_advances hmtu hinv
    rwa [hbody] at hadv
  · have hadv := txIteration_advances hmtu hinv
    rwa [hbody] at hadv
  · simp only [txFuel]
    omega

end Call

/-! ### Between calls -/

variable {all : List WireMsg}

theorem Linked.end_packet {held : Option PartialMsg} {sofar : List WireMsg} {cur : TxCurrent}
    {queue : List WireMsg} {pos : Nat} {body : List UInt8} (hmtu : 1 < mtu)
    (hplaced : Placed cur) (hend : PacketEnded mtu pos cur queue)
    (h : Linked mtu all held sofar cur queue pos body) :
    Linked mtu all (parse held body).1 (sofar ++ (parse held body).2) cur queue 1 [] := by
  rcases h with ⟨out, hfeed, hall, hclear⟩ |
    ⟨before, w, k, out, hbreak, hcur, -, hout, hlt, hfeed⟩ | ⟨before, w, hbreak, hparse⟩
  · rw [hfeed.parse_eq]
    refine Or.inl ⟨[], .refl _, ?_, ?_⟩
    · rw [List.append_nil, hall]
    · rw [← restClear_next hmtu hplaced hend, hclear]
  · rw [hfeed.parse_eq]
    refine Or.inr (Or.inl ⟨before, w, k, [], hbreak, hcur, fun _ => Or.inl rfl, ?_, hlt,
      .refl _⟩)
    rw [List.append_nil, hout]
  · obtain ⟨more, hmore⟩ := hparse []
    rw [List.append_nil] at hmore
    refine Or.inr (Or.inr ⟨before, w, hbreak, fun rest => ?_⟩)
    rw [hmore, List.append_assoc]
    exact ⟨_, rfl⟩

/-- The flag says whether a message is current, and a zero flag drops nothing. -/
theorem Linked.start_packet {held : Option PartialMsg} {sofar : List WireMsg} {ctx : TxCtx}
    {queue : List WireMsg} (h : Linked mtu all held sofar ctx.current queue 1 []) :
    Linked mtu all (if (if ctx.msgActive then 1 else 0 : UInt8) = 0 then none else held) sofar
      ctx.current queue 1 [] := by
  cases hactive : ctx.msgActive with
  | true => simpa using h
  | false =>
    have hcur : ctx.current = none := by simp [TxCtx.current, hactive]
    rw [hcur] at h ⊢
    rcases h with ⟨out, hfeed, hrest⟩ | ⟨_, _, _, _, _, hsome, _⟩ | ⟨before, w, hbreak, hparse⟩
    · have hnil := hfeed.parse_eq
      rw [parse_nil] at hnil
      obtain ⟨rfl, rfl⟩ := Prod.mk.inj hnil
      exact Or.inl ⟨[], .refl _, hrest⟩
    · cases hsome
    · obtain ⟨more, hmore⟩ := hparse []
      simp only [List.append_nil, parse_nil] at hmore
      refine Or.inr (Or.inr ⟨before, w, hbreak, fun rest => ?_⟩)
      rw [hmore, List.append_assoc]
      exact ⟨_, rfl⟩

/-- One call: its packet, read by the receiver, keeps the two linked. A call that
answers false has nothing left to send. -/
theorem bleBuildNextPacket_linked {ctx : TxCtx} {fifos : BleFifos} {held : Option PartialMsg}
    {sofar : List WireMsg} (hmtu : 20 ≤ mtu) (hplaced : Placed ctx.current)
    (h : Linked mtu all held sofar ctx.current (fifos.held .tx) 1 []) :
    ∃ final outLen,
      bleBuildNextPacket ctx fifos mtu (some 0) =
        (final, outLen, decide (1 < final.buffer.length)) ∧
      Placed final.ctx.current ∧
      Linked mtu all (parsePacket held final.buffer).1
        (sofar ++ (parsePacket held final.buffer).2) final.ctx.current
        (final.fifos.held .tx) 1 [] ∧
      (1 < final.buffer.length → txWork final.ctx.current (final.fifos.held .tx) <
        txWork ctx.current (fifos.held .tx)) ∧
      (final.buffer.length ≤ 1 → final.ctx.current = none ∧ final.fifos.held .tx = []) := by
  have hinv : (TxLoop.mk ctx fifos [if ctx.msgActive then 1 else 0]).Inv mtu all
      (if (if ctx.msgActive then 1 else 0 : UInt8) = 0 then none else held) sofar
      (if ctx.msgActive then 1 else 0) (txWork ctx.current (fifos.held .tx)) :=
    ⟨hplaced, by simp, by simp only [List.length_singleton]; omega,
      ⟨[], rfl, h.start_packet⟩, Nat.le_refl _, by simp⟩
  obtain ⟨r, hloop, hdone⟩ := txLoop_total hmtu hinv
  obtain ⟨body, hbuffer, hlinked⟩ := hdone.inv.linked
  refine ⟨r, some r.buffer.length, ?_, hdone.inv.placed, ?_, hdone.inv.work_lt, hdone.idle⟩
  · simp only [bleBuildNextPacket, hloop, Option.getD_some]
  · have hend := hlinked.end_packet (by omega) hdone.inv.placed hdone.ended
    rw [hbuffer]
    exact hend

/-- What a receiver has at the end of it all. -/
def Outcome (effectiveMtu : Nat) (all out : List WireMsg) : Prop :=
  (HeadersClear effectiveMtu 1 (payloadLens all) ∧ out = all) ∨
    ∃ before w more, Breaks effectiveMtu all before w ∧ out = before ++ w.garbled :: more

theorem Linked.outcome {held : Option PartialMsg} {sofar : List WireMsg}
    (h : Linked mtu all held sofar none [] 1 []) : Outcome mtu all sofar := by
  rcases h with ⟨out, hfeed, hall, hclear⟩ | ⟨_, _, _, _, _, hcur, _⟩ |
    ⟨before, w, hbreak, hparse⟩
  · have hnil := hfeed.parse_eq
    rw [parse_nil] at hnil
    obtain ⟨-, rfl⟩ := Prod.mk.inj hnil
    refine Or.inl ⟨hclear.mp trivial, ?_⟩
    simpa [unsent] using hall
  · cases hcur
  · obtain ⟨more, hmore⟩ := hparse []
    simp only [List.append_nil, parse_nil] at hmore
    exact Or.inr ⟨before, w, more, hbreak, hmore⟩

def received (packets : List (List UInt8)) : Option PartialMsg × List WireMsg :=
  parseRun none (packets.map RxEvent.packet)

theorem received_snoc (packets : List (List UInt8)) (pkt : List UInt8) :
    received (packets ++ [pkt]) = ((parsePacket (received packets).1 pkt).1,
      (received packets).2 ++ (parsePacket (received packets).1 pkt).2) := by
  rw [received, List.map_append, parseRun_append]
  simp [received, parseRun, parseEvent, Machine.answers]

theorem parsePacket_flag_only (held : Option PartialMsg) {pkt : List UInt8}
    (h : pkt.length ≤ 1) : (parsePacket held pkt).2 = [] := by
  match pkt with
  | [] => rfl
  | [msgCont] => simp [parsePacket]
  | _ :: _ :: _ =>
    simp only [List.length_cons] at h
    omega

/-- What holds between the calls of a drain. -/
def TxDrain.Inv (effectiveMtu : Nat) (all : List WireMsg) (s : TxDrain) : Prop :=
  Placed s.ctx.current ∧ Linked effectiveMtu all (received s.packets).1
    (received s.packets).2 s.ctx.current (s.fifos.held .tx) 1 []

theorem txDrainCall_advances {s : TxDrain} (hmtu : 20 ≤ mtu) (h : s.Inv mtu all) :
    match txDrainCall mtu s with
    | .inl s' => s'.Inv mtu all ∧ txWork s'.ctx.current (s'.fifos.held .tx) <
        txWork s.ctx.current (s.fifos.held .tx)
    | .inr r => Outcome mtu all (received r.packets).2 := by
  obtain ⟨final, outLen, hcall, hplaced, hlinked, hless, hend⟩ :=
    bleBuildNextPacket_linked hmtu h.1 h.2
  by_cases hmore : 1 < final.buffer.length
  · simp only [txDrainCall, hcall, hmore, decide_true]
    refine ⟨⟨hplaced, ?_⟩, hless hmore⟩
    rw [received_snoc]
    exact hlinked
  · simp only [txDrainCall, hcall, hmore, decide_false]
    obtain ⟨hcur, hnil⟩ := hend (by omega)
    rw [hcur, hnil, parsePacket_flag_only _ (by omega), List.append_nil] at hlinked
    exact hlinked.outcome

/-- The calls until one answers false. -/
theorem txPackets_outcome {ctx : TxCtx} {fifos : BleFifos} (hmtu : 20 ≤ mtu)
    (hidle : ctx.current = none) (hqueue : fifos.held .tx = all)
    (hwork : txWork none all < txDrainFuel) :
    ∃ packets, txPackets ctx fifos mtu = some packets ∧
      Outcome mtu all (received packets).2 := by
  have hstart : (TxDrain.mk ctx fifos []).Inv mtu all := by
    refine ⟨?_, ?_⟩
    · rw [hidle]
      intro w k hw
      cases hw
    · rw [hidle, hqueue]
      exact Or.inl ⟨[], .refl _, rfl, Iff.rfl⟩
  have hfuel : txWork ctx.current (fifos.held .tx) < txDrainFuel := by rwa [hidle, hqueue]
  have hdrain : ∃ r, Loop.loop (txDrainCall mtu) txDrainFuel ⟨ctx, fifos, []⟩ = some r ∧
      Outcome mtu all (received r.packets).2 := by
    refine Loop.loop_total (TxDrain.Inv mtu all)
      (fun r : TxDrain => Outcome mtu all (received r.packets).2)
      (fun s : TxDrain => txWork s.ctx.current (s.fifos.held .tx))
      (fun s s' hinv hbody => ?_) (fun s r hinv hbody => ?_) hstart hfuel
    · have hadv := txDrainCall_advances hmtu hinv
      rwa [hbody] at hadv
    · have hadv := txDrainCall_advances hmtu hinv
      rwa [hbody] at hadv
  obtain ⟨r, hloop, hout⟩ := hdrain
  exact ⟨r.packets, by rw [txPackets, hloop]; rfl, hout⟩

/-! ### The round trip -/

def queueMsgs (fifos : BleFifos) (ms : List BleMsg) : BleFifos :=
  ms.foldl (fun fifos m => (addBleMsgToQueue fifos (some m) .tx).1) fifos

theorem queueMsgs_held (fifos : BleFifos) (ms : List BleMsg) :
    (queueMsgs fifos ms).held .tx =
      (ms.map BleMsg.wire).foldl (RingBuffer.pushBounded bleFifoCapacity) (fifos.held .tx) := by
  induction ms generalizing fifos with
  | nil => rfl
  | cons m ms ih =>
    rw [queueMsgs, List.foldl_cons, List.map_cons, List.foldl_cons, ← addBleMsgToQueue_held]
    exact ih _

/-- The messages are queued, the sender is called until it answers false, and its
packets, read in order by a receiver that was reset, give back exactly the messages. -/
def RoundTrip (effectiveMtu : Nat) (fifos : BleFifos) (tx : TxCtx) (rx : RxCtx)
    (ms : List BleMsg) : Prop :=
  ∃ packets, txPackets tx (queueMsgs fifos ms) effectiveMtu = some packets ∧
    (rxRun (rxResetContext rx) (packets.map RxEvent.packet)).2.map BleMsg.wire =
      ms.map BleMsg.wire

/-- The payload of a message happens to go on as its own header and then itself. -/
def WireMsg.RepeatsHeader (w : WireMsg) : Prop := 0 < w.payload.length ∧ w.garbled = w

theorem queueWork_le (ws : List WireMsg) :
    (ws.map fun w => w.payload.length + 1).sum ≤ ws.length * 256 := by
  induction ws with
  | nil => simp
  | cons w ws ih =>
    have hw := w.payload_lt
    simp only [List.map_cons, List.sum_cons, List.length_cons]
    omega

theorem txWork_lt {ws : List WireMsg} (h : ws.length ≤ bleFifoCapacity) :
    txWork none ws < txDrainFuel := by
  have hws := queueWork_le ws
  have hfuel : txDrainFuel = 20 * 256 + 1 := rfl
  have hcap : bleFifoCapacity = 19 := rfl
  simp only [txWork, Option.elim_none]
  omega

def msgLens (ms : List BleMsg) : List Nat := ms.map fun m => m.hdr.len.toNat

theorem payloadLens_wire (ms : List BleMsg) :
    payloadLens (ms.map BleMsg.wire) = msgLens ms := by
  simp [payloadLens, msgLens]

section RoundTrip
variable {fifos : BleFifos} {tx : TxCtx} {ms : List BleMsg} (hmtu : 20 ≤ mtu)
  (hempty : fifos.held .tx = []) (hidle : tx.msgActive = false)
  (hms : ms.length ≤ bleFifoCapacity)

include hmtu hempty hidle hms

theorem roundTrip_outcome (rx : RxCtx) :
    ∃ out, Outcome mtu (ms.map BleMsg.wire) out ∧
      (RoundTrip mtu fifos tx rx ms ↔ out = ms.map BleMsg.wire) := by
  have hcur : tx.current = none := by simp [TxCtx.current, hidle]
  have hheld : (queueMsgs fifos ms).held .tx = ms.map BleMsg.wire := by
    rw [queueMsgs_held, hempty, RingBuffer.foldl_pushBounded (by simpa using hms),
      List.nil_append]
  obtain ⟨packets, hpackets, hout⟩ :=
    txPackets_outcome hmtu hcur hheld (txWork_lt (by simpa using hms))
  have hread := (rxRun_refines (packets.map RxEvent.packet) (represents_reset rx)).2
  refine ⟨_, hout, fun h => ?_, fun h => ⟨packets, hpackets, ?_⟩⟩
  · obtain ⟨packets', hpackets', hsame⟩ := h
    rw [hpackets] at hpackets'
    rw [← Option.some.inj hpackets', hread] at hsame
    exact hsame
  · rw [hread]
    exact h

theorem roundTrip_of_clear (rx : RxCtx) (hclear : HeadersClear mtu 1 (msgLens ms)) :
    RoundTrip mtu fifos tx rx ms := by
  obtain ⟨out, hout, hiff⟩ := roundTrip_outcome hmtu hempty hidle hms rx
  rw [← payloadLens_wire] at hclear
  rcases hout with ⟨-, hall⟩ | ⟨before, w, more, hbreak, -⟩
  · exact hiff.mpr hall
  · exact absurd hclear hbreak.notClear

theorem clear_of_roundTrip {rx : RxCtx} (h : RoundTrip mtu fifos tx rx ms) :
    HeadersClear mtu 1 (msgLens ms) ∨ ∃ m ∈ ms, m.wire.RepeatsHeader := by
  obtain ⟨out, hout, hiff⟩ := roundTrip_outcome hmtu hempty hidle hms rx
  have hall := hiff.mp h
  rcases hout with ⟨hclear, -⟩ | ⟨before, w, more, hbreak, hgarbled⟩
  · rw [payloadLens_wire] at hclear
    exact Or.inl hclear
  · obtain ⟨after, hsplit⟩ := hbreak.split
    rw [hall, hsplit] at hgarbled
    have hsame : w = w.garbled := (List.cons.inj (List.append_cancel_left hgarbled)).1
    have hmem : w ∈ ms.map BleMsg.wire := by simp [hsplit]
    obtain ⟨m, hm, rfl⟩ := List.mem_map.mp hmem
    exact Or.inr ⟨m, hm, hbreak.nonempty, hsame.symm⟩

end RoundTrip

/-- The message with the same header and a payload of zeros. -/
def BleMsg.blank (m : BleMsg) : BleMsg := ⟨m.hdr, Buffer.fill maxBlePayloadSize 0⟩

theorem blank_not_repeatsHeader (m : BleMsg) : ¬ m.blank.wire.RepeatsHeader := by
  rintro ⟨hpos, hsame⟩
  have hmagic : m.blank.wire.garbled.payload[0]? = some bleMagic := by
    rw [WireMsg.garbled, List.getElem?_take_of_lt hpos]
    rfl
  have hzero : m.blank.wire.payload[0]? = some 0 := by
    rw [BleMsg.wire_payload, BleMsg.body_length] at hpos
    rw [BleMsg.wire_payload, BleMsg.body, List.getElem?_take_of_lt hpos]
    rfl
  rw [hsame, hzero] at hmagic
  exact absurd (Option.some.inj hmagic) (by decide)

/-- The round trip is exact on every MTU and all payload lengths where no header of a
non-empty message ends exactly at the end of a packet. Where one does, the messages
come back only if a payload imitates the header before it; so over all contents of
messages with given lengths the condition is exact. -/
theorem roundTrip_iff_headersClear (fifos : BleFifos) (tx : TxCtx) (rx : RxCtx)
    (ms : List BleMsg) (hmtu : 20 ≤ mtu) (hempty : fifos.held .tx = [])
    (hidle : tx.msgActive = false) (hms : ms.length ≤ bleFifoCapacity) :
    (HeadersClear mtu 1 (msgLens ms) → RoundTrip mtu fifos tx rx ms) ∧
      (RoundTrip mtu fifos tx rx ms →
        HeadersClear mtu 1 (msgLens ms) ∨ ∃ m ∈ ms, m.wire.RepeatsHeader) ∧
      ((∀ ms', msgLens ms' = msgLens ms → RoundTrip mtu fifos tx rx ms') ↔
        HeadersClear mtu 1 (msgLens ms)) := by
  have hlen : ∀ ms', msgLens ms' = msgLens ms → ms'.length ≤ bleFifoCapacity := by
    intro ms' hsame
    have hcount := congrArg List.length hsame
    simp only [msgLens, List.length_map] at hcount
    omega
  refine ⟨roundTrip_of_clear hmtu hempty hidle hms rx, clear_of_roundTrip hmtu hempty hidle hms,
    fun hall => ?_, fun hclear ms' hsame => ?_⟩
  · have hblank : msgLens (ms.map BleMsg.blank) = msgLens ms := by
      simp [msgLens, BleMsg.blank]
    have htrip := clear_of_roundTrip hmtu hempty hidle (hlen _ hblank) (hall _ hblank)
    rw [hblank] at htrip
    refine htrip.resolve_right ?_
    rintro ⟨m, hm, hrepeats⟩
    obtain ⟨m', -, rfl⟩ := List.mem_map.mp hm
    exact blank_not_repeatsHeader m' hrepeats
  · exact roundTrip_of_clear hmtu hempty hidle (hlen ms' hsame) rx (by rwa [hsame])

/-- A first message of 12 bytes leaves no room for a header, the second starts a packet. -/
theorem roundTrip_header_moved :
    RoundTrip 20 BleFifos.init TxCtx.init RxCtx.init
      [WireMsg.msg ⟨1, 2, [1, 2, 3, 4, 5, 6, 7, 8, 9, 10, 11, 12], by decide⟩,
        WireMsg.msg ⟨3, 4, [7], by decide⟩, WireMsg.msg ⟨5, 6, [], by decide⟩] :=
  (roundTrip_iff_headersClear BleFifos.init TxCtx.init RxCtx.init _ (Nat.le_refl 20)
    (BleFifos.init_held .tx) rfl (by decide)).1 (by decide)

/-- With 11 bytes the second header ends at the end of the packet. It comes again in the
next one, and the receiver takes its first byte for the payload. -/
theorem roundTrip_header_repeated :
    let ms := [WireMsg.msg ⟨1, 2, [1, 2, 3, 4, 5, 6, 7, 8, 9, 10, 11], by decide⟩,
      WireMsg.msg ⟨3, 4, [7], by decide⟩]
    let packets : List (List UInt8) :=
      [[0, 0xA5, 1, 2, 11, 1, 2, 3, 4, 5, 6, 7, 8, 9, 10, 11, 0xA5, 3, 4, 1],
        [1, 0xA5, 3, 4, 1, 7]]
    txPackets TxCtx.init (queueMsgs BleFifos.init ms) 20 = some packets ∧
      (rxRun (rxResetContext RxCtx.init) (packets.map RxEvent.packet)).2.map BleMsg.wire =
        [⟨1, 2, [1, 2, 3, 4, 5, 6, 7, 8, 9, 10, 11], by decide⟩, ⟨3, 4, [0xA5], by decide⟩] ∧
      ¬ RoundTrip 20 BleFifos.init TxCtx.init RxCtx.init ms := by
  intro ms packets
  have hsent : txPackets TxCtx.init (queueMsgs BleFifos.init ms) 20 = some packets := by
    decide +kernel
  have hread : (rxRun (rxResetContext RxCtx.init) (packets.map RxEvent.packet)).2.map
      BleMsg.wire =
        [⟨1, 2, [1, 2, 3, 4, 5, 6, 7, 8, 9, 10, 11], by decide⟩, ⟨3, 4, [0xA5], by decide⟩] := by
    decide +kernel
  refine ⟨hsent, hread, ?_⟩
  rintro ⟨packets', hpackets, hsame⟩
  rw [hsent] at hpackets
  rw [← Option.some.inj hpackets, hread] at hsame
  simp [ms] at hsame

end MinimalWatch.Ble
