import Mathlib.Data.List.Nodup
import MinimalWatch.Ble.LostNotify

/-! Lost packets that do harm. For messages of given lengths, the first harmful packet of
a drain makes the peer complete a message that nobody queued, if the messages have the
right contents: an imitated header where the peer reads payload for headers, and a payload
that tells its message where the peer fills a gap. So `listens` is exact, and the notifies
that may fail are known from the lengths alone. -/

namespace MinimalWatch.Ble
open Firmware

variable {mtu : Nat}

/-! ### A packet that goes on with a payload -/

theorem fillPacket_header (queue : List WireMsg) (pos : Nat) (w : WireMsg) :
    (fillPacket mtu queue pos w 0).body = [] ∨
      ∃ tail, (fillPacket mtu queue pos w 0).body = w.hdr.bytes ++ tail := by
  by_cases hroom : NoRoom mtu pos 0
  · exact Or.inl (by rw [fillPacket_noRoom hroom])
  have hsent : txSent mtu pos w 0 = w.hdr.bytes ++ w.payload.take (txChunk mtu pos w 0) := by
    rw [txSent, txHeader, if_pos rfl, List.drop_zero]
  right
  cases queue with
  | nil => exact ⟨_, by rw [fillPacket_last hroom, hsent]⟩
  | cons next rest =>
    by_cases hmore : pos + (txSent mtu pos w 0).length < mtu
    · rw [fillPacket_next hroom hmore, hsent, List.append_assoc]
      exact ⟨_, rfl⟩
    · rw [fillPacket_full hroom (by omega)]
      exact ⟨_, hsent⟩

theorem fillPacket_suffix (queue : List WireMsg) (pos : Nat) (w : WireMsg) (k : Nat) :
    unsent (fillPacket mtu queue pos w k).current (fillPacket mtu queue pos w k).queue <:+
      w :: queue := by
  have hafter : ∀ (queue : List WireMsg) pos w k,
      unsent (txAfter mtu pos w k) queue <:+ w :: queue := by
    intro queue pos w k
    rw [txAfter]
    split_ifs
    · exact List.suffix_cons w queue
    · exact List.suffix_refl _
  induction queue generalizing pos w k with
  | nil =>
    by_cases hroom : NoRoom mtu pos k
    · rw [fillPacket_noRoom hroom]
      exact List.suffix_refl _
    · rw [fillPacket_last hroom]
      exact hafter [] pos w k
  | cons next rest ih =>
    by_cases hroom : NoRoom mtu pos k
    · rw [fillPacket_noRoom hroom]
      exact List.suffix_refl _
    by_cases hmore : pos + (txSent mtu pos w k).length < mtu
    · rw [fillPacket_next hroom hmore]
      exact (ih _ next 0).trans (List.suffix_cons w _)
    · rw [fillPacket_full hroom (by omega)]
      exact hafter _ pos w k

/-- A packet that starts inside the payload of `w`. -/
inductive GoesOn (effectiveMtu : Nat) (w : WireMsg) (k : Nat) (queue : List WireMsg)
    (f : Filled) : Prop
  /-- It is too short for the rest. -/
  | within (hlt : k + (effectiveMtu - 1) < w.payload.length)
      (hbody : f.body = (w.payload.drop k).take (effectiveMtu - 1))
      (hcur : f.current = some (w, k + (effectiveMtu - 1))) (hqueue : f.queue = queue)
  /-- It has the rest and nothing else. -/
  | last (hbody : f.body = w.payload.drop k) (hrest : unsent f.current f.queue <:+ queue)
  /-- The next header stands behind the rest. -/
  | onward {next : WireMsg} {tail : List UInt8} (hnext : next ∈ queue)
      (hbody : f.body = w.payload.drop k ++ (next.hdr.bytes ++ tail))
      (hrest : unsent f.current f.queue <:+ queue)

theorem nextPacket_goesOn {w : WireMsg} {k : Nat} (queue : List WireMsg) (hmtu : 1 < mtu)
    (hk : 0 < k) (hlt : k < w.payload.length) :
    GoesOn mtu w k queue (nextPacket mtu (some (w, k)) queue) := by
  have hroom : ¬ NoRoom mtu 1 k := by
    rw [NoRoom]
    omega
  have hhdr : txHeader w k = [] := by rw [txHeader, if_neg (by omega)]
  have hchunk : txChunk mtu 1 w k = min (w.payload.length - k) (mtu - 1) := by
    rw [txChunk, hhdr, List.length_nil]
  have hsent : txSent mtu 1 w k = (w.payload.drop k).take (txChunk mtu 1 w k) := by
    rw [txSent, hhdr, List.nil_append]
  have hlen := @txSent_length mtu 1 w k
  rw [hhdr, List.length_nil, Nat.zero_add] at hlen
  change GoesOn mtu w k queue (fillPacket mtu queue 1 w k)
  by_cases hdone : w.payload.length ≤ k + txChunk mtu 1 w k
  · have hall : txSent mtu 1 w k = w.payload.drop k := by
      rw [hsent, List.take_of_length_le]
      rw [List.length_drop]
      omega
    have hafter : txAfter mtu 1 w k = none := by rw [txAfter, if_pos hdone]
    cases queue with
    | nil =>
      rw [fillPacket_last hroom, hafter, hall]
      exact .last rfl (List.suffix_refl _)
    | cons next rest =>
      by_cases hmore : 1 + (txSent mtu 1 w k).length < mtu
      · have hrest := @fillPacket_suffix mtu rest (1 + (w.payload.drop k).length) next 0
        rw [fillPacket_next hroom hmore, hall]
        rcases @fillPacket_header mtu rest (1 + (w.payload.drop k).length) next
          with hnil | ⟨tail, htail⟩
        · exact .last (by simp only [hnil, List.append_nil]) hrest
        · exact .onward List.mem_cons_self (congrArg (w.payload.drop k ++ ·) htail) hrest
      · rw [fillPacket_full hroom (by omega), hafter, hall]
        exact .last rfl (List.suffix_refl _)
  · have hfull : txChunk mtu 1 w k = mtu - 1 := by omega
    have hafter : txAfter mtu 1 w k = some (w, k + (mtu - 1)) := by
      rw [txAfter, if_neg hdone, hfull]
    rw [fillPacket_full hroom (by omega), hsent, hafter, hfull]
    exact .within (by omega) rfl rfl rfl

/-! ### The harmful packet -/

/-- `kept` is kept by the packets up to the harmful one, which then gives away a message
with `bogus`. -/
structure Betrays (effectiveMtu : Nat) (harm : Harm) (bogus : WireMsg → Prop)
    (kept : Peer → TxCurrent → List WireMsg → Option PartialMsg → Prop) : Prop where
  miss {peer cur queue held} (hsend : Sendable effectiveMtu cur queue)
    (h : kept peer cur queue held) (hbody : (nextPacket effectiveMtu cur queue).body ≠ []) :
    let f := nextPacket effectiveMtu cur queue
    kept (peer.miss (TxPacket.mk cur f.body f.current).shape) f.current f.queue held
  hear {peer cur queue held peer'} (hsend : Sendable effectiveMtu cur queue)
    (h : kept peer cur queue held) (hbody : (nextPacket effectiveMtu cur queue).body ≠ []) :
    let f := nextPacket effectiveMtu cur queue
    peer.hear (TxPacket.mk cur f.body f.current).shape = .ok peer' →
      kept peer' f.current f.queue (parsePacket held (TxPacket.mk cur f.body f.current).bytes).1
  harm {peer cur queue held} (hsend : Sendable effectiveMtu cur queue)
    (h : kept peer cur queue held) :
    let f := nextPacket effectiveMtu cur queue
    peer.hear (TxPacket.mk cur f.body f.current).shape = .error harm →
      ∃ w ∈ (parsePacket held (TxPacket.mk cur f.body f.current).bytes).2, bogus w

theorem Betrays.heardMsgs {harm : Harm} {bogus : WireMsg → Prop}
    {kept : Peer → TxCurrent → List WireMsg → Option PartialMsg → Prop} {fuel : Nat}
    {peer : Peer} {cur : TxCurrent} {queue : List WireMsg} {held : Option PartialMsg}
    {oks : Nat → Bool} (h : Betrays mtu harm bogus kept) (hmtu : 1 < mtu)
    (hsend : Sendable mtu cur queue) (hkept : kept peer cur queue held)
    (hlisten : listens peer oks ((sentPackets mtu fuel cur queue).map TxPacket.shape) =
      .error harm) :
    ∃ w ∈ heardMsgs held (succeeded oks (sentPackets mtu fuel cur queue)), bogus w := by
  induction fuel generalizing peer cur queue held oks with
  | zero => cases hlisten
  | succ fuel ih =>
    obtain ⟨-, hsend'⟩ := nextPacket_reads hmtu hsend
    rw [sentPackets] at hlisten ⊢
    split_ifs at hlisten ⊢ with hempty
    · cases hlisten
    rw [List.map_cons, listens] at hlisten
    rw [succeeded]
    split_ifs at hlisten ⊢
    · rw [heardMsgs_cons]
      cases hhear : peer.hear (TxPacket.mk cur (nextPacket mtu cur queue).body
          (nextPacket mtu cur queue).current).shape with
      | error first =>
        rw [hhear] at hlisten
        obtain rfl := Except.error.inj hlisten
        obtain ⟨w, hw, hbogus⟩ := h.harm hsend hkept hhear
        exact ⟨w, List.mem_append_left _ hw, hbogus⟩
      | ok peer' =>
        rw [hhear] at hlisten
        obtain ⟨w, hw, hbogus⟩ := ih hsend' (h.hear hsend hkept hempty hhear) hlisten
        exact ⟨w, List.mem_append_right _ hw, hbogus⟩
    · exact ih hsend' (h.miss hsend hkept hempty) hlisten

/-- The peer is where its packets have led it, and the messages to come are `good`. -/
def Expects (good : WireMsg → Prop) (peer : Peer) (cur : TxCurrent) (queue : List WireMsg)
    (held : Option PartialMsg) : Prop :=
  Hears peer cur held ∧ ∀ w ∈ unsent cur queue, good w

section Expects
variable {good : WireMsg → Prop} {peer : Peer} {cur : TxCurrent} {queue : List WireMsg}
  {held : Option PartialMsg} (h : Expects good peer cur queue held) (hmtu : 1 < mtu)
  (hsend : Sendable mtu cur queue)
include h hmtu hsend

theorem Expects.rest : ∀ w ∈ unsent (nextPacket mtu cur queue).current
    (nextPacket mtu cur queue).queue, good w := by
  obtain ⟨⟨out, hreads⟩, -⟩ := nextPacket_reads hmtu hsend
  intro w hw
  refine h.2 w ?_
  rw [← hreads.rest]
  exact List.mem_append_right _ hw

theorem Expects.miss : Expects good (peer.miss (TxPacket.mk cur (nextPacket mtu cur queue).body
      (nextPacket mtu cur queue).current).shape)
    (nextPacket mtu cur queue).current (nextPacket mtu cur queue).queue held :=
  ⟨@Hears.miss peer (TxPacket.mk cur (nextPacket mtu cur queue).body
    (nextPacket mtu cur queue).current) held h.1 hsend.placed, h.rest hmtu hsend⟩

theorem Expects.hear {peer' : Peer} (hhear : peer.hear (TxPacket.mk cur
      (nextPacket mtu cur queue).body (nextPacket mtu cur queue).current).shape = .ok peer') :
    Expects good peer' (nextPacket mtu cur queue).current (nextPacket mtu cur queue).queue
      (parsePacket held (TxPacket.mk cur (nextPacket mtu cur queue).body
        (nextPacket mtu cur queue).current).bytes).1 := by
  obtain ⟨⟨out, hreads⟩, -⟩ := nextPacket_reads hmtu hsend
  exact ⟨(h.1.hear hreads hhear).1, h.rest hmtu hsend⟩

end Expects

/-! ### Imitated headers -/

/-- Bytes told from their distance to the end, the last one being at 1. -/
def countdown (byteAtEnd : Nat → UInt8) : Nat → List UInt8
  | 0 => []
  | n + 1 => byteAtEnd (n + 1) :: countdown byteAtEnd n

@[simp] theorem countdown_length (byteAtEnd : Nat → UInt8) (n : Nat) :
    (countdown byteAtEnd n).length = n := by
  induction n with
  | zero => rfl
  | succ n ih => rw [countdown, List.length_cons, ih]

theorem countdown_drop (byteAtEnd : Nat → UInt8) (n k : Nat) :
    (countdown byteAtEnd n).drop k = countdown byteAtEnd (n - k) := by
  induction n generalizing k with
  | zero => simp [countdown]
  | succ n ih =>
    cases k with
    | zero => rfl
    | succ k => rw [countdown, List.drop_succ_cons, ih, Nat.add_sub_add_right]

/-- A header of an empty message, over and over. -/
def imitation (toEnd : Nat) : UInt8 :=
  if toEnd % 4 = 0 then bleMagic else if toEnd % 4 = 3 then 1 else 0

/-- A magic byte in front of the next header. -/
def lastMagic (toEnd : Nat) : UInt8 := if toEnd = 1 then bleMagic else 0

theorem nil_payload_lt : ([] : List UInt8).length < 256 := by
  decide

def forged (opcode : UInt8) : WireMsg := ⟨opcode, 0, [], nil_payload_lt⟩

theorem forged_mem (opcode : UInt8) (rest : List UInt8) :
    forged opcode ∈ (parse none ((forged opcode).encode ++ rest)).2 := by
  rw [feeds_encode (forged opcode) rest]
  exact List.mem_cons_self

theorem forged_mem_imitation {t r size : Nat} (ht : r % 4 = t) (hr : 4 + t ≤ r)
    (hsize : 4 + t ≤ size) :
    forged 1 ∈ (parse none ((countdown imitation r).take size)).2 := by
  induction t generalizing r size with
  | zero =>
    obtain ⟨r, rfl⟩ := Nat.exists_eq_add_of_le' hr
    obtain ⟨size, rfl⟩ := Nat.exists_eq_add_of_le' hsize
    have hbytes : (countdown imitation (r + 4)).take (size + 4) =
        (forged 1).encode ++ (countdown imitation r).take size := by
      have h0 : imitation (r + 3 + 1) = bleMagic := by rw [imitation, if_pos (by omega)]
      have h1 : imitation (r + 2 + 1) = 1 := by
        rw [imitation, if_neg (by omega), if_pos (by omega)]
      have h2 : imitation (r + 1 + 1) = 0 := by
        rw [imitation, if_neg (by omega), if_neg (by omega)]
      have h3 : imitation (r + 1) = 0 := by
        rw [imitation, if_neg (by omega), if_neg (by omega)]
      simp only [countdown, List.take_succ_cons, h0, h1, h2, h3]
      rfl
    rw [hbytes]
    exact forged_mem 1 _
  | succ t ih =>
    obtain ⟨r, rfl⟩ := Nat.exists_eq_add_of_le' (by omega : 1 ≤ r)
    obtain ⟨size, rfl⟩ := Nat.exists_eq_add_of_le' (by omega : 1 ≤ size)
    have hskip : imitation (r + 1) ≠ bleMagic := by
      rw [imitation, if_neg (by omega)]
      split_ifs <;> decide
    rw [countdown, List.take_succ_cons, parse_skip _ hskip]
    exact ih (by omega) (by omega) (by omega)

theorem forged_mem_lastMagic {r : Nat} (hr : 0 < r) (len : UInt8) (tail : List UInt8) :
    forged bleMagic ∈
      (parse none (countdown lastMagic r ++ (bleMagic :: 0 :: 0 :: len :: tail))).2 := by
  induction r with
  | zero => omega
  | succ r ih =>
    rcases Nat.eq_zero_or_pos r with rfl | hpos
    · exact forged_mem bleMagic (len :: tail)
    · have hskip : lastMagic (r + 1) ≠ bleMagic := by
        rw [lastMagic, if_neg (by omega)]
        decide
      rw [countdown, List.cons_append, parse_skip _ hskip]
      exact ih hpos

/-- A message under a header of zeros. -/
def Blank (byteAtEnd : Nat → UInt8) (w : WireMsg) : Prop :=
  w.opcode = 0 ∧ w.reqApp = 0 ∧ w.payload = countdown byteAtEnd w.payload.length

/-- An idle peer reads the end of a payload as a stream. -/
theorem Expects.read_idle {good : WireMsg → Prop} {w : WireMsg} {k : Nat} {body : List UInt8}
    {stop : TxCurrent} {queue : List WireMsg} {held : Option PartialMsg}
    (h : Expects good .idle (some (w, k)) queue held) :
    good w ∧ (parsePacket held (TxPacket.mk (some (w, k)) body stop).bytes).2 =
      (parse none body).2 := by
  obtain ⟨rfl, hgood⟩ := h
  refine ⟨hgood w List.mem_cons_self, ?_⟩
  rw [parsePacket_bytes]
  rfl

theorem betrays_payload (hmtu : 20 ≤ mtu) :
    Betrays mtu .payload (fun w => w.opcode ≠ 0) (Expects (Blank imitation)) where
  miss hsend h _ := h.miss (by omega) hsend
  hear hsend h _ := h.hear (by omega) hsend
  harm := by
    intro peer cur queue held hsend h f hhear
    obtain ⟨n, k, hstart, ⟨rfl, hk, hsize, ⟨-, hpayload⟩ | ⟨hharm, -⟩⟩ | ⟨_, -, -, hharm⟩⟩ :=
      Peer.hear_error hhear
    · obtain ⟨⟨w, k⟩, rfl, hw⟩ := Option.map_eq_some_iff.mp hstart
      obtain ⟨rfl, rfl⟩ := Prod.mk.inj hw
      obtain ⟨⟨-, -, hpattern⟩, hread⟩ := @h.read_idle _ _ _ f.body f.current
      have hlt := (hsend.placed w k rfl).resolve_left (by omega)
      have hdrop : w.payload.drop k = countdown imitation (w.payload.length - k) := by
        rw [hpattern, countdown_drop, countdown_length]
      change 4 ≤ f.body.length at hsize
      change f.body.length ≤ w.payload.length - k at hpayload
      refine ⟨forged 1, ?_, by decide⟩
      rw [hread]
      cases @nextPacket_goesOn mtu w k queue (by omega) hk hlt with
      | within hlong hbody hcur hqueue =>
        rw [hbody, hdrop]
        exact forged_mem_imitation rfl (by omega) (by omega)
      | last hbody hrest =>
        rw [hbody, List.length_drop] at hsize
        rw [hbody, hdrop, ← List.take_length (l := countdown _ _), countdown_length]
        exact forged_mem_imitation rfl (by omega) (by omega)
      | onward hnext hbody hrest =>
        rw [hbody, List.length_append, List.length_append, List.length_drop,
          BleMsgHdr.bytes_length] at hpayload
        omega
    · cases hharm
    · cases hharm

theorem betrays_header (hmtu : 20 ≤ mtu) :
    Betrays mtu .header (fun w => w.opcode ≠ 0) (Expects (Blank lastMagic)) where
  miss hsend h _ := h.miss (by omega) hsend
  hear hsend h _ := h.hear (by omega) hsend
  harm := by
    intro peer cur queue held hsend h f hhear
    obtain ⟨n, k, hstart, ⟨rfl, hk, hsize, ⟨hharm, -⟩ | ⟨-, hheader⟩⟩ | ⟨_, -, -, hharm⟩⟩ :=
      Peer.hear_error hhear
    · cases hharm
    · obtain ⟨⟨w, k⟩, rfl, hw⟩ := Option.map_eq_some_iff.mp hstart
      obtain ⟨rfl, rfl⟩ := Prod.mk.inj hw
      obtain ⟨⟨-, -, hpattern⟩, hread⟩ := @h.read_idle _ _ _ f.body f.current
      have hlt := (hsend.placed w k rfl).resolve_left (by omega)
      have hdrop : w.payload.drop k = countdown lastMagic (w.payload.length - k) := by
        rw [hpattern, countdown_drop, countdown_length]
      change w.payload.length - k < f.body.length at hheader
      refine ⟨forged bleMagic, ?_, by decide⟩
      rw [hread]
      cases @nextPacket_goesOn mtu w k queue (by omega) hk hlt with
      | within hlong hbody hcur hqueue =>
        rw [hbody, List.length_take, List.length_drop] at hheader
        omega
      | last hbody hrest =>
        rw [hbody, List.length_drop] at hheader
        omega
      | @onward next tail hnext hbody hrest =>
        obtain ⟨hopcode, hreqApp, -⟩ := h.2 next (List.mem_cons_of_mem w hnext)
        have hhdr : next.hdr.bytes = [bleMagic, 0, 0, next.len] := by
          rw [WireMsg.hdr, hopcode, hreqApp]
          rfl
        rw [hbody, hdrop, hhdr]
        exact forged_mem_lastMagic (by omega) next.len tail
    · cases hharm

/-! ### Filled gaps -/

/-- Every payload repeats the opcode of its message. -/
def Uniform (w : WireMsg) : Prop := w.opcode ≠ bleMagic ∧ ∀ b ∈ w.payload, b = w.opcode

def Striped (ws : List WireMsg) : Prop := (ws.map WireMsg.opcode).Nodup

/-- The sender is so far on with the message of this opcode that less than `missing` bytes
of it are left, or past it. -/
def Beyond (opcode : UInt8) (missing : Nat) (cur : TxCurrent) (queue : List WireMsg) : Prop :=
  ∀ w ∈ unsent cur queue, w.opcode = opcode →
    ∃ k, cur = some (w, k) ∧ 0 < k ∧ w.payload.length - k < missing

/-- A message that will not become one of the queue, whatever it is filled with. -/
def Spoiled (p : PartialMsg) (cur : TxCurrent) (queue : List WireMsg) : Prop :=
  p.opcode ≠ bleMagic ∧
    ((∃ b ∈ p.got, b ≠ p.opcode) ∨ Beyond p.opcode (p.missing + 1) cur queue)

theorem nextPacket_suffix (cur : TxCurrent) (queue : List WireMsg) :
    unsent (nextPacket mtu cur queue).current (nextPacket mtu cur queue).queue <:+
      unsent cur queue := by
  match cur, queue with
  | some (w, k), queue => exact fillPacket_suffix queue 1 w k
  | none, w :: rest => exact fillPacket_suffix rest 1 w 0
  | none, [] => exact List.suffix_refl _

theorem head_mem_take {b : UInt8} {rest : List UInt8} {n : Nat} (hn : 0 < n) :
    b ∈ (b :: rest).take n := by
  obtain ⟨n, rfl⟩ := Nat.exists_eq_succ_of_ne_zero (Nat.ne_of_gt hn)
  exact List.mem_cons_self

section Gap
variable {cur : TxCurrent} {queue : List WireMsg} (hmtu : 1 < mtu)
  (hsend : Sendable mtu cur queue) (hstriped : Striped (unsent cur queue))
include hmtu hsend hstriped

/-- A packet that is lost, or that is taken for the gap. -/
theorem Beyond.next {opcode : UInt8} {missing lost : Nat} (h : Beyond opcode missing cur queue)
    (hlost : lost ≤ (nextPacket mtu cur queue).body.length) (hmissing : lost < missing) :
    Beyond opcode (missing - lost) (nextPacket mtu cur queue).current
      (nextPacket mtu cur queue).queue := by
  intro w hw hopcode
  obtain ⟨k, rfl, hk, hless⟩ := h w ((nextPacket_suffix cur queue).mem hw) hopcode
  have hlt := (hsend.placed w k rfl).resolve_left (by omega)
  have hnot : w ∉ queue := fun hmem =>
    (List.nodup_cons.mp hstriped).1 (List.mem_map_of_mem hmem)
  cases nextPacket_goesOn queue hmtu hk hlt with
  | within hlong hbody hcur hqueue =>
    rw [hbody, List.length_take, List.length_drop] at hlost
    exact ⟨_, hcur, by omega, by omega⟩
  | last hbody hrest => exact absurd (hrest.mem hw) hnot
  | onward hnext hbody hrest => exact absurd (hrest.mem hw) hnot

theorem Spoiled.lost {p : PartialMsg} (h : Spoiled p cur queue) :
    Spoiled p (nextPacket mtu cur queue).current (nextPacket mtu cur queue).queue := by
  refine ⟨h.1, h.2.imp_right fun hbeyond => ?_⟩
  exact hbeyond.next hmtu hsend hstriped (Nat.zero_le _) (Nat.succ_pos _)

theorem Spoiled.filled {p : PartialMsg} (h : Spoiled p cur queue)
    (hfits : (nextPacket mtu cur queue).body.length ≤ p.missing) :
    Spoiled (p.extend (nextPacket mtu cur queue).body hfits)
      (nextPacket mtu cur queue).current (nextPacket mtu cur queue).queue := by
  refine ⟨h.1, h.2.imp (fun ⟨b, hb, hne⟩ => ⟨b, List.mem_append_left _ hb, hne⟩)
    fun hbeyond => ?_⟩
  have hnext := hbeyond.next hmtu hsend hstriped (Nat.le_refl _) (Nat.lt_succ_of_le hfits)
  rwa [Nat.succ_sub hfits] at hnext

/-- The next bytes do not go on with the message that the peer has a gap in. -/
theorem Beyond.exposed {opcode : UInt8} {missing : Nat} (h : Beyond opcode missing cur queue)
    (hmagic : opcode ≠ bleMagic) (huniform : ∀ w ∈ unsent cur queue, Uniform w)
    (hcur : cur ≠ none) (hpos : 0 < missing)
    (hsize : missing ≤ (nextPacket mtu cur queue).body.length) :
    ∃ b ∈ (nextPacket mtu cur queue).body.take missing, b ≠ opcode := by
  obtain ⟨⟨w, k⟩, rfl⟩ := Option.ne_none_iff_exists'.mp hcur
  rcases Nat.eq_zero_or_pos k with rfl | hk
  · -- a header, whose magic byte is no opcode
    rcases @fillPacket_header mtu queue 1 w with hnil | ⟨tail, htail⟩
    · rw [nextPacket, hnil, List.length_nil] at hsize
      omega
    · refine ⟨bleMagic, ?_, hmagic.symm⟩
      rw [nextPacket, htail]
      exact head_mem_take hpos
  have hlt := (hsend.placed w k rfl).resolve_left (by omega)
  have hcase := nextPacket_goesOn queue hmtu hk hlt
  by_cases hsame : w.opcode = opcode
  · obtain ⟨j, hj, -, hless⟩ := h w List.mem_cons_self hsame
    obtain rfl : k = j := (Prod.mk.inj (Option.some.inj hj)).2
    cases hcase with
    | within hlong hbody hafter hqueue =>
      rw [hbody, List.length_take, List.length_drop] at hsize
      omega
    | last hbody hrest =>
      rw [hbody, List.length_drop] at hsize
      omega
    | onward hnext hbody hrest =>
      refine ⟨bleMagic, ?_, hmagic.symm⟩
      rw [hbody, List.take_append, List.length_drop]
      exact List.mem_append_right _ (head_mem_take (by omega))
  · -- payload of another message
    have hbyte := (huniform w List.mem_cons_self).2 w.payload[k] (List.getElem_mem hlt)
    refine ⟨w.payload[k], ?_, by rwa [hbyte]⟩
    have hdrop := List.drop_eq_getElem_cons hlt
    cases hcase with
    | within hlong hbody hafter hqueue =>
      rw [hbody, List.length_take] at hsize
      rw [hbody, List.take_take, hdrop]
      exact head_mem_take (by omega)
    | last hbody hrest =>
      rw [hbody, hdrop]
      exact head_mem_take hpos
    | onward hnext hbody hrest =>
      rw [hbody, hdrop]
      exact head_mem_take hpos

theorem Spoiled.completed {p : PartialMsg} (h : Spoiled p cur queue)
    (huniform : ∀ w ∈ unsent cur queue, Uniform w) (hcur : cur ≠ none)
    (hsize : p.missing + 1 ≤ (nextPacket mtu cur queue).body.length) :
    ∃ w ∈ (parse (some p) (nextPacket mtu cur queue).body).2, ¬ Uniform w := by
  have hlen : ((nextPacket mtu cur queue).body.take (p.missing + 1)).length =
      p.missing + 1 := List.length_take_of_le hsize
  have hread := feeds_finish p _ hlen ((nextPacket mtu cur queue).body.drop (p.missing + 1))
  rw [List.take_append_drop] at hread
  refine ⟨p.finish _ hlen, ?_, fun hfinished => ?_⟩
  · rw [hread]
    exact List.mem_cons_self
  · rcases h.2 with ⟨b, hb, hne⟩ | hbeyond
    · exact hne (hfinished.2 b (List.mem_append_left _ hb))
    · obtain ⟨b, hb, hne⟩ := hbeyond.exposed hmtu hsend hstriped h.1 huniform hcur
        (Nat.succ_pos _) hsize
      exact hne (hfinished.2 b (List.mem_append_right _ hb))

end Gap

/-- The first packet that the peer misses of a message. -/
theorem spoiled_received {w : WireMsg} {k : Nat} {queue : List WireMsg} (hmtu : 1 < mtu)
    (hsend : Sendable mtu (some (w, k + 1)) queue) (hlt : k + 1 < w.payload.length)
    (hstriped : Striped (unsent (some (w, k + 1)) queue)) (huniform : Uniform w)
    (hbody : (nextPacket mtu (some (w, k + 1)) queue).body ≠ []) :
    Spoiled (w.received (k + 1) hlt) (nextPacket mtu (some (w, k + 1)) queue).current
      (nextPacket mtu (some (w, k + 1)) queue).queue := by
  have hstart : Beyond w.opcode ((w.received (k + 1) hlt).missing + 1 + 1)
      (some (w, k + 1)) queue := by
    intro v hv hopcode
    obtain rfl := List.inj_on_of_nodup_map hstriped hv List.mem_cons_self hopcode
    refine ⟨k + 1, rfl, Nat.succ_pos k, ?_⟩
    simp only [WireMsg.received]
    omega
  exact ⟨huniform.1, Or.inr (hstart.next hmtu hsend hstriped (List.length_pos_iff.mpr hbody)
    (by omega))⟩

/-- What a peer with a gap is kept in, besides what it expects. -/
structure Gapped (peer : Peer) (cur : TxCurrent) (queue : List WireMsg)
    (held : Option PartialMsg) : Prop where
  expects : Expects Uniform peer cur queue held
  striped : Striped (unsent cur queue)
  spoiled : ∀ missing, peer = .behind missing → ∀ p, held = some p → Spoiled p cur queue

theorem Striped.suffix {ws rest : List WireMsg} (h : Striped ws) (hrest : rest <:+ ws) :
    Striped rest := h.sublist (hrest.sublist.map _)

theorem betrays_gap (hmtu : 20 ≤ mtu) :
    Betrays mtu .gap (fun w => ¬ Uniform w) Gapped where
  miss := by
    intro peer cur queue held hsend h hbody f
    refine ⟨h.expects.miss (by omega) hsend, h.striped.suffix (nextPacket_suffix cur queue),
      fun missing hpeer p hheld => ?_⟩
    cases peer with
    | idle => cases hpeer
    | behind before =>
      exact (h.spoiled before rfl p hheld).lost (by omega) hsend h.striped
    | following =>
      obtain ⟨hsame, w, k, rfl⟩ := h.expects.1
      have hlt := (hsend.placed w (k + 1) rfl).resolve_left (Nat.succ_ne_zero k)
      rw [heldBy_payload (Nat.succ_pos k) hlt, hheld] at hsame
      rw [Option.some.inj hsame]
      exact spoiled_received (by omega) hsend hlt h.striped (h.expects.2 w List.mem_cons_self)
        hbody
  hear := by
    intro peer cur queue held peer' hsend h hbody f hhear
    have hexpects := h.expects.hear (by omega) hsend hhear
    refine ⟨hexpects, h.striped.suffix (nextPacket_suffix cur queue),
      fun missing hpeer p hheld => ?_⟩
    obtain ⟨hstart, before, rfl, hsize⟩ := Peer.behind_of_hear (hpeer ▸ hhear)
    obtain ⟨q, rfl, hmissing⟩ := h.expects.1
    obtain ⟨⟨w, k⟩, rfl⟩ : ∃ p, cur = some p := by
      cases cur with
      | none => exact absurd rfl hstart
      | some p => exact ⟨p, rfl⟩
    change (nextPacket mtu (some (w, k)) queue).body.length < before at hsize
    have hfits : (nextPacket mtu (some (w, k)) queue).body.length ≤ q.missing := by omega
    rw [parsePacket_bytes, Option.isSome_some, if_pos rfl,
      (feeds_extend q _ hfits).parse_eq] at hheld
    obtain rfl := Option.some.inj hheld
    exact (h.spoiled before rfl q rfl).filled (by omega) hsend h.striped hfits
  harm := by
    intro peer cur queue held hsend h f hhear
    obtain ⟨n, k, hstart, ⟨-, -, -, ⟨hharm, -⟩ | ⟨hharm, -⟩⟩ | ⟨missing, rfl, hsize, -⟩⟩ :=
      Peer.hear_error hhear
    · cases hharm
    · cases hharm
    · obtain ⟨p, rfl, hmissing⟩ := h.expects.1
      obtain ⟨⟨w, k⟩, rfl, -⟩ := Option.map_eq_some_iff.mp hstart
      rw [parsePacket_bytes, Option.isSome_some, if_pos rfl]
      change missing ≤ (nextPacket mtu (some (w, k)) queue).body.length at hsize
      exact (h.spoiled missing rfl p rfl).completed (by omega) hsend h.striped h.expects.2
        (Option.some_ne_none _) (by omega)

/-! ### Contents that show the harm -/

/-- A message of the same length with another content. -/
def WireMsg.refill (w : WireMsg) (opcode : UInt8) (byteAtEnd : Nat → UInt8) : WireMsg :=
  ⟨opcode, 0, countdown byteAtEnd w.payload.length, by
    rw [countdown_length]
    exact w.payload_lt⟩

@[simp] theorem WireMsg.refill_length (w : WireMsg) (opcode : UInt8) (byteAtEnd : Nat → UInt8) :
    (w.refill opcode byteAtEnd).payload.length = w.payload.length :=
  countdown_length byteAtEnd _

theorem WireMsg.refill_blank (w : WireMsg) (byteAtEnd : Nat → UInt8) :
    Blank byteAtEnd (w.refill 0 byteAtEnd) :=
  ⟨rfl, rfl, by rw [w.refill_length]; rfl⟩

theorem WireMsg.refill_uniform (w : WireMsg) {opcode : UInt8} (h : opcode ≠ bleMagic) :
    Uniform (w.refill opcode fun _ => opcode) := by
  have hall : ∀ n, ∀ b ∈ countdown (fun _ => opcode) n, b = opcode := by
    intro n
    induction n with
    | zero => exact nofun
    | succ n ih => exact List.forall_mem_cons.mpr ⟨rfl, ih⟩
  exact ⟨h, hall w.payload.length⟩

/-- Messages that tell their places in the queue. -/
def stripes : Nat → List WireMsg → List WireMsg
  | _, [] => []
  | i, w :: ws => w.refill (UInt8.ofNat i) (fun _ => UInt8.ofNat i) :: stripes (i + 1) ws

theorem stripes_lens (i : Nat) (ws : List WireMsg) :
    payloadLens (stripes i ws) = payloadLens ws := by
  induction ws generalizing i with
  | nil => rfl
  | cons w ws ih =>
    have hrest := ih (i + 1)
    rw [payloadLens, payloadLens] at hrest ⊢
    rw [stripes, List.map_cons, List.map_cons, hrest, w.refill_length]

theorem stripes_opcode (i : Nat) (ws : List WireMsg) :
    (stripes i ws).map WireMsg.opcode = (List.range' i ws.length).map UInt8.ofNat := by
  induction ws generalizing i with
  | nil => rfl
  | cons w ws ih =>
    rw [stripes, List.map_cons, ih, List.length_cons, List.range'_succ, List.map_cons]
    rfl

theorem stripes_striped {i : Nat} {ws : List WireMsg} (h : i + ws.length ≤ 256) :
    Striped (stripes i ws) := by
  rw [Striped, stripes_opcode]
  refine List.Nodup.map_on (fun a ha b hb hab => ?_) List.nodup_range'
  have hbyte : ∀ c ∈ List.range' i ws.length, (UInt8.ofNat c).toNat = c := by
    intro c hc
    obtain ⟨-, hlt⟩ := List.mem_range'_1.mp hc
    exact UInt8.toNat_ofNat_of_lt' (Nat.lt_of_lt_of_le hlt h)
  rw [← hbyte a ha, ← hbyte b hb, hab]

theorem stripes_uniform {i : Nat} {ws : List WireMsg} (h : i + ws.length ≤ 0xA5) :
    ∀ w ∈ stripes i ws, Uniform w := by
  induction ws generalizing i with
  | nil => exact nofun
  | cons w ws ih =>
    rw [List.length_cons] at h
    refine List.forall_mem_cons.mpr ⟨w.refill_uniform fun hmagic => ?_, ih (by omega)⟩
    have hsize : i < UInt8.size := Nat.lt_of_lt_of_le (by omega : i < 0xA5) (by decide)
    have hnat := congrArg UInt8.toNat hmagic
    rw [UInt8.toNat_ofNat_of_lt' hsize] at hnat
    change i = 0xA5 at hnat
    omega

/-- A FIFO with these messages. -/
def fifosOf (ws : List WireMsg) : BleFifos := queueMsgs BleFifos.init (ws.map WireMsg.msg)

theorem fifosOf_held {ws : List WireMsg} (h : ws.length ≤ bleFifoCapacity) :
    (fifosOf ws).held .tx = ws := by
  have hwire : (ws.map WireMsg.msg).map BleMsg.wire = ws := by
    rw [List.map_map]
    exact List.map_id'' WireMsg.msg_wire ws
  rw [fifosOf, queueMsgs_held, hwire, BleFifos.init_held, RingBuffer.foldl_pushBounded]
  · rfl
  · rwa [List.length_nil, Nat.zero_add]

theorem payloadLens_refill (opcode : UInt8) (byteAtEnd : Nat → UInt8) (ws : List WireMsg) :
    payloadLens (ws.map fun w => w.refill opcode byteAtEnd) = payloadLens ws := by
  rw [payloadLens, payloadLens, List.map_map]
  exact List.map_congr_left fun w _ => w.refill_length opcode byteAtEnd

section Exact
variable {ctx : TxCtx} {oks : Nat → Bool} {ws : List WireMsg} (hmtu : 20 ≤ mtu)
  (hidle : ctx.msgActive = false) (hcount : ws.length ≤ bleFifoCapacity)
  (hclear : HeadersClear mtu 1 (payloadLens ws)) (rx : RxCtx)
include hmtu hidle hcount hclear

/-- A harm that betrays itself with these contents. -/
theorem not_delivers_of_betrays {harm : Harm} {bogus : WireMsg → Prop}
    {kept : Peer → TxCurrent → List WireMsg → Option PartialMsg → Prop}
    (hbetrays : Betrays mtu harm bogus kept) (hkept : kept .idle none ws none)
    (hgood : ∀ w ∈ ws, ¬ bogus w)
    (hharm : listens .idle oks (cutPackets mtu txDrainFuel none (payloadLens ws)) =
      .error harm) :
    DecodesAll ctx (fifosOf ws) mtu rx ∧ ¬ DeliversInOrder ctx (fifosOf ws) mtu oks rx := by
  have hheld := fifosOf_held hcount
  have hclear' : HeadersClear mtu 1 (payloadLens ((fifosOf ws).held .tx)) := by rwa [hheld]
  refine ⟨decodesAll_of_clear hmtu hidle hclear' rx, ?_⟩
  rintro ⟨out, hout, hsub⟩
  rw [decoded_eq hmtu hidle hclear', hheld] at hout
  rw [hheld, ← Option.some.inj hout] at hsub
  have hsend : Sendable mtu none ws := ⟨placed_none, hclear⟩
  obtain ⟨w, hw, hbogus⟩ := hbetrays.heardMsgs (by omega) hsend hkept
    (by rwa [sentPackets_shape])
  exact hgood w (hsub.mem hw) hbogus

theorem exists_misread {harm : Harm}
    (hharm : listens .idle oks (cutPackets mtu txDrainFuel none (payloadLens ws)) =
      .error harm) :
    ∃ ws' : List WireMsg, ws'.length ≤ bleFifoCapacity ∧ payloadLens ws' = payloadLens ws ∧
      DecodesAll ctx (fifosOf ws') mtu rx ∧ ¬ DeliversInOrder ctx (fifosOf ws') mtu oks rx := by
  have hblank : ∀ byteAtEnd, ∀ w ∈ ws.map fun w => w.refill 0 byteAtEnd, Blank byteAtEnd w := by
    intro byteAtEnd w hw
    obtain ⟨v, -, rfl⟩ := List.mem_map.mp hw
    exact v.refill_blank byteAtEnd
  cases harm with
  | payload =>
    have hlens := payloadLens_refill 0 imitation ws
    refine ⟨ws.map fun w => w.refill 0 imitation, by rwa [List.length_map], hlens, ?_⟩
    rw [← hlens] at hclear hharm
    exact not_delivers_of_betrays hmtu hidle (by rwa [List.length_map]) hclear rx
      (betrays_payload hmtu) ⟨rfl, hblank imitation⟩
      (fun w hw hbogus => hbogus (hblank imitation w hw).1) hharm
  | header =>
    have hlens := payloadLens_refill 0 lastMagic ws
    refine ⟨ws.map fun w => w.refill 0 lastMagic, by rwa [List.length_map], hlens, ?_⟩
    rw [← hlens] at hclear hharm
    exact not_delivers_of_betrays hmtu hidle (by rwa [List.length_map]) hclear rx
      (betrays_header hmtu) ⟨rfl, hblank lastMagic⟩
      (fun w hw hbogus => hbogus (hblank lastMagic w hw).1) hharm
  | gap =>
    have hcap : bleFifoCapacity = 19 := rfl
    have hlens := stripes_lens 0 ws
    have hlength : (stripes 0 ws).length = ws.length := by
      have hsame := congrArg List.length hlens
      rwa [payloadLens, payloadLens, List.length_map, List.length_map] at hsame
    have huniform := @stripes_uniform 0 ws (by omega)
    have hgapped : Gapped .idle none (stripes 0 ws) none :=
      ⟨⟨rfl, huniform⟩, stripes_striped (by omega), fun _ hpeer => by cases hpeer⟩
    refine ⟨stripes 0 ws, by rwa [hlength], hlens, ?_⟩
    rw [← hlens] at hclear hharm
    exact not_delivers_of_betrays hmtu hidle (by rwa [hlength]) hclear rx (betrays_gap hmtu) hgapped
      (fun w hw hbogus => hbogus (huniform w hw)) hharm

end Exact

/-- For any MTU, any answers of `bt_gatt_notify` and any message lengths whose packets can
be decoded when none is lost: whatever the messages of these lengths say, the peer has
nothing but messages of the queue, in their order, exactly when the answers are harmless. -/
theorem deliversInOrder_iff_harmless (ctx : TxCtx) (fifos : BleFifos) (rx : RxCtx)
    (oks : Nat → Bool) (hmtu : 20 ≤ mtu) (hidle : ctx.msgActive = false)
    (hclear : HeadersClear mtu 1 (payloadLens (fifos.held .tx))) :
    (∀ fifos' : BleFifos, payloadLens (fifos'.held .tx) = payloadLens (fifos.held .tx) →
        DecodesAll ctx fifos' mtu rx → DeliversInOrder ctx fifos' mtu oks rx) ↔
      Harmless mtu oks (payloadLens (fifos.held .tx)) := by
  constructor
  · intro hall
    cases hlisten : listens .idle oks
        (cutPackets mtu txDrainFuel none (payloadLens (fifos.held .tx))) with
    | ok peer => exact ⟨peer, hlisten⟩
    | error harm =>
      obtain ⟨ws, hws, hlens, hdecodes, hnot⟩ :=
        exists_misread hmtu hidle (fifos.held_length_le .tx) hclear rx hlisten
      rw [← fifosOf_held hws] at hlens
      exact absurd (hall (fifosOf ws) hlens hdecodes) hnot
  · intro hharmless fifos' hlens _
    rw [← hlens] at hclear hharmless
    exact deliversInOrder_of_harmless hmtu hidle hclear rx hharmless

/-- A lost packet that the peer waits for till the end. -/
theorem deliversInOrder_middle_lost :
    let fifos := fifosOf [⟨1, 2, List.replicate 28 7, by decide⟩, ⟨3, 4, [1, 2, 3, 4], by decide⟩]
    let oks := fun i => i != 1
    Harmless 20 oks (payloadLens (fifos.held .tx)) ∧
      ∀ fifos' : BleFifos, payloadLens (fifos'.held .tx) = payloadLens (fifos.held .tx) →
        DecodesAll TxCtx.init fifos' 20 RxCtx.init →
          DeliversInOrder TxCtx.init fifos' 20 oks RxCtx.init := by
  intro fifos oks
  have hheld : payloadLens (fifos.held .tx) = [28, 4] := by
    rw [fifosOf_held (by decide)]
    rfl
  have hharmless : Harmless 20 oks (payloadLens (fifos.held .tx)) := by
    rw [hheld]
    exact ⟨.behind 11, by decide +kernel⟩
  exact ⟨hharmless, (deliversInOrder_iff_harmless TxCtx.init fifos RxCtx.init oks
    (Nat.le_refl 20) rfl (by rw [hheld]; decide)).mpr hharmless⟩

/-- The first packet of a message is lost, and four bytes of its payload are read as a
message. With a packet from the middle lost, a message is completed with the payload of
the next one. -/
theorem lost_packet_misread :
    let payload : WireMsg :=
      ⟨1, 2, List.replicate 15 7 ++ [0xA5, 9, 9, 0], by decide⟩
    let first : WireMsg := ⟨1, 2, List.replicate 20 7, by decide⟩
    let second : WireMsg := ⟨3, 4, List.replicate 30 8, by decide⟩
    let init := RxCtx.init
    (DecodesAll TxCtx.init (fifosOf [payload]) 20 init ∧
        decoded TxCtx.init (fifosOf [payload]) 20 (fun i => i != 0) init =
          some [⟨9, 9, [], by decide⟩] ∧
        ¬ DeliversInOrder TxCtx.init (fifosOf [payload]) 20 (fun i => i != 0) init) ∧
      (DecodesAll TxCtx.init (fifosOf [first, second]) 20 init ∧
        decoded TxCtx.init (fifosOf [first, second]) 20 (fun i => i != 1) init =
          some [⟨1, 2, List.replicate 15 7 ++ List.replicate 5 8, by decide⟩] ∧
        ¬ DeliversInOrder TxCtx.init (fifosOf [first, second]) 20 (fun i => i != 1) init) := by
  intro payload first second init
  have hnot : ∀ {ws oks out}, ws.length ≤ bleFifoCapacity → ¬ out.Sublist ws →
      decoded TxCtx.init (fifosOf ws) 20 oks init = some out →
      ¬ DeliversInOrder TxCtx.init (fifosOf ws) 20 oks init := by
    rintro ws oks out hws hsub hdecoded ⟨out', hout, hsub'⟩
    rw [hdecoded] at hout
    rw [fifosOf_held hws, ← Option.some.inj hout] at hsub'
    exact hsub hsub'
  have hdecodes : ∀ {ws}, ws.length ≤ bleFifoCapacity → HeadersClear 20 1 (payloadLens ws) →
      DecodesAll TxCtx.init (fifosOf ws) 20 init := by
    intro ws hws hclear
    exact decodesAll_of_clear (Nat.le_refl 20) rfl (by rwa [fifosOf_held hws]) init
  have hstart : decoded TxCtx.init (fifosOf [payload]) 20 (fun i => i != 0) init =
      some [⟨9, 9, [], by decide⟩] := by
    decide +kernel
  have hmiddle : decoded TxCtx.init (fifosOf [first, second]) 20 (fun i => i != 1) init =
      some [⟨1, 2, List.replicate 15 7 ++ List.replicate 5 8, by decide⟩] := by
    decide +kernel
  exact ⟨⟨hdecodes (by decide) (by decide), hstart, hnot (by decide) (by decide) hstart⟩,
    hdecodes (by decide) (by decide), hmiddle, hnot (by decide) (by decide) hmiddle⟩

end MinimalWatch.Ble
