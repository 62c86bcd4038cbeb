import MinimalWatch.Ble.PacketTx

/-! Where the sender puts its headers. Positions are indices into the packet being
built, the flag byte being at 0; they depend on the MTU and the payload lengths only.
The sender takes an offset of 0 as "header not sent", so a header that fills a packet
to its last byte, with payload still to come, is sent twice. `HeadersClear` says that
this never happens. -/

namespace MinimalWatch.Ble

/-- A header that does not fit moves to the next packet. -/
def headerStart (effectiveMtu pos : Nat) : Nat := if effectiveMtu < pos + 4 then 1 else pos

/-- The position behind `n` payload bytes that start at `pos`. -/
def payloadEnd (effectiveMtu : Nat) : Nat → Nat → Nat
  | pos, 0 => pos
  | pos, n + 1 => payloadEnd effectiveMtu (if pos < effectiveMtu then pos + 1 else 2) n

/-- No header of a non-empty message ends exactly at the end of a packet, for messages
of these payload lengths sent from `pos` on. -/
def HeadersClear (effectiveMtu : Nat) : Nat → List Nat → Prop
  | _, [] => True
  | pos, n :: lens =>
    ¬ (0 < n ∧ headerStart effectiveMtu pos + 4 = effectiveMtu) ∧
      HeadersClear effectiveMtu
        (payloadEnd effectiveMtu (headerStart effectiveMtu pos + 4) n) lens

instance decidableHeadersClear (effectiveMtu : Nat) :
    ∀ pos lens, Decidable (HeadersClear effectiveMtu pos lens)
  | _, [] => inferInstanceAs (Decidable True)
  | pos, n :: lens =>
    have := decidableHeadersClear effectiveMtu
      (payloadEnd effectiveMtu (headerStart effectiveMtu pos + 4) n) lens
    inferInstanceAs (Decidable (¬ (0 < n ∧ headerStart effectiveMtu pos + 4 = effectiveMtu) ∧
      HeadersClear effectiveMtu
        (payloadEnd effectiveMtu (headerStart effectiveMtu pos + 4) n) lens))

variable {mtu : Nat}

theorem payloadEnd_within {pos n r : Nat} (h : pos + n ≤ mtu) :
    payloadEnd mtu pos (n + r) = payloadEnd mtu (pos + n) r := by
  induction n generalizing pos with
  | zero => rw [Nat.zero_add, Nat.add_zero]
  | succ n ih =>
    rw [Nat.add_right_comm, payloadEnd, if_pos (by omega), ih (by omega)]
    congr 1
    omega

/-- At the end of a packet payload goes on behind the next one's flag byte. -/
theorem payloadEnd_full {n : Nat} (hmtu : 1 < mtu) (hn : 0 < n) :
    payloadEnd mtu mtu n = payloadEnd mtu 1 n := by
  cases n with
  | zero => omega
  | succ n => rw [payloadEnd, payloadEnd, if_neg (by omega), if_pos hmtu]

theorem headersClear_next {pos : Nat} (lens : List Nat) (hpos : mtu < pos + 4) :
    HeadersClear mtu pos lens ↔ HeadersClear mtu 1 lens := by
  have hstart : headerStart mtu pos = headerStart mtu 1 := by
    rw [headerStart, headerStart, if_pos hpos]
    split_ifs <;> rfl
  cases lens with
  | nil => exact Iff.rfl
  | cons n lens => rw [HeadersClear, HeadersClear, hstart]

/-! ### What the sender has still to do -/

def payloadLens (ws : List WireMsg) : List Nat := ws.map fun w => w.payload.length

def unsent (cur : TxCurrent) (queue : List WireMsg) : List WireMsg :=
  (cur.elim [] fun p => [p.1]) ++ queue

/-- `HeadersClear` for what is left to send. -/
def RestClear (effectiveMtu pos : Nat) (cur : TxCurrent) (queue : List WireMsg) : Prop :=
  match cur with
  | none => HeadersClear effectiveMtu pos (payloadLens queue)
  | some (w, 0) => HeadersClear effectiveMtu pos (w.payload.length :: payloadLens queue)
  | some (w, k + 1) =>
    HeadersClear effectiveMtu (payloadEnd effectiveMtu pos (w.payload.length - (k + 1)))
      (payloadLens queue)

/-- The current message has outstanding payload, or its header is outstanding. -/
def Placed (cur : TxCurrent) : Prop :=
  ∀ w k, cur = some (w, k) → k = 0 ∨ k < w.payload.length

theorem placed_none : Placed none := by
  intro w k h
  cases h

theorem placed_some {w : WireMsg} {k : Nat} (h : k = 0 ∨ k < w.payload.length) :
    Placed (some (w, k)) := by
  intro v j hv
  obtain ⟨rfl, rfl⟩ := Prod.mk.inj (Option.some.inj hv)
  exact h

/-- How a packet ends: nothing left, no room for a header, or no room at all. -/
def PacketEnded (effectiveMtu pos : Nat) (cur : TxCurrent) (queue : List WireMsg) : Prop :=
  (cur = none ∧ queue = []) ∨ (∃ w, cur = some (w, 0) ∧ effectiveMtu < pos + 4) ∨
    pos = effectiveMtu

theorem restClear_next {pos : Nat} {cur : TxCurrent} {queue : List WireMsg} (hmtu : 1 < mtu)
    (hplaced : Placed cur) (hend : PacketEnded mtu pos cur queue) :
    RestClear mtu pos cur queue ↔ RestClear mtu 1 cur queue := by
  rcases hend with ⟨rfl, rfl⟩ | ⟨w, rfl, hpos⟩ | rfl
  · exact Iff.rfl
  · exact headersClear_next _ hpos
  · match cur with
    | none => exact headersClear_next _ (by omega)
    | some (w, 0) => exact headersClear_next _ (by omega)
    | some (w, k + 1) =>
      have hk := (hplaced w (k + 1) rfl).resolve_left (by omega)
      rw [RestClear, RestClear, payloadEnd_full hmtu (by omega)]

theorem restClear_header {pos : Nat} {w : WireMsg} (queue : List WireMsg)
    (hroom : pos + 4 ≤ mtu) (hclear : ¬ (0 < w.payload.length ∧ pos + 4 = mtu)) :
    RestClear mtu pos (some (w, 0)) queue ↔
      HeadersClear mtu (payloadEnd mtu (pos + 4) w.payload.length) (payloadLens queue) := by
  have hstart : headerStart mtu pos = pos := by rw [headerStart, if_neg (by omega)]
  rw [RestClear, HeadersClear, hstart]
  exact and_iff_right hclear

theorem restClear_payload (pos : Nat) {w : WireMsg} {k : Nat} (queue : List WireMsg)
    (hk : 0 < k) :
    RestClear mtu pos (some (w, k)) queue ↔
      HeadersClear mtu (payloadEnd mtu pos (w.payload.length - k)) (payloadLens queue) := by
  obtain ⟨j, rfl⟩ := Nat.exists_eq_succ_of_ne_zero (by omega : k ≠ 0)
  exact Iff.rfl

theorem txHeader_length (w : WireMsg) (k : Nat) :
    (txHeader w k).length = if k = 0 then 4 else 0 := by
  rw [txHeader]
  split_ifs <;> rfl

theorem txSent_length (pos : Nat) (w : WireMsg) (k : Nat) :
    (txSent mtu pos w k).length = (txHeader w k).length + txChunk mtu pos w k := by
  have hle : txChunk mtu pos w k ≤ w.payload.length - k := Nat.min_le_left _ _
  rw [txSent, List.length_append, List.length_take, List.length_drop, Nat.min_eq_left hle]

/-- A write that gets past the header keeps the layout. -/
theorem restClear_write {pos : Nat} {w : WireMsg} {k : Nat} (queue : List WireMsg)
    (hpos : pos < mtu) (hplaced : k = 0 ∨ k < w.payload.length)
    (hroom : k = 0 → pos + 4 ≤ mtu)
    (hclear : w.payload.length = 0 ∨ 0 < k + txChunk mtu pos w k) :
    RestClear mtu pos (some (w, k)) queue ↔
      RestClear mtu (pos + (txSent mtu pos w k).length) (txAfter mtu pos w k) queue := by
  have hhdr := txHeader_length w k
  have hchunk : txChunk mtu pos w k =
      min (w.payload.length - k) (mtu - (pos + (txHeader w k).length)) := rfl
  have hfrom : RestClear mtu pos (some (w, k)) queue ↔ HeadersClear mtu
      (payloadEnd mtu (pos + (txHeader w k).length) (w.payload.length - k))
      (payloadLens queue) := by
    rcases Nat.eq_zero_or_pos k with rfl | hk
    · rw [if_pos rfl] at hhdr
      rw [hhdr]
      exact restClear_header queue (hroom rfl) (by omega)
    · rw [if_neg (by omega)] at hhdr
      rw [hhdr]
      exact restClear_payload pos queue hk
  have hrest : w.payload.length - k =
      txChunk mtu pos w k + (w.payload.length - (k + txChunk mtu pos w k)) := by omega
  have hfit : pos + (txHeader w k).length + txChunk mtu pos w k ≤ mtu := by
    split_ifs at hhdr <;> omega
  rw [hfrom, hrest, payloadEnd_within hfit, txSent_length, ← Nat.add_assoc, txAfter]
  by_cases hdone : w.payload.length ≤ k + txChunk mtu pos w k
  · rw [if_pos hdone, Nat.sub_eq_zero_of_le hdone]
    exact Iff.rfl
  · rw [if_neg hdone]
    exact (restClear_payload _ queue (by omega)).symm

/-- A header that ends the packet with payload outstanding breaks the layout. -/
theorem not_restClear_flush {pos : Nat} {w : WireMsg} {queue : List WireMsg}
    (hroom : pos + 4 ≤ mtu) (hn : 0 < w.payload.length) (hchunk : txChunk mtu pos w 0 = 0) :
    pos + 4 = mtu ∧ ¬ RestClear mtu pos (some (w, 0)) queue := by
  have hfull : pos + 4 = mtu := by
    rw [txChunk, txHeader_length] at hchunk
    simp only [↓reduceIte] at hchunk
    omega
  refine ⟨hfull, fun h => h.1 ⟨hn, ?_⟩⟩
  rw [headerStart, if_neg (by omega)]
  exact hfull

end MinimalWatch.Ble
