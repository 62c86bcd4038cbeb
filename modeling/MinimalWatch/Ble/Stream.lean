import MinimalWatch.Ble.Types

/-! The byte stream of one packet body as the link format defines it, apart from the
firmware's parser: what a receiver holds between bytes (`PartialMsg`, or nothing), and
`parse`, which reads a body to its end. A body may break off inside a payload but
a header counts only when its four bytes are in one body. `Feeds` is `parse` in a
form that composes: reading `bytes` leads from one receiver state to another and
completes the given messages, whatever follows. -/

namespace MinimalWatch.Ble

/-- A message whose header and first payload bytes have arrived. At least one payload
byte is outstanding: `missing` counts those after the next one. -/
@[ext] structure PartialMsg where
  opcode : UInt8
  reqApp : UInt8
  got : List UInt8
  missing : Nat
  bound : got.length + missing < 255

namespace PartialMsg

def extend (p : PartialMsg) (bytes : List UInt8) (h : bytes.length ≤ p.missing) : PartialMsg :=
  ⟨p.opcode, p.reqApp, p.got ++ bytes, p.missing - bytes.length, by
    have hb := p.bound
    rw [List.length_append]
    omega⟩

def finish (p : PartialMsg) (bytes : List UInt8) (h : bytes.length = p.missing + 1) : WireMsg :=
  ⟨p.opcode, p.reqApp, p.got ++ bytes, by
    have hb := p.bound
    rw [List.length_append]
    omega⟩

/-- One more payload byte. -/
def push (p : PartialMsg) (b : UInt8) : WireMsg ⊕ PartialMsg :=
  if h : p.missing = 0 then .inl (p.finish [b] (by simp [h]))
  else .inr (p.extend [b] (by simp only [List.length_singleton]; omega))

end PartialMsg

/-- A complete header: a message without payload, or one that waits for it. -/
def openMsg (opcode reqApp len : UInt8) : WireMsg ⊕ PartialMsg :=
  if h : len.toNat = 0 then .inl ⟨opcode, reqApp, [], by decide⟩
  else .inr ⟨opcode, reqApp, [], len.toNat - 1, by
    have hl := len.toNat_lt
    simp only [List.length_nil]
    omega⟩

theorem openMsg_waits (opcode reqApp : UInt8) {len : UInt8} (h : len.toNat ≠ 0) :
    ∃ p, openMsg opcode reqApp len = .inr p ∧ p.opcode = opcode ∧ p.reqApp = reqApp ∧
      p.got = [] ∧ p.missing + 1 = len.toNat := by
  rw [openMsg, dif_neg h]
  exact ⟨_, rfl, rfl, rfl, rfl, by simp only; omega⟩

def parse : Option PartialMsg → List UInt8 → Option PartialMsg × List WireMsg
  | none, b :: opcode :: reqApp :: len :: rest =>
    if b = bleMagic then
      match openMsg opcode reqApp len with
      | .inl w => ((parse none rest).1, w :: (parse none rest).2)
      | .inr p => parse (some p) rest
    else parse none (opcode :: reqApp :: len :: rest)
  | some p, b :: rest =>
    match p.push b with
    | .inl w => ((parse none rest).1, w :: (parse none rest).2)
    | .inr p' => parse (some p') rest
  | state, _ => (state, [])

@[simp] theorem parse_nil (state : Option PartialMsg) : parse state [] = (state, []) := by
  cases state <;> rfl

theorem parse_short {bytes : List UInt8} (h : bytes.length < 4) :
    parse none bytes = (none, []) := by
  match bytes with
  | [] => rfl
  | [_] => rfl
  | [_, _] => rfl
  | [_, _, _] => rfl
  | _ :: _ :: _ :: _ :: _ =>
    simp only [List.length_cons] at h
    omega

/-- Bytes before a header are skipped one at a time. -/
theorem parse_skip {b : UInt8} (rest : List UInt8) (h : b ≠ bleMagic) :
    parse none (b :: rest) = parse none rest := by
  match rest with
  | [] => rfl
  | [_] => rfl
  | [_, _] => rfl
  | _ :: _ :: _ :: _ => simp [parse, h]

theorem parse_header (opcode reqApp len : UInt8) (rest : List UInt8) :
    parse none (bleMagic :: opcode :: reqApp :: len :: rest) =
      match openMsg opcode reqApp len with
      | .inl w => ((parse none rest).1, w :: (parse none rest).2)
      | .inr p => parse (some p) rest := by
  simp [parse]

/-- Reading `bytes` from state `before` completes `out` and leads to `after`. -/
def Feeds (before : Option PartialMsg) (bytes : List UInt8) (after : Option PartialMsg)
    (out : List WireMsg) : Prop :=
  ∀ rest, parse before (bytes ++ rest) = ((parse after rest).1, out ++ (parse after rest).2)

namespace Feeds

theorem parse_eq {before after : Option PartialMsg} {bytes : List UInt8} {out : List WireMsg}
    (h : Feeds before bytes after out) : parse before bytes = (after, out) := by
  have hnil := h []
  simpa using hnil

theorem refl (state : Option PartialMsg) : Feeds state [] state [] := fun _ => rfl

theorem trans {a b c : Option PartialMsg} {xs ys : List UInt8} {os ps : List WireMsg}
    (first : Feeds a xs b os) (second : Feeds b ys c ps) : Feeds a (xs ++ ys) c (os ++ ps) := by
  intro rest
  rw [List.append_assoc, first, second]
  simp

end Feeds

/-- Payload bytes that leave at least one outstanding. -/
theorem feeds_extend (p : PartialMsg) (bytes : List UInt8) (h : bytes.length ≤ p.missing) :
    Feeds (some p) bytes (some (p.extend bytes h)) [] := by
  induction bytes generalizing p with
  | nil =>
    have hp : p.extend [] h = p := by
      ext1 <;> simp [PartialMsg.extend]
    rw [hp]
    exact .refl _
  | cons b bytes ih =>
    intro rest
    have hne : p.missing ≠ 0 := by
      simp only [List.length_cons] at h
      omega
    have hone : [b].length ≤ p.missing := by simp only [List.length_singleton]; omega
    have hrest : bytes.length ≤ (p.extend [b] hone).missing := by
      simp only [List.length_cons] at h
      simp only [PartialMsg.extend, List.length_singleton]
      omega
    have hext : (p.extend [b] hone).extend bytes hrest = p.extend (b :: bytes) h := by
      ext1
      · rfl
      · rfl
      · simp [PartialMsg.extend]
      · simp only [PartialMsg.extend, List.length_cons, List.length_nil]
        omega
    have hstep : parse (some p) (b :: (bytes ++ rest)) =
        parse (some (p.extend [b] hone)) (bytes ++ rest) := by
      simp [parse, PartialMsg.push, hne]
    rw [List.cons_append, hstep, ih _ hrest rest, hext]

/-- The payload bytes that were outstanding complete the message. -/
theorem feeds_finish (p : PartialMsg) (bytes : List UInt8) (h : bytes.length = p.missing + 1) :
    Feeds (some p) bytes none [p.finish bytes h] := by
  have hne : bytes ≠ [] := List.ne_nil_of_length_eq_add_one h
  have hinit : bytes.dropLast.length ≤ p.missing := by
    rw [List.length_dropLast]
    omega
  have hlast : Feeds (some (p.extend bytes.dropLast hinit)) [bytes.getLast hne] none
      [p.finish bytes h] := by
    intro rest
    have hmiss : (p.extend bytes.dropLast hinit).missing = 0 := by
      simp only [PartialMsg.extend, List.length_dropLast]
      omega
    have hmsg : (p.extend bytes.dropLast hinit).finish [bytes.getLast hne] (by simp [hmiss]) =
        p.finish bytes h := by
      ext1
      · rfl
      · rfl
      · simp [PartialMsg.extend, PartialMsg.finish, List.dropLast_append_getLast hne]
    simp only [List.singleton_append, parse, PartialMsg.push, hmiss, ↓reduceDIte, hmsg]
  have hall := (feeds_extend p bytes.dropLast hinit).trans hlast
  rwa [List.dropLast_append_getLast hne, List.nil_append] at hall

/-- What a receiver holds after the header of `w` and `sent` of its payload bytes. -/
def WireMsg.received (w : WireMsg) (sent : Nat) (h : sent < w.payload.length) : PartialMsg :=
  ⟨w.opcode, w.reqApp, w.payload.take sent, w.payload.length - sent - 1, by
    have hw := w.payload_lt
    rw [List.length_take]
    omega⟩

theorem openMsg_empty (w : WireMsg) (h : w.payload = []) :
    openMsg w.opcode w.reqApp w.len = .inl w := by
  have hlen : w.len.toNat = 0 := by simp [h]
  rw [openMsg, dif_pos hlen]
  congr 1
  ext1
  · rfl
  · rfl
  · exact h.symm

theorem openMsg_pos (w : WireMsg) (h : 0 < w.payload.length) :
    openMsg w.opcode w.reqApp w.len = .inr (w.received 0 h) := by
  have hlen : w.len.toNat ≠ 0 := by
    rw [WireMsg.len_toNat]
    omega
  rw [openMsg, dif_neg hlen]
  congr 1
  ext1 <;> simp [WireMsg.received]

theorem feeds_header_empty (w : WireMsg) (h : w.payload = []) :
    Feeds none w.hdr.bytes none [w] := by
  intro rest
  simp only [WireMsg.hdr, BleMsgHdr.bytes, List.cons_append, List.nil_append, parse_header,
    openMsg_empty w h]

theorem feeds_header (w : WireMsg) (h : 0 < w.payload.length) :
    Feeds none w.hdr.bytes (some (w.received 0 h)) [] := by
  intro rest
  simp only [WireMsg.hdr, BleMsgHdr.bytes, List.cons_append, List.nil_append, parse_header,
    openMsg_pos w h]

theorem feeds_payload_part (w : WireMsg) {sent n : Nat} (h : sent + n < w.payload.length) :
    Feeds (some (w.received sent (by omega))) ((w.payload.drop sent).take n)
      (some (w.received (sent + n) h)) [] := by
  have hlen : ((w.payload.drop sent).take n).length = n := by
    rw [List.length_take, List.length_drop]
    omega
  have hle : ((w.payload.drop sent).take n).length ≤
      (w.received sent (by omega)).missing := by
    simp only [hlen, WireMsg.received]
    omega
  have hext : (w.received sent (by omega)).extend ((w.payload.drop sent).take n) hle =
      w.received (sent + n) h := by
    ext1
    · rfl
    · rfl
    · simp [PartialMsg.extend, WireMsg.received, List.take_add]
    · simp only [PartialMsg.extend, WireMsg.received, hlen]
      omega
  rw [← hext]
  exact feeds_extend _ _ hle

theorem feeds_payload_rest (w : WireMsg) {sent : Nat} (h : sent < w.payload.length) :
    Feeds (some (w.received sent h)) (w.payload.drop sent) none [w] := by
  have hlen : (w.payload.drop sent).length = (w.received sent h).missing + 1 := by
    simp only [List.length_drop, WireMsg.received]
    omega
  have hmsg : (w.received sent h).finish (w.payload.drop sent) hlen = w := by
    ext1
    · rfl
    · rfl
    · simp [PartialMsg.finish, WireMsg.received]
  have hfeed := feeds_finish _ _ hlen
  rwa [hmsg] at hfeed

/-- A whole message, read between messages. -/
theorem feeds_encode (w : WireMsg) : Feeds none w.encode none [w] := by
  by_cases h : w.payload = []
  · rw [WireMsg.encode, h, List.append_nil]
    exact feeds_header_empty w h
  · have hpos : 0 < w.payload.length := List.length_pos_iff.mpr h
    exact (feeds_header w hpos).trans (feeds_payload_rest w hpos)

/-! ### Packets -/

structure BlePacket where
  msgCont : UInt8
  body : List UInt8
  deriving DecidableEq, Repr

def BlePacket.bytes (p : BlePacket) : List UInt8 := p.msgCont :: p.body

/-- A packet as the receiver sees it: no flag byte, no effect; a zero flag drops what
was in progress. -/
def parsePacket (state : Option PartialMsg) : List UInt8 → Option PartialMsg × List WireMsg
  | [] => (state, [])
  | msgCont :: body => parse (if msgCont = 0 then none else state) body

end MinimalWatch.Ble
