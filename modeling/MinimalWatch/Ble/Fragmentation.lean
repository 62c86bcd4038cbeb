import MinimalWatch.Ble.PacketRx

/-! Cutting a stream of messages into packets. `LegalFragmentation` is the format's
rule about the cuts and the continuation flags, stated by positions in the stream
and without any receiver. Its packets lead a receiver, from whatever it held, through
exactly those messages. -/

namespace MinimalWatch.Ble

/-- What a position in a stream of messages falls on. -/
inductive Place
  | boundary
  | insideHeader
  | insidePayload
  deriving DecidableEq, Repr

def placeOf : List WireMsg → Nat → Place
  | [], _ => .boundary
  | w :: ws, c =>
    if c = 0 then .boundary
    else if c < 4 then .insideHeader
    else if c < 4 + w.payload.length then .insidePayload
    else placeOf ws (c - (4 + w.payload.length))

/-- The flag a packet may carry when it starts at a place of that kind. -/
def Place.Allows (first : Bool) (msgCont : UInt8) : Place → Prop
  | .boundary => msgCont = 0 ∨ first = false ∧ msgCont = 1
  | .insideHeader => False
  | .insidePayload => msgCont = 1

instance (first : Bool) (msgCont : UInt8) (place : Place) :
    Decidable (place.Allows first msgCont) :=
  match place with
  | .boundary => inferInstanceAs (Decidable (msgCont = 0 ∨ first = false ∧ msgCont = 1))
  | .insideHeader => inferInstanceAs (Decidable False)
  | .insidePayload => inferInstanceAs (Decidable (msgCont = 1))

structure LegalFragmentation (ws : List WireMsg) (packets : List BlePacket) : Prop where
  whole : packets.flatMap BlePacket.body = encodeAll ws
  nonempty : ∀ p ∈ packets, p.body ≠ []
  cuts : ∀ before p after, packets = before ++ p :: after →
    (placeOf ws (before.flatMap BlePacket.body).length).Allows before.isEmpty p.msgCont

/-! ### Positions inside a stream that has been read in part -/

/-- A message whose header and `sent` payload bytes have gone by. -/
structure InFlight where
  msg : WireMsg
  sent : Nat
  sent_lt : sent < msg.payload.length

def InFlight.held (f : InFlight) : PartialMsg := f.msg.received f.sent f.sent_lt

def InFlight.rest (f : InFlight) : List UInt8 := f.msg.payload.drop f.sent

theorem InFlight.rest_length (f : InFlight) :
    f.rest.length = f.msg.payload.length - f.sent := List.length_drop

theorem InFlight.rest_pos (f : InFlight) : 0 < f.rest.length := by
  have h := f.sent_lt
  rw [f.rest_length]
  omega

def remaining (f : Option InFlight) (ws : List WireMsg) : List UInt8 :=
  (f.elim [] InFlight.rest) ++ encodeAll ws

def pending (f : Option InFlight) (ws : List WireMsg) : List WireMsg :=
  (f.elim [] fun g => [g.msg]) ++ ws

def placeFrom (f : Option InFlight) (ws : List WireMsg) (c : Nat) : Place :=
  match f with
  | none => placeOf ws c
  | some g => if c < g.rest.length then .insidePayload else placeOf ws (c - g.rest.length)

@[simp] theorem placeOf_zero (ws : List WireMsg) : placeOf ws 0 = .boundary := by
  cases ws <;> simp [placeOf]

@[simp] theorem placeFrom_some_zero (g : InFlight) (ws : List WireMsg) :
    placeFrom (some g) ws 0 = .insidePayload := by
  rw [placeFrom, if_pos g.rest_pos]

/-- `body` leads from one point of the stream to another: what it completes, what it
leaves, and where positions after it fall. -/
structure Passes (f : Option InFlight) (ws : List WireMsg) (body rest : List UInt8)
    (f' : Option InFlight) (ws' out : List WireMsg) : Prop where
  feeds : Feeds (f.map InFlight.held) body (f'.map InFlight.held) out
  left : rest = remaining f' ws'
  order : pending f ws = out ++ pending f' ws'
  place : ∀ c, placeFrom f ws (body.length + c) = placeFrom f' ws' c

/-- Any prefix of the stream that does not break a header leads to a point in it. -/
def Passable (f : Option InFlight) (ws : List WireMsg) : Prop :=
  ∀ body rest, body ++ rest = remaining f ws → placeFrom f ws body.length ≠ .insideHeader →
    ∃ f' ws' out, Passes f ws body rest f' ws' out

theorem passes_nil (f : Option InFlight) (ws : List WireMsg) :
    Passes f ws [] (remaining f ws) f ws [] :=
  ⟨.refl _, rfl, rfl, fun c => by simp⟩

theorem passable_none_nil : Passable none [] := by
  intro body rest hsplit _
  obtain ⟨rfl, rfl⟩ := List.append_eq_nil_iff.mp hsplit
  exact ⟨none, [], [], passes_nil none []⟩

/-- A piece that ends inside the payload in flight. -/
theorem passes_inside (g : InFlight) {ws : List WireMsg} {body rest : List UInt8}
    (hsplit : body ++ rest = g.rest ++ encodeAll ws) (hshort : body.length < g.rest.length) :
    ∃ f' ws' out, Passes (some g) ws body rest f' ws' out := by
  have hlen := g.rest_length
  have hmid : g.sent + body.length < g.msg.payload.length := by omega
  have hbody : body = (g.msg.payload.drop g.sent).take body.length := by
    have htake := congrArg (List.take body.length) hsplit
    rwa [List.take_left, List.take_append_of_le_length (by omega)] at htake
  have hrest : rest = (g.msg.payload.drop g.sent).drop body.length ++ encodeAll ws := by
    have hdrop := congrArg (List.drop body.length) hsplit
    rwa [List.drop_left, List.drop_append_of_le_length (by omega)] at hdrop
  refine ⟨some ⟨g.msg, g.sent + body.length, hmid⟩, ws, [], ⟨?_, ?_, rfl, fun c => ?_⟩⟩
  · have hfeed := feeds_payload_part g.msg hmid
    rw [← hbody] at hfeed
    exact hfeed
  · rw [hrest, List.drop_drop]
    rfl
  · have hlen' := (InFlight.mk g.msg (g.sent + body.length) hmid).rest_length
    simp only at hlen'
    simp only [placeFrom]
    by_cases hc : body.length + c < g.rest.length
    · rw [if_pos hc, if_pos (by omega)]
    · rw [if_neg hc, if_neg (by omega)]
      congr 1
      omega

theorem passable_some {ws : List WireMsg} (h : Passable none ws) (g : InFlight) :
    Passable (some g) ws := by
  intro body rest hsplit hplace
  change body ++ rest = g.rest ++ encodeAll ws at hsplit
  by_cases hshort : body.length < g.rest.length
  · exact passes_inside g hsplit hshort
  · have hbody : body = g.rest ++ body.drop g.rest.length := by
      have htake := congrArg (List.take g.rest.length) hsplit
      rw [List.take_left, List.take_append_of_le_length (by omega)] at htake
      calc body = body.take g.rest.length ++ body.drop g.rest.length :=
            (List.take_append_drop ..).symm
        _ = g.rest ++ body.drop g.rest.length := by rw [htake]
    have hsplit' : body.drop g.rest.length ++ rest = remaining none ws := by
      rw [hbody, List.append_assoc] at hsplit
      exact List.append_cancel_left hsplit
    have hplace' : placeFrom none ws (body.drop g.rest.length).length ≠ .insideHeader := by
      rw [placeFrom, if_neg hshort] at hplace
      rwa [List.length_drop]
    obtain ⟨f', ws', out, hpass⟩ := h _ rest hsplit' hplace'
    refine ⟨f', ws', g.msg :: out, ⟨?_, hpass.left, ?_, fun c => ?_⟩⟩
    · have hfeed := (feeds_payload_rest g.msg g.sent_lt).trans hpass.feeds
      rw [hbody]
      exact hfeed
    · have horder := hpass.order
      simp only [pending, Option.elim_none, List.nil_append] at horder
      simp only [pending, Option.elim_some, List.cons_append, List.nil_append, horder]
    · rw [← hpass.place c]
      simp only [placeFrom, List.length_drop]
      rw [if_neg (by omega)]
      congr 1
      omega

theorem placeFrom_none_cons (w : WireMsg) (ws : List WireMsg) {n : Nat} (h : 4 ≤ n) :
    placeFrom none (w :: ws) n =
      if n < 4 + w.payload.length then .insidePayload
      else placeOf ws (n - (4 + w.payload.length)) := by
  rw [placeFrom, placeOf, if_neg (by omega), if_neg (by omega)]

/-- A non-empty piece of the stream that does not break the header has all of it. -/
theorem header_of_split {w : WireMsg} {ws : List WireMsg} {body rest : List UInt8}
    (hsplit : body ++ rest = w.encode ++ encodeAll ws) (hnil : body ≠ [])
    (hplace : placeFrom none (w :: ws) body.length ≠ .insideHeader) :
    4 ≤ body.length ∧ body = w.hdr.bytes ++ body.drop 4 ∧
      body.drop 4 ++ rest = w.payload ++ encodeAll ws := by
  have hpos : 0 < body.length := List.length_pos_iff.mpr hnil
  have hfour : 4 ≤ body.length := by
    by_contra hlt
    exact hplace (by rw [placeFrom, placeOf, if_neg (by omega), if_pos (by omega)])
  have hbody : body = w.hdr.bytes ++ body.drop 4 := by
    have htake := congrArg (List.take 4) hsplit
    rw [List.take_append_of_le_length hfour, WireMsg.encode, List.append_assoc,
      List.take_left' w.hdr.bytes_length] at htake
    calc body = body.take 4 ++ body.drop 4 := (List.take_append_drop ..).symm
      _ = w.hdr.bytes ++ body.drop 4 := by rw [htake]
  refine ⟨hfour, hbody, ?_⟩
  rw [hbody, WireMsg.encode, List.append_assoc, List.append_assoc] at hsplit
  exact List.append_cancel_left hsplit

/-- The header of an empty message completes it. -/
theorem passable_none_empty {ws : List WireMsg} (h : Passable none ws) (w : WireMsg)
    (hpay : w.payload = []) {body rest : List UInt8} (hnil : body ≠ [])
    (hsplit : body ++ rest = w.encode ++ encodeAll ws)
    (hplace : placeFrom none (w :: ws) body.length ≠ .insideHeader) :
    ∃ f' ws' out, Passes none (w :: ws) body rest f' ws' out := by
  obtain ⟨hfour, hbody, hsplit'⟩ := header_of_split hsplit hnil hplace
  have hzero : w.payload.length = 0 := by rw [hpay]; rfl
  rw [hpay, List.nil_append] at hsplit'
  have hplace' : placeFrom none ws (body.drop 4).length ≠ .insideHeader := by
    rw [placeFrom_none_cons w ws hfour, if_neg (by omega), hzero] at hplace
    rwa [List.length_drop]
  obtain ⟨f', ws', out, hpass⟩ := h _ rest hsplit' hplace'
  refine ⟨f', ws', w :: out, ⟨?_, hpass.left, ?_, fun c => ?_⟩⟩
  · rw [hbody]
    exact (feeds_header_empty w hpay).trans hpass.feeds
  · have horder := hpass.order
    simp only [pending, Option.elim_none, List.nil_append] at horder
    simp only [pending, Option.elim_none, List.nil_append, List.cons_append, horder]
  · rw [placeFrom_none_cons w ws (by omega), if_neg (by omega), ← hpass.place c,
      List.length_drop]
    simp only [placeFrom]
    congr 1
    omega

/-- The header of another message puts it in flight. -/
theorem passable_none_payload {ws : List WireMsg} (h : ∀ g, Passable (some g) ws)
    (w : WireMsg) (hlen : 0 < w.payload.length) {body rest : List UInt8} (hnil : body ≠ [])
    (hsplit : body ++ rest = w.encode ++ encodeAll ws)
    (hplace : placeFrom none (w :: ws) body.length ≠ .insideHeader) :
    ∃ f' ws' out, Passes none (w :: ws) body rest f' ws' out := by
  obtain ⟨hfour, hbody, hsplit'⟩ := header_of_split hsplit hnil hplace
  let g : InFlight := ⟨w, 0, hlen⟩
  have hrest : g.rest.length = w.payload.length := by rw [g.rest_length]; rfl
  have hafter : ∀ c, placeFrom none (w :: ws) (body.length + c) =
      placeFrom (some g) ws ((body.drop 4).length + c) := by
    intro c
    rw [placeFrom_none_cons w ws (by omega), placeFrom, hrest, List.length_drop]
    by_cases hin : body.length + c < 4 + w.payload.length
    · rw [if_pos hin, if_pos (by omega)]
    · rw [if_neg hin, if_neg (by omega)]
      congr 1
      omega
  have hplace' : placeFrom (some g) ws (body.drop 4).length ≠ .insideHeader := by
    have hthis := hafter 0
    rw [Nat.add_zero, Nat.add_zero] at hthis
    rwa [← hthis]
  obtain ⟨f', ws', out, hpass⟩ := h g _ rest hsplit' hplace'
  refine ⟨f', ws', out, ⟨?_, hpass.left, hpass.order, fun c => ?_⟩⟩
  · rw [hbody]
    exact (feeds_header w hlen).trans hpass.feeds
  · rw [hafter, hpass.place c]

theorem passable_none_cons {ws : List WireMsg} (h : ∀ f, Passable f ws) (w : WireMsg) :
    Passable none (w :: ws) := by
  intro body rest hsplit hplace
  by_cases hnil : body = []
  · subst hnil
    exact ⟨none, w :: ws, [], by rw [show rest = remaining none (w :: ws) from hsplit]
                                 exact passes_nil none (w :: ws)⟩
  · by_cases hpay : w.payload = []
    · exact passable_none_empty (h none) w hpay hnil hsplit hplace
    · exact passable_none_payload (fun g => h (some g)) w (List.length_pos_iff.mpr hpay) hnil
        hsplit hplace

theorem passable (f : Option InFlight) (ws : List WireMsg) : Passable f ws := by
  induction ws generalizing f with
  | nil =>
    cases f with
    | none => exact passable_none_nil
    | some g => exact passable_some passable_none_nil g
  | cons w ws ih =>
    have hnone := passable_none_cons ih w
    cases f with
    | none => exact hnone
    | some g => exact passable_some hnone g

/-! ### Whole runs -/

theorem placeFrom_end (f : Option InFlight) (ws : List WireMsg) :
    placeFrom f ws (remaining f ws).length = .boundary := by
  have hnone : ∀ ws, placeOf ws (encodeAll ws).length = .boundary := by
    intro ws
    induction ws with
    | nil => rfl
    | cons w ws ih =>
      rw [encodeAll_cons, List.length_append, w.encode_length, placeOf, if_neg (by omega),
        if_neg (by omega), if_neg (by omega), Nat.add_sub_cancel_left]
      exact ih
  cases f with
  | none => exact hnone ws
  | some g =>
    have hlen : (remaining (some g) ws).length = g.rest.length + (encodeAll ws).length :=
      List.length_append
    rw [hlen, placeFrom, if_neg (by omega), Nat.add_sub_cancel_left]
    exact hnone ws

theorem pending_of_remaining_nil {f : Option InFlight} {ws : List WireMsg}
    (h : remaining f ws = []) : f = none ∧ pending f ws = [] := by
  obtain ⟨hf, hws⟩ := List.append_eq_nil_iff.mp h
  have hnone : f = none := by
    cases f with
    | none => rfl
    | some g => exact absurd (congrArg List.length hf) (Nat.ne_of_gt g.rest_pos)
  subst hnone
  refine ⟨rfl, ?_⟩
  cases ws with
  | nil => rfl
  | cons w ws => simp [WireMsg.encode, BleMsgHdr.bytes] at hws

/-- The rest of a legal fragmentation, from a point of the stream on. -/
structure LegalFrom (f : Option InFlight) (ws : List WireMsg) (first : Bool)
    (packets : List BlePacket) : Prop where
  whole : packets.flatMap BlePacket.body = remaining f ws
  cuts : ∀ before p after, packets = before ++ p :: after →
    (placeFrom f ws (before.flatMap BlePacket.body).length).Allows (first && before.isEmpty)
      p.msgCont

theorem LegalFragmentation.start {ws : List WireMsg} {packets : List BlePacket}
    (h : LegalFragmentation ws packets) : LegalFrom none ws true packets :=
  ⟨h.whole, fun before p after hsplit => h.cuts before p after hsplit⟩

/-- Whatever the flag of a packet that starts where it may, the receiver reads on. -/
theorem LegalFrom.parsePacket_eq {f : Option InFlight} {ws : List WireMsg} {first : Bool}
    {p : BlePacket} {packets : List BlePacket} (h : LegalFrom f ws first (p :: packets)) :
    parsePacket (f.map InFlight.held) p.bytes = parse (f.map InFlight.held) p.body := by
  have hcut := h.cuts [] p packets rfl
  cases f with
  | none => simp [parsePacket, BlePacket.bytes]
  | some g =>
    have hflag : p.msgCont = 1 := by simpa [Place.Allows] using hcut
    simp [parsePacket, BlePacket.bytes, hflag]

theorem LegalFrom.place_ne {f : Option InFlight} {ws : List WireMsg} {first : Bool}
    {p : BlePacket} {packets : List BlePacket} (h : LegalFrom f ws first (p :: packets)) :
    placeFrom f ws p.body.length ≠ .insideHeader := by
  intro hplace
  cases packets with
  | nil =>
    have hwhole := h.whole
    rw [List.flatMap_cons, List.flatMap_nil, List.append_nil] at hwhole
    rw [hwhole, placeFrom_end] at hplace
    cases hplace
  | cons q packets =>
    have hcut := h.cuts [p] q packets rfl
    rw [List.flatMap_cons, List.flatMap_nil, List.append_nil, hplace] at hcut
    exact hcut

theorem LegalFrom.tail {f f' : Option InFlight} {ws ws' out : List WireMsg} {first : Bool}
    {p : BlePacket} {packets : List BlePacket} (h : LegalFrom f ws first (p :: packets))
    (hpass : Passes f ws p.body (packets.flatMap BlePacket.body) f' ws' out) :
    LegalFrom f' ws' false packets := by
  refine ⟨hpass.left, fun before q after hsplit => ?_⟩
  have hcut := h.cuts (p :: before) q after (by rw [hsplit]; rfl)
  rw [List.flatMap_cons, List.length_append, hpass.place] at hcut
  simpa using hcut

theorem LegalFrom.parseRun_eq {f : Option InFlight} {ws : List WireMsg} {first : Bool}
    {packets : List BlePacket} (h : LegalFrom f ws first packets) :
    parseRun (f.map InFlight.held) (packets.map fun p => .packet p.bytes) =
      (none, pending f ws) := by
  induction packets generalizing f ws first with
  | nil =>
    obtain ⟨rfl, hpending⟩ := pending_of_remaining_nil h.whole.symm
    rw [hpending]
    rfl
  | cons p packets ih =>
    obtain ⟨f', ws', out, hpass⟩ := passable f ws p.body _
      (by rw [← h.whole, List.flatMap_cons]) h.place_ne
    have hfirst : parseEvent (f.map InFlight.held) (.packet p.bytes) =
        (f'.map InFlight.held, out) := by
      rw [← hpass.feeds.parse_eq, ← h.parsePacket_eq]
      rfl
    rw [List.map_cons, parseRun_cons, hfirst, ih (h.tail hpass), hpass.order]

/-- After any packets and resets, every legal fragmentation of a list of messages is
received as exactly these messages, and leaves the receiver idle. -/
theorem legalFragmentation_received (past : List RxEvent) {ws : List WireMsg}
    {packets : List BlePacket} (hws : ws ≠ []) (h : LegalFragmentation ws packets) :
    let received := rxRun (rxRun RxCtx.init past).1 (packets.map fun p => .packet p.bytes)
    received.2.map BleMsg.wire = ws ∧ received.1.state = .rxWaitMagic ∧
      received.1.msgActive = false := by
  intro received
  have hpast := rxRun_represents past
  have hne : packets ≠ [] := by
    rintro rfl
    exact hws (pending_of_remaining_nil h.start.whole.symm).2
  obtain ⟨p, rest, rfl⟩ := List.exists_cons_of_ne_nil hne
  -- the first packet starts a new stream, so what the receiver held is dropped
  have hzero : p.msgCont = 0 := by
    have hcut := h.cuts [] p rest rfl
    simpa [Place.Allows] using hcut
  have hforget : parseRun (parseRun none past).1 ((p :: rest).map fun p => .packet p.bytes) =
      parseRun none ((p :: rest).map fun p => .packet p.bytes) := by
    rw [List.map_cons, parseRun_cons, parseRun_cons]
    simp [parseEvent, parsePacket, BlePacket.bytes, hzero]
  have hrun := h.start.parseRun_eq
  obtain ⟨hrep, hout⟩ := rxRun_refines ((p :: rest).map fun p => .packet p.bytes) hpast
  simp only [Option.map_none] at hrun
  rw [hforget, hrun] at hrep hout
  exact ⟨hout, hrep⟩

/-- A message and an empty one, cut right after the first header and inside its payload,
received by a context that a broken packet left inside a message. -/
theorem legalFragmentation_received_cut :
    let past : List RxEvent := [.packet [0, 0xA5, 9, 9, 7, 1]]
    let ws : List WireMsg := [⟨2, 1, [0xA5, 6, 7], by decide⟩, ⟨3, 1, [], by decide⟩]
    let packets : List BlePacket :=
      [⟨0, [0xA5, 2, 1, 3]⟩, ⟨1, [0xA5]⟩, ⟨1, [6, 7, 0xA5, 3, 1, 0]⟩]
    let received := rxRun (rxRun RxCtx.init past).1 (packets.map fun p => .packet p.bytes)
    received.2.map BleMsg.wire = ws ∧ received.1.state = .rxWaitMagic ∧
      received.1.msgActive = false := by
  refine legalFragmentation_received _ (by decide) ⟨by decide, by decide, ?_⟩
  rintro (_ | ⟨a, _ | ⟨b, _ | ⟨c, before⟩⟩⟩) p after hsplit
  all_goals simp at hsplit
  all_goals obtain ⟨rfl, hsplit⟩ := hsplit
  · decide
  · obtain ⟨rfl, -⟩ := hsplit
    decide
  · obtain ⟨rfl, rfl, -⟩ := hsplit
    decide

end MinimalWatch.Ble
