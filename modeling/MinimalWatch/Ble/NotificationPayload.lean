import MinimalWatch.Ble.Weather
import MinimalWatch.Notification.Store

/-! The notification payload: an app byte and four texts, each behind its length. The
decoder fills the record of its caller field by field and may fail after any of them. A
payload is accepted when it starts with such a record; bytes after it are only reported. -/

namespace MinimalWatch.Ble
open Firmware.Memory MinimalWatch.Notification

/-! ### The decoder -/

inductive DecodeError
  | ebadmsg
  | emsgsize
  | einval
  deriving DecidableEq, Repr

/-- The cast of a byte to `phone_app_t`. -/
def phoneAppOfByte (b : UInt8) : PhoneApp :=
  match b.toNat with
  | 0 => .whatsapp
  | 1 => .message
  | 2 => .navigation
  | 3 => .call
  | 4 => .unknown
  | _ => .other b

/-- The destination after the copy of `bytes` and the NUL behind them. -/
def storeText {n : Nat} (destBuf : Buffer UInt8 n) (bytes : List UInt8) : Buffer UInt8 n :=
  (destBuf.blit 0 bytes).blit bytes.length [0]

/-- The destination and the index after the field, or the error before any write. -/
def extractLeanString {n : Nat} (payload : List UInt8) (payloadLen currentIdx : Nat)
    (destBuf : Buffer UInt8 n) (destMax : Nat) : Except DecodeError (Buffer UInt8 n × Nat) :=
  if currentIdx ≥ payloadLen then .error .ebadmsg
  else
    let strLen := (byteAt payload currentIdx).toNat
    let idx := currentIdx + 1
    if idx + strLen > payloadLen then .error .emsgsize
    else
      let copyBytes := if strLen < destMax - 1 then strLen else destMax - 1
      .ok (storeText destBuf (slice payload idx copyBytes), idx + strLen)

/-- The result, and the record as far as it has been filled. -/
def parseNotificationPayload (payload : List UInt8) (len : Nat) (dest : NotificationT) :
    Except DecodeError Unit × NotificationT :=
  if len < 5 then (.error .einval, dest)
  else
    let dest := { dest with app := phoneAppOfByte (byteAt payload 0) }
    match extractLeanString payload len 1 dest.appName 14 with
    | .error err => (.error err, dest)
    | .ok (appName, idx) =>
      let dest := { dest with appName := appName }
      match extractLeanString payload len idx dest.body 100 with
      | .error err => (.error err, dest)
      | .ok (body, idx) =>
        let dest := { dest with body := body }
        match extractLeanString payload len idx dest.actionName 15 with
        | .error err => (.error err, dest)
        | .ok (actionName, idx) =>
          let dest := { dest with actionName := actionName }
          match extractLeanString payload len idx dest.dismissText 15 with
          | .error err => (.error err, dest)
          | .ok (dismissText, _) =>
            (.ok (), { dest with
              dismissText := dismissText
              actionHandler := none
              dismissHandler := none })

/-! ### The format -/

/-- A text that a length byte can announce. -/
structure LeanString where
  bytes : List UInt8
  bytes_lt : bytes.length < 256

def LeanString.encode (text : LeanString) : List UInt8 :=
  UInt8.ofNat text.bytes.length :: text.bytes

structure LeanNotification where
  app : UInt8
  appName : LeanString
  body : LeanString
  actionName : LeanString
  dismissText : LeanString

def LeanNotification.encode (noti : LeanNotification) : List UInt8 :=
  noti.app :: (noti.appName.encode ++ (noti.body.encode ++
    (noti.actionName.encode ++ noti.dismissText.encode)))

/-- The field holds as much of the text as there is room for, and a NUL. -/
def HoldsText {n : Nat} (field : Buffer UInt8 n) (text : LeanString) : Prop :=
  text.bytes.take (n - 1) ++ [0] <+: field.cells

/-- What a decoded record says of the notification that was sent. -/
structure DecodedFrom (dest : NotificationT) (noti : LeanNotification) : Prop where
  app : dest.app = phoneAppOfByte noti.app
  appName : HoldsText dest.appName noti.appName
  body : HoldsText dest.body noti.body
  actionName : HoldsText dest.actionName noti.actionName
  dismissText : HoldsText dest.dismissText noti.dismissText
  actionHandler : dest.actionHandler = none
  dismissHandler : dest.dismissHandler = none

@[simp] theorem LeanString.lengthByte_toNat (text : LeanString) :
    (UInt8.ofNat text.bytes.length).toNat = text.bytes.length := by
  rw [UInt8.toNat_ofNat']
  exact Nat.mod_eq_of_lt text.bytes_lt

@[simp] theorem LeanString.encode_length (text : LeanString) :
    text.encode.length = text.bytes.length + 1 := rfl

/-! ### One field -/

theorem holdsText_storeText {n : Nat} (destBuf : Buffer UInt8 n) (text : LeanString) (hn : 0 < n) :
    HoldsText (storeText destBuf (text.bytes.take (n - 1))) text := by
  have hlen : (text.bytes.take (n - 1)).length ≤ n - 1 := List.length_take_le _ _
  have hcopy : (destBuf.blit 0 (text.bytes.take (n - 1))).cells.take
      (text.bytes.take (n - 1)).length = text.bytes.take (n - 1) :=
    Buffer.take_blit_zero rfl (by omega)
  have hnul : text.bytes.take (n - 1) ++ [0] =
      (storeText destBuf (text.bytes.take (n - 1))).cells.take
        ((text.bytes.take (n - 1)).length + [(0 : UInt8)].length) := by
    rw [storeText, Buffer.take_blit (by rw [List.length_singleton]; omega), hcopy]
  rw [HoldsText, hnul]
  exact List.take_prefix _ _

/-- The bytes of the message that are still to be read. -/
def unread (payload : List UInt8) (len idx : Nat) : List UInt8 := (payload.take len).drop idx

theorem unread_length {payload : List UInt8} {len idx : Nat} (hlen : len ≤ payload.length) :
    (unread payload len idx).length = len - idx := by
  rw [unread, List.length_drop, List.length_take_of_le hlen]

theorem unread_add (payload : List UInt8) (len idx k : Nat) :
    unread payload len (idx + k) = (unread payload len idx).drop k :=
  List.drop_drop.symm

theorem unread_cons {payload : List UInt8} {len idx : Nat} (hlen : len ≤ payload.length)
    (hidx : idx < len) :
    unread payload len idx = byteAt payload idx :: unread payload len (idx + 1) := by
  have hleft : len - idx = len - (idx + 1) + 1 := by omega
  rw [unread, unread, List.drop_take, List.drop_take, drop_eq_byteAt (by omega), hleft,
    List.take_succ_cons]

theorem slice_eq_take_unread (payload : List UInt8) {len idx k : Nat} (h : idx + k ≤ len) :
    slice payload idx k = (unread payload len idx).take k := by
  rw [slice, unread, List.drop_take, List.take_take, Nat.min_eq_left (by omega)]

/-- A text that is there is taken into the field, and the index stands behind it. -/
theorem extractLeanString_encode {n : Nat} {payload : List UInt8} {len idx : Nat}
    {text : LeanString} {rest : List UInt8} (destBuf : Buffer UInt8 n) (hn : 0 < n)
    (hlen : len ≤ payload.length) (h : unread payload len idx = text.encode ++ rest) :
    ∃ field, extractLeanString payload len idx destBuf n =
        .ok (field, idx + text.encode.length) ∧
      HoldsText field text ∧ unread payload len (idx + text.encode.length) = rest := by
  have hcount : len - idx = text.bytes.length + 1 + rest.length := by
    rw [← unread_length hlen, h, List.length_append, text.encode_length]
  rw [unread_cons hlen (by omega)] at h
  obtain ⟨hbyte, hrest⟩ := List.cons.inj h
  have hstr : (byteAt payload idx).toNat = text.bytes.length := by
    rw [hbyte, text.lengthByte_toNat]
  have hslice : ∀ k ≤ text.bytes.length, slice payload (idx + 1) k = text.bytes.take k := by
    intro k hk
    rw [@slice_eq_take_unread payload len (idx + 1) k (by omega), hrest]
    exact List.take_append_of_le_length hk
  have hcopy : slice payload (idx + 1)
      (if text.bytes.length < n - 1 then text.bytes.length else n - 1) =
      text.bytes.take (n - 1) := by
    split_ifs with hfits
    · rw [hslice _ (Nat.le_refl _), List.take_length, List.take_of_length_le (by omega)]
    · exact hslice _ (by omega)
  refine ⟨storeText destBuf (text.bytes.take (n - 1)), ?_, holdsText_storeText destBuf text hn, ?_⟩
  · rw [extractLeanString, if_neg (by omega)]
    simp only [hstr]
    rw [if_neg (by omega), hcopy, text.encode_length, Nat.add_assoc, Nat.add_comm 1]
  · rw [text.encode_length, Nat.add_comm _ 1, ← Nat.add_assoc, unread_add, hrest]
    exact List.drop_left

/-- A field that is filled was there as a text. -/
theorem encode_of_extractLeanString {n : Nat} {payload : List UInt8} {len idx idx' : Nat}
    {destBuf field : Buffer UInt8 n} {destMax : Nat} (hlen : len ≤ payload.length)
    (h : extractLeanString payload len idx destBuf destMax = .ok (field, idx')) :
    ∃ text : LeanString, unread payload len idx = text.encode ++ unread payload len idx' := by
  rw [extractLeanString] at h
  by_cases hidx : idx ≥ len
  · rw [if_pos hidx] at h
    cases h
  rw [if_neg hidx] at h
  by_cases hroom : idx + 1 + (byteAt payload idx).toNat > len
  · simp only [if_pos hroom] at h
    cases h
  simp only [if_neg hroom] at h
  obtain ⟨-, rfl⟩ := Prod.mk.inj (Except.ok.inj h)
  have hlt := (byteAt payload idx).toNat_lt
  have htake : ((unread payload len (idx + 1)).take (byteAt payload idx).toNat).length =
      (byteAt payload idx).toNat := by
    rw [List.length_take_of_le]
    rw [unread_length hlen]
    omega
  refine ⟨⟨(unread payload len (idx + 1)).take (byteAt payload idx).toNat, by omega⟩, ?_⟩
  rw [LeanString.encode, unread_cons hlen (by omega),
    unread_add payload len (idx + 1) (byteAt payload idx).toNat]
  simp only [htake, UInt8.ofNat_toNat]
  exact congrArg _ (List.take_append_drop _ _).symm

/-! ### The whole payload -/

/-- A payload that starts with a notification is decoded into it. -/
theorem parseNotificationPayload_encode {payload : List UInt8} {len : Nat}
    {noti : LeanNotification} {tail : List UInt8} (dest : NotificationT)
    (hlen : len ≤ payload.length) (h : payload.take len = noti.encode ++ tail) :
    ∃ dest', parseNotificationPayload payload len dest = (.ok (), dest') ∧
      DecodedFrom dest' noti := by
  have hmin : 5 ≤ len := by
    have hcount := congrArg List.length h
    rw [List.length_take_of_le hlen] at hcount
    simp only [LeanNotification.encode, List.length_append, List.length_cons,
      LeanString.encode_length] at hcount
    omega
  have hstart : unread payload len 0 = noti.app :: (noti.appName.encode ++
      (noti.body.encode ++ (noti.actionName.encode ++ (noti.dismissText.encode ++ tail)))) := by
    rw [unread, List.drop_zero, h, LeanNotification.encode]
    simp only [List.cons_append, List.append_assoc]
  rw [unread_cons hlen (by omega)] at hstart
  obtain ⟨happ, hrest⟩ := List.cons.inj hstart
  obtain ⟨appName, hparseName, hname, hrest⟩ :=
    extractLeanString_encode dest.appName (by omega) hlen hrest
  obtain ⟨body, hparseBody, hbody, hrest⟩ :=
    extractLeanString_encode dest.body (by omega) hlen hrest
  obtain ⟨actionName, hparseAction, haction, hrest⟩ :=
    extractLeanString_encode dest.actionName (by omega) hlen hrest
  obtain ⟨dismissText, hparseDismiss, hdismiss, -⟩ :=
    extractLeanString_encode dest.dismissText (by omega) hlen hrest
  refine ⟨⟨phoneAppOfByte noti.app, appName, body, actionName, dismissText, none, none⟩, ?_,
    rfl, hname, hbody, haction, hdismiss, rfl, rfl⟩
  rw [parseNotificationPayload, if_neg (by omega)]
  simp only [happ, hparseName, hparseBody, hparseAction, hparseDismiss]

/-- A payload that is decoded starts with a notification. -/
theorem encode_of_parseNotificationPayload {payload : List UInt8} {len : Nat}
    {dest : NotificationT} (hlen : len ≤ payload.length)
    (h : (parseNotificationPayload payload len dest).1 = .ok ()) :
    ∃ noti tail, payload.take len = LeanNotification.encode noti ++ tail := by
  rw [parseNotificationPayload] at h
  split_ifs at h with hmin
  simp only at h
  split at h
  · cases h
  next appName idx₁ hname =>
    split at h
    · cases h
    next body idx₂ hbody =>
      split at h
      · cases h
      next actionName idx₃ haction =>
        split at h
        · cases h
        next dismissText idx₄ hdismiss =>
          obtain ⟨name, hrest₁⟩ := encode_of_extractLeanString hlen hname
          obtain ⟨text, hrest₂⟩ := encode_of_extractLeanString hlen hbody
          obtain ⟨action, hrest₃⟩ := encode_of_extractLeanString hlen haction
          obtain ⟨dismiss, hrest₄⟩ := encode_of_extractLeanString hlen hdismiss
          have hstart : payload.take len = unread payload len 0 := rfl
          refine ⟨⟨byteAt payload 0, name, text, action, dismiss⟩, unread payload len idx₄, ?_⟩
          rw [hstart, unread_cons hlen (by omega), hrest₁, hrest₂, hrest₃, hrest₄,
            LeanNotification.encode]
          simp only [List.cons_append, List.append_assoc]

theorem parseNotificationPayload_decodes {payload : List UInt8} {len : Nat}
    {noti : LeanNotification} {tail : List UInt8} (dest : NotificationT)
    (hlen : len ≤ payload.length) (h : payload.take len = noti.encode ++ tail) :
    (parseNotificationPayload payload len dest).1 = .ok () ∧
      DecodedFrom (parseNotificationPayload payload len dest).2 noti := by
  obtain ⟨dest', hparse, hdecoded⟩ := parseNotificationPayload_encode dest hlen h
  rw [hparse]
  exact ⟨rfl, hdecoded⟩

/-- The decoder accepts the payloads that start with a notification. -/
theorem parseNotificationPayload_accepts {payload : List UInt8} {len : Nat}
    (dest : NotificationT) (hlen : len ≤ payload.length) :
    (parseNotificationPayload payload len dest).1 = .ok () ↔
      ∃ noti tail, payload.take len = LeanNotification.encode noti ++ tail := by
  refine ⟨encode_of_parseNotificationPayload hlen, ?_⟩
  rintro ⟨noti, tail, hstart⟩
  exact (parseNotificationPayload_decodes dest hlen hstart).1

/-- It decodes them into that notification, whatever the record held before. -/
theorem parseNotificationPayload_ok_iff {payload : List UInt8} {len : Nat}
    (dest : NotificationT) (hlen : len ≤ payload.length) :
    (parseNotificationPayload payload len dest).1 = .ok () ↔
      ∃ noti tail, payload.take len = LeanNotification.encode noti ++ tail ∧
        DecodedFrom (parseNotificationPayload payload len dest).2 noti := by
  rw [parseNotificationPayload_accepts dest hlen]
  constructor
  · rintro ⟨noti, tail, hstart⟩
    exact ⟨noti, tail, hstart, (parseNotificationPayload_decodes dest hlen hstart).2⟩
  · rintro ⟨noti, tail, hstart, -⟩
    exact ⟨noti, tail, hstart⟩

/-! ### What the decoder reads -/

theorem unread_congr {payload payload' : List UInt8} {len : Nat}
    (h : payload'.take len = payload.take len) (idx : Nat) :
    unread payload' len idx = unread payload len idx :=
  congrArg (List.drop idx) h

theorem byteAt_congr {payload payload' : List UInt8} {len idx : Nat}
    (h : payload'.take len = payload.take len) (hidx : idx < len) :
    byteAt payload' idx = byteAt payload idx := by
  have hcell : payload'[idx]? = payload[idx]? := by
    rw [← List.getElem?_take_of_lt hidx, h, List.getElem?_take_of_lt hidx]
  rw [byteAt, byteAt, List.getD_eq_getElem?_getD, List.getD_eq_getElem?_getD, hcell]

theorem extractLeanString_congr {n : Nat} {payload payload' : List UInt8} {len : Nat}
    (h : payload'.take len = payload.take len) (idx : Nat) (destBuf : Buffer UInt8 n)
    (destMax : Nat) :
    extractLeanString payload' len idx destBuf destMax =
      extractLeanString payload len idx destBuf destMax := by
  rw [extractLeanString, extractLeanString]
  by_cases hidx : idx ≥ len
  · rw [if_pos hidx, if_pos hidx]
  rw [if_neg hidx, if_neg hidx]
  simp only [byteAt_congr h (Nat.lt_of_not_le hidx)]
  by_cases hroom : idx + 1 + (byteAt payload idx).toNat > len
  · rw [if_pos hroom, if_pos hroom]
  · have hslice : ∀ k ≤ (byteAt payload idx).toNat,
        slice payload' (idx + 1) k = slice payload (idx + 1) k := by
      intro k hk
      rw [@slice_eq_take_unread payload' len (idx + 1) k (by omega), unread_congr h,
        @slice_eq_take_unread payload len (idx + 1) k (by omega)]
    rw [if_neg hroom, if_neg hroom, hslice]
    split_ifs <;> omega

/-- Bytes from `len` on make no difference. -/
theorem parseNotificationPayload_congr {payload payload' : List UInt8} {len : Nat}
    (h : payload'.take len = payload.take len) (dest : NotificationT) :
    parseNotificationPayload payload' len dest = parseNotificationPayload payload len dest := by
  rw [parseNotificationPayload, parseNotificationPayload]
  by_cases hmin : len < 5
  · rw [if_pos hmin, if_pos hmin]
  · rw [if_neg hmin, if_neg hmin]
    simp only [extractLeanString_congr h, byteAt_congr h (by omega : 0 < len)]

/-! ### The exact format -/

/-- A field read as a string of C. -/
def cString {n : Nat} (field : Buffer UInt8 n) : List UInt8 := field.cells.takeWhile (· ≠ 0)

/-- The field holds all of the text, and reads as it when no NUL is in it. -/
def HoldsAll {n : Nat} (field : Buffer UInt8 n) (text : LeanString) : Prop :=
  text.bytes ++ [0] <+: field.cells ∧ (0 ∉ text.bytes → cString field = text.bytes)

/-- Every text has room in its field. -/
structure LeanNotification.Fits (noti : LeanNotification) : Prop where
  appName : noti.appName.bytes.length ≤ 13
  body : noti.body.bytes.length ≤ 99
  actionName : noti.actionName.bytes.length ≤ 14
  dismissText : noti.dismissText.bytes.length ≤ 14

structure Unchanged (dest : NotificationT) (noti : LeanNotification) : Prop where
  app : dest.app = phoneAppOfByte noti.app
  appName : HoldsAll dest.appName noti.appName
  body : HoldsAll dest.body noti.body
  actionName : HoldsAll dest.actionName noti.actionName
  dismissText : HoldsAll dest.dismissText noti.dismissText

theorem cString_of_holds {n : Nat} {field : Buffer UInt8 n} {bytes : List UInt8}
    (h : bytes ++ [0] <+: field.cells) (hnul : 0 ∉ bytes) : cString field = bytes := by
  obtain ⟨rest, hcells⟩ := h
  have hall : ∀ b ∈ bytes, decide (b ≠ 0) = true := by
    intro b hb
    rw [decide_eq_true_eq]
    rintro rfl
    exact hnul hb
  rw [cString, ← hcells, List.append_assoc, List.takeWhile_append_of_pos hall]
  simp

theorem HoldsText.all {n : Nat} {field : Buffer UInt8 n} {text : LeanString}
    (h : HoldsText field text) (hfits : text.bytes.length ≤ n - 1) : HoldsAll field text := by
  rw [HoldsText, List.take_of_length_le hfits] at h
  exact ⟨h, cString_of_holds h⟩

theorem DecodedFrom.unchanged {dest : NotificationT} {noti : LeanNotification}
    (h : DecodedFrom dest noti) (hfits : noti.Fits) : Unchanged dest noti :=
  ⟨h.app, h.appName.all hfits.appName, h.body.all hfits.body,
    h.actionName.all hfits.actionName, h.dismissText.all hfits.dismissText⟩

end MinimalWatch.Ble
