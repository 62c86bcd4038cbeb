import MinimalWatch.Ble.NotificationPayload
import MinimalWatch.Lib.Utf8

/-! The texts of a notification as the labels of the watch get them. They come as UTF-8 and
are cut at a number of bytes that is the field's own, so a cut can fall inside a character. -/

namespace MinimalWatch.Ble
open Firmware.Memory Firmware.Utf8 MinimalWatch.Notification

/-- Valid UTF-8 without a NUL. -/
def LeanString.IsText (text : LeanString) : Prop := ValidUtf8 text.bytes ∧ 0 ∉ text.bytes

structure LeanNotification.IsText (noti : LeanNotification) : Prop where
  appName : noti.appName.IsText
  body : noti.body.IsText
  actionName : noti.actionName.IsText
  dismissText : noti.dismissText.IsText

/-- The string of the field is valid UTF-8 and a prefix of its text. -/
def KeepsText {n : Nat} (field : Buffer UInt8 n) (text : LeanString) : Prop :=
  ValidUtf8 (cString field) ∧ cString field <+: text.bytes

structure TextsKept (dest : NotificationT) (noti : LeanNotification) : Prop where
  appName : KeepsText dest.appName noti.appName
  body : KeepsText dest.body noti.body
  actionName : KeepsText dest.actionName noti.actionName
  dismissText : KeepsText dest.dismissText noti.dismissText

/-- No text is cut inside a character: it ends within its field, or its first byte that has
no room there begins a character. -/
structure LeanNotification.CutsBetween (noti : LeanNotification) : Prop where
  appName : CharStart noti.appName.bytes 13
  body : CharStart noti.body.bytes 99
  actionName : CharStart noti.actionName.bytes 14
  dismissText : CharStart noti.dismissText.bytes 14

theorem HoldsText.cString {n : Nat} {field : Buffer UInt8 n} {text : LeanString}
    (h : HoldsText field text) (htext : text.IsText) :
    cString field = text.bytes.take (n - 1) :=
  cString_of_holds h fun hnul => htext.2 (List.mem_of_mem_take hnul)

/-- One field: its string is always a prefix, and valid when the cut is at a character. -/
theorem HoldsText.keepsText_iff {n : Nat} {field : Buffer UInt8 n} {text : LeanString}
    (h : HoldsText field text) (htext : text.IsText) :
    KeepsText field text ↔ CharStart text.bytes (n - 1) := by
  rw [KeepsText, h.cString htext, validUtf8_take_iff htext.1]
  exact and_iff_left (List.take_prefix _ _)

theorem DecodedFrom.textsKept_iff {dest : NotificationT} {noti : LeanNotification}
    (h : DecodedFrom dest noti) (htext : noti.IsText) :
    TextsKept dest noti ↔ noti.CutsBetween := by
  have hname := h.appName.keepsText_iff htext.appName
  have hbody := h.body.keepsText_iff htext.body
  have haction := h.actionName.keepsText_iff htext.actionName
  have hdismiss := h.dismissText.keepsText_iff htext.dismissText
  constructor
  · intro hkept
    exact ⟨hname.mp hkept.appName, hbody.mp hkept.body, haction.mp hkept.actionName,
      hdismiss.mp hkept.dismissText⟩
  · intro hcuts
    exact ⟨hname.mpr hcuts.appName, hbody.mpr hcuts.body, haction.mpr hcuts.actionName,
      hdismiss.mpr hcuts.dismissText⟩

/-- The payloads that are accepted are those that start with a notification. When its texts
are UTF-8, the four strings that it leaves are UTF-8 and prefixes of their texts exactly when
no text is cut inside a character. -/
theorem storedTexts_kept_iff {payload : List UInt8} {len : Nat} (dest : NotificationT)
    (hlen : len ≤ payload.length) :
    ((parseNotificationPayload payload len dest).1 = .ok () ↔
        ∃ noti tail, payload.take len = LeanNotification.encode noti ++ tail) ∧
      ∀ noti tail, payload.take len = LeanNotification.encode noti ++ tail → noti.IsText →
        (TextsKept (parseNotificationPayload payload len dest).2 noti ↔ noti.CutsBetween) := by
  refine ⟨parseNotificationPayload_accepts dest hlen, fun noti tail hstart htext => ?_⟩
  exact (parseNotificationPayload_decodes dest hlen hstart).2.textsKept_iff htext

instance (text : LeanString) : Decidable text.IsText :=
  inferInstanceAs (Decidable (_ ∧ _))

theorem isText_of_appName {app : UInt8} {name : LeanString} (h : name.IsText) :
    (⟨app, name, ⟨[], by decide⟩, ⟨[], by decide⟩, ⟨[], by decide⟩⟩ :
      LeanNotification).IsText := by
  have hnil : (⟨[], by decide⟩ : LeanString).IsText := by decide
  exact ⟨h, hnil, hnil, hnil⟩

/-- A name of thirteen letters and an e with an acute accent: the accented letter goes. -/
theorem storedTexts_kept_between :
    let name : LeanString := ⟨List.replicate 13 65 ++ [0xC3, 0xA9], by decide⟩
    let noti : LeanNotification :=
      ⟨1, name, ⟨[], by decide⟩, ⟨[], by decide⟩, ⟨[], by decide⟩⟩
    TextsKept (parseNotificationPayload noti.encode noti.encode.length .zero).2 noti := by
  intro name noti
  have htext : noti.IsText := isText_of_appName (by decide)
  have hcuts : noti.CutsBetween := by
    refine ⟨?_, ?_, ?_, ?_⟩ <;> decide
  have hstart : noti.encode.take noti.encode.length = noti.encode ++ [] := by
    rw [List.take_length, List.append_nil]
  exact ((@storedTexts_kept_iff noti.encode _ .zero (Nat.le_refl _)).2 noti [] hstart
    htext).mpr hcuts

/-- With twelve letters in front of it, half of the accented letter is stored. -/
theorem storedTexts_cut_inside :
    ¬ ∀ (payload : List UInt8) (len : Nat) (noti : LeanNotification) (tail : List UInt8)
      (dest : NotificationT), len ≤ payload.length →
      (parseNotificationPayload payload len dest).1 = .ok () →
      payload.take len = noti.encode ++ tail → noti.IsText →
      TextsKept (parseNotificationPayload payload len dest).2 noti := by
  intro h
  let name : LeanString := ⟨List.replicate 12 65 ++ [0xC3, 0xA9], by decide⟩
  let noti : LeanNotification :=
    ⟨1, name, ⟨[], by decide⟩, ⟨[], by decide⟩, ⟨[], by decide⟩⟩
  have htext : noti.IsText := isText_of_appName (by decide)
  have hkept := h noti.encode noti.encode.length noti [] .zero (Nat.le_refl _)
    (by decide +kernel) (by rw [List.take_length, List.append_nil]) htext
  have hstored : cString (parseNotificationPayload noti.encode noti.encode.length .zero).2.appName =
      List.replicate 12 65 ++ [0xC3] := by
    decide +kernel
  have hvalid := hkept.appName.1
  rw [hstored] at hvalid
  exact absurd hvalid (by decide)

end MinimalWatch.Ble
