import Mathlib.Tactic.Common

/-! Texts in UTF-8 as lists of bytes, and where they can be cut. A cut leaves a text exactly
when the first byte behind it begins a character; the boundaries of the library's strings
say so of byte arrays. -/

namespace Firmware.Utf8

def ValidUtf8 (bytes : List UInt8) : Prop := bytes.toByteArray.IsValidUTF8

instance (bytes : List UInt8) : Decidable (ValidUtf8 bytes) :=
  inferInstanceAs (Decidable bytes.toByteArray.IsValidUTF8)

theorem toByteArray_take (bytes : List UInt8) (n : Nat) :
    (bytes.take n).toByteArray = bytes.toByteArray.extract 0 n := by
  apply ByteArray.ext
  rw [List.data_toByteArray, ByteArray.data_extract, List.data_toByteArray]
  simp

/-- The byte at a place of the text begins a character, or the text ends there. -/
def CharStart (bytes : List UInt8) (n : Nat) : Prop :=
  ∀ b, bytes[n]? = some b → b.IsUTF8FirstByte

instance (bytes : List UInt8) (n : Nat) : Decidable (CharStart bytes n) :=
  match h : bytes[n]? with
  | none => isTrue fun b hb => by rw [h] at hb; cases hb
  | some b => decidable_of_iff b.IsUTF8FirstByte (by simp [CharStart, h])

theorem charStart_of_length_le {bytes : List UInt8} {n : Nat} (h : bytes.length ≤ n) :
    CharStart bytes n := by
  intro b hb
  rw [List.getElem?_eq_none h] at hb
  cases hb

theorem charStart_of_lt {bytes : List UInt8} {n : Nat} (h : n < bytes.length) :
    CharStart bytes n ↔ bytes[n].IsUTF8FirstByte := by
  simp [CharStart, h]

theorem validUtf8_take_iff {bytes : List UInt8} (h : ValidUtf8 bytes) (n : Nat) :
    ValidUtf8 (bytes.take n) ↔ CharStart bytes n := by
  by_cases hn : n < bytes.length
  · let text := String.ofByteArray bytes.toByteArray h
    have hend : text.rawEndPos.byteIdx = bytes.length := by
      rw [String.byteIdx_rawEndPos, ← String.size_toByteArray]
      exact List.size_toByteArray
    have hinside : (⟨n⟩ : String.Pos.Raw) < text.rawEndPos := by
      rw [String.Pos.Raw.lt_iff, hend]
      exact hn
    have hbyte : text.getUTF8Byte ⟨n⟩ hinside = bytes[n] := List.getElem_toByteArray
    have hcut := @String.Pos.Raw.isValid_iff_isUTF8FirstByte text ⟨n⟩
    rw [String.Pos.Raw.isValid_iff_isValidUTF8_extract_zero] at hcut
    rw [charStart_of_lt hn, ValidUtf8, toByteArray_take, ← hbyte]
    constructor
    · intro hvalid
      obtain heq | ⟨_, hfirst⟩ := hcut.mp ⟨Nat.le_of_lt hinside, hvalid⟩
      · have hidx := congrArg String.Pos.Raw.byteIdx heq
        simp only [hend] at hidx
        omega
      · exact hfirst
    · intro hfirst
      exact (hcut.mpr (Or.inr ⟨hinside, hfirst⟩)).2
  · have hall := Nat.le_of_not_lt hn
    rw [List.take_of_length_le hall]
    exact ⟨fun _ => charStart_of_length_le hall, fun _ => h⟩

end Firmware.Utf8
