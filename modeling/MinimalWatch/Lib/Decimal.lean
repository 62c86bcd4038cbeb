import Mathlib.Algebra.GroupWithZero.Nat
import Mathlib.Tactic.Common

/-! The bytes that decimal numerals take in a text, also padded to a width. -/

namespace Firmware.Decimal

theorem isDigit_utf8Size {c : Char} (h : c.isDigit = true) : c.utf8Size = 1 := by
  rw [Char.isDigit, Bool.and_eq_true, decide_eq_true_eq, decide_eq_true_eq] at h
  have hlow : c.val ≤ 0x7F := UInt32.le_trans h.2 (by decide)
  exact if_pos hlow

theorem size_ofList {cs : List Char} (h : ∀ c ∈ cs, c.utf8Size = 1) :
    (String.ofList cs).utf8ByteSize = cs.length := by
  induction cs with
  | nil => rfl
  | cons c cs ih =>
    obtain ⟨hc, hcs⟩ := List.forall_mem_cons.mp h
    rw [String.ofList_cons, String.utf8ByteSize_append, String.utf8ByteSize_singleton, hc,
      ih hcs, List.length_cons, Nat.add_comm]

theorem mem_toString {n : Nat} {c : Char} (h : c ∈ (toString n).toList) : c.utf8Size = 1 := by
  change c ∈ n.repr.toList at h
  rw [Nat.repr_eq_ofList_toDigits, String.toList_ofList] at h
  exact isDigit_utf8Size (Nat.isDigit_of_mem_toDigits (by decide) (by decide) h)

theorem mem_toString_int {z : Int} {c : Char} (h : c ∈ (toString z).toList) :
    c.utf8Size = 1 := by
  rw [Int.toString_eq_repr] at h
  cases z with
  | ofNat n => exact mem_toString h
  | negSucc n =>
    rw [Int.repr, String.toList_append, List.mem_append] at h
    rcases h with hminus | hdigit
    · rw [List.mem_singleton.mp hminus]
      rfl
    · exact mem_toString hdigit

theorem size_toString (n : Nat) : (toString n).utf8ByteSize = (toString n).length := by
  rw [← String.length_toList, ← size_ofList fun _ hc => mem_toString hc, String.ofList_toList]

/-- A number below `10 ^ k` takes at most `k` bytes. -/
theorem size_toString_le {n k : Nat} (hk : 0 < k) (h : n < 10 ^ k) :
    (toString n).utf8ByteSize ≤ k := by
  rw [size_toString]
  exact (Nat.length_repr_le_iff hk).mpr h

/-- With a sign it takes one more. -/
theorem size_toString_int_le {z : Int} {k : Nat} (hk : 0 < k) (h : z.natAbs < 10 ^ k) :
    (toString z).utf8ByteSize ≤ k + 1 := by
  rw [Int.toString_eq_repr]
  cases z with
  | ofNat n => exact Nat.le_succ_of_le (size_toString_le hk h)
  | negSucc n =>
    have hsize : (n + 1).repr.utf8ByteSize ≤ k := size_toString_le hk h
    have hminus : ("-" : String).utf8ByteSize = 1 := rfl
    rw [Int.repr, String.utf8ByteSize_append, hminus]
    exact Nat.le_trans (Nat.add_le_add_left hsize 1) (Nat.le_of_eq (Nat.add_comm 1 k))

theorem size_byte (b : UInt8) : (toString b.toNat).utf8ByteSize ≤ 3 :=
  size_toString_le (by decide) (Nat.lt_of_lt_of_le b.toNat_lt (by decide))

/-- The whole part of a number of tenths. -/
theorem size_tenths (x : Int16) : (toString (x.toInt.tdiv 10)).utf8ByteSize ≤ 5 := by
  have hlow : -32768 ≤ x.toInt := x.le_toInt
  have hhigh : x.toInt < 32768 := x.toInt_lt
  have hten : (x.toInt.tdiv 10).natAbs = x.toInt.natAbs / 10 := Int.natAbs_tdiv _ 10
  exact size_toString_int_le (by decide) (by omega)

/-- Padding takes the bytes up to the width, and no more. -/
theorem size_leftpad {s : String} {c : Char} (hs : ∀ d ∈ s.toList, d.utf8Size = 1)
    (hc : c.utf8Size = 1) (width : Nat) :
    (String.ofList (s.toList.leftpad width c)).utf8ByteSize = max width s.utf8ByteSize := by
  have hpadded : ∀ d ∈ s.toList.leftpad width c, d.utf8Size = 1 := by
    intro d hd
    rw [List.leftpad, List.mem_append, List.mem_replicate] at hd
    rcases hd with ⟨-, rfl⟩ | hd
    · exact hc
    · exact hs d hd
  rw [size_ofList hpadded, List.length_leftpad, ← size_ofList hs, String.ofList_toList]

end Firmware.Decimal
