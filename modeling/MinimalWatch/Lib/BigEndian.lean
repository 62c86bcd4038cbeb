import Mathlib.Data.List.Induction
import Mathlib.Data.Nat.Bitwise
import Mathlib.Tactic.NormNum

/-! Numbers as bytes, the high byte first, at any width; and the reading of a word of two
or four bytes with shifts, as programs on machine integers do it. -/

namespace Firmware.BigEndian

/-- The number that the bytes stand for. -/
def value (bytes : List UInt8) : Nat := bytes.foldl (fun acc b => 256 * acc + b.toNat) 0

/-- The number in `width` bytes; what does not fit is cut off. -/
def digits : Nat → Nat → List UInt8
  | 0, _ => []
  | width + 1, n => digits width (n / 256) ++ [UInt8.ofNat n]

@[simp] theorem value_concat (bytes : List UInt8) (b : UInt8) :
    value (bytes ++ [b]) = 256 * value bytes + b.toNat := by
  rw [value, List.foldl_append]
  rfl

@[simp] theorem digits_length (width n : Nat) : (digits width n).length = width := by
  induction width generalizing n with
  | zero => rfl
  | succ width ih => rw [digits, List.length_append, ih, List.length_singleton]

theorem value_digits (width n : Nat) : value (digits width n) = n % 256 ^ width := by
  induction width generalizing n with
  | zero => rw [pow_zero, Nat.mod_one]; rfl
  | succ width ih =>
    have hlow : (UInt8.ofNat n).toNat = n % 256 := UInt8.toNat_ofNat'
    rw [digits, value_concat, ih, hlow, Nat.pow_succ', Nat.mod_mul]
    exact Nat.add_comm _ _

theorem digits_value (bytes : List UInt8) : digits bytes.length (value bytes) = bytes := by
  induction bytes using List.reverseRecOn with
  | nil => rfl
  | append_singleton bytes b ih =>
    have hb := b.toNat_lt
    have hdiv : (256 * value bytes + b.toNat) / 256 = value bytes := by omega
    have hlow : UInt8.ofNat (256 * value bytes + b.toNat) = b := by
      apply UInt8.toNat_inj.mp
      rw [UInt8.toNat_ofNat']
      omega
    rw [List.length_append, List.length_singleton, digits, value_concat, hdiv, ih, hlow]

/-- Numbers that fit are told apart by their bytes. -/
theorem digits_inj {width m n : Nat} (hm : m < 256 ^ width) (hn : n < 256 ^ width)
    (h : digits width m = digits width n) : m = n := by
  rw [← Nat.mod_eq_of_lt hm, ← Nat.mod_eq_of_lt hn, ← value_digits, ← value_digits, h]

/-! ### Words read with shifts -/

def word16 (b0 b1 : UInt8) : UInt16 := (b0.toUInt16 <<< 8) ||| b1.toUInt16

def word32 (b0 b1 b2 b3 : UInt8) : UInt32 :=
  (b0.toUInt32 <<< 24) ||| (b1.toUInt32 <<< 16) ||| (b2.toUInt32 <<< 8) ||| b3.toUInt32

/-- An `or` into low bits that are free is a sum. -/
theorem shiftLeft_or {a b : Nat} (k : Nat) (h : b < 2 ^ k) : a <<< k ||| b = 2 ^ k * a + b := by
  rw [← Nat.shiftLeft_add_eq_or_of_lt h, Nat.shiftLeft_eq, Nat.mul_comm]

theorem word16_toNat (b0 b1 : UInt8) : (word16 b0 b1).toNat = value [b0, b1] := by
  have h0 := b0.toNat_lt
  have h1 := b1.toNat_lt
  have hshift : (b0.toNat <<< 8) % 2 ^ 16 = b0.toNat <<< 8 := by
    rw [Nat.shiftLeft_eq]
    omega
  have hword : (word16 b0 b1).toNat = b0.toNat <<< 8 ||| b1.toNat := by
    simp only [word16, UInt16.toNat_or, UInt16.toNat_shiftLeft, UInt8.toNat_toUInt16]
    exact congrArg (· ||| b1.toNat) hshift
  rw [hword, shiftLeft_or 8 h1]
  simp only [value, List.foldl]
  omega

theorem word32_toNat (b0 b1 b2 b3 : UInt8) :
    (word32 b0 b1 b2 b3).toNat = value [b0, b1, b2, b3] := by
  have h0 := b0.toNat_lt
  have h1 := b1.toNat_lt
  have h2 := b2.toNat_lt
  have h3 := b3.toNat_lt
  have hshift : ∀ (b : UInt8) (k : Nat), k ≤ 24 → (b.toNat <<< k) % 2 ^ 32 = b.toNat <<< k := by
    intro b k hk
    have hb := b.toNat_lt
    have hpow : 2 ^ k ≤ 2 ^ 24 := Nat.pow_le_pow_right (by omega) hk
    rw [Nat.shiftLeft_eq]
    apply Nat.mod_eq_of_lt
    calc b.toNat * 2 ^ k < 2 ^ 8 * 2 ^ k := Nat.mul_lt_mul_of_pos_right hb (Nat.two_pow_pos k)
      _ ≤ 2 ^ 8 * 2 ^ 24 := Nat.mul_le_mul_left _ hpow
      _ = 2 ^ 32 := by norm_num
  have hword : (word32 b0 b1 b2 b3).toNat =
      ((b0.toNat <<< 24 ||| b1.toNat <<< 16) ||| b2.toNat <<< 8) ||| b3.toNat := by
    simp only [word32, UInt32.toNat_or, UInt32.toNat_shiftLeft, UInt8.toNat_toUInt32]
    rw [show (24 : UInt32).toNat % 32 = 24 from rfl, show (16 : UInt32).toNat % 32 = 16 from rfl,
      show (8 : UInt32).toNat % 32 = 8 from rfl, hshift b0 24 (by omega), hshift b1 16 (by omega),
      hshift b2 8 (by omega)]
  have hlow : b2.toNat <<< 8 ||| b3.toNat = 2 ^ 8 * b2.toNat + b3.toNat := shiftLeft_or 8 h3
  have hmid : b1.toNat <<< 16 ||| (2 ^ 8 * b2.toNat + b3.toNat) =
      2 ^ 16 * b1.toNat + (2 ^ 8 * b2.toNat + b3.toNat) := shiftLeft_or 16 (by omega)
  rw [hword, Nat.lor_assoc, Nat.lor_assoc, hlow, hmid, shiftLeft_or 24 (by omega)]
  simp only [value, List.foldl]
  omega

/-- The bytes of a word read from four bytes are those bytes. -/
theorem digits_word32 (b0 b1 b2 b3 : UInt8) :
    digits 4 (word32 b0 b1 b2 b3).toNat = [b0, b1, b2, b3] := by
  rw [word32_toNat]
  exact digits_value [b0, b1, b2, b3]

theorem digits_word16 (b0 b1 : UInt8) : digits 2 (word16 b0 b1).toNat = [b0, b1] := by
  rw [word16_toNat]
  exact digits_value [b0, b1]

end Firmware.BigEndian
