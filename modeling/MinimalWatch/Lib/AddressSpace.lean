import Mathlib.Data.List.Basic
import Mathlib.Tactic.Common

/-! A flat address space of bytes. A block that is written reads back as written, and
as long as later writes stay apart from it. -/

namespace Firmware.AddressSpace

abbrev Memory := Nat → UInt8

def writeBytes (mem : Memory) (addr : Nat) (bytes : List UInt8) : Memory := fun a =>
  if addr ≤ a ∧ a < addr + bytes.length then bytes.getD (a - addr) 0 else mem a

def readBytes (mem : Memory) (addr n : Nat) : List UInt8 :=
  (List.range n).map fun k => mem (addr + k)

/-- Two blocks of addresses have none in common. -/
def Apart (a n b m : Nat) : Prop := a + n ≤ b ∨ b + m ≤ a

instance (a n b m : Nat) : Decidable (Apart a n b m) :=
  inferInstanceAs (Decidable (a + n ≤ b ∨ b + m ≤ a))

theorem read_write_same (mem : Memory) (addr : Nat) {bytes : List UInt8} {n : Nat}
    (h : bytes.length = n) : readBytes (writeBytes mem addr bytes) addr n = bytes := by
  subst h
  apply List.ext_getElem?
  intro k
  rw [readBytes, List.getElem?_map]
  by_cases hk : k < bytes.length
  · rw [List.getElem?_range hk, List.getElem?_eq_getElem hk]
    simp [writeBytes, hk]
  · rw [List.getElem?_eq_none (by simpa using hk), List.getElem?_eq_none (by simpa using hk)]
    rfl

theorem read_write_apart {mem : Memory} {addr : Nat} {bytes : List UInt8} {b m : Nat}
    (h : Apart addr bytes.length b m) :
    readBytes (writeBytes mem addr bytes) b m = readBytes mem b m := by
  apply List.map_congr_left
  intro k hk
  rw [List.mem_range] at hk
  rw [writeBytes, if_neg]
  rcases h with h | h <;> omega

end Firmware.AddressSpace
