import Mathlib.Data.List.Basic
import Mathlib.Tactic.Common

/-! Buffers of a fixed size and block copies into them. A buffer carries its size,
and a copy that would run past the end writes only what fits, so no operation
changes the size; what a copy leaves behind is stated about prefixes of the
buffer, which is how such buffers are read back. -/

namespace Firmware.Memory
variable {α : Type*}

/-- `length` cells of a buffer from `offset` on, as a block copy reads them. -/
def slice (cells : List α) (offset length : Nat) : List α :=
  (cells.drop offset).take length

theorem slice_length {cells : List α} {offset length : Nat}
    (h : offset + length ≤ cells.length) : (slice cells offset length).length = length := by
  simp only [slice, List.length_take, List.length_drop]
  omega

theorem slice_append_drop (cells : List α) (offset length : Nat) :
    slice cells offset length ++ cells.drop (offset + length) = cells.drop offset := by
  rw [slice, ← List.drop_drop]
  exact List.take_append_drop length (cells.drop offset)

structure Buffer (α : Type*) (n : Nat) where
  cells : List α
  length_eq : cells.length = n
  deriving DecidableEq, Repr

namespace Buffer
variable {n : Nat}

def fill (n : Nat) (x : α) : Buffer α n := ⟨List.replicate n x, List.length_replicate⟩

/-- Copy `src` over the cells from `offset` on. -/
def blit (dst : Buffer α n) (offset : Nat) (src : List α) : Buffer α n :=
  ⟨dst.cells.take offset ++ src.take (n - offset) ++ dst.cells.drop (offset + src.length), by
    have h := dst.length_eq
    simp only [List.length_append, List.length_take, List.length_drop]
    omega⟩

theorem blit_cells {dst : Buffer α n} {offset : Nat} {src : List α}
    (h : offset + src.length ≤ n) :
    (dst.blit offset src).cells =
      dst.cells.take offset ++ src ++ dst.cells.drop (offset + src.length) := by
  simp only [blit, List.take_of_length_le (by omega : src.length ≤ n - offset)]

/-- A copy leaves the cells before and behind it. -/
theorem getElem?_blit_outside {dst : Buffer α n} {offset : Nat} {src : List α} {k : Nat}
    (h : k < offset ∨ offset + src.length ≤ k) :
    (dst.blit offset src).cells[k]? = dst.cells[k]? := by
  have hn := dst.length_eq
  simp only [blit, List.getElem?_append, List.length_append, List.length_take,
    List.getElem?_take, List.getElem?_drop]
  split_ifs with hwritten hbefore hcopied
  · rfl
  · omega
  · omega
  · omega
  · by_cases hk : k < n
    · congr 1
      omega
    · rw [List.getElem?_eq_none (by omega), List.getElem?_eq_none (by omega)]

/-- Up to the end of the copy, the buffer is what it was and then the copied block. -/
theorem take_blit {dst : Buffer α n} {offset : Nat} {src : List α}
    (h : offset + src.length ≤ n) :
    (dst.blit offset src).cells.take (offset + src.length) = dst.cells.take offset ++ src := by
  have hn := dst.length_eq
  have hlen : (dst.cells.take offset ++ src).length = offset + src.length := by
    simp only [List.length_append, List.length_take]
    omega
  rw [blit_cells h, ← hlen, List.take_left]

theorem take_blit_zero {dst : Buffer α n} {src : List α} {m : Nat} (hm : src.length = m)
    (h : m ≤ n) : (dst.blit 0 src).cells.take m = src := by
  subst hm
  have hblit := @take_blit α n dst 0 src (by omega)
  simpa using hblit

/-- A copy of all of another buffer gives that buffer. -/
theorem blit_all (dst src : Buffer α n) : dst.blit 0 src.cells = src := by
  obtain ⟨cells, hlen⟩ := src
  have hall : dst.cells.length ≤ 0 + cells.length := by
    rw [dst.length_eq, hlen]
    omega
  have hcells := @blit_cells α n dst 0 cells (by omega)
  rw [List.take_zero, List.nil_append, List.drop_eq_nil_of_le hall, List.append_nil] at hcells
  simp only [blit] at hcells ⊢
  simp only [hcells]

theorem length_take (b : Buffer α n) {m : Nat} (h : m ≤ n) : (b.cells.take m).length = m := by
  rw [List.length_take, b.length_eq]
  omega

end Buffer

end Firmware.Memory
