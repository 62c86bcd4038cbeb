import Mathlib.Data.List.Basic
import Mathlib.Tactic.Common

/-! Shifting entries inside a fixed array by copying one slot at a time. `closeDown`
runs upwards and moves each entry one place down, `openUp` runs downwards and moves
each entry one place up; in both orders a slot is read before it is overwritten, so
every entry arrives unchanged. `live` is the tail of the array from an index on. -/

namespace Firmware.Slots
variable {α : Type*} {n : Nat}

/-- One slot copied over another; indices outside the array do nothing. -/
def copySlot (slots : Vector α n) (dst src : Nat) : Vector α n :=
  match slots[src]? with
  | some x => slots.setIfInBounds dst x
  | none => slots

theorem getElem?_copySlot {slots : Vector α n} {dst src : Nat} (hdst : dst < n) (hsrc : src < n)
    (j : Nat) :
    (copySlot slots dst src)[j]? = if j = dst then slots[src]? else slots[j]? := by
  rw [copySlot, Vector.getElem?_eq_getElem hsrc, Vector.getElem?_setIfInBounds]
  split_ifs with hdj hjd
  · rfl
  · exact absurd hdj.symm hjd
  · omega
  · rfl

/-- `slots[i] = slots[i + 1]` for `i` from 0 up to `m - 1`. -/
def closeDown (slots : Vector α n) (m : Nat) : Vector α n :=
  (List.range m).foldl (fun s i => copySlot s i (i + 1)) slots

theorem getElem?_closeDown {slots : Vector α n} {m : Nat} (hm : m < n) (j : Nat) :
    (closeDown slots m)[j]? = if j < m then slots[j + 1]? else slots[j]? := by
  induction m generalizing j with
  | zero => rfl
  | succ m ih =>
    have hlast : closeDown slots (m + 1) = copySlot (closeDown slots m) m (m + 1) := by
      rw [closeDown, List.range_succ, List.foldl_append]
      rfl
    rw [hlast, getElem?_copySlot (by omega) hm, ih (by omega), ih (by omega),
      if_neg (by omega : ¬ m + 1 < m)]
    by_cases hj : j = m
    · rw [if_pos hj, if_pos (by omega), hj]
    · rw [if_neg hj]
      split_ifs <;> first | rfl | omega

/-- `slots[i] = slots[i - 1]` for `i` from `hi` down to `hi - m + 1`. -/
def openUp (slots : Vector α n) (hi m : Nat) : Vector α n :=
  (List.range m).foldl (fun s k => copySlot s (hi - k) (hi - k - 1)) slots

theorem openUp_succ (slots : Vector α n) (hi m : Nat) :
    openUp slots hi (m + 1) = copySlot (openUp slots hi m) (hi - m) (hi - m - 1) := by
  rw [openUp, List.range_succ, List.foldl_append]
  rfl

theorem getElem?_openUp {slots : Vector α n} {hi m : Nat} (hhi : hi < n) (hm : m ≤ hi)
    (j : Nat) :
    (openUp slots hi m)[j]? =
      if hi < j + m ∧ j ≤ hi then slots[j - 1]? else slots[j]? := by
  induction m generalizing j with
  | zero => rw [if_neg (by omega)]; rfl
  | succ m ih =>
    rw [openUp_succ, getElem?_copySlot (by omega) (by omega), ih (by omega), ih (by omega),
      if_neg (by omega : ¬ (hi < hi - m - 1 + m ∧ hi - m - 1 ≤ hi))]
    by_cases hj : j = hi - m
    · rw [if_pos hj, if_pos (by omega), hj]
    · rw [if_neg hj]
      split_ifs <;> first | rfl | omega

def live (slots : Vector α n) (w : Nat) : List α := slots.toList.drop w

@[simp] theorem live_length (slots : Vector α n) (w : Nat) : (live slots w).length = n - w := by
  simp [live]

theorem getElem?_live (slots : Vector α n) (w k : Nat) :
    (live slots w)[k]? = slots[w + k]? := by
  rw [live, List.getElem?_drop, Vector.getElem?_toList]

end Firmware.Slots
