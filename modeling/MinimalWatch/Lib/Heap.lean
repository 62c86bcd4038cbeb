import Mathlib.Data.List.Basic
import Mathlib.Logic.Function.Basic
import Mathlib.Tactic.Common

/-! Allocated arrays, by address. A use of a block that is not there, or outside it, or of a
cell before it is written, has no result. -/

namespace Firmware

/-- The cells of the live blocks; a cell that has not been written is `none`. -/
structure Heap (α : Type*) where
  blocks : Nat → Option (List (Option α))

namespace Heap
variable {α : Type*}

def empty : Heap α := ⟨fun _ => none⟩

def put (h : Heap α) (addr : Nat) (cells : List (Option α)) : Heap α :=
  ⟨Function.update h.blocks addr (some cells)⟩

/-- A new block, where the allocator has found room for it. -/
def alloc (h : Heap α) (addr size : Nat) : Heap α := h.put addr (.replicate size none)

def write (h : Heap α) (addr idx : Nat) (value : α) : Option (Heap α) :=
  (h.blocks addr).bind fun cells =>
    if idx < cells.length then some (h.put addr (cells.set idx (some value))) else none

def free (h : Heap α) (addr : Nat) : Option (Heap α) :=
  (h.blocks addr).map fun _ => ⟨Function.update h.blocks addr none⟩

/-- What stands before the terminator. -/
def upTo (isLast : α → Bool) : List (Option α) → Option (List α)
  | some a :: rest => if isLast a then some [] else (upTo isLast rest).map (a :: ·)
  | _ => none

/-- The array at the address, read up to its terminator. -/
def readTo (h : Heap α) (isLast : α → Bool) (addr : Nat) : Option (List α) :=
  (h.blocks addr).bind (upTo isLast)

/-- The cells up to `count` are written one after the other. -/
def fill (h : Heap α) (addr count : Nat) (value : α) : Option (Heap α) :=
  (List.range count).foldlM (fun h i => h.write addr i value) h

@[simp] theorem put_self (h : Heap α) (addr : Nat) (cells : List (Option α)) :
    (h.put addr cells).blocks addr = some cells :=
  Function.update_self addr _ _

@[simp] theorem put_put (h : Heap α) (addr : Nat) (old new : List (Option α)) :
    (h.put addr old).put addr new = h.put addr new :=
  congrArg mk (Function.update_idem _ _ _)

/-- One block alone. -/
theorem isSome_put_empty (addr a : Nat) (cells : List (Option α)) :
    ((empty.put addr cells).blocks a).isSome = true ↔ addr = a := by
  by_cases ha : a = addr
  · subst ha
    simp
  · simp [put, empty, ha, Ne.symm ha]

theorem write_put (h : Heap α) {addr idx : Nat} {cells : List (Option α)} (value : α)
    (hidx : idx < cells.length) :
    (h.put addr cells).write addr idx value = some (h.put addr (cells.set idx (some value))) := by
  rw [write, put_self, Option.bind_some, if_pos hidx, put_put]

/-- A block that is freed leaves the heap as it was before it. -/
theorem free_put {h : Heap α} {addr : Nat} (cells : List (Option α))
    (hfresh : h.blocks addr = none) : (h.put addr cells).free addr = some h := by
  rw [free, put_self, Option.map_some, put, Function.update_idem, ← hfresh,
    Function.update_eq_self]

theorem fill_put (h : Heap α) {addr count : Nat} {cells : List (Option α)} (value : α)
    (hcount : count ≤ cells.length) :
    (h.put addr cells).fill addr count value =
      some (h.put addr (.replicate count (some value) ++ cells.drop count)) := by
  induction count with
  | zero => rfl
  | succ count ih =>
    have hnext : cells.drop count = cells[count] :: cells.drop (count + 1) :=
      List.drop_eq_getElem_cons hcount
    rw [fill] at ih ⊢
    rw [List.range_succ, List.foldlM_append, ih (Nat.le_of_succ_le hcount)]
    refine (Option.bind_some _ _).trans ?_
    rw [List.foldlM_cons, write_put h value (by simp; omega), List.set_append_right _ _ (by simp),
      List.length_replicate, Nat.sub_self, hnext, List.set_cons_zero, List.replicate_succ',
      List.append_assoc]
    rfl

theorem upTo_replicate {isLast : α → Bool} {value : α} (h : isLast value = false) (count : Nat)
    (rest : List (Option α)) :
    upTo isLast (.replicate count (some value) ++ rest) =
      (upTo isLast rest).map (List.replicate count value ++ ·) := by
  induction count with
  | zero => simp
  | succ count ih =>
    rw [List.replicate_succ, List.cons_append, upTo, h, if_neg Bool.false_ne_true, ih,
      Option.map_map]
    rfl

/-- A new array of one value, with a terminator behind. -/
theorem fill_terminated (h : Heap α) (addr count : Nat) (value last : α) :
    (((h.alloc addr (count + 1)).fill addr count value).bind fun h => h.write addr count last) =
      some (h.put addr (.replicate count (some value) ++ [some last])) := by
  have hcells : (List.replicate (count + 1) (none : Option α)).drop count = [none] := by
    rw [List.drop_replicate, Nat.add_sub_cancel_left, List.replicate_one]
  rw [alloc, fill_put h value (by simp), hcells, Option.bind_some, write_put h last (by simp),
    List.set_append_right _ _ (by simp), List.length_replicate, Nat.sub_self, List.set_cons_zero]

theorem readTo_terminated (h : Heap α) (addr count : Nat) {value last : α} {isLast : α → Bool}
    (hvalue : isLast value = false) (hlast : isLast last = true) :
    (h.put addr (.replicate count (some value) ++ [some last])).readTo isLast addr =
      some (.replicate count value) := by
  rw [readTo, put_self, Option.bind_some, upTo_replicate hvalue, upTo, if_pos hlast,
    Option.map_some, List.append_nil]

end Heap

end Firmware
