import Mathlib.Data.List.Basic
import Mathlib.Tactic.Common

/-! Ring buffers of `n` slots with a read and a write index, one slot always left
free so that equal indices mean empty. `contents` walks from the read index up to
the write index; each operation on the indices is stated as an operation on that
list. Slots outside the walk keep whatever they held. -/

namespace Firmware

structure RingBuffer (α : Type*) (n : Nat) where
  slots : Vector α n
  readIdx : Nat
  writeIdx : Nat
  read_lt : readIdx < n
  write_lt : writeIdx < n

namespace RingBuffer
variable {α : Type*} {n : Nat}

/-- The slot `k` places after `i`, and the place after it. -/
theorem wrap_succ {i k n : Nat} : ((i + 1) % n + k) % n = (i + (k + 1)) % n := by
  rw [Nat.mod_add_mod]
  congr 1
  omega

theorem wrap_eq {i k n : Nat} (hi : i < n) (hk : k ≤ n) :
    (i + k) % n = if i + k < n then i + k else i + k - n := by
  split_ifs with h
  · exact Nat.mod_eq_of_lt h
  · rw [Nat.mod_eq_sub_mod (by omega), Nat.mod_eq_of_lt (by omega)]

/-- How many slots the walk from the read index to the write index passes. -/
def count (r : RingBuffer α n) : Nat :=
  if r.readIdx ≤ r.writeIdx then r.writeIdx - r.readIdx else r.writeIdx + n - r.readIdx

def slotAt (r : RingBuffer α n) (k : Nat) : α :=
  r.slots[(⟨(r.readIdx + k) % n, Nat.mod_lt _ (by have h := r.read_lt; omega)⟩ : Fin n)]

def contents (r : RingBuffer α n) : List α := (List.range r.count).map r.slotAt

/-- A buffer before its first use. -/
def fresh (n : Nat) (h : 0 < n) (x : α) : RingBuffer α n := ⟨Vector.replicate n x, 0, 0, h, h⟩

@[simp] theorem fresh_contents (h : 0 < n) (x : α) : (fresh n h x).contents = [] := by
  simp [contents, fresh, count]

def isFull (r : RingBuffer α n) : Bool := (r.writeIdx + 1) % n == r.readIdx

def isEmpty (r : RingBuffer α n) : Bool := r.writeIdx == r.readIdx

/-- Give up the oldest slot. -/
def advanceRead (r : RingBuffer α n) : RingBuffer α n :=
  { r with
    readIdx := (r.readIdx + 1) % n
    read_lt := Nat.mod_lt _ (by have h := r.read_lt; omega) }

/-- Rewrite the slot at the write index from what it held, and move past it. -/
def store (r : RingBuffer α n) (f : α → α) : RingBuffer α n :=
  { r with
    slots := r.slots.set r.writeIdx (f (r.slots[(⟨r.writeIdx, r.write_lt⟩ : Fin n)])) r.write_lt
    writeIdx := (r.writeIdx + 1) % n
    write_lt := Nat.mod_lt _ (by have h := r.write_lt; omega) }

def front (r : RingBuffer α n) : α := r.slots[(⟨r.readIdx, r.read_lt⟩ : Fin n)]

@[simp] theorem contents_length (r : RingBuffer α n) : r.contents.length = r.count := by
  simp [contents]

theorem count_lt (r : RingBuffer α n) : r.count < n := by
  have hr := r.read_lt
  have hw := r.write_lt
  unfold count
  split_ifs <;> omega

theorem writeIdx_eq (r : RingBuffer α n) : (r.readIdx + r.count) % n = r.writeIdx := by
  have hr := r.read_lt
  have hw := r.write_lt
  have hc := r.count_lt
  rw [wrap_eq hr (by omega)]
  unfold count
  split_ifs <;> omega

theorem isEmpty_iff (r : RingBuffer α n) : r.isEmpty = true ↔ r.contents = [] := by
  have hr := r.read_lt
  have hw := r.write_lt
  rw [← List.length_eq_zero_iff, contents_length, isEmpty, beq_iff_eq, count]
  split_ifs <;> omega

theorem isFull_iff (r : RingBuffer α n) : r.isFull = true ↔ r.contents.length + 1 = n := by
  have hr := r.read_lt
  have hw := r.write_lt
  rw [contents_length, isFull, beq_iff_eq, wrap_eq hw (by omega), count]
  split_ifs <;> omega

theorem count_advanceRead (r : RingBuffer α n) (h : 0 < r.count) :
    r.advanceRead.count + 1 = r.count := by
  have hr := r.read_lt
  have hw := r.write_lt
  have hread : r.advanceRead.readIdx = _ := wrap_eq hr (by omega : 1 ≤ n)
  have hwrite : r.advanceRead.writeIdx = r.writeIdx := rfl
  unfold count at h ⊢
  split_ifs at h hread ⊢ <;> omega

theorem slotAt_advanceRead (r : RingBuffer α n) (k : Nat) :
    r.advanceRead.slotAt k = r.slotAt (k + 1) := by
  simp only [slotAt, advanceRead, wrap_succ]

theorem contents_eq_cons (r : RingBuffer α n) (h : 0 < r.count) :
    r.contents = r.front :: r.advanceRead.contents := by
  have hr := r.read_lt
  rw [contents, ← count_advanceRead r h, List.range_succ_eq_map, List.map_cons, List.map_map,
    contents]
  have hfront : r.slotAt 0 = r.front := by
    simp only [slotAt, front, Nat.add_zero, Nat.mod_eq_of_lt hr]
  rw [hfront]
  congr 1
  exact List.map_congr_left fun k _ => (slotAt_advanceRead r k).symm

theorem count_store (r : RingBuffer α n) (f : α → α) (h : r.count + 1 < n) :
    (r.store f).count = r.count + 1 := by
  have hr := r.read_lt
  have hw := r.write_lt
  have hwrite : (r.store f).writeIdx = _ := wrap_eq hw (by omega : 1 ≤ n)
  have hread : (r.store f).readIdx = r.readIdx := rfl
  unfold count at h ⊢
  split_ifs at h hwrite ⊢ <;> omega

/-- The slots of the walk are not the one at the write index. -/
theorem slotAt_store_of_lt (r : RingBuffer α n) (f : α → α) {k : Nat} (hk : k < r.count) :
    (r.store f).slotAt k = r.slotAt k := by
  have hne : r.writeIdx ≠ (r.readIdx + k) % n := by
    have hr := r.read_lt
    have hc := r.count_lt
    rw [← r.writeIdx_eq, wrap_eq hr (by omega), wrap_eq hr (by omega)]
    split_ifs <;> omega
  simp only [slotAt, store, Fin.getElem_fin]
  exact Vector.getElem_set_ne r.write_lt _ hne

theorem slotAt_store_count (r : RingBuffer α n) (f : α → α) :
    (r.store f).slotAt r.count = f (r.slots[(⟨r.writeIdx, r.write_lt⟩ : Fin n)]) := by
  have h := r.writeIdx_eq
  simp only [slotAt, store, h, Fin.getElem_fin, Vector.getElem_set_self]

/-- Storing into a ring with room appends the slot that was rewritten. -/
theorem contents_store (r : RingBuffer α n) (f : α → α) (h : r.count + 1 < n) :
    (r.store f).contents = r.contents ++ [f (r.slots[(⟨r.writeIdx, r.write_lt⟩ : Fin n)])] := by
  rw [contents, count_store r f h, List.range_succ, List.map_append, contents]
  congr 1
  · exact List.map_congr_left fun k hk => slotAt_store_of_lt r f (List.mem_range.mp hk)
  · rw [List.map_singleton, slotAt_store_count]

/-- A bounded queue of capacity `n` on lists: an add to a full queue evicts the oldest. -/
def pushBounded (n : Nat) (queue : List α) (x : α) : List α :=
  (if queue.length = n then queue.tail else queue) ++ [x]

/-- An add to a full queue takes the oldest element off it. -/
theorem pushBounded_split (n : Nat) (queue : List α) (x : α) :
    (if queue.length = n then queue.take 1 else []) ++ pushBounded n queue x = queue ++ [x] := by
  rw [pushBounded]
  split_ifs with hfull
  · cases queue <;> rfl
  · rfl

theorem pushBounded_length_le (n : Nat) (queue : List α) (x : α) :
    (pushBounded n queue x).length ≤ queue.length + 1 := by
  rw [pushBounded]
  split_ifs <;> simp

theorem mem_pushBounded {n : Nat} {queue : List α} {x y : α} (h : y ∈ pushBounded n queue x) :
    y ∈ queue ∨ y = x := by
  rw [pushBounded] at h
  rcases List.mem_append.mp h with hold | hnew
  · split_ifs at hold
    · exact Or.inl (List.mem_of_mem_tail hold)
    · exact Or.inl hold
  · exact Or.inr (List.mem_singleton.mp hnew)

/-- Below its capacity a bounded queue is an unbounded one. -/
theorem foldl_pushBounded {n : Nat} {queue xs : List α} (h : queue.length + xs.length ≤ n) :
    xs.foldl (pushBounded n) queue = queue ++ xs := by
  induction xs generalizing queue with
  | nil => simp
  | cons x xs ih =>
    have hlt : queue.length ≠ n := by
      simp only [List.length_cons] at h
      omega
    have hx : pushBounded n queue x = queue ++ [x] := by simp [pushBounded, hlt]
    rw [List.foldl_cons, hx, ih]
    · simp
    · simp only [List.length_append, List.length_cons, List.length_nil] at h ⊢
      omega

end RingBuffer

end Firmware
