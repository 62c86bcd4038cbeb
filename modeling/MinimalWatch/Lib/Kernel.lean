import Mathlib.Data.List.Basic
import Mathlib.Tactic.Common

/-! Two kernel objects. A one-shot timer is armed with a deadline; when the clock gets
there it is disarmed and its expiry handler is pending until it runs. The clock's interrupt
has then taken the timer off its list, so that a stop or a new start finds nothing to cancel
and the handler still runs. Where a deadline alone is kept, the interrupt comes some time
after it, and a stop before that cancels it. A message queue copies values, is first in first
out and refuses a value when it is full. What is handed to a reader that waits is put on the
queue, and the reader's get takes it off. -/

namespace Firmware

structure Timer where
  deadline : Option Nat
  pending : Bool
  deriving DecidableEq, Repr

namespace Timer

def idle : Timer := ⟨none, false⟩

def start (t : Timer) (now duration : Nat) : Timer := { t with deadline := some (now + duration) }

/-- A handler that is pending stays so. -/
def stop (t : Timer) : Timer := { t with deadline := none }

/-- The clock has come to `now`. -/
def advance (t : Timer) (now : Nat) : Timer :=
  match t.deadline with
  | some d => if d ≤ now then ⟨none, true⟩ else t
  | none => t

/-- The expiry handler starts to run. -/
def handle (t : Timer) : Timer := { t with pending := false }

/-- There is time left until the deadline. -/
def remaining (t : Timer) (now : Nat) : Bool := t.deadline.any fun d => decide (now < d)

/-- The timer runs until `due`, or its handler is pending. -/
def DueAt (t : Timer) (now due : Nat) : Prop :=
  (t.deadline = some due ∧ now < due) ∨ t.pending = true

theorem dueAt_start (t : Timer) {now duration : Nat} (h : 0 < duration) :
    (t.start now duration).DueAt now (now + duration) :=
  Or.inl ⟨rfl, by omega⟩

/-- Until its handler is pending there is time left. -/
theorem DueAt.lt {t : Timer} {now due : Nat} (h : t.DueAt now due) (hserved : t.pending = false) :
    now < due := by
  rcases h with ⟨-, hlt⟩ | hpending
  · exact hlt
  · rw [hserved] at hpending
    cases hpending

/-- As time goes by, a timer runs on until its handler is pending. -/
theorem DueAt.advance {t : Timer} {now due : Nat} (h : t.DueAt now due) :
    (t.advance (now + 1)).DueAt (now + 1) due := by
  rcases h with ⟨hdue, hlt⟩ | hpending
  · simp only [Timer.advance, hdue]
    split_ifs with hover
    · exact Or.inr rfl
    · exact Or.inl ⟨hdue, by omega⟩
  · right
    unfold Timer.advance
    cases t.deadline with
    | none => exact hpending
    | some d =>
      simp only
      split_ifs
      · rfl
      · exact hpending

end Timer

structure MsgQueue (α : Type*) (capacity : Nat) where
  items : List α
  bound : items.length ≤ capacity

namespace MsgQueue
variable {α : Type*} {capacity : Nat}

def empty (capacity : Nat) : MsgQueue α capacity := ⟨[], Nat.zero_le _⟩

def numUsed (q : MsgQueue α capacity) : Nat := q.items.length

/-- `none` when the queue is full. -/
def put (q : MsgQueue α capacity) (x : α) : Option (MsgQueue α capacity) :=
  if h : q.items.length < capacity then
    some ⟨q.items ++ [x], by rw [List.length_append, List.length_singleton]; omega⟩
  else none

/-- `none` when the queue is empty. -/
def get (q : MsgQueue α capacity) : Option (α × MsgQueue α capacity) :=
  match h : q.items with
  | [] => none
  | x :: rest => some (x, ⟨rest, by
      have hb := q.bound
      rw [h, List.length_cons] at hb
      omega⟩)

def purge (_ : MsgQueue α capacity) : MsgQueue α capacity := empty capacity

/-- A put whose answer is not looked at. -/
def tryPut (q : MsgQueue α capacity) (x : α) : MsgQueue α capacity := (q.put x).getD q

theorem put_items {q q' : MsgQueue α capacity} {x : α} (h : q.put x = some q') :
    q'.items = q.items ++ [x] := by
  unfold put at h
  split at h
  · rw [← Option.some.inj h]
  · cases h

theorem tryPut_items (q : MsgQueue α capacity) (x : α) :
    (q.tryPut x).items = q.items ++ [x].take (capacity - q.items.length) := by
  unfold tryPut put
  split_ifs with h
  · rw [List.take_of_length_le (by rw [List.length_singleton]; omega)]
    rfl
  · rw [Nat.sub_eq_zero_of_le (by omega)]
    exact (List.append_nil _).symm

/-- Of the values put on a queue without a look at the answers, those that find room
are on it. -/
theorem foldl_tryPut_items {β : Type*} (f : β → α) (xs : List β) (q : MsgQueue α capacity) :
    (xs.foldl (fun q x => q.tryPut (f x)) q).items =
      q.items ++ (xs.map f).take (capacity - q.items.length) := by
  induction xs generalizing q with
  | nil => simp
  | cons x xs ih =>
    rw [List.foldl_cons, ih, tryPut_items, List.append_assoc, List.map_cons]
    congr 1
    cases hroom : capacity - q.items.length with
    | zero => simp [hroom]
    | succ room =>
      have hrest : capacity - (q.items.length + 1) = room := by omega
      simp [hrest]

theorem get_items {q q' : MsgQueue α capacity} {x : α} (h : q.get = some (x, q')) :
    q.items = x :: q'.items := by
  unfold get at h
  split at h
  next => cases h
  next y rest hitems =>
    obtain ⟨rfl, rfl⟩ := Prod.mk.inj (Option.some.inj h)
    exact hitems

end MsgQueue

end Firmware
