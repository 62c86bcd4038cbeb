import Mathlib.Data.Option.Basic
import Mathlib.Tactic.Common

/-! A work item that its queue handles after a delay. It is delayed, then on the queue, then
handled; the handler may schedule it anew. A thread that cancels takes it off and, while the
handler runs, waits. Whether an item that is being canceled can be given a new delay is a
parameter, `rejects` if it cannot. -/

namespace Firmware

@[ext] structure DelayableWork where
  deadline : Option Nat
  queued : Bool
  running : Bool
  canceling : Bool
  deriving DecidableEq, Repr

namespace DelayableWork

def idle : DelayableWork := ⟨none, false, false, false⟩

def isPending (w : DelayableWork) : Bool :=
  w.deadline.isSome || w.queued || w.running || w.canceling

/-- With no delay at all it goes to the queue at once, and a cancel prevents that. -/
def reschedule (w : DelayableWork) (rejects : Bool) (now delay : Nat) : DelayableWork :=
  if delay = 0 then { w with deadline := none, queued := w.queued || !w.canceling }
  else { w with deadline := if rejects && w.canceling then none else some (now + delay) }

/-- The clock has come to `now`. -/
def advance (w : DelayableWork) (now : Nat) : DelayableWork :=
  if w.deadline.any fun d => decide (d ≤ now) then { w with deadline := none, queued := true }
  else w

/-- The queue takes the item and starts the handler. -/
def take (w : DelayableWork) : Option DelayableWork :=
  if w.queued && !w.running then some { w with queued := false, running := true } else none

/-- The handler has returned. -/
def finish (w : DelayableWork) : DelayableWork := { w with running := false, canceling := false }

def cancel (w : DelayableWork) : DelayableWork :=
  { w with deadline := none, queued := false, canceling := w.running }

/-- Its handler will run within `delay`, but for what is on the queue, or runs. -/
structure Scheduled (w : DelayableWork) (now delay : Nat) : Prop where
  notCanceled : w.canceling = false
  soon : (∃ d, w.deadline = some d ∧ d ≤ now + delay) ∨ w.queued = true

theorem Scheduled.isPending {w : DelayableWork} {now delay : Nat} (h : w.Scheduled now delay) :
    w.isPending = true := by
  obtain ⟨d, hd, -⟩ | hqueued := h.soon
  · simp [DelayableWork.isPending, hd]
  · simp [DelayableWork.isPending, hqueued]

theorem Scheduled.advance {w : DelayableWork} {now delay : Nat} (h : w.Scheduled now delay) :
    (w.advance (now + 1)).Scheduled (now + 1) delay := by
  rw [DelayableWork.advance]
  split_ifs
  · exact ⟨h.notCanceled, .inr rfl⟩
  · refine ⟨h.notCanceled, h.soon.imp_left ?_⟩
    rintro ⟨d, hd, hle⟩
    exact ⟨d, hd, Nat.le_trans hle (by omega)⟩

theorem scheduled_reschedule {w : DelayableWork} (rejects : Bool) (now delay : Nat)
    (h : w.canceling = false) : (w.reschedule rejects now delay).Scheduled now delay := by
  rw [reschedule, h, Bool.and_false, if_neg Bool.false_ne_true]
  split_ifs
  · exact ⟨rfl, .inr (Bool.or_true _)⟩
  · exact ⟨rfl, .inl ⟨now + delay, rfl, Nat.le_refl _⟩⟩

/-- While it is being canceled a kernel that rejects leaves it as it is. -/
theorem reschedule_rejected {w : DelayableWork} (now : Nat) {delay : Nat}
    (hdeadline : w.deadline = none) (hcanceling : w.canceling = true) (hdelay : 0 < delay) :
    w.reschedule true now delay = w := by
  rw [reschedule, if_neg (Nat.ne_of_gt hdelay), hcanceling, Bool.and_true, if_pos rfl,
    ← hdeadline, ← hcanceling]

@[simp] theorem advance_running (w : DelayableWork) (now : Nat) :
    (w.advance now).running = w.running := by
  rw [advance]
  split_ifs <;> rfl

@[simp] theorem advance_canceling (w : DelayableWork) (now : Nat) :
    (w.advance now).canceling = w.canceling := by
  rw [advance]
  split_ifs <;> rfl

/-- A canceled item does not come back by itself. -/
theorem advance_of_none {w : DelayableWork} (h : w.deadline = none) (now : Nat) :
    w.advance now = w := by
  rw [advance, h]
  rfl

@[simp] theorem reschedule_running (w : DelayableWork) (rejects : Bool) (now delay : Nat) :
    (w.reschedule rejects now delay).running = w.running := by
  rw [reschedule]
  split_ifs <;> rfl

@[simp] theorem reschedule_canceling (w : DelayableWork) (rejects : Bool) (now delay : Nat) :
    (w.reschedule rejects now delay).canceling = w.canceling := by
  rw [reschedule]
  split_ifs <;> rfl

end DelayableWork

end Firmware
