import Mathlib.Algebra.GroupWithZero.Nat
import Mathlib.Logic.Function.Basic
import MinimalWatch.Runtime.Types

/-! The worker pool and its watchdog, from worker_pool.c and watchdog.c. A worker is the
point its thread has reached in `pool_worker_entry` with the item it holds there; an
abort with a re-creation puts it back to the start. Thread priorities are left out. -/

namespace MinimalWatch.Runtime
open Firmware

abbrev Slot := Fin workerPoolSize

instance : NeZero workerPoolSize := ⟨by decide⟩

inductive WorkerPc
  | waiting
  | dequeued (item : WorkItem)
  | admitted (item : WorkItem)
  | settled (item : WorkItem)
  | counted (item : WorkItem)
  | flagCleared (item : WorkItem)
  | calling (item : WorkItem)
  | running (item : WorkItem)
  | returned (item : WorkItem)
  | softStopped (item : WorkItem)
  | hardStopped (item : WorkItem)
  | unwatched (item : WorkItem)
  | uncounted
  | evaluating (pc : CurfewPc)
  deriving DecidableEq, Repr

structure Worker where
  pc : WorkerPc
  suspended : Bool
  deriving DecidableEq, Repr

structure WorkerPool where
  runtimeMsgq : MsgQueue WorkItem runtimeMsgqSize
  activeWorkerCount : Int
  workers : Slot → Worker

namespace WorkerPool

/-- The pool after `worker_pool_init`: started, then suspended. -/
def init : WorkerPool := ⟨.empty _, 0, fun _ => ⟨.waiting, true⟩⟩

def setPc (p : WorkerPool) (i : Slot) (pc : WorkerPc) : WorkerPool :=
  { p with workers := Function.update p.workers i { p.workers i with pc := pc } }

def enqueueUserItem (p : WorkerPool) (item : WorkItem) : Option WorkerPool :=
  (p.runtimeMsgq.put { item with type := .user }).map fun q => { p with runtimeMsgq := q }

def hasWork (p : WorkerPool) : Bool :=
  decide (p.activeWorkerCount > 0) || decide (p.runtimeMsgq.numUsed > 0)

def purgeQueue (p : WorkerPool) : WorkerPool := { p with runtimeMsgq := p.runtimeMsgq.purge }

def resumeAll (p : WorkerPool) : WorkerPool :=
  { p with workers := fun i => { p.workers i with suspended := false } }

/-- `worker_pool_suspend_all`, called by a worker or from outside the pool. A worker gets as
far as its own slot, where it suspends itself. -/
def suspendAll (p : WorkerPool) (caller : Option Slot) : WorkerPool :=
  { p with workers := fun j =>
      { p.workers j with suspended := caller.all (j ≤ ·) || (p.workers j).suspended } }

/-- What is left of `worker_pool_suspend_all` for worker `i` when it has been resumed. -/
def suspendRest (p : WorkerPool) (i : Slot) : WorkerPool :=
  { p with workers := fun j =>
      { p.workers j with suspended := decide (i < j) || (p.workers j).suspended } }

/-- A fresh thread in the slot; it starts at once, whatever the runtime's state. -/
def recoverStalledRunner (p : WorkerPool) (i : Slot) : WorkerPool :=
  { p with workers := Function.update p.workers i ⟨.waiting, false⟩ }

end WorkerPool

/-- Deadlines of the armed watchdog timers, and the abort flags. When a deadline is past, the
timer's interrupt is still to come, and a stop cancels it. -/
structure Watchdog where
  userAppSoftWd : Slot → Option Nat
  userAppHardWd : Slot → Option Nat
  userAppAbortFlags : Slot → Bool

namespace Watchdog

def init : Watchdog := ⟨fun _ => none, fun _ => none, fun _ => false⟩

def setFlag (w : Watchdog) (i : Slot) (b : Bool) : Watchdog :=
  { w with userAppAbortFlags := Function.update w.userAppAbortFlags i b }

def startSoft (w : Watchdog) (i : Slot) (now : Nat) : Watchdog :=
  { w with
    userAppSoftWd := Function.update w.userAppSoftWd i (some (now + timeoutUserAppSoftMs)) }

def stopSoft (w : Watchdog) (i : Slot) : Watchdog :=
  { w with userAppSoftWd := Function.update w.userAppSoftWd i none }

def startHard (w : Watchdog) (i : Slot) (now : Nat) : Watchdog :=
  { w with
    userAppHardWd := Function.update w.userAppHardWd i (some (now + timeoutUserAppHardMs)) }

def stopHard (w : Watchdog) (i : Slot) : Watchdog :=
  { w with userAppHardWd := Function.update w.userAppHardWd i none }

/-- `watchdog_stop_user_app` as one step. -/
def stopUserApp (w : Watchdog) (i : Slot) : Watchdog := ((w.stopSoft i).stopHard i).setFlag i false

def forceAllCooperativeAbort (w : Watchdog) : Watchdog :=
  { w with userAppAbortFlags := fun _ => true }

/-- `user_app_soft_wd_expiry`: the soft timer has fired. -/
def softExpiry (w : Watchdog) (i : Slot) (now : Nat) : Watchdog :=
  ((w.stopSoft i).setFlag i true).startHard i now

def due (deadline : Option Nat) (now : Nat) : Bool := deadline.any fun d => decide (d ≤ now)

end Watchdog

/-- `user_app_hard_wd_expiry`: the slot's timers are stopped, its thread is aborted and
made anew. -/
def userAppHardWdExpiry (w : Watchdog) (p : WorkerPool) (i : Slot) : Watchdog × WorkerPool :=
  (((w.stopUserApp i).stopUserApp i), p.recoverStalledRunner i)

end MinimalWatch.Runtime
