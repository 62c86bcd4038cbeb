import MinimalWatch.Lib.Buffer
import MinimalWatch.Lib.Kernel

/-! The work items and states of the runtime, from runtime_types.h. -/

namespace MinimalWatch.Runtime
open Firmware Firmware.Memory

def workerPoolSize : Nat := 10
def timeoutUserAppSoftMs : Nat := 30
def timeoutUserAppHardMs : Nat := 10
def windowBackgroundMaxMs : Nat := 160
def windowGracePeriodMs : Nat := 700
def windowUiMaxMs : Nat := 300
def maxWorkerArgPayload : Nat := 264
def maxCurfewHooks : Nat := 4

/-- Capacities of the two message queues. -/
def runtimeMsgqSize : Nat := 16
def sysMaintMsgqSize : Nat := 12

inductive WorkType
  | system
  | user
  deriving DecidableEq, Repr

inductive RuntimeState
  | sleep
  | backgroundActive
  | gracePeriod
  | uiActive
  deriving DecidableEq, Repr

def RuntimeState.isActive : RuntimeState → Bool
  | .backgroundActive => true
  | .uiActive => true
  | _ => false

/-- How long a window of that state may last. -/
def RuntimeState.windowMs : RuntimeState → Nat
  | .uiActive => windowUiMaxMs
  | _ => windowBackgroundMaxMs

/-- The functions whose addresses the firmware puts into work items. -/
inductive WorkHandler
  | processRxBuffers
  | sendAppUpdate
  | curfewHookAsyncAdapter
  | other (address : Nat)
  deriving DecidableEq, Repr

/-- `arg1` is an address; `argPayload` travels with the item. -/
structure WorkItem where
  type : WorkType
  handler : Option WorkHandler
  arg1 : Nat
  argPayload : Buffer UInt8 maxWorkerArgPayload
  deriving DecidableEq, Repr

/-- The address of a curfew hook; 0 is NULL. -/
abbrev CurfewHook := Nat

def hookItem (hook : CurfewHook) : WorkItem :=
  ⟨.system, some .curfewHookAsyncAdapter, hook, .fill maxWorkerArgPayload 0⟩

/-! Where a thread stands that looks whether the system is idle. -/

/-- The reads of `is_system_completely_idle`, in order. -/
inductive IdlePc
  | activeCount
  | userQueue
  | maintQueue
  deriving DecidableEq, Repr

/-- In `runtime_manager_evaluate_early_curfew`. A worker is `suspending` when it has suspended
itself in `worker_pool_suspend_all`. -/
inductive CurfewPc
  | getState
  | idle (state : RuntimeState) (pc : IdlePc)
  | checkTimer (state : RuntimeState)
  | readClock (state : RuntimeState)
  | arm (gap : Nat)
  | demote
  | suspending
  deriving DecidableEq, Repr

/-- In `curfew_settlement_expiry`. -/
inductive SettlementPc
  | getState
  | idle (state : RuntimeState) (pc : IdlePc)
  | act (state : RuntimeState)
  deriving DecidableEq, Repr

end MinimalWatch.Runtime
