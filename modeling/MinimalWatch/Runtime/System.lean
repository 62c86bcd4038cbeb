import MinimalWatch.Runtime.Manager

/-! The runtime as a system: the pool workers, the maintenance thread, the timer
handlers and the callers of the runtime, in any order of their steps. A step that is
not possible in a state has no successor. Handlers of work items return when the
environment says so. The callers of the two state functions are no pool workers: these come
to a demotion by their evaluation of the curfew alone. -/

namespace MinimalWatch.Runtime
open Firmware

inductive Action
  | tick
  | setRuntimeState (target : RuntimeState) (hooks : List CurfewHook)
  | demoteToCurfew
  | addUserWork (item : WorkItem)
  | enqueueUserWork (item : WorkItem)
  | addSystemWork (item : WorkItem)
  | totalWorkWindowExpiry
  | gracePeriodExpiry
  | settlementExpiry
  | softWdExpiry (i : Slot)
  | hardWdExpiry (i : Slot)
  | worker (i : Slot)
  | handlerReturns (i : Slot)
  | maint
  | maintHandlerReturns
  deriving DecidableEq, Repr

/-- A millisecond passes; due timers have their handlers pending. -/
def tick (rt : System) : System :=
  { rt with
    now := rt.now + 1
    fsm := { rt.fsm with
      totalWorkWindowTimer := rt.fsm.totalWorkWindowTimer.advance (rt.now + 1)
      gracePeriodTimer := rt.fsm.gracePeriodTimer.advance (rt.now + 1) }
    mgmt := { rt.mgmt with
      curfewSettlementTimer := rt.mgmt.curfewSettlementTimer.advance (rt.now + 1) } }

def System.setWorkerPc (rt : System) (i : Slot) (pc : WorkerPc) : System :=
  { rt with pool := rt.pool.setPc i pc }

/-- The next step of `pool_worker_entry` in slot `i`. -/
def workerStep (rt : System) (i : Slot) : Option System :=
  if (rt.pool.workers i).suspended then none
  else
    match (rt.pool.workers i).pc with
    | .waiting =>
      match rt.pool.runtimeMsgq.get with
      | none => none
      | some (item, q) =>
        some { rt with pool := { rt.pool with runtimeMsgq := q }.setPc i (.dequeued item) }
    | .dequeued item =>
      if rt.fsm.currentState = .sleep then some (rt.setWorkerPc i .waiting)
      else some (rt.setWorkerPc i (.admitted item))
    | .admitted item =>
      some { rt.setWorkerPc i (.settled item) with mgmt := rt.mgmt.interruptSettlement }
    | .settled item =>
      some { rt with
        pool := { rt.pool with
          activeWorkerCount := rt.pool.activeWorkerCount + 1 }.setPc i (.counted item) }
    | .counted item =>
      if item.type = .user then
        some { rt.setWorkerPc i (.flagCleared item) with
          watchdog := rt.watchdog.setFlag i false }
      else some (rt.setWorkerPc i (.calling item))
    | .flagCleared item =>
      some { rt.setWorkerPc i (.calling item) with
        watchdog := rt.watchdog.startSoft i rt.now }
    | .calling item => some (rt.setWorkerPc i (.running item))
    | .running _ => none
    | .returned item =>
      if item.type = .user then
        some { rt.setWorkerPc i (.softStopped item) with watchdog := rt.watchdog.stopSoft i }
      else some (rt.setWorkerPc i (.unwatched item))
    | .softStopped item =>
      some { rt.setWorkerPc i (.hardStopped item) with watchdog := rt.watchdog.stopHard i }
    | .hardStopped item =>
      some { rt.setWorkerPc i (.unwatched item) with watchdog := rt.watchdog.setFlag i false }
    | .unwatched _ =>
      some { rt with
        pool := { rt.pool with
          activeWorkerCount := rt.pool.activeWorkerCount - 1 }.setPc i .uncounted }
    | .uncounted =>
      if rt.pool.activeWorkerCount = 0 then some (rt.setWorkerPc i (.evaluating .getState))
      else some (rt.setWorkerPc i .waiting)
    | .evaluating pc =>
      let (rt', pc') := curfewStep rt (some i) pc
      some (rt'.setWorkerPc i (pc'.elim .waiting .evaluating))

/-- The handler of slot `i` returns. -/
def handlerReturns (rt : System) (i : Slot) : Option System :=
  if (rt.pool.workers i).suspended then none
  else
    match (rt.pool.workers i).pc with
    | .running item => some (rt.setWorkerPc i (.returned item))
    | _ => none

/-- The next step of `sys_maint_thread_entry`. -/
def maintStep (rt : System) : Option System :=
  match rt.maint with
  | .waiting =>
    match rt.sysMaintMsgq.get with
    | none => none
    | some (item, q) => some { rt with sysMaintMsgq := q, maint := .running item }
  | .running _ => none
  | .returned =>
    if rt.sysMaintMsgq.numUsed = 0 then some { rt with maint := .emptied }
    else some { rt with maint := .checkState }
  | .emptied => some { maintCurfewSection rt with maint := .checkState }
  | .checkState =>
    if rt.fsm.currentState.isActive then some { rt with maint := .evaluating .getState }
    else some { rt with maint := .waiting }
  | .evaluating pc =>
    let (rt', pc') := curfewStep rt none pc
    some { rt' with maint := pc'.elim .waiting .evaluating }

def maintHandlerReturns (rt : System) : Option System :=
  match rt.maint with
  | .running _ => some { rt with maint := .returned }
  | _ => none

/-- The settlement handler starts when it is pending, or goes on. -/
def settlementExpiry (rt : System) : Option System :=
  match rt.mgmt.handler with
  | none =>
    if rt.mgmt.curfewSettlementTimer.pending then
      some { rt with
        mgmt := { rt.mgmt with
          curfewSettlementTimer := rt.mgmt.curfewSettlementTimer.handle
          handler := some .getState } }
    else none
  | some pc =>
    let (rt', pc') := settlementStep rt pc
    some { rt' with mgmt := { rt'.mgmt with handler := pc' } }

def step (rt : System) : Action → Option System
  | .tick => some (tick rt)
  | .setRuntimeState target hooks => some (setRuntimeStateWithHooks rt target hooks)
  | .demoteToCurfew => some (demoteToCurfew rt none)
  | .addUserWork item => some ((addUserWork rt item).getD rt)
  | .enqueueUserWork item =>
    if item ∈ rt.userCallers then some (enqueueUserWork rt item) else none
  | .addSystemWork item => some ((addSystemWork rt item).getD rt)
  | .totalWorkWindowExpiry =>
    if rt.fsm.totalWorkWindowTimer.pending then
      some (totalWorkWindowExpiry { rt with
        fsm := { rt.fsm with totalWorkWindowTimer := rt.fsm.totalWorkWindowTimer.handle } })
    else none
  | .gracePeriodExpiry =>
    if rt.fsm.gracePeriodTimer.pending then
      some (gracePeriodExpiry { rt with
        fsm := { rt.fsm with gracePeriodTimer := rt.fsm.gracePeriodTimer.handle } })
    else none
  | .settlementExpiry => settlementExpiry rt
  | .softWdExpiry i =>
    if Watchdog.due (rt.watchdog.userAppSoftWd i) rt.now then
      some { rt with watchdog := rt.watchdog.softExpiry i rt.now }
    else none
  | .hardWdExpiry i =>
    if Watchdog.due (rt.watchdog.userAppHardWd i) rt.now then
      let (watchdog, pool) := userAppHardWdExpiry rt.watchdog rt.pool i
      some { rt with watchdog := watchdog, pool := pool }
    else none
  | .worker i => workerStep rt i
  | .handlerReturns i => handlerReturns rt i
  | .maint => maintStep rt
  | .maintHandlerReturns => maintHandlerReturns rt

end MinimalWatch.Runtime
