import MinimalWatch.Runtime.WorkerPool

/-! The runtime manager, from runtime_manager.c and worker_mgmt.c. `System` is all of
the static state with the points its threads and handlers have reached. Each spin-locked
section is one function, for a worker that suspends itself in it up to that point. -/

namespace MinimalWatch.Runtime
open Firmware

inductive MaintPc
  | waiting
  | running (item : WorkItem)
  | returned
  | emptied
  | checkState
  | evaluating (pc : CurfewPc)
  deriving DecidableEq, Repr

/-- The state machine and its two timers. -/
structure Fsm where
  currentState : RuntimeState
  totalWorkWindowTimer : Timer
  gracePeriodTimer : Timer
  deriving DecidableEq, Repr

/-- worker_mgmt.c: the settlement timer and where its handler stands. -/
structure WorkerMgmt where
  curfewSettlementTimer : Timer
  windowStartTime : Int
  handler : Option SettlementPc
  deriving DecidableEq, Repr

structure System where
  now : Nat
  fsm : Fsm
  activeWindowHooks : List CurfewHook
  mgmt : WorkerMgmt
  pool : WorkerPool
  watchdog : Watchdog
  sysMaintMsgq : MsgQueue WorkItem sysMaintMsgqSize
  maint : MaintPc
  /-- Callers of `add_user_work` that have found the runtime awake. -/
  userCallers : List WorkItem

namespace System

/-- The state after `runtime_manager_init`. -/
def init : System where
  now := 0
  fsm := ⟨.sleep, .idle, .idle⟩
  activeWindowHooks := []
  mgmt := ⟨.idle, 0, none⟩
  pool := .init
  watchdog := .init
  sysMaintMsgq := .empty _
  maint := .waiting
  userCallers := []

end System

/-! ### worker_mgmt.c -/

def WorkerMgmt.signalWindowStart (m : WorkerMgmt) (uptime : Int) : WorkerMgmt :=
  { m with windowStartTime := uptime, curfewSettlementTimer := m.curfewSettlementTimer.stop }

def WorkerMgmt.stopTimers (m : WorkerMgmt) : WorkerMgmt :=
  { m with curfewSettlementTimer := m.curfewSettlementTimer.stop }

/-- `runtime_manager_interrupt_settlement` -/
def WorkerMgmt.interruptSettlement (m : WorkerMgmt) : WorkerMgmt :=
  { m with curfewSettlementTimer := m.curfewSettlementTimer.stop }

/-! ### runtime_manager.c -/

/-- `add_user_work` up to its second step; `none` when the item is refused. -/
def addUserWork (rt : System) (item : WorkItem) : Option System :=
  if item.handler = none then none
  else if rt.fsm.currentState = .sleep then none
  else some { rt with userCallers := rt.userCallers ++ [item] }

/-- The second step: the item is put on the queue, or refused when the queue is full. -/
def enqueueUserWork (rt : System) (item : WorkItem) : System :=
  { rt with
    userCallers := rt.userCallers.erase item
    pool := (rt.pool.enqueueUserItem item).getD rt.pool }

def addSystemWork (rt : System) (item : WorkItem) : Option System :=
  if item.handler = none then none
  else (rt.sysMaintMsgq.put { item with type := .system }).map fun q =>
    { rt with sysMaintMsgq := q }

/-- The branch that opens a work window. -/
def openWindow (rt : System) (target : RuntimeState) (hooks : List CurfewHook) : System :=
  { rt with
    fsm := { rt.fsm with
      currentState := target
      totalWorkWindowTimer := rt.fsm.totalWorkWindowTimer.start rt.now target.windowMs }
    mgmt := rt.mgmt.signalWindowStart rt.now
    pool := rt.pool.resumeAll
    activeWindowHooks := hooks.take maxCurfewHooks }

/-- The branch that goes to sleep. -/
def dropToSleep (rt : System) : System :=
  { rt with
    fsm := ⟨.sleep, rt.fsm.totalWorkWindowTimer.stop, rt.fsm.gracePeriodTimer.stop⟩
    mgmt := rt.mgmt.stopTimers
    watchdog := rt.watchdog.forceAllCooperativeAbort
    pool := (rt.pool.suspendAll none).purgeQueue }

def setRuntimeStateWithHooks (rt : System) (target : RuntimeState) (hooks : List CurfewHook) :
    System :=
  if rt.fsm.currentState = target then rt
  else
    match target with
    | .backgroundActive => openWindow rt .backgroundActive hooks
    | .uiActive => openWindow rt .uiActive hooks
    | .sleep => dropToSleep rt
    | .gracePeriod => rt

/-- `caller` is the pool worker that comes here, if it is one. -/
def executeCurfewTransitionLocked (rt : System) (caller : Option Slot) : System :=
  let fsm := { rt.fsm with totalWorkWindowTimer := rt.fsm.totalWorkWindowTimer.stop }
  let mgmt := rt.mgmt.stopTimers
  if rt.activeWindowHooks = [] ∧ rt.pool.hasWork = false then
    { rt with
      fsm := { fsm with currentState := .sleep }
      mgmt := mgmt
      pool := rt.pool.suspendAll caller }
  else
    { rt with
      fsm := { fsm with
        currentState := .gracePeriod
        gracePeriodTimer := rt.fsm.gracePeriodTimer.start rt.now windowGracePeriodMs }
      mgmt := mgmt
      sysMaintMsgq := rt.activeWindowHooks.foldl (fun q hook => q.tryPut (hookItem hook))
        rt.sysMaintMsgq
      activeWindowHooks := [] }

def demoteToCurfew (rt : System) (caller : Option Slot) : System :=
  if rt.fsm.currentState.isActive then executeCurfewTransitionLocked rt caller else rt

def totalWorkWindowExpiry (rt : System) : System :=
  if rt.fsm.currentState.isActive then executeCurfewTransitionLocked rt none else rt

def gracePeriodExpiry (rt : System) : System :=
  if rt.fsm.currentState = .gracePeriod then
    { rt with
      fsm := { rt.fsm with
        currentState := .sleep, gracePeriodTimer := rt.fsm.gracePeriodTimer.stop }
      watchdog := rt.watchdog.forceAllCooperativeAbort
      pool := (rt.pool.suspendAll none).purgeQueue }
  else rt

/-- The locked section of the maintenance thread. -/
def maintCurfewSection (rt : System) : System :=
  if rt.fsm.currentState = .gracePeriod ∧ rt.pool.hasWork = false then
    { rt with
      fsm := { rt.fsm with
        currentState := .sleep, gracePeriodTimer := rt.fsm.gracePeriodTimer.stop }
      watchdog := rt.watchdog.forceAllCooperativeAbort
      pool := rt.pool.suspendAll none }
  else rt

/-! ### Unlocked reads -/

/-- One read of `is_system_completely_idle`; `.inr` is its answer. -/
def idleStep (rt : System) : IdlePc → IdlePc ⊕ Bool
  | .activeCount => if rt.pool.activeWorkerCount > 0 then .inr false else .inl .userQueue
  | .userQueue => if rt.pool.runtimeMsgq.numUsed > 0 then .inr false else .inl .maintQueue
  | .maintQueue => .inr (decide (rt.sysMaintMsgq.numUsed = 0))

/-- One step of `runtime_manager_evaluate_early_curfew`; `none` when it has returned. A worker
that suspends itself is not over with it: the rest comes when it is resumed. -/
def curfewStep (rt : System) (caller : Option Slot) : CurfewPc → System × Option CurfewPc
  | .getState =>
    if rt.fsm.currentState = .sleep then (rt, none)
    else (rt, some (.idle rt.fsm.currentState .activeCount))
  | .idle state pc =>
    match idleStep rt pc with
    | .inl pc' => (rt, some (.idle state pc'))
    | .inr true => (rt, some (.checkTimer state))
    | .inr false => (rt, none)
  | .checkTimer state =>
    if rt.mgmt.curfewSettlementTimer.remaining rt.now then (rt, none)
    else (rt, some (.readClock state))
  | .readClock state =>
    let elapsedNow : Int := rt.now - rt.mgmt.windowStartTime
    let remainingToLimit : Int := state.windowMs - elapsedNow
    if remainingToLimit > 0 then
      let gapDuration : Int := if remainingToLimit < 10 then remainingToLimit else 10
      (rt, some (.arm gapDuration.toNat))
    else (rt, some .demote)
  | .arm gap =>
    ({ rt with
      mgmt := { rt.mgmt with
        curfewSettlementTimer := rt.mgmt.curfewSettlementTimer.start rt.now gap } }, none)
  | .demote =>
    let rt' := demoteToCurfew rt caller
    (rt', if caller.any fun i => (rt'.pool.workers i).suspended then some .suspending else none)
  | .suspending => ({ rt with pool := caller.elim rt.pool rt.pool.suspendRest }, none)

/-- One step of `curfew_settlement_expiry`; `none` when it has returned. -/
def settlementStep (rt : System) : SettlementPc → System × Option SettlementPc
  | .getState =>
    if rt.fsm.currentState = .sleep then (rt, none)
    else (rt, some (.idle rt.fsm.currentState .activeCount))
  | .idle state pc =>
    match idleStep rt pc with
    | .inl pc' => (rt, some (.idle state pc'))
    | .inr true => (rt, some (.act state))
    | .inr false => (rt, none)
  | .act state =>
    if state = .gracePeriod then (setRuntimeStateWithHooks rt .sleep [], none)
    else (demoteToCurfew rt none, none)

end MinimalWatch.Runtime
