import MinimalWatch.Runtime.System

/-! What each thread can do in one step, said once. `WorkerMove` and `MaintMove` list the
steps of a pool worker and of the maintenance thread with the state each leads to,
`StepMove` the steps of the whole system. `SystemMove` is about user work: a step leaves
it alone, or is one of five. -/

namespace MinimalWatch.Runtime
open Firmware

inductive WorkerMove (rt : System) (i : Slot) : System → Prop
  | take {item : WorkItem} {q : MsgQueue WorkItem runtimeMsgqSize}
      (hpc : (rt.pool.workers i).pc = .waiting)
      (hget : rt.pool.runtimeMsgq.get = some (item, q)) :
      WorkerMove rt i
        { rt with pool := { rt.pool with runtimeMsgq := q }.setPc i (.dequeued item) }
  | discard {item : WorkItem} (hpc : (rt.pool.workers i).pc = .dequeued item)
      (hstate : rt.fsm.currentState = .sleep) : WorkerMove rt i (rt.setWorkerPc i .waiting)
  | goOn {item : WorkItem} (hpc : (rt.pool.workers i).pc = .dequeued item)
      (hstate : rt.fsm.currentState ≠ .sleep) :
      WorkerMove rt i (rt.setWorkerPc i (.admitted item))
  | interrupt {item : WorkItem} (hpc : (rt.pool.workers i).pc = .admitted item) :
      WorkerMove rt i
        { rt.setWorkerPc i (.settled item) with mgmt := rt.mgmt.interruptSettlement }
  | count {item : WorkItem} (hpc : (rt.pool.workers i).pc = .settled item) :
      WorkerMove rt i
        { rt with
          pool := { rt.pool with
            activeWorkerCount := rt.pool.activeWorkerCount + 1 }.setPc i (.counted item) }
  | clearFlag {item : WorkItem} (hpc : (rt.pool.workers i).pc = .counted item)
      (htype : item.type = .user) :
      WorkerMove rt i
        { rt.setWorkerPc i (.flagCleared item) with watchdog := rt.watchdog.setFlag i false }
  | unwatchedCall {item : WorkItem} (hpc : (rt.pool.workers i).pc = .counted item)
      (htype : item.type ≠ .user) : WorkerMove rt i (rt.setWorkerPc i (.calling item))
  | startSoft {item : WorkItem} (hpc : (rt.pool.workers i).pc = .flagCleared item) :
      WorkerMove rt i
        { rt.setWorkerPc i (.calling item) with watchdog := rt.watchdog.startSoft i rt.now }
  | call {item : WorkItem} (hpc : (rt.pool.workers i).pc = .calling item) :
      WorkerMove rt i (rt.setWorkerPc i (.running item))
  | stopSoft {item : WorkItem} (hpc : (rt.pool.workers i).pc = .returned item)
      (htype : item.type = .user) :
      WorkerMove rt i
        { rt.setWorkerPc i (.softStopped item) with watchdog := rt.watchdog.stopSoft i }
  | unwatchedReturn {item : WorkItem} (hpc : (rt.pool.workers i).pc = .returned item)
      (htype : item.type ≠ .user) : WorkerMove rt i (rt.setWorkerPc i (.unwatched item))
  | stopHard {item : WorkItem} (hpc : (rt.pool.workers i).pc = .softStopped item) :
      WorkerMove rt i
        { rt.setWorkerPc i (.hardStopped item) with watchdog := rt.watchdog.stopHard i }
  | clearStop {item : WorkItem} (hpc : (rt.pool.workers i).pc = .hardStopped item) :
      WorkerMove rt i
        { rt.setWorkerPc i (.unwatched item) with watchdog := rt.watchdog.setFlag i false }
  | uncount {item : WorkItem} (hpc : (rt.pool.workers i).pc = .unwatched item) :
      WorkerMove rt i
        { rt with
          pool := { rt.pool with
            activeWorkerCount := rt.pool.activeWorkerCount - 1 }.setPc i .uncounted }
  | evaluate (hpc : (rt.pool.workers i).pc = .uncounted)
      (hcount : rt.pool.activeWorkerCount = 0) :
      WorkerMove rt i (rt.setWorkerPc i (.evaluating .getState))
  | loop (hpc : (rt.pool.workers i).pc = .uncounted)
      (hcount : rt.pool.activeWorkerCount ≠ 0) : WorkerMove rt i (rt.setWorkerPc i .waiting)
  | curfew {pc : CurfewPc} (hpc : (rt.pool.workers i).pc = .evaluating pc) :
      WorkerMove rt i ((curfewStep rt (some i) pc).1.setWorkerPc i
        ((curfewStep rt (some i) pc).2.elim .waiting .evaluating))

theorem workerStep_move {rt rt' : System} {i : Slot} (h : workerStep rt i = some rt') :
    (rt.pool.workers i).suspended = false ∧ WorkerMove rt i rt' := by
  unfold workerStep at h
  cases hsuspended : (rt.pool.workers i).suspended with
  | true => simp [hsuspended] at h
  | false =>
    refine ⟨rfl, ?_⟩
    rw [hsuspended, if_neg Bool.false_ne_true] at h
    cases hpc : (rt.pool.workers i).pc <;> simp only [hpc] at h
    case waiting =>
      split at h
      · cases h
      · rw [← Option.some.inj h]
        exact .take hpc ‹_›
    case dequeued item =>
      split at h
      · rw [← Option.some.inj h]
        exact .discard hpc ‹_›
      · rw [← Option.some.inj h]
        exact .goOn hpc ‹_›
    case counted item =>
      split at h
      · rw [← Option.some.inj h]
        exact .clearFlag hpc ‹_›
      · rw [← Option.some.inj h]
        exact .unwatchedCall hpc ‹_›
    case returned item =>
      split at h
      · rw [← Option.some.inj h]
        exact .stopSoft hpc ‹_›
      · rw [← Option.some.inj h]
        exact .unwatchedReturn hpc ‹_›
    case uncounted =>
      split at h
      · rw [← Option.some.inj h]
        exact .evaluate hpc ‹_›
      · rw [← Option.some.inj h]
        exact .loop hpc ‹_›
    case running item => cases h
    case admitted item => rw [← Option.some.inj h]; exact .interrupt hpc
    case settled item => rw [← Option.some.inj h]; exact .count hpc
    case flagCleared item => rw [← Option.some.inj h]; exact .startSoft hpc
    case calling item => rw [← Option.some.inj h]; exact .call hpc
    case softStopped item => rw [← Option.some.inj h]; exact .stopHard hpc
    case hardStopped item => rw [← Option.some.inj h]; exact .clearStop hpc
    case unwatched item => rw [← Option.some.inj h]; exact .uncount hpc
    case evaluating pc => rw [← Option.some.inj h]; exact .curfew hpc

theorem handlerReturns_some {rt rt' : System} {i : Slot} (h : handlerReturns rt i = some rt') :
    ∃ item, (rt.pool.workers i).pc = .running item ∧ rt' = rt.setWorkerPc i (.returned item) := by
  unfold handlerReturns at h
  split at h
  · cases h
  · split at h
    next item hpc => exact ⟨item, hpc, (Option.some.inj h).symm⟩
    next => cases h

inductive MaintMove (rt : System) : System → Prop
  | take {item : WorkItem} {q : MsgQueue WorkItem sysMaintMsgqSize}
      (hpc : rt.maint = .waiting) (hget : rt.sysMaintMsgq.get = some (item, q)) :
      MaintMove rt { rt with sysMaintMsgq := q, maint := .running item }
  | look (hpc : rt.maint = .returned) (hempty : rt.sysMaintMsgq.numUsed = 0) :
      MaintMove rt { rt with maint := .emptied }
  | skip (hpc : rt.maint = .returned) (hmore : rt.sysMaintMsgq.numUsed ≠ 0) :
      MaintMove rt { rt with maint := .checkState }
  | lockedSection (hpc : rt.maint = .emptied) :
      MaintMove rt { maintCurfewSection rt with maint := .checkState }
  | evaluate (hpc : rt.maint = .checkState) (hactive : rt.fsm.currentState.isActive = true) :
      MaintMove rt { rt with maint := .evaluating .getState }
  | loop (hpc : rt.maint = .checkState) (hinactive : rt.fsm.currentState.isActive = false) :
      MaintMove rt { rt with maint := .waiting }
  | curfew {pc : CurfewPc} (hpc : rt.maint = .evaluating pc) :
      MaintMove rt { (curfewStep rt none pc).1 with
        maint := (curfewStep rt none pc).2.elim .waiting .evaluating }

theorem maintStep_move {rt rt' : System} (h : maintStep rt = some rt') : MaintMove rt rt' := by
  unfold maintStep at h
  cases hpc : rt.maint <;> simp only [hpc] at h
  case waiting =>
    split at h
    · cases h
    · rw [← Option.some.inj h]
      exact .take hpc ‹_›
  case running item => cases h
  case returned =>
    split at h
    · rw [← Option.some.inj h]
      exact .look hpc ‹_›
    · rw [← Option.some.inj h]
      exact .skip hpc ‹_›
  case emptied =>
    rw [← Option.some.inj h]
    exact .lockedSection hpc
  case checkState =>
    split at h
    · rw [← Option.some.inj h]
      exact .evaluate hpc ‹_›
    · rw [← Option.some.inj h]
      exact .loop hpc (Bool.eq_false_iff.mpr ‹_›)
  case evaluating pc =>
    rw [← Option.some.inj h]
    exact .curfew hpc

theorem maintHandlerReturns_some {rt rt' : System} (h : maintHandlerReturns rt = some rt') :
    ∃ item, rt.maint = .running item ∧ rt' = { rt with maint := .returned } := by
  unfold maintHandlerReturns at h
  split at h
  next item hpc => exact ⟨item, hpc, (Option.some.inj h).symm⟩
  next => cases h

/-- An evaluation of the curfew reads, and at its end arms the timer or demotes; a worker that
has suspended itself then suspends the later slots. -/
theorem curfewStep_cases (rt : System) (caller : Option Slot) (pc : CurfewPc) :
    (curfewStep rt caller pc).1 = rt ∨
      (∃ gap, pc = .arm gap ∧ (curfewStep rt caller pc).1 = { rt with
        mgmt := { rt.mgmt with
          curfewSettlementTimer := rt.mgmt.curfewSettlementTimer.start rt.now gap } }) ∨
      (pc = .demote ∧ (curfewStep rt caller pc).1 = demoteToCurfew rt caller) ∨
      (∃ i, pc = .suspending ∧ caller = some i ∧
        (curfewStep rt caller pc).1 = { rt with pool := rt.pool.suspendRest i }) := by
  cases pc with
  | demote => exact Or.inr (Or.inr (Or.inl ⟨rfl, rfl⟩))
  | arm gap => exact Or.inr (Or.inl ⟨gap, rfl, rfl⟩)
  | suspending =>
    cases caller with
    | none => exact Or.inl rfl
    | some i => exact Or.inr (Or.inr (Or.inr ⟨i, rfl, rfl, rfl⟩))
  | getState =>
    left
    simp only [curfewStep]
    split <;> rfl
  | idle state pc =>
    left
    simp only [curfewStep]
    split <;> rfl
  | checkTimer state =>
    left
    simp only [curfewStep]
    split <;> rfl
  | readClock state =>
    left
    simp only [curfewStep]
    split <;> rfl

/-- The settlement handler reads, and at its end goes to sleep or demotes. -/
theorem settlementStep_cases (rt : System) (pc : SettlementPc) :
    (settlementStep rt pc).1 = rt ∨
      (pc = .act .gracePeriod ∧
        (settlementStep rt pc).1 = setRuntimeStateWithHooks rt .sleep []) ∨
      (∃ state, pc = .act state ∧ state ≠ .gracePeriod ∧
        (settlementStep rt pc).1 = demoteToCurfew rt none) := by
  cases pc with
  | getState =>
    left
    simp only [settlementStep]
    split <;> rfl
  | idle state pc =>
    left
    simp only [settlementStep]
    split <;> rfl
  | act state =>
    right
    by_cases h : state = .gracePeriod
    · subst h
      exact Or.inl ⟨rfl, rfl⟩
    · exact Or.inr ⟨state, rfl, h, by simp [settlementStep, h]⟩

/-- The step of each action, with what it needs to be possible. -/
inductive StepMove (rt : System) : Action → System → Prop
  | tick : StepMove rt .tick (tick rt)
  | setRuntimeState (target : RuntimeState) (hooks : List CurfewHook) :
      StepMove rt (.setRuntimeState target hooks) (setRuntimeStateWithHooks rt target hooks)
  | demoteToCurfew : StepMove rt .demoteToCurfew (demoteToCurfew rt none)
  | addUserWork (item : WorkItem) :
      StepMove rt (.addUserWork item) ((addUserWork rt item).getD rt)
  | enqueueUserWork {item : WorkItem} (hmem : item ∈ rt.userCallers) :
      StepMove rt (.enqueueUserWork item) (enqueueUserWork rt item)
  | addSystemWork (item : WorkItem) :
      StepMove rt (.addSystemWork item) ((addSystemWork rt item).getD rt)
  | totalWorkWindowExpiry (hpending : rt.fsm.totalWorkWindowTimer.pending = true) :
      StepMove rt .totalWorkWindowExpiry (totalWorkWindowExpiry { rt with
        fsm := { rt.fsm with totalWorkWindowTimer := rt.fsm.totalWorkWindowTimer.handle } })
  | gracePeriodExpiry (hpending : rt.fsm.gracePeriodTimer.pending = true) :
      StepMove rt .gracePeriodExpiry (gracePeriodExpiry { rt with
        fsm := { rt.fsm with gracePeriodTimer := rt.fsm.gracePeriodTimer.handle } })
  | settlementStart (hnone : rt.mgmt.handler = none)
      (hpending : rt.mgmt.curfewSettlementTimer.pending = true) :
      StepMove rt .settlementExpiry { rt with
        mgmt := { rt.mgmt with
          curfewSettlementTimer := rt.mgmt.curfewSettlementTimer.handle
          handler := some .getState } }
  | settlementGoesOn {pc : SettlementPc} (hpc : rt.mgmt.handler = some pc) :
      StepMove rt .settlementExpiry { (settlementStep rt pc).1 with
        mgmt := { (settlementStep rt pc).1.mgmt with handler := (settlementStep rt pc).2 } }
  | softWdExpiry {i : Slot}
      (hdue : Watchdog.due (rt.watchdog.userAppSoftWd i) rt.now = true) :
      StepMove rt (.softWdExpiry i) { rt with watchdog := rt.watchdog.softExpiry i rt.now }
  | hardWdExpiry {i : Slot}
      (hdue : Watchdog.due (rt.watchdog.userAppHardWd i) rt.now = true) :
      StepMove rt (.hardWdExpiry i)
        { rt with
          watchdog := (userAppHardWdExpiry rt.watchdog rt.pool i).1
          pool := rt.pool.recoverStalledRunner i }
  | worker {i : Slot} {rt' : System} (hrunnable : (rt.pool.workers i).suspended = false)
      (h : WorkerMove rt i rt') : StepMove rt (.worker i) rt'
  | handlerReturns {i : Slot} {item : WorkItem}
      (hpc : (rt.pool.workers i).pc = .running item) :
      StepMove rt (.handlerReturns i) (rt.setWorkerPc i (.returned item))
  | maint {rt' : System} (h : MaintMove rt rt') : StepMove rt .maint rt'
  | maintHandlerReturns {item : WorkItem} (hpc : rt.maint = .running item) :
      StepMove rt .maintHandlerReturns { rt with maint := .returned }

theorem settlementExpiry_move {rt rt' : System} (h : settlementExpiry rt = some rt') :
    StepMove rt .settlementExpiry rt' := by
  unfold settlementExpiry at h
  split at h
  next hnone =>
    split at h
    next hpending =>
      rw [← Option.some.inj h]
      exact .settlementStart hnone hpending
    next => cases h
  next pc hpc =>
    rw [← Option.some.inj h]
    exact .settlementGoesOn hpc

theorem step_cases {rt rt' : System} {action : Action} (h : step rt action = some rt') :
    StepMove rt action rt' := by
  cases action with
  | tick =>
    rw [← Option.some.inj h]
    exact .tick
  | setRuntimeState target hooks =>
    rw [← Option.some.inj h]
    exact .setRuntimeState target hooks
  | demoteToCurfew =>
    rw [← Option.some.inj h]
    exact .demoteToCurfew
  | addUserWork item =>
    rw [← Option.some.inj h]
    exact .addUserWork item
  | enqueueUserWork item =>
    obtain ⟨hmem, hrt⟩ := Option.ite_none_right_eq_some.mp h
    rw [← Option.some.inj hrt]
    exact .enqueueUserWork hmem
  | addSystemWork item =>
    rw [← Option.some.inj h]
    exact .addSystemWork item
  | totalWorkWindowExpiry =>
    obtain ⟨hpending, hrt⟩ := Option.ite_none_right_eq_some.mp h
    rw [← Option.some.inj hrt]
    exact .totalWorkWindowExpiry hpending
  | gracePeriodExpiry =>
    obtain ⟨hpending, hrt⟩ := Option.ite_none_right_eq_some.mp h
    rw [← Option.some.inj hrt]
    exact .gracePeriodExpiry hpending
  | settlementExpiry => exact settlementExpiry_move h
  | softWdExpiry i =>
    obtain ⟨hdue, hrt⟩ := Option.ite_none_right_eq_some.mp h
    rw [← Option.some.inj hrt]
    exact .softWdExpiry hdue
  | hardWdExpiry i =>
    obtain ⟨hdue, hrt⟩ := Option.ite_none_right_eq_some.mp h
    rw [← Option.some.inj hrt]
    exact .hardWdExpiry hdue
  | worker i => exact .worker (workerStep_move h).1 (workerStep_move h).2
  | handlerReturns i =>
    obtain ⟨item, hpc, rfl⟩ := handlerReturns_some h
    exact .handlerReturns hpc
  | maint => exact .maint (maintStep_move h)
  | maintHandlerReturns =>
    obtain ⟨item, hpc, rfl⟩ := maintHandlerReturns_some h
    exact .maintHandlerReturns hpc

/-! ### User work -/

/-- The counter, the callers and what the workers do are as before; the queue may have
been purged. -/
structure KeepsWork (rt rt' : System) : Prop where
  count : rt'.pool.activeWorkerCount = rt.pool.activeWorkerCount
  pcs : ∀ i, (rt'.pool.workers i).pc = (rt.pool.workers i).pc
  queue : rt'.pool.runtimeMsgq.items = rt.pool.runtimeMsgq.items ∨
    rt'.pool.runtimeMsgq.items = []
  callers : rt'.userCallers = rt.userCallers

theorem KeepsWork.of_pool {rt rt' : System} (hpool : rt'.pool = rt.pool)
    (hcallers : rt'.userCallers = rt.userCallers) : KeepsWork rt rt' :=
  ⟨by rw [hpool], fun i => by rw [hpool], Or.inl (by rw [hpool]), hcallers⟩

theorem addSystemWork_keeps (rt : System) (item : WorkItem) :
    KeepsWork rt ((addSystemWork rt item).getD rt) := by
  unfold addSystemWork
  split_ifs
  · exact .of_pool rfl rfl
  · cases rt.sysMaintMsgq.put { item with type := .system } <;> exact .of_pool rfl rfl

theorem setRuntimeState_keeps (rt : System) (target : RuntimeState) (hooks : List CurfewHook) :
    KeepsWork rt (setRuntimeStateWithHooks rt target hooks) := by
  unfold setRuntimeStateWithHooks
  split_ifs
  · exact .of_pool rfl rfl
  · cases target with
    | sleep => exact ⟨rfl, fun _ => rfl, Or.inr rfl, rfl⟩
    | backgroundActive => exact ⟨rfl, fun _ => rfl, Or.inl rfl, rfl⟩
    | gracePeriod => exact .of_pool rfl rfl
    | uiActive => exact ⟨rfl, fun _ => rfl, Or.inl rfl, rfl⟩

theorem curfewTransition_keeps (rt : System) (caller : Option Slot) :
    KeepsWork rt (executeCurfewTransitionLocked rt caller) := by
  rw [executeCurfewTransitionLocked]
  split_ifs
  · exact ⟨rfl, fun _ => rfl, Or.inl rfl, rfl⟩
  · exact .of_pool rfl rfl

theorem demoteToCurfew_keeps (rt : System) (caller : Option Slot) :
    KeepsWork rt (demoteToCurfew rt caller) := by
  rw [demoteToCurfew]
  split_ifs
  · exact curfewTransition_keeps rt caller
  · exact .of_pool rfl rfl

theorem totalWorkWindowExpiry_keeps (rt : System) : KeepsWork rt (totalWorkWindowExpiry rt) := by
  rw [totalWorkWindowExpiry]
  split_ifs
  · exact curfewTransition_keeps rt none
  · exact .of_pool rfl rfl

theorem gracePeriodExpiry_keeps (rt : System) : KeepsWork rt (gracePeriodExpiry rt) := by
  rw [gracePeriodExpiry]
  split_ifs
  · exact ⟨rfl, fun _ => rfl, Or.inr rfl, rfl⟩
  · exact .of_pool rfl rfl

theorem maintCurfewSection_keeps (rt : System) : KeepsWork rt (maintCurfewSection rt) := by
  rw [maintCurfewSection]
  split_ifs
  · exact ⟨rfl, fun _ => rfl, Or.inl rfl, rfl⟩
  · exact .of_pool rfl rfl

theorem curfewStep_keeps (rt : System) (caller : Option Slot) (pc : CurfewPc) :
    KeepsWork rt (curfewStep rt caller pc).1 := by
  rcases curfewStep_cases rt caller pc with
    hsame | ⟨gap, -, harm⟩ | ⟨-, hdemote⟩ | ⟨i, -, -, hrest⟩
  · rw [hsame]
    exact .of_pool rfl rfl
  · rw [harm]
    exact .of_pool rfl rfl
  · rw [hdemote]
    exact demoteToCurfew_keeps rt caller
  · rw [hrest]
    exact ⟨rfl, fun _ => rfl, Or.inl rfl, rfl⟩

theorem settlementStep_keeps (rt : System) (pc : SettlementPc) :
    KeepsWork rt (settlementStep rt pc).1 := by
  rcases settlementStep_cases rt pc with hsame | ⟨-, hsleep⟩ | ⟨state, -, -, hdemote⟩
  · rw [hsame]
    exact .of_pool rfl rfl
  · rw [hsleep]
    exact setRuntimeState_keeps rt _ _
  · rw [hdemote]
    exact demoteToCurfew_keeps rt none

theorem KeepsWork.with_maint {rt rt' : System} (h : KeepsWork rt rt') (pc : MaintPc) :
    KeepsWork rt { rt' with maint := pc } := ⟨h.count, h.pcs, h.queue, h.callers⟩

theorem MaintMove.keeps {rt rt' : System} (h : MaintMove rt rt') : KeepsWork rt rt' := by
  cases h with
  | lockedSection hpc => exact (maintCurfewSection_keeps rt).with_maint _
  | curfew hpc => exact (curfewStep_keeps rt none _).with_maint _
  | _ => exact .of_pool rfl rfl

/-- A worker's step leaves the other workers where they are. -/
theorem WorkerMove.others {rt rt' : System} {i : Slot} (h : WorkerMove rt i rt') {j : Slot}
    (hj : j ≠ i) : (rt'.pool.workers j).pc = (rt.pool.workers j).pc := by
  cases h with
  | @curfew pc hpc =>
    rw [← (curfewStep_keeps rt (some i) pc).pcs j]
    simp [System.setWorkerPc, WorkerPool.setPc, hj]
  | _ => simp [System.setWorkerPc, WorkerPool.setPc, hj]

inductive SystemMove (rt : System) : Action → System → Prop
  | keeps {action : Action} {rt' : System} (h : KeepsWork rt rt')
      (hnot : ∀ i, action ≠ .hardWdExpiry i) : SystemMove rt action rt'
  | worker {i : Slot} {rt' : System} (hrunnable : (rt.pool.workers i).suspended = false)
      (h : WorkerMove rt i rt') : SystemMove rt (.worker i) rt'
  | returns {i : Slot} {item : WorkItem} (hpc : (rt.pool.workers i).pc = .running item) :
      SystemMove rt (.handlerReturns i) (rt.setWorkerPc i (.returned item))
  | submit {item : WorkItem} (hstate : rt.fsm.currentState ≠ .sleep) :
      SystemMove rt (.addUserWork item) { rt with userCallers := rt.userCallers ++ [item] }
  | enqueue {item : WorkItem} (hmem : item ∈ rt.userCallers) :
      SystemMove rt (.enqueueUserWork item) (enqueueUserWork rt item)
  | abort {i : Slot} (hdue : Watchdog.due (rt.watchdog.userAppHardWd i) rt.now = true) :
      SystemMove rt (.hardWdExpiry i)
        { rt with
          watchdog := (userAppHardWdExpiry rt.watchdog rt.pool i).1
          pool := rt.pool.recoverStalledRunner i }

theorem addUserWork_move (rt : System) (item : WorkItem) :
    SystemMove rt (.addUserWork item) ((addUserWork rt item).getD rt) := by
  unfold addUserWork
  split_ifs with hnull hstate
  · exact .keeps (.of_pool rfl rfl) (by simp)
  · exact .keeps (.of_pool rfl rfl) (by simp)
  · exact .submit hstate

theorem step_move {rt rt' : System} {action : Action} (h : step rt action = some rt') :
    SystemMove rt action rt' := by
  cases step_cases h with
  | setRuntimeState target hooks => exact .keeps (setRuntimeState_keeps rt target hooks) (by simp)
  | demoteToCurfew => exact .keeps (demoteToCurfew_keeps rt none) (by simp)
  | addUserWork item => exact addUserWork_move rt item
  | enqueueUserWork hmem => exact .enqueue hmem
  | addSystemWork item => exact .keeps (addSystemWork_keeps rt item) (by simp)
  | totalWorkWindowExpiry hpending =>
    have hkeeps := totalWorkWindowExpiry_keeps { rt with
      fsm := { rt.fsm with totalWorkWindowTimer := rt.fsm.totalWorkWindowTimer.handle } }
    exact .keeps ⟨hkeeps.count, hkeeps.pcs, hkeeps.queue, hkeeps.callers⟩ (by simp)
  | gracePeriodExpiry hpending =>
    have hkeeps := gracePeriodExpiry_keeps { rt with
      fsm := { rt.fsm with gracePeriodTimer := rt.fsm.gracePeriodTimer.handle } }
    exact .keeps ⟨hkeeps.count, hkeeps.pcs, hkeeps.queue, hkeeps.callers⟩ (by simp)
  | @settlementGoesOn pc hpc =>
    have hkeeps := settlementStep_keeps rt pc
    exact .keeps ⟨hkeeps.count, hkeeps.pcs, hkeeps.queue, hkeeps.callers⟩ (by simp)
  | hardWdExpiry hdue => exact .abort hdue
  | worker hrunnable hmove => exact .worker hrunnable hmove
  | handlerReturns hpc => exact .returns hpc
  | maint hmove => exact .keeps hmove.keeps (by simp)
  | _ => exact .keeps (.of_pool rfl rfl) (by simp)

end MinimalWatch.Runtime
