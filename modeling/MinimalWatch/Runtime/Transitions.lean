import MinimalWatch.Runtime.Moves

/-! What a step does to the state machine as a whole. `Transition` names the branches of
the spin-locked sections; each step takes at most one of them, and `StepEffect` reads the
runtime's state, hooks, timers, suspended threads and queues off it. -/

namespace MinimalWatch.Runtime
open Firmware

inductive Transition
  | stay
  | openWindow (target : RuntimeState) (hooks : List CurfewHook)
  | dropToSleep
  | curfewSleep (caller : Option Slot)
  | curfewGrace
  | graceExpired
  | maintSleep
  | suspendRest (i : Slot)
  deriving DecidableEq, Repr

/-- The branch of `set_runtime_state_with_hooks`. -/
def setStateTransition (rt : System) (target : RuntimeState) (hooks : List CurfewHook) :
    Transition :=
  if rt.fsm.currentState = target then .stay
  else
    match target with
    | .backgroundActive => .openWindow .backgroundActive hooks
    | .uiActive => .openWindow .uiActive hooks
    | .sleep => .dropToSleep
    | .gracePeriod => .stay

/-- The branch of `execute_curfew_transition_locked`, where its callers come to it. -/
def curfewTransition (rt : System) (caller : Option Slot) : Transition :=
  if rt.fsm.currentState.isActive then
    if rt.activeWindowHooks = [] ∧ rt.pool.hasWork = false then .curfewSleep caller
    else .curfewGrace
  else .stay

/-- The branch that the step of an action takes. -/
def System.transition (rt : System) : Action → Transition
  | .setRuntimeState target hooks => setStateTransition rt target hooks
  | .demoteToCurfew => curfewTransition rt none
  | .totalWorkWindowExpiry => curfewTransition rt none
  | .gracePeriodExpiry => if rt.fsm.currentState = .gracePeriod then .graceExpired else .stay
  | .settlementExpiry =>
    match rt.mgmt.handler with
    | some (.act state) =>
      if state = .gracePeriod then setStateTransition rt .sleep [] else curfewTransition rt none
    | _ => .stay
  | .worker i =>
    match (rt.pool.workers i).pc with
    | .evaluating .demote => curfewTransition rt (some i)
    | .evaluating .suspending => .suspendRest i
    | _ => .stay
  | .maint =>
    match rt.maint with
    | .emptied =>
      if rt.fsm.currentState = .gracePeriod ∧ rt.pool.hasWork = false then .maintSleep else .stay
    | .evaluating .demote => curfewTransition rt none
    | _ => .stay
  | _ => .stay

namespace Transition

def state : Transition → RuntimeState → RuntimeState
  | .stay, s => s
  | .openWindow target _, _ => target
  | .curfewGrace, _ => .gracePeriod
  | .suspendRest _, s => s
  | _, _ => .sleep

def hooks : Transition → List CurfewHook → List CurfewHook
  | .openWindow _ hooks, _ => hooks.take maxCurfewHooks
  | .curfewGrace, _ => []
  | _, stored => stored

/-- Whether slot `j` is suspended. -/
def suspended (j : Slot) : Transition → Bool → Bool
  | .stay, b => b
  | .openWindow _ _, _ => false
  | .curfewSleep caller, b => caller.all (j ≤ ·) || b
  | .curfewGrace, b => b
  | .suspendRest i, b => decide (i < j) || b
  | _, _ => true

def windowDeadline (now : Nat) : Transition → Option Nat → Option Nat
  | .openWindow target _, _ => some (now + target.windowMs)
  | .dropToSleep, _ => none
  | .curfewSleep _, _ => none
  | .curfewGrace, _ => none
  | _, d => d

def graceDeadline (now : Nat) : Transition → Option Nat → Option Nat
  | .curfewGrace, _ => some (now + windowGracePeriodMs)
  | .dropToSleep, _ => none
  | .graceExpired, _ => none
  | .maintSleep, _ => none
  | _, d => d

def settlementDeadline : Transition → Option Nat → Option Nat
  | .openWindow _ _, _ => none
  | .dropToSleep, _ => none
  | .curfewSleep _, _ => none
  | .curfewGrace, _ => none
  | _, d => d

/-- `worker_pool_purge_queue` is called. -/
def purges : Transition → Bool
  | .dropToSleep => true
  | .graceExpired => true
  | _ => false

/-- `watchdog_force_all_cooperative_abort` is called. -/
def forcesAbort : Transition → Bool
  | .dropToSleep => true
  | .graceExpired => true
  | .maintSleep => true
  | _ => false

/-- The queue after the hooks have been put on it. -/
def maintQueue (hooks : List CurfewHook) :
    Transition → MsgQueue WorkItem sysMaintMsgqSize → MsgQueue WorkItem sysMaintMsgqSize
  | .curfewGrace, q => hooks.foldl (fun q hook => q.tryPut (hookItem hook)) q
  | _, q => q

end Transition

/-- What a step has found when it takes a transition. -/
def Transition.Guard (rt : System) : Transition → Prop
  | .stay => True
  | .openWindow target _ => target.isActive = true
  | .dropToSleep => rt.fsm.currentState ≠ .sleep
  | .curfewSleep _ => rt.fsm.currentState.isActive = true ∧ rt.activeWindowHooks = [] ∧
      rt.pool.hasWork = false
  | .curfewGrace => rt.fsm.currentState.isActive = true
  | .graceExpired => rt.fsm.currentState = .gracePeriod
  | .maintSleep => rt.fsm.currentState = .gracePeriod ∧ rt.maint = .emptied ∧
      rt.pool.hasWork = false
  | .suspendRest i => (rt.pool.workers i).pc = .evaluating .suspending

theorem setStateTransition_guard (rt : System) (target : RuntimeState)
    (hooks : List CurfewHook) : (setStateTransition rt target hooks).Guard rt := by
  unfold setStateTransition
  split_ifs with h
  · trivial
  · cases target with
    | sleep => exact h
    | gracePeriod => trivial
    | _ => rfl

theorem curfewTransition_guard (rt : System) (caller : Option Slot) :
    (curfewTransition rt caller).Guard rt := by
  unfold curfewTransition
  split_ifs with hactive hdone
  · exact ⟨hactive, hdone⟩
  · exact hactive
  · trivial

/-- The locked sections that the step of an action can run. -/
inductive Branch (rt : System) (action : Action) : Transition → Prop
  | stay : Branch rt action .stay
  | setState (target : RuntimeState) (hooks : List CurfewHook) :
      Branch rt action (setStateTransition rt target hooks)
  | curfew (caller : Option Slot) : Branch rt action (curfewTransition rt caller)
  | graceExpired (haction : action = .gracePeriodExpiry)
      (hgrace : rt.fsm.currentState = .gracePeriod) : Branch rt action .graceExpired
  | maintSleep (hgrace : rt.fsm.currentState = .gracePeriod) (hpc : rt.maint = .emptied)
      (hidle : rt.pool.hasWork = false) : Branch rt action .maintSleep
  | suspendRest {i : Slot} (hpc : (rt.pool.workers i).pc = .evaluating .suspending) :
      Branch rt action (.suspendRest i)

theorem transition_branch (rt : System) (action : Action) :
    Branch rt action (rt.transition action) := by
  cases action with
  | setRuntimeState target hooks => exact .setState target hooks
  | demoteToCurfew => exact .curfew none
  | totalWorkWindowExpiry => exact .curfew none
  | gracePeriodExpiry =>
    simp only [System.transition]
    split_ifs with hgrace
    · exact .graceExpired rfl hgrace
    · exact .stay
  | settlementExpiry =>
    simp only [System.transition]
    split
    · split_ifs
      · exact .setState .sleep []
      · exact .curfew none
    · exact .stay
  | worker i =>
    simp only [System.transition]
    split
    next => exact .curfew (some i)
    next hpc => exact .suspendRest hpc
    next => exact .stay
  | maint =>
    simp only [System.transition]
    split
    next hpc =>
      split_ifs with hdone
      · exact .maintSleep hdone.1 hpc hdone.2
      · exact .stay
    next => exact .curfew none
    next => exact .stay
  | _ => exact .stay

theorem transition_guard (rt : System) (action : Action) : (rt.transition action).Guard rt := by
  have hbranch := transition_branch rt action
  generalize rt.transition action = t at hbranch ⊢
  cases hbranch with
  | stay => trivial
  | setState target hooks => exact setStateTransition_guard rt target hooks
  | curfew caller => exact curfewTransition_guard rt caller
  | graceExpired haction hgrace => exact hgrace
  | maintSleep hgrace hpc hidle => exact ⟨hgrace, hpc, hidle⟩
  | suspendRest hpc => exact hpc

/-! ### The locked sections -/

/-- A section as its transition. -/
structure Effect (rt : System) (t : Transition) (rt' : System) : Prop where
  state : rt'.fsm.currentState = t.state rt.fsm.currentState
  hooks : rt'.activeWindowHooks = t.hooks rt.activeWindowHooks
  suspended : ∀ i, (rt'.pool.workers i).suspended = t.suspended i (rt.pool.workers i).suspended
  windowTimer : rt'.fsm.totalWorkWindowTimer.deadline =
    t.windowDeadline rt.now rt.fsm.totalWorkWindowTimer.deadline
  graceTimer : rt'.fsm.gracePeriodTimer.deadline =
    t.graceDeadline rt.now rt.fsm.gracePeriodTimer.deadline
  settlementTimer : rt'.mgmt.curfewSettlementTimer.deadline =
    t.settlementDeadline rt.mgmt.curfewSettlementTimer.deadline
  userQueue : rt'.pool.runtimeMsgq.items =
    if t.purges then [] else rt.pool.runtimeMsgq.items
  maintQueue : rt'.sysMaintMsgq = t.maintQueue rt.activeWindowHooks rt.sysMaintMsgq
  watchdog : rt'.watchdog =
    if t.forcesAbort then rt.watchdog.forceAllCooperativeAbort else rt.watchdog

theorem effect_stay (rt : System) : Effect rt .stay rt :=
  ⟨rfl, rfl, fun _ => rfl, rfl, rfl, rfl, rfl, rfl, rfl⟩

theorem setRuntimeState_effect (rt : System) (target : RuntimeState)
    (hooks : List CurfewHook) :
    Effect rt (setStateTransition rt target hooks) (setRuntimeStateWithHooks rt target hooks) := by
  unfold setStateTransition setRuntimeStateWithHooks
  split_ifs
  · exact effect_stay rt
  · cases target with
    | gracePeriod => exact effect_stay rt
    | _ => exact ⟨rfl, rfl, fun _ => rfl, rfl, rfl, rfl, rfl, rfl, rfl⟩

/-- What `demote` and the window's expiry handler do. -/
theorem curfew_effect (rt : System) (caller : Option Slot) :
    Effect rt (curfewTransition rt caller)
      (if rt.fsm.currentState.isActive then executeCurfewTransitionLocked rt caller else rt) := by
  unfold curfewTransition executeCurfewTransitionLocked
  split_ifs
  · exact ⟨rfl, rfl, fun _ => rfl, rfl, rfl, rfl, rfl, rfl, rfl⟩
  · exact ⟨rfl, rfl, fun _ => rfl, rfl, rfl, rfl, rfl, rfl, rfl⟩
  · exact effect_stay rt

theorem gracePeriodExpiry_effect (rt : System) :
    Effect rt (if rt.fsm.currentState = .gracePeriod then .graceExpired else .stay)
      (gracePeriodExpiry rt) := by
  unfold gracePeriodExpiry
  split_ifs
  · exact ⟨rfl, rfl, fun _ => rfl, rfl, rfl, rfl, rfl, rfl, rfl⟩
  · exact effect_stay rt

theorem maintCurfewSection_effect (rt : System) :
    Effect rt
      (if rt.fsm.currentState = .gracePeriod ∧ rt.pool.hasWork = false then .maintSleep
        else .stay)
      (maintCurfewSection rt) := by
  unfold maintCurfewSection
  split_ifs
  · exact ⟨rfl, rfl, fun _ => rfl, rfl, rfl, rfl, rfl, rfl, rfl⟩
  · exact effect_stay rt

theorem suspendRest_effect (rt : System) (i : Slot) :
    Effect rt (.suspendRest i) { rt with pool := rt.pool.suspendRest i } :=
  ⟨rfl, rfl, fun _ => rfl, rfl, rfl, rfl, rfl, rfl, rfl⟩

theorem Effect.fsm_congr {rt rt₁ rt' : System} {t : Transition} (h : Effect rt₁ t rt')
    (hstate : rt₁.fsm.currentState = rt.fsm.currentState)
    (hwindow : rt₁.fsm.totalWorkWindowTimer.deadline = rt.fsm.totalWorkWindowTimer.deadline)
    (hgrace : rt₁.fsm.gracePeriodTimer.deadline = rt.fsm.gracePeriodTimer.deadline)
    (hrest : rt₁ = { rt with fsm := rt₁.fsm }) : Effect rt t rt' := by
  refine ⟨by rw [h.state, hstate], ?_, ?_, ?_, ?_, ?_, ?_, ?_, ?_⟩
  · rw [h.hooks, hrest]
  · intro i
    rw [h.suspended, hrest]
  · rw [h.windowTimer, hwindow, hrest]
  · rw [h.graceTimer, hgrace, hrest]
  · rw [h.settlementTimer, hrest]
  · rw [h.userQueue, hrest]
  · rw [h.maintQueue, hrest]
  · rw [h.watchdog, hrest]

/-! ### The steps of the system -/

/-- The gap for which an evaluation is about to start the settlement timer. -/
def CurfewPc.gap? : CurfewPc → Option Nat
  | .arm gap => some gap
  | _ => none

/-- The gap for which the step of an action starts the settlement timer. -/
def System.arms (rt : System) : Action → Option Nat
  | .worker i =>
    match (rt.pool.workers i).pc with
    | .evaluating pc => pc.gap?
    | _ => none
  | .maint =>
    match rt.maint with
    | .evaluating pc => pc.gap?
    | _ => none
  | _ => none

/-- A worker that takes an item stops the settlement timer. -/
def System.interrupts (rt : System) : Action → Bool
  | .worker i =>
    match (rt.pool.workers i).pc with
    | .admitted _ => true
    | _ => false
  | _ => false

/-- When the settlement timer runs out after a step other than the clock's. -/
def System.settlementAfter (rt : System) (action : Action) : Option Nat :=
  match rt.arms action with
  | some gap => some (rt.now + gap)
  | none =>
    if rt.interrupts action then none
    else (rt.transition action).settlementDeadline rt.mgmt.curfewSettlementTimer.deadline

structure StepEffect (rt : System) (action : Action) (rt' : System) : Prop where
  state : rt'.fsm.currentState = (rt.transition action).state rt.fsm.currentState
  hooks : rt'.activeWindowHooks = (rt.transition action).hooks rt.activeWindowHooks
  suspended : ∀ i, (rt'.pool.workers i).suspended =
    if action = .hardWdExpiry i then false
    else (rt.transition action).suspended i (rt.pool.workers i).suspended
  windowTimer : action ≠ .tick → rt'.fsm.totalWorkWindowTimer.deadline =
    (rt.transition action).windowDeadline rt.now rt.fsm.totalWorkWindowTimer.deadline
  graceTimer : action ≠ .tick → rt'.fsm.gracePeriodTimer.deadline =
    (rt.transition action).graceDeadline rt.now rt.fsm.gracePeriodTimer.deadline
  settlementTimer : action ≠ .tick →
    rt'.mgmt.curfewSettlementTimer.deadline = rt.settlementAfter action
  userQueue : (∀ item, action ≠ .enqueueUserWork item) → (∀ i, action ≠ .worker i) →
    rt'.pool.runtimeMsgq.items =
      if (rt.transition action).purges then [] else rt.pool.runtimeMsgq.items
  maintQueue : (∀ item, action ≠ .addSystemWork item) →
    rt'.sysMaintMsgq = (rt.transition action).maintQueue rt.activeWindowHooks rt.sysMaintMsgq ∨
      (rt.transition action = .stay ∧
        ∃ item, rt.sysMaintMsgq.items = item :: rt'.sysMaintMsgq.items)

/-- A step that is no section of the state machine. -/
theorem StepEffect.of_stay {rt rt' : System} {action : Action}
    (ht : rt.transition action = .stay) (hstate : rt'.fsm.currentState = rt.fsm.currentState)
    (hhooks : rt'.activeWindowHooks = rt.activeWindowHooks)
    (hsuspended : ∀ i, (rt'.pool.workers i).suspended =
      if action = .hardWdExpiry i then false else (rt.pool.workers i).suspended)
    (hwindow : action ≠ .tick →
      rt'.fsm.totalWorkWindowTimer.deadline = rt.fsm.totalWorkWindowTimer.deadline)
    (hgrace : action ≠ .tick →
      rt'.fsm.gracePeriodTimer.deadline = rt.fsm.gracePeriodTimer.deadline)
    (hsettlement : action ≠ .tick →
      rt'.mgmt.curfewSettlementTimer.deadline = rt.settlementAfter action)
    (huser : (∀ item, action ≠ .enqueueUserWork item) → (∀ i, action ≠ .worker i) →
      rt'.pool.runtimeMsgq.items = rt.pool.runtimeMsgq.items)
    (hmaint : (∀ item, action ≠ .addSystemWork item) →
      rt'.sysMaintMsgq = rt.sysMaintMsgq ∨
        ∃ item, rt.sysMaintMsgq.items = item :: rt'.sysMaintMsgq.items) :
    StepEffect rt action rt' := by
  refine ⟨?_, ?_, ?_, ?_, ?_, hsettlement, ?_, ?_⟩ <;> rw [ht]
  · exact hstate
  · exact hhooks
  · exact hsuspended
  · exact hwindow
  · exact hgrace
  · exact huser
  · exact fun hnot => (hmaint hnot).imp id fun htaken => ⟨rfl, htaken⟩

/-- A step that is a section of the state machine and moves a thread or a handler on. -/
theorem StepEffect.of_effect {rt mid rt' : System} {action : Action} {t : Transition}
    (h : Effect rt t mid) (ht : rt.transition action = t)
    (hstrike : ∀ i, action ≠ .hardWdExpiry i)
    (hsettlement : rt.settlementAfter action =
      t.settlementDeadline rt.mgmt.curfewSettlementTimer.deadline)
    (hfsm : rt'.fsm = mid.fsm) (hhooks : rt'.activeWindowHooks = mid.activeWindowHooks)
    (htimer : rt'.mgmt.curfewSettlementTimer = mid.mgmt.curfewSettlementTimer)
    (hsuspended : ∀ i, (rt'.pool.workers i).suspended = (mid.pool.workers i).suspended)
    (huser : rt'.pool.runtimeMsgq = mid.pool.runtimeMsgq)
    (hmaint : rt'.sysMaintMsgq = mid.sysMaintMsgq) : StepEffect rt action rt' := by
  subst ht
  refine ⟨?_, ?_, ?_, ?_, ?_, ?_, ?_, ?_⟩
  · rw [hfsm, h.state]
  · rw [hhooks, h.hooks]
  · intro i
    rw [hsuspended, h.suspended, if_neg (hstrike i)]
  · intro _
    rw [hfsm, h.windowTimer]
  · intro _
    rw [hfsm, h.graceTimer]
  · intro _
    rw [htimer, h.settlementTimer, hsettlement]
  · intro _ _
    rw [huser, h.userQueue]
  · intro _
    rw [hmaint, h.maintQueue]
    exact Or.inl rfl

@[simp] theorem WorkerPool.setPc_suspended (p : WorkerPool) (i j : Slot) (pc : WorkerPc) :
    ((p.setPc i pc).workers j).suspended = (p.workers j).suspended := by
  by_cases h : j = i
  · subst h
    simp [setPc]
  · simp [setPc, h]

theorem demoteToCurfew_effect (rt : System) (caller : Option Slot) :
    Effect rt (curfewTransition rt caller) (demoteToCurfew rt caller) := curfew_effect rt caller

/-- An evaluation demotes, suspends the later slots, arms the settlement timer, or only
reads. -/
theorem curfewPc_cases (rt : System) (caller : Option Slot) (pc : CurfewPc) :
    pc = .demote ∨ (∃ i, pc = .suspending ∧ caller = some i) ∨ (∃ gap, pc = .arm gap) ∨
      (pc ≠ .demote ∧ (pc = .suspending → caller = none) ∧ pc.gap? = none ∧
        (curfewStep rt caller pc).1 = rt) := by
  rcases curfewStep_cases rt caller pc with
    hsame | ⟨gap, rfl, -⟩ | ⟨rfl, -⟩ | ⟨i, rfl, rfl, -⟩
  · cases pc with
    | demote => exact Or.inl rfl
    | suspending =>
      cases caller with
      | none => exact Or.inr (Or.inr (Or.inr ⟨by simp, fun _ => rfl, rfl, hsame⟩))
      | some i => exact Or.inr (Or.inl ⟨i, rfl, rfl⟩)
    | arm gap => exact Or.inr (Or.inr (Or.inl ⟨gap, rfl⟩))
    | _ => exact Or.inr (Or.inr (Or.inr ⟨by simp, by simp, rfl, hsame⟩))
  · exact Or.inr (Or.inr (Or.inl ⟨gap, rfl⟩))
  · exact Or.inl rfl
  · exact Or.inr (Or.inl ⟨i, rfl, rfl⟩)

/-- An evaluation leaves the watchdog and the user queue alone, also where it demotes. -/
theorem curfewStep_spares (rt : System) (caller : Option Slot) (pc : CurfewPc) :
    (curfewStep rt caller pc).1.watchdog = rt.watchdog ∧
      (curfewStep rt caller pc).1.pool.runtimeMsgq = rt.pool.runtimeMsgq := by
  rcases curfewStep_cases rt caller pc with
    hsame | ⟨gap, -, harm⟩ | ⟨-, hdemote⟩ | ⟨i, -, -, hrest⟩
  · rw [hsame]
    exact ⟨rfl, rfl⟩
  · rw [harm]
    exact ⟨rfl, rfl⟩
  · rw [hdemote, demoteToCurfew, executeCurfewTransitionLocked]
    split_ifs <;> exact ⟨rfl, rfl⟩
  · rw [hrest]
    exact ⟨rfl, rfl⟩

/-- Where neither a worker nor an evaluation touches the settlement timer. -/
theorem settlementAfter_of_quiet {rt : System} {action : Action} {t : Transition}
    (harms : rt.arms action = none) (hinterrupts : rt.interrupts action = false)
    (ht : rt.transition action = t) : rt.settlementAfter action =
      t.settlementDeadline rt.mgmt.curfewSettlementTimer.deadline := by
  simp [System.settlementAfter, harms, hinterrupts, ht]

theorem WorkerMove.effect {rt rt' : System} {i : Slot} (h : WorkerMove rt i rt') :
    StepEffect rt (.worker i) rt' := by
  cases h with
  | interrupt hpc =>
    exact .of_stay (by simp [System.transition, hpc]) rfl rfl (by simp [System.setWorkerPc])
      (fun _ => rfl) (fun _ => rfl)
      (fun _ => by simp [System.settlementAfter, System.arms, System.interrupts, hpc,
        WorkerMgmt.interruptSettlement, Timer.stop])
      (fun _ hnot => absurd rfl (hnot i)) (fun _ => Or.inl rfl)
  | @curfew pc hpc =>
    rcases curfewPc_cases rt (some i) pc with
      rfl | ⟨j, rfl, hcaller⟩ | ⟨gap, rfl⟩ | ⟨hdemote, hsuspending, hgap, hsame⟩
    · exact .of_effect (demoteToCurfew_effect rt (some i)) (by simp [System.transition, hpc])
        (by simp)
        (by simp [System.settlementAfter, System.arms, System.interrupts, System.transition, hpc,
          CurfewPc.gap?])
        rfl rfl rfl (by simp [System.setWorkerPc, curfewStep]) rfl rfl
    · exact .of_effect (suspendRest_effect rt i) (by simp [System.transition, hpc]) (by simp)
        (by simp [System.settlementAfter, System.arms, System.interrupts, System.transition, hpc,
          CurfewPc.gap?])
        rfl rfl rfl (by simp [System.setWorkerPc, curfewStep]) rfl rfl
    · exact .of_stay (by simp [System.transition, hpc]) rfl rfl
        (by simp [System.setWorkerPc, curfewStep]) (fun _ => rfl) (fun _ => rfl)
        (fun _ => by simp [System.settlementAfter, System.arms, hpc, CurfewPc.gap?,
          System.setWorkerPc, curfewStep, Timer.start])
        (fun _ hnot => absurd rfl (hnot i)) (fun _ => Or.inl rfl)
    · have ht : rt.transition (.worker i) = .stay := by
        simp only [System.transition, hpc]
        split
        next heq => exact absurd (WorkerPc.evaluating.inj heq) hdemote
        next heq => cases hsuspending (WorkerPc.evaluating.inj heq)
        next => rfl
      rw [hsame]
      refine .of_stay ht rfl rfl (by simp [System.setWorkerPc]) (fun _ => rfl) (fun _ => rfl)
        (fun _ => ?_) (fun _ hnot => absurd rfl (hnot i)) (fun _ => Or.inl rfl)
      exact (settlementAfter_of_quiet (by simp [System.arms, hpc, hgap])
        (by simp [System.interrupts, hpc]) ht).symm
  | _ hpc =>
    have ht : rt.transition (.worker i) = .stay := by simp [System.transition, hpc]
    refine .of_stay ht rfl rfl (by simp [System.setWorkerPc]) (fun _ => rfl) (fun _ => rfl)
      (fun _ => ?_) (fun _ hnot => absurd rfl (hnot i)) (fun _ => Or.inl rfl)
    exact (settlementAfter_of_quiet (by simp [System.arms, hpc])
      (by simp [System.interrupts, hpc]) ht).symm

theorem MaintMove.effect {rt rt' : System} (h : MaintMove rt rt') :
    StepEffect rt .maint rt' := by
  cases h with
  | @take item q hpc hget =>
    have ht : rt.transition .maint = .stay := by simp [System.transition, hpc]
    refine .of_stay ht rfl rfl (by simp) (fun _ => rfl) (fun _ => rfl) (fun _ => ?_)
      (fun _ _ => rfl) (fun _ => Or.inr ⟨item, MsgQueue.get_items hget⟩)
    exact (settlementAfter_of_quiet (by simp [System.arms, hpc]) rfl ht).symm
  | lockedSection hpc =>
    exact .of_effect (maintCurfewSection_effect rt) (by simp [System.transition, hpc]) (by simp)
      (by simp [System.settlementAfter, System.arms, System.interrupts, System.transition, hpc])
      rfl rfl rfl (fun _ => rfl) rfl rfl
  | @curfew pc hpc =>
    rcases curfewPc_cases rt none pc with
      rfl | ⟨j, -, hcaller⟩ | ⟨gap, rfl⟩ | ⟨hdemote, -, hgap, hsame⟩
    · exact .of_effect (demoteToCurfew_effect rt none) (by simp [System.transition, hpc]) (by simp)
        (by simp [System.settlementAfter, System.arms, System.interrupts, System.transition, hpc,
          CurfewPc.gap?])
        rfl rfl rfl (fun _ => rfl) rfl rfl
    · cases hcaller
    · exact .of_stay (by simp [System.transition, hpc]) rfl rfl (by simp [curfewStep])
        (fun _ => rfl) (fun _ => rfl)
        (fun _ => by simp [System.settlementAfter, System.arms, hpc, CurfewPc.gap?, curfewStep,
          Timer.start])
        (fun _ _ => rfl) (fun _ => Or.inl rfl)
    · have ht : rt.transition .maint = .stay := by
        simp only [System.transition, hpc]
        split
        next heq => cases heq
        next heq => exact absurd (MaintPc.evaluating.inj heq) hdemote
        next => rfl
      rw [hsame]
      refine .of_stay ht rfl rfl (by simp) (fun _ => rfl) (fun _ => rfl)
        (fun _ => ?_) (fun _ _ => rfl) (fun _ => Or.inl rfl)
      exact (settlementAfter_of_quiet (by simp [System.arms, hpc, hgap]) rfl ht).symm
  | _ hpc =>
    have ht : rt.transition .maint = .stay := by simp [System.transition, hpc]
    refine .of_stay ht rfl rfl (by simp) (fun _ => rfl) (fun _ => rfl)
      (fun _ => ?_) (fun _ _ => rfl) (fun _ => Or.inl rfl)
    exact (settlementAfter_of_quiet (by simp [System.arms, hpc]) rfl ht).symm

theorem addUserWork_fields (rt : System) (item : WorkItem) :
    ((addUserWork rt item).getD rt) =
      { rt with userCallers := ((addUserWork rt item).getD rt).userCallers } := by
  unfold addUserWork
  split_ifs <;> rfl

theorem addSystemWork_fields (rt : System) (item : WorkItem) :
    ((addSystemWork rt item).getD rt) =
      { rt with sysMaintMsgq := ((addSystemWork rt item).getD rt).sysMaintMsgq } := by
  unfold addSystemWork
  split_ifs
  · rfl
  · cases rt.sysMaintMsgq.put { item with type := .system } <;> rfl

/-- What the settlement handler does, from where it stands. -/
theorem settlementStep_effect {rt : System} {pc : SettlementPc}
    (hpc : rt.mgmt.handler = some pc) :
    Effect rt (rt.transition .settlementExpiry) (settlementStep rt pc).1 := by
  cases pc with
  | act state =>
    by_cases hgrace : state = .gracePeriod
    · have ht : rt.transition .settlementExpiry = setStateTransition rt .sleep [] := by
        simp [System.transition, hpc, hgrace]
      have hstep : (settlementStep rt (.act state)).1 = setRuntimeStateWithHooks rt .sleep [] := by
        simp [settlementStep, hgrace]
      rw [ht, hstep]
      exact setRuntimeState_effect rt .sleep []
    · have ht : rt.transition .settlementExpiry = curfewTransition rt none := by
        simp [System.transition, hpc, hgrace]
      have hstep : (settlementStep rt (.act state)).1 = demoteToCurfew rt none := by
        simp [settlementStep, hgrace]
      rw [ht, hstep]
      exact demoteToCurfew_effect rt none
  | _ =>
    have ht : rt.transition .settlementExpiry = .stay := by simp [System.transition, hpc]
    rcases settlementStep_cases rt _ with hsame | ⟨hact, -⟩ | ⟨state, hact, -, -⟩
    · rw [ht, hsame]
      exact effect_stay rt
    · cases hact
    · cases hact

theorem settlementGoesOn_effect {rt : System} {pc : SettlementPc}
    (hpc : rt.mgmt.handler = some pc) :
    StepEffect rt .settlementExpiry { (settlementStep rt pc).1 with
      mgmt := { (settlementStep rt pc).1.mgmt with handler := (settlementStep rt pc).2 } } :=
  .of_effect (settlementStep_effect hpc) rfl (by simp) (settlementAfter_of_quiet rfl rfl rfl)
    rfl rfl rfl (fun _ => rfl) rfl rfl

theorem step_effect {rt rt' : System} {action : Action} (h : step rt action = some rt') :
    StepEffect rt action rt' := by
  have hafter := fun t => @settlementAfter_of_quiet rt action t
  cases step_cases h with
  | tick =>
    exact .of_stay rfl rfl rfl (by simp [tick]) (fun h => absurd rfl h) (fun h => absurd rfl h)
      (fun h => absurd rfl h) (fun _ _ => rfl) (fun _ => Or.inl rfl)
  | setRuntimeState target hooks =>
    exact .of_effect (setRuntimeState_effect rt target hooks) rfl (by simp)
      (hafter _ rfl rfl rfl) rfl rfl rfl (fun _ => rfl) rfl rfl
  | demoteToCurfew =>
    exact .of_effect (demoteToCurfew_effect rt none) rfl (by simp)
      (hafter _ rfl rfl rfl) rfl rfl rfl (fun _ => rfl) rfl rfl
  | addUserWork item =>
    rw [addUserWork_fields]
    exact .of_stay rfl rfl rfl (by simp) (fun _ => rfl) (fun _ => rfl)
      (fun _ => (hafter _ rfl rfl rfl).symm) (fun _ _ => rfl) (fun _ => Or.inl rfl)
  | @enqueueUserWork item hmem =>
    refine .of_stay rfl rfl rfl (fun i => ?_) (fun _ => rfl) (fun _ => rfl)
      (fun _ => (hafter _ rfl rfl rfl).symm) (fun hnot => absurd rfl (hnot item))
      (fun _ => Or.inl rfl)
    unfold enqueueUserWork WorkerPool.enqueueUserItem
    cases rt.pool.runtimeMsgq.put { item with type := .user } <;> rfl
  | addSystemWork item =>
    rw [addSystemWork_fields]
    exact .of_stay rfl rfl rfl (by simp) (fun _ => rfl) (fun _ => rfl)
      (fun _ => (hafter _ rfl rfl rfl).symm) (fun _ _ => rfl)
      (fun hnot => absurd rfl (hnot item))
  | totalWorkWindowExpiry hpending =>
    have heffect := curfew_effect { rt with
      fsm := { rt.fsm with totalWorkWindowTimer := rt.fsm.totalWorkWindowTimer.handle } } none
    exact .of_effect (heffect.fsm_congr rfl rfl rfl rfl) rfl (by simp)
      (hafter _ rfl rfl rfl) rfl rfl rfl (fun _ => rfl) rfl rfl
  | gracePeriodExpiry hpending =>
    have heffect := gracePeriodExpiry_effect { rt with
      fsm := { rt.fsm with gracePeriodTimer := rt.fsm.gracePeriodTimer.handle } }
    exact .of_effect (heffect.fsm_congr rfl rfl rfl rfl) rfl (by simp)
      (hafter _ rfl rfl rfl) rfl rfl rfl (fun _ => rfl) rfl rfl
  | settlementStart hnone hpending =>
    have ht : rt.transition .settlementExpiry = .stay := by simp [System.transition, hnone]
    exact .of_stay ht rfl rfl (by simp) (fun _ => rfl) (fun _ => rfl)
      (fun _ => (hafter _ rfl rfl ht).symm) (fun _ _ => rfl) (fun _ => Or.inl rfl)
  | settlementGoesOn hpc => exact settlementGoesOn_effect hpc
  | softWdExpiry hdue =>
    exact .of_stay rfl rfl rfl (by simp) (fun _ => rfl) (fun _ => rfl)
      (fun _ => (hafter _ rfl rfl rfl).symm) (fun _ _ => rfl) (fun _ => Or.inl rfl)
  | @hardWdExpiry i hdue =>
    refine .of_stay rfl rfl rfl (fun j => ?_) (fun _ => rfl) (fun _ => rfl)
      (fun _ => (hafter _ rfl rfl rfl).symm) (fun _ _ => rfl) (fun _ => Or.inl rfl)
    by_cases hj : i = j
    · subst hj
      simp [WorkerPool.recoverStalledRunner]
    · simp [WorkerPool.recoverStalledRunner, hj, Ne.symm hj]
  | worker hrunnable hmove => exact hmove.effect
  | handlerReturns hpc =>
    exact .of_stay rfl rfl rfl (by simp [System.setWorkerPc]) (fun _ => rfl) (fun _ => rfl)
      (fun _ => (hafter _ rfl rfl rfl).symm) (fun _ _ => rfl) (fun _ => Or.inl rfl)
  | maint hmove => exact hmove.effect
  | maintHandlerReturns hpc =>
    exact .of_stay rfl rfl rfl (by simp) (fun _ => rfl) (fun _ => rfl)
      (fun _ => (hafter _ rfl rfl rfl).symm) (fun _ _ => rfl) (fun _ => Or.inl rfl)

end MinimalWatch.Runtime
