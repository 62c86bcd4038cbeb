import MinimalWatch.Lib.Machine
import MinimalWatch.Runtime.Moves

/-! The watch does not stay awake by accident. `FsmStep` is everything a step of the
system can do to the state machine and its two timers; whichever thread or handler
takes the step, an active state keeps its window timer and the grace period keeps its
own. -/

namespace MinimalWatch.Runtime
open Firmware

/-- What a step other than the clock's can do to the state machine. -/
inductive FsmStep (now : Nat) (f f' : Fsm) : Prop
  | same (h : f' = f)
  | window (target : RuntimeState) (hactive : target.isActive = true)
      (hne : f.currentState ≠ target)
      (h : f' = { f with
        currentState := target
        totalWorkWindowTimer := f.totalWorkWindowTimer.start now target.windowMs })
  | grace (hactive : f.currentState.isActive = true)
      (hstate : f'.currentState = .gracePeriod)
      (htimer : f'.gracePeriodTimer = f.gracePeriodTimer.start now windowGracePeriodMs)
  | asleep (h : f'.currentState = .sleep)
  | windowHandled (hinactive : f.currentState.isActive = false)
      (h : f' = { f with totalWorkWindowTimer := f.totalWorkWindowTimer.handle })
  | graceHandled (hnot : f.currentState ≠ .gracePeriod)
      (h : f' = { f with gracePeriodTimer := f.gracePeriodTimer.handle })

theorem setRuntimeState_now (rt : System) (target : RuntimeState) (hooks : List CurfewHook) :
    (setRuntimeStateWithHooks rt target hooks).now = rt.now := by
  unfold setRuntimeStateWithHooks
  split_ifs
  · rfl
  · cases target <;> rfl

theorem setRuntimeState_fsm (rt : System) (target : RuntimeState) (hooks : List CurfewHook) :
    FsmStep rt.now rt.fsm (setRuntimeStateWithHooks rt target hooks).fsm := by
  unfold setRuntimeStateWithHooks
  split_ifs with h
  · exact .same rfl
  · cases target with
    | sleep => exact .asleep rfl
    | backgroundActive => exact .window .backgroundActive rfl h rfl
    | gracePeriod => exact .same rfl
    | uiActive => exact .window .uiActive rfl h rfl

theorem curfewTransition_now (rt : System) (caller : Option Slot) :
    (executeCurfewTransitionLocked rt caller).now = rt.now := by
  rw [executeCurfewTransitionLocked]
  split_ifs <;> rfl

/-- The transition leaves the active states, for sleep or for a grace period. -/
theorem curfewTransition_fsm (rt : System) (caller : Option Slot) :
    (executeCurfewTransitionLocked rt caller).fsm.currentState = .sleep ∨
      ((executeCurfewTransitionLocked rt caller).fsm.currentState = .gracePeriod ∧
        (executeCurfewTransitionLocked rt caller).fsm.gracePeriodTimer =
          rt.fsm.gracePeriodTimer.start rt.now windowGracePeriodMs) := by
  rw [executeCurfewTransitionLocked]
  split_ifs
  · exact Or.inl rfl
  · exact Or.inr ⟨rfl, rfl⟩

theorem demoteToCurfew_now (rt : System) (caller : Option Slot) :
    (demoteToCurfew rt caller).now = rt.now := by
  rw [demoteToCurfew]
  split_ifs
  · exact curfewTransition_now rt caller
  · rfl

theorem demoteToCurfew_fsm (rt : System) (caller : Option Slot) :
    FsmStep rt.now rt.fsm (demoteToCurfew rt caller).fsm := by
  rw [demoteToCurfew]
  split_ifs with hactive
  · rcases curfewTransition_fsm rt caller with hsleep | ⟨hgrace, htimer⟩
    · exact .asleep hsleep
    · exact .grace hactive hgrace htimer
  · exact .same rfl

theorem maintCurfewSection_now (rt : System) : (maintCurfewSection rt).now = rt.now := by
  rw [maintCurfewSection]
  split_ifs <;> rfl

theorem maintCurfewSection_fsm (rt : System) :
    FsmStep rt.now rt.fsm (maintCurfewSection rt).fsm := by
  rw [maintCurfewSection]
  split_ifs
  · exact .asleep rfl
  · exact .same rfl

theorem curfewStep_fsm (rt : System) (caller : Option Slot) (pc : CurfewPc) :
    (curfewStep rt caller pc).1.now = rt.now ∧
      FsmStep rt.now rt.fsm (curfewStep rt caller pc).1.fsm := by
  rcases curfewStep_cases rt caller pc with
    hsame | ⟨gap, -, harm⟩ | ⟨-, hdemote⟩ | ⟨i, -, -, hrest⟩
  · rw [hsame]
    exact ⟨rfl, .same rfl⟩
  · rw [harm]
    exact ⟨rfl, .same rfl⟩
  · rw [hdemote]
    exact ⟨demoteToCurfew_now rt caller, demoteToCurfew_fsm rt caller⟩
  · rw [hrest]
    exact ⟨rfl, .same rfl⟩

theorem settlementStep_fsm (rt : System) (pc : SettlementPc) :
    (settlementStep rt pc).1.now = rt.now ∧
      FsmStep rt.now rt.fsm (settlementStep rt pc).1.fsm := by
  rcases settlementStep_cases rt pc with hsame | ⟨-, hsleep⟩ | ⟨state, -, -, hdemote⟩
  · rw [hsame]
    exact ⟨rfl, .same rfl⟩
  · rw [hsleep]
    exact ⟨setRuntimeState_now rt _ _, setRuntimeState_fsm rt _ _⟩
  · rw [hdemote]
    exact ⟨demoteToCurfew_now rt none, demoteToCurfew_fsm rt none⟩

/-- A pool worker touches the state machine only when it evaluates an early curfew. -/
theorem WorkerMove.fsm {rt rt' : System} {i : Slot} (h : WorkerMove rt i rt') :
    rt'.now = rt.now ∧ FsmStep rt.now rt.fsm rt'.fsm := by
  cases h with
  | curfew hpc => exact curfewStep_fsm rt _ _
  | _ => exact ⟨rfl, .same rfl⟩

theorem MaintMove.fsm {rt rt' : System} (h : MaintMove rt rt') :
    rt'.now = rt.now ∧ FsmStep rt.now rt.fsm rt'.fsm := by
  cases h with
  | lockedSection hpc => exact ⟨maintCurfewSection_now rt, maintCurfewSection_fsm rt⟩
  | curfew hpc => exact curfewStep_fsm rt _ _
  | _ => exact ⟨rfl, .same rfl⟩

/-- The window's expiry handler ends an active state, and else does nothing. -/
theorem totalWorkWindowExpiry_fsm (rt : System) :
    (totalWorkWindowExpiry rt).now = rt.now ∧
      ((rt.fsm.currentState.isActive = false ∧ (totalWorkWindowExpiry rt).fsm = rt.fsm) ∨
        (totalWorkWindowExpiry rt).fsm.currentState = .sleep ∨
        (rt.fsm.currentState.isActive = true ∧
          (totalWorkWindowExpiry rt).fsm.currentState = .gracePeriod ∧
          (totalWorkWindowExpiry rt).fsm.gracePeriodTimer =
            rt.fsm.gracePeriodTimer.start rt.now windowGracePeriodMs)) := by
  rw [totalWorkWindowExpiry]
  split_ifs with hactive
  · refine ⟨curfewTransition_now rt none, ?_⟩
    rcases curfewTransition_fsm rt none with hsleep | hgrace
    · exact Or.inr (Or.inl hsleep)
    · exact Or.inr (Or.inr ⟨hactive, hgrace⟩)
  · exact ⟨rfl, Or.inl ⟨Bool.eq_false_iff.mpr hactive, rfl⟩⟩

theorem gracePeriodExpiry_fsm (rt : System) :
    (gracePeriodExpiry rt).now = rt.now ∧
      ((rt.fsm.currentState ≠ .gracePeriod ∧ (gracePeriodExpiry rt).fsm = rt.fsm) ∨
        (gracePeriodExpiry rt).fsm.currentState = .sleep) := by
  rw [gracePeriodExpiry]
  split_ifs with hgrace
  · exact ⟨rfl, Or.inr rfl⟩
  · exact ⟨rfl, Or.inl ⟨hgrace, rfl⟩⟩

theorem addUserWork_fsm (rt : System) (item : WorkItem) :
    ((addUserWork rt item).getD rt).now = rt.now ∧
      FsmStep rt.now rt.fsm ((addUserWork rt item).getD rt).fsm := by
  unfold addUserWork
  split_ifs <;> exact ⟨rfl, .same rfl⟩

theorem addSystemWork_fsm (rt : System) (item : WorkItem) :
    ((addSystemWork rt item).getD rt).now = rt.now ∧
      FsmStep rt.now rt.fsm ((addSystemWork rt item).getD rt).fsm := by
  unfold addSystemWork
  split_ifs
  · exact ⟨rfl, .same rfl⟩
  · cases rt.sysMaintMsgq.put { item with type := .system } <;> exact ⟨rfl, .same rfl⟩

/-- Every step is a tick of the clock or one of the steps of the state machine. -/
theorem step_fsm {rt rt' : System} {action : Action} (h : step rt action = some rt') :
    rt' = tick rt ∨ (rt'.now = rt.now ∧ FsmStep rt.now rt.fsm rt'.fsm) := by
  cases step_cases h with
  | tick => exact Or.inl rfl
  | setRuntimeState target hooks =>
    exact Or.inr ⟨setRuntimeState_now rt target hooks, setRuntimeState_fsm rt target hooks⟩
  | demoteToCurfew => exact Or.inr ⟨demoteToCurfew_now rt none, demoteToCurfew_fsm rt none⟩
  | addUserWork item => exact Or.inr (addUserWork_fsm rt item)
  | addSystemWork item => exact Or.inr (addSystemWork_fsm rt item)
  | totalWorkWindowExpiry hpending =>
    obtain ⟨hnow, hfsm⟩ := totalWorkWindowExpiry_fsm { rt with
      fsm := { rt.fsm with totalWorkWindowTimer := rt.fsm.totalWorkWindowTimer.handle } }
    refine Or.inr ⟨hnow, ?_⟩
    rcases hfsm with ⟨hinactive, hsame⟩ | hsleep | ⟨hactive, hstate, htimer⟩
    · exact .windowHandled hinactive hsame
    · exact .asleep hsleep
    · exact .grace hactive hstate htimer
  | gracePeriodExpiry hpending =>
    obtain ⟨hnow, hfsm⟩ := gracePeriodExpiry_fsm { rt with
      fsm := { rt.fsm with gracePeriodTimer := rt.fsm.gracePeriodTimer.handle } }
    refine Or.inr ⟨hnow, ?_⟩
    rcases hfsm with ⟨hnot, hsame⟩ | hsleep
    · exact .graceHandled hnot hsame
    · exact .asleep hsleep
  | @settlementGoesOn pc hpc => exact Or.inr (settlementStep_fsm rt pc)
  | worker hrunnable hmove => exact Or.inr hmove.fsm
  | maint hmove => exact Or.inr hmove.fsm
  | _ => exact Or.inr ⟨rfl, .same rfl⟩

/-! ### Deadlines -/

/-- A run with the time of the last change of the state. -/
structure Timed where
  sys : System
  enteredAt : Nat

def Timed.init : Timed := ⟨.init, 0⟩

def timedStep (s : Timed) (action : Action) : Option Timed :=
  (step s.sys action).map fun rt =>
    ⟨rt, if rt.fsm.currentState = s.sys.fsm.currentState then s.enteredAt else rt.now⟩

/-- An active state has its window timer running until the window's length after the
state was entered, the grace period has its own, or the handler is pending. -/
structure Timed.Ends (s : Timed) : Prop where
  window : s.sys.fsm.currentState.isActive = true →
    s.sys.fsm.totalWorkWindowTimer.DueAt s.sys.now
      (s.enteredAt + s.sys.fsm.currentState.windowMs)
  grace : s.sys.fsm.currentState = .gracePeriod →
    s.sys.fsm.gracePeriodTimer.DueAt s.sys.now (s.enteredAt + windowGracePeriodMs)

theorem windowMs_pos (state : RuntimeState) : 0 < state.windowMs := by
  cases state <;> decide

theorem RuntimeState.not_active_grace {state : RuntimeState} (h : state = .gracePeriod) :
    ¬ state.isActive = true := by
  rw [h]
  decide

theorem ends_tick {s : Timed} (h : s.Ends) : (Timed.mk (tick s.sys) s.enteredAt).Ends :=
  ⟨fun hactive => (h.window hactive).advance, fun hgrace => (h.grace hgrace).advance⟩

theorem ends_fsmStep {s : Timed} {rt : System} (h : s.Ends) (hnow : rt.now = s.sys.now)
    (hfsm : FsmStep s.sys.now s.sys.fsm rt.fsm) :
    (Timed.mk rt
      (if rt.fsm.currentState = s.sys.fsm.currentState then s.enteredAt else rt.now)).Ends := by
  cases hfsm with
  | same heq =>
    rw [heq, if_pos rfl]
    exact ⟨by rw [heq, hnow]; exact h.window, by rw [heq, hnow]; exact h.grace⟩
  | window target hactive hne heq =>
    have hstate : rt.fsm.currentState = target := by rw [heq]
    have htimer : rt.fsm.totalWorkWindowTimer =
        s.sys.fsm.totalWorkWindowTimer.start s.sys.now target.windowMs := by rw [heq]
    rw [hstate, if_neg (Ne.symm hne)]
    refine ⟨fun _ => ?_, fun hgrace => ?_⟩
    · simp only [hstate, htimer, hnow]
      exact Timer.dueAt_start _ (windowMs_pos target)
    · rw [hstate] at hgrace
      exact absurd hactive (RuntimeState.not_active_grace hgrace)
  | grace hactive hstate htimer =>
    have hne : rt.fsm.currentState ≠ s.sys.fsm.currentState := by
      intro hsame
      rw [hstate] at hsame
      exact RuntimeState.not_active_grace hsame.symm hactive
    rw [if_neg hne]
    refine ⟨fun hact => absurd hact (RuntimeState.not_active_grace hstate), fun _ => ?_⟩
    simp only [htimer, hnow]
    exact Timer.dueAt_start _ (by decide)
  | asleep hsleep =>
    refine ⟨fun hactive => ?_, fun hgrace => ?_⟩
    · rw [hsleep] at hactive
      cases hactive
    · rw [hsleep] at hgrace
      cases hgrace
  | windowHandled hinactive heq =>
    have hstate : rt.fsm.currentState = s.sys.fsm.currentState := by rw [heq]
    rw [if_pos hstate]
    refine ⟨fun hactive => ?_, fun hgrace => ?_⟩
    · rw [hstate, hinactive] at hactive
      cases hactive
    · rw [hstate] at hgrace
      rw [heq, hnow]
      exact h.grace hgrace
  | graceHandled hnot heq =>
    have hstate : rt.fsm.currentState = s.sys.fsm.currentState := by rw [heq]
    rw [if_pos hstate]
    refine ⟨fun hactive => ?_, fun hgrace => ?_⟩
    · rw [hstate] at hactive
      simp only [hstate]
      rw [heq, hnow]
      exact h.window hactive
    · exact absurd (hstate.symm.trans hgrace) hnot

theorem ends_step {s s' : Timed} {action : Action} (h : s.Ends)
    (hstep : timedStep s action = some s') : s'.Ends := by
  obtain ⟨rt, hrt, rfl⟩ := Option.map_eq_some_iff.mp hstep
  rcases step_fsm hrt with rfl | ⟨hnow, hfsm⟩
  · have hsame : (tick s.sys).fsm.currentState = s.sys.fsm.currentState := rfl
    rw [if_pos hsame]
    exact ends_tick h
  · exact ends_fsmStep h hnow hfsm

/-- In every state of every run, an active state and the grace period end in time. -/
theorem windows_end (actions : List Action) :
    Machine.Always timedStep Timed.Ends Timed.init actions := by
  refine Machine.always_of_invariant actions ⟨fun hactive => ?_, fun hgrace => ?_⟩
    fun _ _ _ h hstep => ends_step h hstep
  · cases hactive
  · cases hgrace

end MinimalWatch.Runtime
