import MinimalWatch.Lib.Machine
import MinimalWatch.Runtime.Transitions

/-! Sleep without a thread or a timer left running. Each way into sleep stops a different
set of timers, and a worker that goes to sleep by the nominal path suspends itself before it
comes to the later slots. Two steps can start something while the runtime is asleep: the
maintenance thread that comes to arm the settlement timer, and the hard watchdog, whose
new thread is not suspended. -/

namespace MinimalWatch.Runtime
open Firmware

structure Quiescent (rt : System) : Prop where
  suspended : ∀ i, (rt.pool.workers i).suspended = true
  window : rt.fsm.totalWorkWindowTimer.deadline = none
  grace : rt.fsm.gracePeriodTimer.deadline = none
  settlement : rt.mgmt.curfewSettlementTimer.deadline = none

def SleepsQuiet (rt : System) : Prop := rt.fsm.currentState = .sleep → Quiescent rt

/-- What keeps sleep quiet: the timers that a way into sleep does not stop are not armed,
the slots behind a worker that takes the nominal path are suspended already, and asleep
neither the maintenance thread arms the settlement timer nor the hard watchdog makes a
thread. -/
def LeavesQuiet (rt : System) (action : Action) : Prop :=
  (match rt.transition action with
    | .curfewSleep caller => rt.fsm.gracePeriodTimer.deadline = none ∧
        ∀ i ∈ caller, ∀ j, i < j → (rt.pool.workers j).suspended = true
    | .graceExpired => rt.mgmt.curfewSettlementTimer.deadline = none
    | .maintSleep => rt.mgmt.curfewSettlementTimer.deadline = none
    | _ => True) ∧
  (rt.fsm.currentState = .sleep →
    (action = .maint → rt.arms .maint = none) ∧ ∀ i, action ≠ .hardWdExpiry i)

/-- In the grace period the window's timer is not armed. -/
structure QuietInv (rt : System) : Prop where
  sleeps : SleepsQuiet rt
  grace : rt.fsm.currentState = .gracePeriod → rt.fsm.totalWorkWindowTimer.deadline = none

theorem quietInv_init : QuietInv System.init :=
  ⟨fun _ => ⟨fun _ => rfl, rfl, rfl, rfl⟩, fun h => by cases h⟩

theorem Timer.advance_none {t : Timer} (now : Nat) (h : t.deadline = none) :
    (t.advance now).deadline = none := by
  rw [Timer.advance, h]
  exact h

theorem Quiescent.tick {rt : System} (h : Quiescent rt) : Quiescent (tick rt) :=
  ⟨h.suspended, Timer.advance_none _ h.window, Timer.advance_none _ h.grace,
    Timer.advance_none _ h.settlement⟩

theorem quietInv_tick {rt : System} (h : QuietInv rt) : QuietInv (tick rt) :=
  ⟨fun hsleep => (h.sleeps hsleep).tick, fun hgrace => Timer.advance_none _ (h.grace hgrace)⟩

/-- A suspended worker takes no step. -/
theorem worker_runnable {rt rt' : System} {i : Slot}
    (h : step rt (.worker i) = some rt') : (rt.pool.workers i).suspended = false :=
  (workerStep_move h).1

/-- Asleep and quiet, only the maintenance thread could arm the settlement timer. -/
theorem arms_none_of_asleep {rt rt' : System} {action : Action} (h : Quiescent rt)
    (hstep : step rt action = some rt') (hmaint : action = .maint → rt.arms .maint = none) :
    rt.arms action = none := by
  cases action with
  | worker i =>
    have hrunnable := worker_runnable hstep
    rw [h.suspended i] at hrunnable
    cases hrunnable
  | maint => exact hmaint rfl
  | _ => rfl

theorem arms_none_of_transition {rt : System} {action : Action}
    (h : rt.transition action ≠ .stay) : rt.arms action = none := by
  cases action with
  | worker i =>
    simp only [System.transition] at h
    simp only [System.arms]
    cases hpc : (rt.pool.workers i).pc with
    | evaluating pc => cases pc <;> simp [hpc, CurfewPc.gap?] at h ⊢
    | _ => rfl
  | maint =>
    simp only [System.transition] at h
    simp only [System.arms]
    cases hpc : rt.maint with
    | evaluating pc => cases pc <;> simp [hpc, CurfewPc.gap?] at h ⊢
    | _ => rfl
  | _ => rfl

theorem interrupts_false_of_transition {rt : System} {action : Action}
    (h : rt.transition action ≠ .stay) : rt.interrupts action = false := by
  cases action with
  | worker i =>
    simp only [System.transition] at h
    simp only [System.interrupts]
    cases hpc : (rt.pool.workers i).pc with
    | admitted item => simp [hpc] at h
    | _ => rfl
  | _ => rfl

/-- A transition decides about the settlement timer alone. -/
theorem settlementAfter_of_transition {rt : System} {action : Action}
    (h : rt.transition action ≠ .stay) :
    rt.settlementAfter action =
      (rt.transition action).settlementDeadline rt.mgmt.curfewSettlementTimer.deadline :=
  settlementAfter_of_quiet (arms_none_of_transition h) (interrupts_false_of_transition h) rfl

theorem settlementAfter_none {rt : System} {action : Action} (harms : rt.arms action = none)
    (h : (rt.transition action).settlementDeadline rt.mgmt.curfewSettlementTimer.deadline =
      none) : rt.settlementAfter action = none := by
  rw [System.settlementAfter, harms]
  simp only [h, ite_self]

theorem tick_of_step {rt rt' : System} (h : step rt .tick = some rt') : rt' = tick rt :=
  (Option.some.inj h).symm

/-- A way into sleep that leaves the pool suspended, with no timer armed that it does not
stop. -/
theorem quiescent_of_transition {rt rt' : System} {action : Action} {t : Transition}
    (heffect : StepEffect rt action rt') (ht : rt.transition action = t) (hstay : t ≠ .stay)
    (hsuspends : ∀ i, t.suspended i (rt.pool.workers i).suspended = true)
    (hwindow : t.windowDeadline rt.now rt.fsm.totalWorkWindowTimer.deadline = none)
    (hgrace : t.graceDeadline rt.now rt.fsm.gracePeriodTimer.deadline = none)
    (hsettlement : t.settlementDeadline rt.mgmt.curfewSettlementTimer.deadline = none) :
    Quiescent rt' := by
  have htick : action ≠ .tick := by
    rintro rfl
    exact hstay ht.symm
  have hstrike : ∀ i, action ≠ .hardWdExpiry i := by
    rintro i rfl
    exact hstay ht.symm
  have harms := arms_none_of_transition (ht ▸ hstay)
  subst ht
  refine ⟨fun i => ?_, ?_, ?_, ?_⟩
  · rw [heffect.suspended, if_neg (hstrike i), hsuspends]
  · rw [heffect.windowTimer htick, hwindow]
  · rw [heffect.graceTimer htick, hgrace]
  · rw [heffect.settlementTimer htick, settlementAfter_none harms hsettlement]

/-- A step that is no section, or the rest of one, neither arms a timer nor resumes a slot. -/
theorem Transition.keeps_quiet {t : Transition} (ht : t = .stay ∨ ∃ i, t = .suspendRest i)
    (now : Nat) : (∀ j, t.suspended j true = true) ∧ t.windowDeadline now none = none ∧
      t.graceDeadline now none = none ∧ t.settlementDeadline none = none := by
  rcases ht with rfl | ⟨i, rfl⟩
  · exact ⟨fun _ => rfl, rfl, rfl, rfl⟩
  · exact ⟨fun _ => Bool.or_true _, rfl, rfl, rfl⟩

/-- A quiet sleep goes on as long as no thread arms the settlement timer or is made. -/
theorem Quiescent.step {rt rt' : System} {action : Action} (h : Quiescent rt)
    (hstep : step rt action = some rt')
    (ht : rt.transition action = .stay ∨ ∃ i, rt.transition action = .suspendRest i)
    (hmaint : action = .maint → rt.arms .maint = none)
    (hstrike : ∀ i, action ≠ .hardWdExpiry i) : Quiescent rt' := by
  by_cases htick : action = .tick
  · subst htick
    rw [tick_of_step hstep]
    exact h.tick
  have heffect := step_effect hstep
  obtain ⟨hsuspended, hwindow, hgrace, hsettlement⟩ := Transition.keeps_quiet ht rt.now
  refine ⟨fun i => ?_, ?_, ?_, ?_⟩
  · rw [heffect.suspended, if_neg (hstrike i), h.suspended i, hsuspended]
  · rw [heffect.windowTimer htick, h.window, hwindow]
  · rw [heffect.graceTimer htick, h.grace, hgrace]
  · rw [heffect.settlementTimer htick]
    exact settlementAfter_none (arms_none_of_asleep h hstep hmaint)
      (by rw [h.settlement, hsettlement])

/-- The curfew suspends the slots up to that of the worker that runs it. -/
theorem curfewSleep_suspends {rt : System} {caller : Option Slot}
    (hlater : ∀ i ∈ caller, ∀ j, i < j → (rt.pool.workers j).suspended = true) (j : Slot) :
    (Transition.curfewSleep caller).suspended j (rt.pool.workers j).suspended = true := by
  cases caller with
  | none => rfl
  | some i =>
    rw [Transition.suspended, Option.all_some]
    by_cases hj : j ≤ i
    · rw [decide_eq_true hj, Bool.true_or]
    · rw [hlater i rfl j (Nat.lt_of_not_le hj), Bool.or_true]

theorem sleepsQuiet_step {rt rt' : System} {action : Action} (h : QuietInv rt)
    (hquiet : LeavesQuiet rt action) (hstep : step rt action = some rt') : SleepsQuiet rt' := by
  have heffect := step_effect hstep
  have hguard := transition_guard rt action
  have hstate := heffect.state
  obtain ⟨hleft, hasleep⟩ := hquiet
  intro hsleep
  rw [hstate] at hsleep
  cases ht : rt.transition action with
  | stay =>
    rw [ht] at hsleep
    obtain ⟨hmaint, hstrike⟩ := hasleep hsleep
    exact (h.sleeps hsleep).step hstep (Or.inl ht) hmaint hstrike
  | suspendRest i =>
    rw [ht] at hsleep
    obtain ⟨hmaint, hstrike⟩ := hasleep hsleep
    exact (h.sleeps hsleep).step hstep (Or.inr ⟨i, ht⟩) hmaint hstrike
  | openWindow target hooks =>
    rw [ht] at hsleep hguard
    rw [Transition.Guard, show target = .sleep from hsleep] at hguard
    cases hguard
  | curfewGrace =>
    rw [ht] at hsleep
    cases hsleep
  | dropToSleep =>
    exact quiescent_of_transition heffect ht (by simp) (fun _ => rfl) rfl rfl rfl
  | curfewSleep caller =>
    rw [ht] at hleft
    obtain ⟨hgrace, hlater⟩ := hleft
    exact quiescent_of_transition heffect ht (by simp) (curfewSleep_suspends hlater) rfl hgrace rfl
  | graceExpired =>
    rw [ht] at hleft hguard
    exact quiescent_of_transition heffect ht (by simp) (fun _ => rfl) (h.grace hguard) rfl hleft
  | maintSleep =>
    rw [ht] at hleft hguard
    exact quiescent_of_transition heffect ht (by simp) (fun _ => rfl) (h.grace hguard.1) rfl hleft

theorem graceWindow_step {rt rt' : System} {action : Action} (h : QuietInv rt)
    (hstep : step rt action = some rt') (hgrace : rt'.fsm.currentState = .gracePeriod) :
    rt'.fsm.totalWorkWindowTimer.deadline = none := by
  by_cases htick : action = .tick
  · subst htick
    rw [tick_of_step hstep] at hgrace ⊢
    exact (quietInv_tick h).grace hgrace
  have heffect := step_effect hstep
  have hguard := transition_guard rt action
  rw [heffect.state] at hgrace
  rw [heffect.windowTimer htick]
  cases ht : rt.transition action with
  | stay | suspendRest _ =>
    rw [ht] at hgrace
    exact h.grace hgrace
  | openWindow target hooks =>
    rw [ht] at hgrace hguard
    rw [Transition.Guard, show target = .gracePeriod from hgrace] at hguard
    cases hguard
  | curfewGrace => rfl
  | _ =>
    rw [ht] at hgrace
    cases hgrace

theorem quietInv_step {rt rt' : System} {action : Action} (h : QuietInv rt)
    (hquiet : LeavesQuiet rt action) (hstep : step rt action = some rt') : QuietInv rt' :=
  ⟨sleepsQuiet_step h hquiet hstep, graceWindow_step h hstep⟩

/-- A step against the condition leaves something running in sleep. -/
theorem sleepsQuiet_break {rt rt' : System} {action : Action}
    (hquiet : ¬ LeavesQuiet rt action) (hstep : step rt action = some rt') :
    ¬ SleepsQuiet rt' := by
  have heffect := step_effect hstep
  intro h'
  unfold SleepsQuiet at h'
  rw [heffect.state] at h'
  refine hquiet ⟨?_, fun hsleep => ⟨?_, ?_⟩⟩
  · cases ht : rt.transition action with
    | curfewSleep caller =>
      have hquiescent := h' (by rw [ht]; rfl)
      have hgrace := hquiescent.grace
      rw [heffect.graceTimer (by rintro rfl; cases ht), ht] at hgrace
      refine ⟨hgrace, fun i hi j hj => ?_⟩
      have hsuspended := hquiescent.suspended j
      rw [heffect.suspended, if_neg (by rintro rfl; cases ht), ht, Transition.suspended, hi,
        Option.all_some, decide_eq_false (Fin.not_le.mpr hj), Bool.false_or] at hsuspended
      exact hsuspended
    | graceExpired =>
      have hsettlement := (h' (by rw [ht]; rfl)).settlement
      rw [heffect.settlementTimer (by rintro rfl; cases ht),
        settlementAfter_of_transition (by simp [ht]), ht] at hsettlement
      exact hsettlement
    | maintSleep =>
      have hsettlement := (h' (by rw [ht]; rfl)).settlement
      rw [heffect.settlementTimer (by rintro rfl; cases ht),
        settlementAfter_of_transition (by simp [ht]), ht] at hsettlement
      exact hsettlement
    | _ => trivial
  · rintro rfl
    by_contra harms
    have hstay : rt.transition .maint = .stay := by
      by_contra hne
      exact harms (arms_none_of_transition hne)
    obtain ⟨gap, hgap⟩ := Option.ne_none_iff_exists'.mp harms
    have hsettlement := (h' (by rw [hstay]; exact hsleep)).settlement
    rw [heffect.settlementTimer (by simp), System.settlementAfter, hgap] at hsettlement
    cases hsettlement
  · rintro i rfl
    have hsuspended := (h' hsleep).suspended i
    rw [heffect.suspended, if_pos rfl] at hsuspended
    cases hsuspended

/-- Along any run: asleep, all workers are suspended and no timer is armed, exactly when
the timers that a way into sleep leaves alone are not armed there, no slot runs behind a worker
that takes the nominal path, and asleep neither the maintenance thread arms the settlement
timer nor the hard watchdog strikes. -/
theorem sleepsQuiet_iff (actions : List Action) :
    Machine.Always step SleepsQuiet System.init actions ↔
      Machine.EachStep step LeavesQuiet System.init actions :=
  Machine.always_iff_eachStep quietInv_init (fun _ h => h.sleeps)
    (fun _ _ _ h hquiet hstep => quietInv_step h hquiet hstep)
    (fun _ _ _ _ hquiet hstep => sleepsQuiet_break hquiet hstep)

/-- After a tick of work the window settles early. In the grace period a worker finishes
while the maintenance thread runs the hook, and arms the settlement timer; the hook
returns, the maintenance thread finds no work left and goes to sleep, and the timer stays
armed. In another run the worker reads the clock in the grace period and comes to demote when
a new window has been opened; it suspends itself, and the slots behind it stay runnable. -/
theorem sleep_not_quiet :
    let rx : WorkItem := ⟨.system, some .processRxBuffers, 0, .fill maxWorkerArgPayload 0⟩
    let item : WorkItem := ⟨.user, some .sendAppUpdate, 0, .fill maxWorkerArgPayload 0⟩
    let settled : List Action := List.flatten [
      [.setRuntimeState .backgroundActive [1], .addSystemWork rx, .maint, .maintHandlerReturns],
      List.replicate 10 .maint, List.replicate 10 .tick, List.replicate 6 .settlementExpiry,
      [.maint, .addUserWork item, .enqueueUserWork item], List.replicate 7 (.worker 0),
      [.handlerReturns 0], List.replicate 12 (.worker 0), [.maintHandlerReturns, .maint, .maint]]
    let demoted : List Action := List.flatten [
      [.setRuntimeState .backgroundActive [1]], List.replicate 160 .tick,
      [.totalWorkWindowExpiry, .maint, .addUserWork item, .enqueueUserWork item],
      List.replicate 7 (.worker 0), [.handlerReturns 0], List.replicate 11 (.worker 0),
      [.setRuntimeState .uiActive [], .worker 0]]
    (∃ rt, Machine.run step System.init settled = some rt ∧ rt.fsm.currentState = .sleep ∧
      rt.mgmt.curfewSettlementTimer.deadline = some 20 ∧ ¬ SleepsQuiet rt) ∧
    ∃ rt, Machine.run step System.init demoted = some rt ∧ rt.fsm.currentState = .sleep ∧
      (rt.pool.workers 0).suspended = true ∧ (rt.pool.workers 1).suspended = false ∧
      ¬ SleepsQuiet rt := by
  intro rx item settled demoted
  have hsettled : ∃ rt ∈ Machine.run step System.init settled,
      rt.fsm.currentState = .sleep ∧ rt.mgmt.curfewSettlementTimer.deadline = some 20 := by
    decide +kernel
  have hdemoted : ∃ rt ∈ Machine.run step System.init demoted, rt.fsm.currentState = .sleep ∧
      (rt.pool.workers 0).suspended = true ∧ (rt.pool.workers 1).suspended = false := by
    decide +kernel
  obtain ⟨rt, hrt, hsleep, harmed⟩ := hsettled
  obtain ⟨rt', hrt', hsleep', hself, hlater⟩ := hdemoted
  refine ⟨⟨rt, hrt, hsleep, harmed, fun h => ?_⟩,
    ⟨rt', hrt', hsleep', hself, hlater, fun h => ?_⟩⟩
  · rw [(h hsleep).settlement] at harmed
    cases harmed
  · rw [(h hsleep').suspended 1] at hlater
    cases hlater

end MinimalWatch.Runtime
