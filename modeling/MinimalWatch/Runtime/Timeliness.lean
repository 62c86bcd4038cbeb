import Mathlib.Algebra.GroupWithZero.Nat
import MinimalWatch.Runtime.UserTasks

/-! How long things last when the timer interrupts are served in the millisecond in which they
are due. An awake window is over, with its grace period, after the sum of the two timers, and
a user task is off its worker after the sum of the two watchdog timeouts, whatever the other
threads do. -/

namespace MinimalWatch.Runtime
open Firmware

/-! ### Windows -/

/-- The last entry into an active state: when, and which. -/
structure WindowLog where
  openedAt : Nat
  target : RuntimeState
  deriving DecidableEq, Repr

def WindowLog.next (rt : System) (_ : Action) (rt' : System) (l : WindowLog) : WindowLog :=
  if rt'.fsm.currentState.isActive ∧ rt'.fsm.currentState ≠ rt.fsm.currentState then
    ⟨rt.now, rt'.fsm.currentState⟩
  else l

abbrev windowLogStep : System × WindowLog → Action → Option (System × WindowLog) :=
  Machine.recording step WindowLog.next

def windowLogInit : System × WindowLog := (.init, ⟨0, .sleep⟩)

/-- When the window that was opened last is over. -/
def WindowLog.end (l : WindowLog) : Nat := l.openedAt + l.target.windowMs

/-- Time does not go on while the handler of a window timer is due. -/
def WindowTimersServed (rt : System) (action : Action) : Prop :=
  action = .tick →
    rt.fsm.totalWorkWindowTimer.pending = false ∧ rt.fsm.gracePeriodTimer.pending = false

instance (rt : System) (action : Action) : Decidable (WindowTimersServed rt action) :=
  inferInstanceAs (Decidable (_ → _ ∧ _))

/-- The watch is awake no longer than its window and one grace period. -/
structure AwakeInTime (s : System × WindowLog) : Prop where
  active : s.1.fsm.currentState.isActive = true →
    s.2.target = s.1.fsm.currentState ∧ s.1.now ≤ s.2.end
  awake : s.1.fsm.currentState ≠ .sleep → s.1.now ≤ s.2.end + windowGracePeriodMs

/-- The timer of the state is armed or served, and its end is not past. -/
structure WindowsInTime (s : System × WindowLog) : Prop where
  active : s.1.fsm.currentState.isActive = true →
    s.2.target = s.1.fsm.currentState ∧ s.1.now ≤ s.2.end ∧
      s.1.fsm.totalWorkWindowTimer.DueAt s.1.now s.2.end
  grace : s.1.fsm.currentState = .gracePeriod →
    ∃ due, s.1.now ≤ due ∧ due ≤ s.2.end + windowGracePeriodMs ∧
      s.1.fsm.gracePeriodTimer.DueAt s.1.now due

theorem WindowsInTime.awakeInTime {s : System × WindowLog} (h : WindowsInTime s) :
    AwakeInTime s := by
  refine ⟨fun hactive => ?_, fun hawake => ?_⟩
  · obtain ⟨htarget, hle, -⟩ := h.active hactive
    exact ⟨htarget, hle⟩
  · cases hstate : s.1.fsm.currentState with
    | sleep => exact absurd hstate hawake
    | gracePeriod =>
      obtain ⟨due, hle, hend, -⟩ := h.grace hstate
      exact Nat.le_trans hle hend
    | backgroundActive =>
      have hle := (h.active (by rw [hstate]; rfl)).2.1
      exact Nat.le_trans hle (Nat.le_add_right _ _)
    | uiActive =>
      have hle := (h.active (by rw [hstate]; rfl)).2.1
      exact Nat.le_trans hle (Nat.le_add_right _ _)

theorem windowLog_of_same {rt rt' : System} {action : Action} (l : WindowLog)
    (h : rt'.fsm.currentState = rt.fsm.currentState) : l.next rt action rt' = l :=
  if_neg fun hnew => hnew.2 h

theorem windowLog_of_inactive {rt rt' : System} {action : Action} (l : WindowLog)
    (h : rt'.fsm.currentState.isActive = false) : l.next rt action rt' = l := by
  refine if_neg fun hnew => ?_
  rw [h] at hnew
  exact Bool.false_ne_true hnew.1

/-- Only the clock's step takes time. -/
theorem step_now {rt rt' : System} {action : Action} (h : step rt action = some rt')
    (hnot : action ≠ .tick) : rt'.now = rt.now := by
  cases step_cases h with
  | tick => exact absurd rfl hnot
  | setRuntimeState target hooks => exact setRuntimeState_now rt target hooks
  | demoteToCurfew => exact demoteToCurfew_now rt none
  | addUserWork item => exact (addUserWork_fsm rt item).1
  | addSystemWork item => exact (addSystemWork_fsm rt item).1
  | totalWorkWindowExpiry hpending => exact (totalWorkWindowExpiry_fsm _).1
  | gracePeriodExpiry hpending => exact (gracePeriodExpiry_fsm _).1
  | settlementGoesOn hpc => exact (settlementStep_fsm rt _).1
  | worker hrunnable hmove => exact hmove.fsm.1
  | maint hmove => exact hmove.fsm.1
  | _ => rfl

theorem WindowsInTime.tick {rt : System} {l : WindowLog} (h : WindowsInTime (rt, l))
    (hwindow : rt.fsm.totalWorkWindowTimer.pending = false)
    (hgrace : rt.fsm.gracePeriodTimer.pending = false) : WindowsInTime (tick rt, l) := by
  refine ⟨fun hactive => ?_, fun hstate => ?_⟩
  · obtain ⟨htarget, -, hdue⟩ := h.active hactive
    exact ⟨htarget, hdue.lt hwindow, hdue.advance⟩
  · obtain ⟨due, -, hend, hdue⟩ := h.grace hstate
    exact ⟨due, hdue.lt hgrace, hend, hdue.advance⟩

theorem WindowsInTime.fsmStep {rt rt' : System} {l : WindowLog} {action : Action}
    (h : WindowsInTime (rt, l)) (hnow : rt'.now = rt.now)
    (hfsm : FsmStep rt.now rt.fsm rt'.fsm) : WindowsInTime (rt', l.next rt action rt') := by
  cases hfsm with
  | same heq =>
    rw [windowLog_of_same l (by rw [heq])]
    exact ⟨by rw [heq, hnow]; exact h.active, by rw [heq, hnow]; exact h.grace⟩
  | window target hactive hne heq =>
    have hstate : rt'.fsm.currentState = target := by rw [heq]
    have hlog : l.next rt action rt' = ⟨rt.now, target⟩ := by
      rw [WindowLog.next, hstate, if_pos ⟨hactive, Ne.symm hne⟩]
    rw [hlog]
    refine ⟨fun _ => ⟨hstate.symm, ?_, ?_⟩, fun hgrace => ?_⟩
    · rw [hnow]
      exact Nat.le_add_right _ _
    · rw [hnow, heq]
      exact Timer.dueAt_start _ (windowMs_pos target)
    · exact absurd hactive (RuntimeState.not_active_grace (hstate.symm.trans hgrace))
  | grace hactive hstate htimer =>
    rw [windowLog_of_inactive l (by rw [hstate]; rfl)]
    obtain ⟨-, hle, -⟩ := h.active hactive
    refine ⟨fun hact => absurd hact (RuntimeState.not_active_grace hstate), fun _ => ?_⟩
    refine ⟨rt.now + windowGracePeriodMs, ?_, Nat.add_le_add_right hle _, ?_⟩
    · rw [hnow]
      exact Nat.le_add_right _ _
    · rw [hnow, htimer]
      exact Timer.dueAt_start _ (by decide)
  | asleep hsleep =>
    refine ⟨fun hactive => ?_, fun hgrace => ?_⟩
    · rw [hsleep] at hactive
      cases hactive
    · rw [hsleep] at hgrace
      cases hgrace
  | windowHandled hinactive heq =>
    have hstate : rt'.fsm.currentState = rt.fsm.currentState := by rw [heq]
    rw [windowLog_of_same l hstate]
    refine ⟨fun hactive => ?_, fun hgrace => ?_⟩
    · rw [hstate, hinactive] at hactive
      cases hactive
    · rw [heq, hnow]
      exact h.grace (hstate.symm.trans hgrace)
  | graceHandled hnot heq =>
    have hstate : rt'.fsm.currentState = rt.fsm.currentState := by rw [heq]
    rw [windowLog_of_same l hstate]
    refine ⟨fun hactive => ?_, fun hgrace => ?_⟩
    · rw [hstate] at hactive
      rw [heq, hnow]
      exact h.active hactive
    · exact absurd (hstate.symm.trans hgrace) hnot

theorem windowsInTime_step {s s' : System × WindowLog} {action : Action} (h : WindowsInTime s)
    (hserved : WindowTimersServed s.1 action) (hstep : windowLogStep s action = some s') :
    WindowsInTime s' := by
  obtain ⟨rt, l⟩ := s
  obtain ⟨rt', hrt, rfl⟩ := Machine.recording_some step WindowLog.next hstep
  by_cases htick : action = .tick
  · subst htick
    obtain ⟨hwindow, hgrace⟩ := hserved rfl
    cases Option.some.inj hrt
    have hsame : l.next rt .tick (tick rt) = l := windowLog_of_same l rfl
    simp only [hsame]
    exact h.tick hwindow hgrace
  · have hnow : rt'.now = rt.now := step_now hrt htick
    rcases step_fsm hrt with rfl | ⟨-, hfsm⟩
    · exact absurd hnow (Nat.ne_of_gt (Nat.lt_succ_self _))
    · exact h.fsmStep hnow hfsm

/-- In every run in which the handlers of the two window timers are served on time, the watch
is awake at no time later than the length of the window opened last and one grace period
after its opening; and in an active state no later than the length of that window. -/
theorem awake_in_time (actions : List Action)
    (hserved : Machine.EachStep windowLogStep (fun s => WindowTimersServed s.1) windowLogInit
      actions) :
    Machine.Always windowLogStep AwakeInTime windowLogInit actions := by
  have hinit : WindowsInTime windowLogInit := by
    refine ⟨fun hactive => ?_, fun hgrace => ?_⟩
    · cases hactive
    · cases hgrace
  exact (Machine.always_of_eachStep hinit (fun _ _ _ h hserved hstep =>
    windowsInTime_step h hserved hstep) hserved).mono fun _ h => h.awakeInTime

/-- A window with a hook runs its full length, and so does its grace period. -/
theorem awake_in_time_full :
    Machine.Always windowLogStep AwakeInTime windowLogInit
      (List.flatten [[.setRuntimeState .backgroundActive [1]], List.replicate 160 .tick,
        [.totalWorkWindowExpiry], List.replicate 700 .tick, [.gracePeriodExpiry]]) :=
  awake_in_time _ (by decide +kernel)

/-! ### User tasks -/

/-- In the call of a user task, from the arming of its timer on. -/
def WorkerPc.inTask : WorkerPc → Bool
  | .calling item => decide (item.type = .user)
  | .running item => decide (item.type = .user)
  | .returned item => decide (item.type = .user)
  | _ => false

/-- Time does not go on while a watchdog timer is due. -/
def WatchdogServed (rt : System) (action : Action) : Prop :=
  action = .tick → ∀ i, Watchdog.due (rt.watchdog.userAppSoftWd i) rt.now = false ∧
    Watchdog.due (rt.watchdog.userAppHardWd i) rt.now = false

instance (rt : System) (action : Action) : Decidable (WatchdogServed rt action) :=
  inferInstanceAs (Decidable (_ → ∀ _, _ ∧ _))

/-- A user task is on its worker no longer than both timeouts. -/
def TasksInTime (s : System × TaskRecord) : Prop :=
  ∀ i, (s.1.pool.workers i).pc.inTask = true →
    s.1.now ≤ (s.2 i).startedAt + (timeoutUserAppSoftMs + timeoutUserAppHardMs)

/-- The soft timer is not overdue, and in a task with no soft timer the hard one ends in
time. -/
structure SlotView.Guarded (v : SlotView) (now : Nat) : Prop where
  soft : ∀ due, v.soft = some due → now ≤ due
  hard : v.pc.inTask = true → v.soft = none → ∃ due, v.hard = some due ∧ now ≤ due ∧
    due ≤ v.record.startedAt + (timeoutUserAppSoftMs + timeoutUserAppHardMs)

structure SlotsInTime (s : System × TaskRecord) : Prop where
  sound : SlotsSound s
  guarded : ∀ i, (viewOf s i).Guarded s.1.now

theorem SlotsInTime.tasksInTime {s : System × TaskRecord} (h : SlotsInTime s) :
    TasksInTime s := by
  intro i hpc
  cases hsoft : (viewOf s i).soft with
  | some due =>
    have hle := (h.guarded i).soft due hsoft
    have hat : due = (s.2 i).startedAt + timeoutUserAppSoftMs := ((h.sound i).soft due hsoft).2.2
    omega
  | none =>
    obtain ⟨due, -, hle, hdue⟩ := (h.guarded i).hard hpc hsoft
    exact Nat.le_trans hle hdue

/-- Out of a task a slot has its soft timer as it was, or none. -/
theorem SlotView.Guarded.leave {v v' : SlotView} {now : Nat} (h : v.Guarded now)
    (hpc : v'.pc.inTask = false) (hsoft : v'.soft = v.soft ∨ v'.soft = none) :
    v'.Guarded now := by
  refine ⟨fun due hdue => ?_, fun hin => ?_⟩
  · rcases hsoft with hsame | hnone
    · exact h.soft due (hsame ▸ hdue)
    · rw [hnone] at hdue
      cases hdue
  · rw [hpc] at hin
    cases hin

/-- The timers and the record stay while the task does. -/
theorem SlotView.Guarded.move {v v' : SlotView} {now : Nat} (h : v.Guarded now)
    (hpc : v'.pc.inTask = true → v.pc.inTask = true) (hsoft : v'.soft = v.soft)
    (hhard : v'.hard = v.hard) (hstart : v'.record.startedAt = v.record.startedAt) :
    v'.Guarded now := by
  refine ⟨fun due hdue => h.soft due (hsoft ▸ hdue), fun hin hnone => ?_⟩
  rw [hhard, hstart]
  exact h.hard (hpc hin) (hsoft ▸ hnone)

theorem SlotView.Guarded.tick {v : SlotView} {now : Nat} (h : v.Guarded now)
    (hsoft : Watchdog.due v.soft now = false) (hhard : Watchdog.due v.hard now = false) :
    v.Guarded (now + 1) := by
  refine ⟨fun due hsome => ?_, fun hin hnone => ?_⟩
  · rw [hsome] at hsoft
    exact Nat.succ_le_of_lt (by simpa [Watchdog.due] using hsoft)
  · obtain ⟨due, hsome, -, hdue⟩ := h.hard hin hnone
    rw [hsome] at hhard
    exact ⟨due, hsome, Nat.succ_le_of_lt (by simpa [Watchdog.due] using hhard), hdue⟩

theorem guarded_workerMove {rt rt' : System} {r : TaskRecord} {i : Slot}
    (h : WorkerMove rt i rt') (hguarded : (viewOf (rt, r) i).Guarded rt.now) :
    (viewOf (rt', r.next rt (.worker i) rt') i).Guarded rt.now := by
  cases h with
  | @startSoft item hpc =>
    refine ⟨fun due hdue => ?_, fun _ hnone => ?_⟩
    · simp only [viewOf, Watchdog.startSoft, Function.update_self, Option.some.injEq] at hdue
      omega
    · simp [viewOf, Watchdog.startSoft] at hnone
  | @unwatchedCall item hpc htype =>
    refine hguarded.leave ?_ (Or.inl rfl)
    simp [viewOf, System.setWorkerPc, WorkerPool.setPc, WorkerPc.inTask, htype]
  | @call item hpc =>
    refine hguarded.move (fun hin => ?_) rfl rfl (by simp [viewOf, TaskRecord.next, hpc])
    simpa [viewOf, System.setWorkerPc, WorkerPool.setPc, WorkerPc.inTask, hpc] using hin
  | @stopSoft item hpc htype =>
    refine hguarded.leave ?_ (Or.inr ?_)
    · simp [viewOf, System.setWorkerPc, WorkerPool.setPc, WorkerPc.inTask]
    · simp [viewOf, Watchdog.stopSoft]
  | @curfew pc hpc =>
    have hpc' : (((curfewStep rt (some i) pc).1.setWorkerPc i
        ((curfewStep rt (some i) pc).2.elim .waiting .evaluating)).pool.workers i).pc =
          (curfewStep rt (some i) pc).2.elim .waiting .evaluating := by
      simp [System.setWorkerPc, WorkerPool.setPc]
    refine hguarded.leave ?_ (Or.inl ?_)
    · simp only [viewOf, hpc']
      cases (curfewStep rt (some i) pc).2 <;> rfl
    · exact congrFun (congrArg Watchdog.userAppSoftWd (curfewStep_spares rt (some i) pc).1) i
  | _ hpc =>
    refine hguarded.leave ?_ (Or.inl rfl)
    simp [viewOf, System.setWorkerPc, WorkerPool.setPc, WorkerPc.inTask]

/-- The soft timer of the slot fires, and the hard one is armed. -/
theorem guarded_softExpiry {rt : System} {r : TaskRecord} {i : Slot}
    (hsound : (viewOf (rt, r) i).Sound rt.now) (hguarded : (viewOf (rt, r) i).Guarded rt.now)
    (hdue : Watchdog.due (rt.watchdog.userAppSoftWd i) rt.now = true) (rt' : System) :
    (viewOf ({ rt with watchdog := rt.watchdog.softExpiry i rt.now },
      r.next rt (.softWdExpiry i) rt') i).Guarded rt.now := by
  obtain ⟨due, hsome, -⟩ := due_some hdue
  have hat : due = (r i).startedAt + timeoutUserAppSoftMs := (hsound.soft due hsome).2.2
  have hle := hguarded.soft due hsome
  refine ⟨fun due' hdue' => ?_, fun _ _ => ?_⟩
  · simp [viewOf, Watchdog.softExpiry, Watchdog.startHard, Watchdog.setFlag,
      Watchdog.stopSoft] at hdue'
  · refine ⟨rt.now + timeoutUserAppHardMs, ?_, Nat.le_add_right _ _, ?_⟩
    · simp [viewOf, Watchdog.softExpiry, Watchdog.startHard]
    · have hrecord : (viewOf ({ rt with watchdog := rt.watchdog.softExpiry i rt.now },
          r.next rt (.softWdExpiry i) rt') i).record.startedAt = (r i).startedAt := by
        simp [viewOf, TaskRecord.next]
      rw [hrecord]
      omega

/-- The steps that belong to no slot, and are not the clock's, leave tasks and timers alone. -/
theorem guarded_apart {rt rt' : System} {r : TaskRecord} {action : Action} {i : Slot}
    (h : step rt action = some rt') (hslot : action.slot? = none)
    (hguarded : (viewOf (rt, r) i).Guarded rt.now) :
    (viewOf (rt', r.next rt action rt') i).Guarded rt.now := by
  have hpcs := step_pcs h hslot i
  have hwatchdog := step_watchdog h hslot
  refine hguarded.move (fun hin => ?_) ?_ ?_ ?_
  · simpa [viewOf, hpcs] using hin
  · simp only [viewOf, hwatchdog]
    split_ifs <;> rfl
  · simp only [viewOf, hwatchdog]
    split_ifs <;> rfl
  · cases action with
    | worker j => cases hslot
    | softWdExpiry j => cases hslot
    | _ =>
      simp only [viewOf, TaskRecord.next]
      split_ifs <;> rfl

/-- Nor does a step of another slot touch them. -/
theorem guarded_other {rt rt' : System} {r : TaskRecord} {action : Action} {i j : Slot}
    (h : step rt action = some rt') (hslot : action.slot? = some j) (hij : i ≠ j)
    (hguarded : (viewOf (rt, r) i).Guarded rt.now) :
    (viewOf (rt', r.next rt action rt') i).Guarded rt.now := by
  have hstep : taskStep (rt, r) action = some (rt', r.next rt action rt') :=
    congrArg (Option.map fun rt' => (rt', r.next rt action rt')) h
  obtain ⟨hsoft, hhard, -⟩ := slotsApart (rt, r) action j _ hslot hstep i hij
  suffices hsame : (rt'.pool.workers i).pc = (rt.pool.workers i).pc ∧
      (r.next rt action rt' i).startedAt = (r i).startedAt from
    hguarded.move (fun hin => (congrArg _ hsame.1).symm.trans hin) hsoft hhard hsame.2
  cases action with
  | worker k =>
    cases hslot
    exact ⟨(workerStep_move h).2.others hij, congrArg _ (r.next_worker_other hij)⟩
  | handlerReturns k =>
    cases hslot
    obtain ⟨item, -, rfl⟩ := handlerReturns_some h
    refine ⟨by simp [System.setWorkerPc, WorkerPool.setPc, hij], ?_⟩
    simp [TaskRecord.next, System.transition, Transition.forcesAbort]
  | softWdExpiry k =>
    cases hslot
    obtain ⟨-, hnew⟩ := Option.ite_none_right_eq_some.mp h
    rw [← Option.some.inj hnew]
    exact ⟨rfl, by simp [TaskRecord.next, hij]⟩
  | hardWdExpiry k =>
    cases hslot
    obtain ⟨-, hnew⟩ := Option.ite_none_right_eq_some.mp h
    rw [← Option.some.inj hnew]
    refine ⟨by simp [WorkerPool.recoverStalledRunner, hij], ?_⟩
    simp [TaskRecord.next, System.transition, Transition.forcesAbort]
  | _ => cases hslot

theorem guarded_own {rt rt' : System} {r : TaskRecord} {action : Action} {i : Slot}
    (h : step rt action = some rt') (hslot : action.slot? = some i)
    (hsound : (viewOf (rt, r) i).Sound rt.now) (hguarded : (viewOf (rt, r) i).Guarded rt.now) :
    (viewOf (rt', r.next rt action rt') i).Guarded rt.now := by
  cases action with
  | worker k =>
    cases hslot
    exact guarded_workerMove (workerStep_move h).2 hguarded
  | handlerReturns k =>
    cases hslot
    obtain ⟨item, hpc, rfl⟩ := handlerReturns_some h
    refine hguarded.move (fun hin => ?_) rfl rfl ?_
    · simpa [viewOf, System.setWorkerPc, WorkerPool.setPc, hpc, WorkerPc.inTask] using hin
    · simp [viewOf, TaskRecord.next, System.transition, Transition.forcesAbort]
  | softWdExpiry k =>
    cases hslot
    obtain ⟨hdue, hnew⟩ := Option.ite_none_right_eq_some.mp h
    cases Option.some.inj hnew
    exact guarded_softExpiry hsound hguarded hdue _
  | hardWdExpiry k =>
    cases hslot
    obtain ⟨-, hnew⟩ := Option.ite_none_right_eq_some.mp h
    cases Option.some.inj hnew
    -- the new thread waits for work, and has no timer
    refine hguarded.leave ?_ (Or.inr ?_)
    · simp [viewOf, WorkerPool.recoverStalledRunner, WorkerPc.inTask]
    · simp [viewOf, Watchdog.stopUserApp, Watchdog.stopSoft, Watchdog.stopHard, Watchdog.setFlag]
  | _ => cases hslot

theorem guarded_step {rt rt' : System} {r : TaskRecord} {action : Action}
    (h : SlotsInTime (rt, r)) (hserved : WatchdogServed rt action)
    (hrt : step rt action = some rt') (i : Slot) :
    (viewOf (rt', r.next rt action rt') i).Guarded rt'.now := by
  have hi : (viewOf (rt, r) i).Guarded rt.now := h.guarded i
  by_cases htick : action = .tick
  · subst htick
    cases Option.some.inj hrt
    obtain ⟨hsoft, hhard⟩ := hserved rfl i
    exact hi.tick hsoft hhard
  rw [step_now hrt htick]
  cases hslot : action.slot? with
  | none => exact guarded_apart hrt hslot hi
  | some j =>
    by_cases hij : i = j
    · subst hij
      exact guarded_own hrt hslot (h.sound i) hi
    · exact guarded_other hrt hslot hij hi

theorem slotsInTime_step {s s' : System × TaskRecord} {action : Action} (h : SlotsInTime s)
    (hserved : WatchdogServed s.1 action) (hstep : taskStep s action = some s') :
    SlotsInTime s' := by
  have hsound := slotsSound_step h.sound hstep
  obtain ⟨rt', hrt, rfl⟩ := Machine.recording_some step TaskRecord.next hstep
  exact ⟨hsound, guarded_step h hserved hrt⟩

/-- In every run in which the watchdog timers are served on time, a user task that its worker
has called, returned or not, suspended or not, is off the worker by the end of both timeouts. -/
theorem tasks_in_time (actions : List Action)
    (hserved : Machine.EachStep taskStep (fun s => WatchdogServed s.1) taskInit actions) :
    Machine.Always taskStep TasksInTime taskInit actions := by
  have hinit : SlotsInTime taskInit := by
    refine ⟨slotsSound_init, fun i => ⟨fun _ hdue => ?_, fun hin => ?_⟩⟩
    · cases hdue
    · cases hin
  exact (Machine.always_of_eachStep hinit (fun _ _ _ h hserved hstep =>
    slotsInTime_step h hserved hstep) hserved).mono fun _ h => h.tasksInTime

/-- A task that does not return is told to abort and then struck. -/
theorem tasks_in_time_struck :
    let item : WorkItem := ⟨.system, some .sendAppUpdate, 0, .fill maxWorkerArgPayload 0⟩
    Machine.Always taskStep TasksInTime taskInit
      (List.flatten [[.setRuntimeState .backgroundActive [], .addUserWork item,
        .enqueueUserWork item], List.replicate 7 (.worker 0), List.replicate 30 .tick,
        [.softWdExpiry 0], List.replicate 10 .tick, [.hardWdExpiry 0]]) :=
  tasks_in_time _ (by decide +kernel)

end MinimalWatch.Runtime
