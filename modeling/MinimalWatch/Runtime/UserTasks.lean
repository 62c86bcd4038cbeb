import MinimalWatch.Lib.Machine
import MinimalWatch.Runtime.Transitions
import MinimalWatch.Runtime.Windows

/-! User tasks under the watchdog. A record beside the runtime counts the tasks that each
slot has started and keeps when the last one was, for which task each of the slot's timers
was armed, and whether all tasks have been told to abort since. A timer is armed only while
the task it was armed for is watched, so the watchdog never strikes another. -/

namespace MinimalWatch.Runtime
open Firmware

/-- From the end of `watchdog_start_user_app` until the hard timer has been stopped. -/
def WorkerPc.watched : WorkerPc → Bool
  | .calling item => decide (item.type = .user)
  | .running item => decide (item.type = .user)
  | .returned item => decide (item.type = .user)
  | .softStopped item => decide (item.type = .user)
  | _ => false

/-- Within `watchdog_start_user_app`, the flag cleared and the timer not yet armed. -/
def WorkerPc.starting : WorkerPc → Bool
  | .flagCleared _ => true
  | _ => false

/-- What is known of a slot: how many user tasks it has started, when the soft timer of the
last one was, for which task each timer was last armed, and whether
`watchdog_force_all_cooperative_abort` has been called since the last start. -/
structure SlotRecord where
  task : Nat
  startedAt : Nat
  softFor : Nat
  hardFor : Nat
  forced : Bool
  deriving DecidableEq, Repr

abbrev TaskRecord := Slot → SlotRecord

def TaskRecord.next (rt : System) (action : Action) (_ : System) (r : TaskRecord) : TaskRecord :=
  match action with
  | .worker i =>
    match (rt.pool.workers i).pc with
    | .counted item =>
      if item.type = .user then
        Function.update r i { r i with task := (r i).task + 1, forced := false }
      else r
    | .flagCleared _ =>
      Function.update r i { r i with startedAt := rt.now, softFor := (r i).task }
    | _ => r
  | .softWdExpiry i => Function.update r i { r i with hardFor := (r i).softFor }
  | _ =>
    if (rt.transition action).forcesAbort then fun i => { r i with forced := true } else r

abbrev taskStep : System × TaskRecord → Action → Option (System × TaskRecord) :=
  Machine.recording step TaskRecord.next

def taskInit : System × TaskRecord := (.init, fun _ => ⟨0, 0, 0, 0, false⟩)

/-- The watchdog fires for the task that the slot is at, and not before its time; the hard
watchdog strikes no task younger than both timeouts. -/
def FiresInTime (s : System × TaskRecord) : Action → Prop
  | .softWdExpiry i => (s.1.pool.workers i).pc.watched = true ∧ (s.2 i).softFor = (s.2 i).task ∧
      (s.2 i).startedAt + timeoutUserAppSoftMs ≤ s.1.now
  | .hardWdExpiry i => (s.1.pool.workers i).pc.watched = true ∧ (s.2 i).hardFor = (s.2 i).task ∧
      (s.2 i).startedAt + (timeoutUserAppSoftMs + timeoutUserAppHardMs) ≤ s.1.now
  | _ => True

/-- The slot that an event belongs to. -/
def Action.slot? : Action → Option Slot
  | .softWdExpiry i => some i
  | .hardWdExpiry i => some i
  | .worker i => some i
  | .handlerReturns i => some i
  | _ => none

/-- An event on one slot leaves the timers and the flag of the others as they are. -/
def SlotsApart (s : System × TaskRecord) (action : Action) : Prop :=
  ∀ i s', action.slot? = some i → taskStep s action = some s' → ∀ j, j ≠ i →
    s'.1.watchdog.userAppSoftWd j = s.1.watchdog.userAppSoftWd j ∧
      s'.1.watchdog.userAppHardWd j = s.1.watchdog.userAppHardWd j ∧
      s'.1.watchdog.userAppAbortFlags j = s.1.watchdog.userAppAbortFlags j

/-- A task that has run for less than the soft timeout sees its flag set only if all tasks
have been told to abort since it was started. -/
def FlagsHonest (s : System × TaskRecord) : Prop :=
  ∀ i, (s.1.pool.workers i).pc.watched = true → s.1.watchdog.userAppAbortFlags i = true →
    s.1.now < (s.2 i).startedAt + timeoutUserAppSoftMs → (s.2 i).forced = true

/-! ### What holds of a slot -/

/-- The state of one slot with its record. -/
structure SlotView where
  pc : WorkerPc
  soft : Option Nat
  hard : Option Nat
  flag : Bool
  record : SlotRecord

def viewOf (s : System × TaskRecord) (i : Slot) : SlotView :=
  ⟨(s.1.pool.workers i).pc, s.1.watchdog.userAppSoftWd i, s.1.watchdog.userAppHardWd i,
    s.1.watchdog.userAppAbortFlags i, s.2 i⟩

structure SlotView.Sound (v : SlotView) (now : Nat) : Prop where
  soft : ∀ due, v.soft = some due → v.pc.watched = true ∧ v.record.softFor = v.record.task ∧
    due = v.record.startedAt + timeoutUserAppSoftMs
  hard : ∀ due, v.hard = some due → v.pc.watched = true ∧ v.record.hardFor = v.record.task ∧
    v.record.startedAt + (timeoutUserAppSoftMs + timeoutUserAppHardMs) ≤ due
  stopped : ∀ item, v.pc = .softStopped item → v.soft = none
  user : ∀ item, v.pc = .flagCleared item → item.type = .user
  started : v.pc.starting = true → v.flag = true → v.record.forced = true
  flag : v.pc.watched = true → v.flag = true →
    v.record.forced = true ∨ v.record.startedAt + timeoutUserAppSoftMs ≤ now

def SlotsSound (s : System × TaskRecord) : Prop := ∀ i, (viewOf s i).Sound s.1.now

/-- A slot that is neither starting nor watching a task has no timer armed. -/
theorem SlotView.Sound.quiet {v : SlotView} {now : Nat} (h : v.Sound now)
    (hpc : v.pc.watched = false) : v.soft = none ∧ v.hard = none := by
  refine ⟨?_, ?_⟩
  · cases hsoft : v.soft with
    | none => rfl
    | some due =>
      have hwatched := (h.soft due hsoft).1
      rw [hpc] at hwatched
      cases hwatched
  · cases hhard : v.hard with
    | none => rfl
    | some due =>
      have hwatched := (h.hard due hhard).1
      rw [hpc] at hwatched
      cases hwatched

theorem SlotView.sound_of_quiet {v : SlotView} {now : Nat} (hsoft : v.soft = none)
    (hhard : v.hard = none) (hpc : v.pc.watched = false)
    (huser : ∀ item, v.pc = .flagCleared item → item.type = .user)
    (hstart : v.pc.starting = true → v.flag = true → v.record.forced = true) : v.Sound now := by
  refine ⟨fun due h => ?_, fun due h => ?_, fun _ _ => hsoft, huser, hstart, fun h => ?_⟩
  · rw [hsoft] at h
    cases h
  · rw [hhard] at h
    cases h
  · rw [hpc] at h
    cases h

/-- The timers and the flag stay as they are while the task is watched or not as before. -/
theorem SlotView.Sound.move {v v' : SlotView} {now : Nat} (h : v.Sound now)
    (hsoft : v'.soft = v.soft) (hhard : v'.hard = v.hard) (hflag : v'.flag = v.flag)
    (hrecord : v'.record = v.record) (hwatched : v'.pc.watched = v.pc.watched)
    (hstarting : v'.pc.starting = false) (hstopped : ∀ item, v'.pc ≠ .softStopped item) :
    v'.Sound now := by
  refine ⟨fun due hdue => ?_, fun due hdue => ?_, fun item hpc => absurd hpc (hstopped item),
    fun item hpc => ?_, fun hpc => ?_, fun hpc hset => ?_⟩
  · rw [hwatched, hrecord]
    exact h.soft due (hsoft ▸ hdue)
  · rw [hwatched, hrecord]
    exact h.hard due (hhard ▸ hdue)
  · rw [hpc] at hstarting
    cases hstarting
  · rw [hstarting] at hpc
    cases hpc
  · rw [hrecord]
    exact h.flag (hwatched ▸ hpc) (hflag ▸ hset)

theorem SlotView.Sound.later {v : SlotView} {now now' : Nat} (h : v.Sound now)
    (hle : now ≤ now') : v.Sound now' :=
  ⟨h.soft, h.hard, h.stopped, h.user, h.started, fun hpc hflag =>
    (h.flag hpc hflag).imp id fun hdue => by omega⟩

/-- All tasks are told to abort. -/
theorem SlotView.Sound.force {v : SlotView} {now : Nat} (h : v.Sound now) :
    SlotView.Sound { v with flag := true, record := { v.record with forced := true } } now :=
  ⟨h.soft, h.hard, h.stopped, h.user, fun _ _ => rfl, fun _ _ => Or.inl rfl⟩

/-- The soft timer fires. -/
theorem SlotView.Sound.softExpiry {v : SlotView} {now due : Nat} (h : v.Sound now)
    (hsoft : v.soft = some due) (hdue : due ≤ now) :
    SlotView.Sound { v with
      soft := none
      hard := some (now + timeoutUserAppHardMs)
      flag := true
      record := { v.record with hardFor := v.record.softFor } } now := by
  obtain ⟨hwatched, hfor, hat⟩ := h.soft due hsoft
  refine ⟨fun _ hnone => (by cases hnone), fun due' hdue' => ?_, fun _ _ => rfl, h.user,
    fun hpc => ?_, fun _ _ => Or.inr ?_⟩
  · refine ⟨hwatched, hfor, ?_⟩
    cases hdue'
    simp only
    omega
  · cases hpc' : v.pc <;> simp [hpc', WorkerPc.watched, WorkerPc.starting] at hwatched hpc
  · change v.record.startedAt + timeoutUserAppSoftMs ≤ now
    omega

/-! ### The steps of a worker -/

theorem WorkerMove.apart {rt rt' : System} {i : Slot} (h : WorkerMove rt i rt') {j : Slot}
    (hj : j ≠ i) : rt'.watchdog.userAppSoftWd j = rt.watchdog.userAppSoftWd j ∧
      rt'.watchdog.userAppHardWd j = rt.watchdog.userAppHardWd j ∧
      rt'.watchdog.userAppAbortFlags j = rt.watchdog.userAppAbortFlags j := by
  cases h with
  | @curfew pc hpc =>
    have hsame : ((curfewStep rt (some i) pc).1.setWorkerPc i
        ((curfewStep rt (some i) pc).2.elim .waiting .evaluating)).watchdog = rt.watchdog :=
      (curfewStep_spares rt (some i) pc).1
    rw [hsame]
    exact ⟨rfl, rfl, rfl⟩
  | _ => simp [System.setWorkerPc, Watchdog.setFlag, Watchdog.startSoft, Watchdog.stopSoft,
      Watchdog.stopHard, hj]

theorem TaskRecord.next_worker_other {rt rt' : System} (r : TaskRecord) {i j : Slot}
    (hj : j ≠ i) : r.next rt (.worker i) rt' j = r j := by
  cases hpc : (rt.pool.workers i).pc with
  | counted item =>
    simp only [TaskRecord.next, hpc]
    split_ifs
    · rw [Function.update_of_ne hj]
    · rfl
  | flagCleared item => simp [TaskRecord.next, hpc, Function.update_of_ne hj]
  | _ => simp [TaskRecord.next, hpc]

/-- What a worker's step makes of its own slot. -/
theorem sound_workerMove {rt rt' : System} {r : TaskRecord} {i : Slot}
    (h : WorkerMove rt i rt') (hsound : (viewOf (rt, r) i).Sound rt.now) :
    (viewOf (rt', r.next rt (.worker i) rt') i).Sound rt.now := by
  have hquiet := hsound.quiet
  cases h with
  | @clearFlag item hpc htype =>
    have hnone := hquiet (by simp [viewOf, hpc, WorkerPc.watched])
    refine SlotView.sound_of_quiet hnone.1 hnone.2 ?_ ?_ ?_
    · simp [viewOf, System.setWorkerPc, WorkerPool.setPc, WorkerPc.watched]
    · simp [viewOf, System.setWorkerPc, WorkerPool.setPc, htype]
    · simp [viewOf, Watchdog.setFlag]
  | @startSoft item hpc =>
    have hnone := hquiet (by simp [viewOf, hpc, WorkerPc.watched])
    have htype := hsound.user item hpc
    have hflag := hsound.started (by simp [viewOf, hpc, WorkerPc.starting])
    refine ⟨fun due hdue => ?_, fun due hdue => ?_, fun _ hstop => ?_, fun _ hstart => ?_,
      fun hstart => ?_, fun _ hset => ?_⟩
    · simp only [viewOf, Watchdog.startSoft, Function.update_self, Option.some.injEq] at hdue
      simp [viewOf, TaskRecord.next, hpc, System.setWorkerPc, WorkerPool.setPc,
        WorkerPc.watched, htype, hdue]
    · cases hdue.symm.trans hnone.2
    · simp [viewOf, System.setWorkerPc, WorkerPool.setPc] at hstop
    · simp [viewOf, System.setWorkerPc, WorkerPool.setPc] at hstart
    · simp [viewOf, System.setWorkerPc, WorkerPool.setPc, WorkerPc.starting] at hstart
    · left
      simpa [viewOf, TaskRecord.next, hpc] using hflag hset
  | @stopSoft item hpc htype =>
    refine ⟨fun due hdue => ?_, fun due hdue => ?_, fun _ _ => ?_, fun _ hstart => ?_,
      fun hstart => ?_, fun _ hset => ?_⟩
    · simp [viewOf, Watchdog.stopSoft] at hdue
    · have hhard := hsound.hard due hdue
      simpa [viewOf, TaskRecord.next, hpc, System.setWorkerPc, WorkerPool.setPc,
        WorkerPc.watched, htype] using hhard
    · simp [viewOf, Watchdog.stopSoft]
    · simp [viewOf, System.setWorkerPc, WorkerPool.setPc] at hstart
    · simp [viewOf, System.setWorkerPc, WorkerPool.setPc, WorkerPc.starting] at hstart
    · have hflag := hsound.flag (by simp [viewOf, hpc, WorkerPc.watched, htype]) hset
      simpa [viewOf, TaskRecord.next, hpc] using hflag
  | @stopHard item hpc =>
    have hsoft := hsound.stopped item hpc
    refine SlotView.sound_of_quiet hsoft ?_ ?_ ?_ ?_
    · simp [viewOf, Watchdog.stopHard]
    all_goals simp [viewOf, System.setWorkerPc, WorkerPool.setPc, WorkerPc.watched,
      WorkerPc.starting]
  | clearStop hpc =>
    have hnone := hquiet (by simp [viewOf, hpc, WorkerPc.watched])
    refine SlotView.sound_of_quiet hnone.1 hnone.2 ?_ ?_ ?_ <;>
      simp [viewOf, System.setWorkerPc, WorkerPool.setPc, WorkerPc.watched, WorkerPc.starting]
  | @curfew pc hpc =>
    have hwatchdog := (curfewStep_spares rt (some i) pc).1
    have hpc' : (((curfewStep rt (some i) pc).1.setWorkerPc i
        ((curfewStep rt (some i) pc).2.elim .waiting .evaluating)).pool.workers i).pc =
          (curfewStep rt (some i) pc).2.elim .waiting .evaluating := by
      simp [System.setWorkerPc, WorkerPool.setPc]
    refine hsound.move ?_ ?_ ?_ ?_ ?_ ?_ ?_
    · exact congrFun (congrArg Watchdog.userAppSoftWd hwatchdog) i
    · exact congrFun (congrArg Watchdog.userAppHardWd hwatchdog) i
    · exact congrFun (congrArg Watchdog.userAppAbortFlags hwatchdog) i
    · simp [viewOf, TaskRecord.next, hpc]
    all_goals
      simp only [viewOf, hpc', hpc]
      cases (curfewStep rt (some i) pc).2 <;> simp [WorkerPc.watched, WorkerPc.starting]
  | _ hpc =>
    refine hsound.move rfl rfl rfl ?_ ?_ ?_ ?_
    · simp [viewOf, TaskRecord.next, *]
    all_goals simp [viewOf, System.setWorkerPc, WorkerPool.setPc, *, WorkerPc.watched,
      WorkerPc.starting]

/-! ### The steps of the system -/

theorem MaintMove.watchdog {rt rt' : System} (h : MaintMove rt rt') :
    rt'.watchdog = if (rt.transition .maint).forcesAbort then
      rt.watchdog.forceAllCooperativeAbort else rt.watchdog := by
  cases h with
  | lockedSection hpc =>
    have ht : rt.transition .maint =
        if rt.fsm.currentState = .gracePeriod ∧ rt.pool.hasWork = false then .maintSleep
        else .stay := by
      simp [System.transition, hpc]
    rw [ht]
    exact (maintCurfewSection_effect rt).watchdog
  | @curfew pc hpc =>
    have ht : (rt.transition .maint).forcesAbort = false := by
      simp only [System.transition, hpc]
      split
      next heq => cases heq
      next =>
        unfold curfewTransition
        split_ifs <;> rfl
      next => rfl
    rw [ht]
    exact (curfewStep_spares rt none pc).1
  | _ hpc => simp [System.transition, hpc, Transition.forcesAbort]

/-- Events that belong to no slot leave the watchdog alone, or tell all tasks to abort. -/
theorem step_watchdog {rt rt' : System} {action : Action} (h : step rt action = some rt')
    (hslot : action.slot? = none) :
    rt'.watchdog = if (rt.transition action).forcesAbort then
      rt.watchdog.forceAllCooperativeAbort else rt.watchdog := by
  cases step_cases h with
  | setRuntimeState target hooks => exact (setRuntimeState_effect rt target hooks).watchdog
  | demoteToCurfew => exact (demoteToCurfew_effect rt none).watchdog
  | addUserWork item =>
    rw [addUserWork_fields]
    rfl
  | addSystemWork item =>
    rw [addSystemWork_fields]
    rfl
  | enqueueUserWork hmem => rfl
  | totalWorkWindowExpiry hpending =>
    exact (curfew_effect { rt with
      fsm := { rt.fsm with
        totalWorkWindowTimer := rt.fsm.totalWorkWindowTimer.handle } } none).watchdog
  | gracePeriodExpiry hpending => exact (gracePeriodExpiry_effect { rt with
      fsm := { rt.fsm with gracePeriodTimer := rt.fsm.gracePeriodTimer.handle } }).watchdog
  | settlementStart hnone hpending => simp [System.transition, hnone, Transition.forcesAbort]
  | settlementGoesOn hpc => exact (settlementStep_effect hpc).watchdog
  | softWdExpiry hdue => cases hslot
  | hardWdExpiry hdue => cases hslot
  | worker hrunnable hmove => cases hslot
  | handlerReturns hpc => cases hslot
  | maint hmove => exact hmove.watchdog
  | maintHandlerReturns hpc => rfl
  | tick => rfl

theorem step_pcs {rt rt' : System} {action : Action} (h : step rt action = some rt')
    (hslot : action.slot? = none) (i : Slot) :
    (rt'.pool.workers i).pc = (rt.pool.workers i).pc := by
  cases step_move h with
  | keeps hkeeps hnot => exact hkeeps.pcs i
  | submit hstate => rfl
  | @enqueue item hmem =>
    unfold enqueueUserWork WorkerPool.enqueueUserItem
    cases rt.pool.runtimeMsgq.put { item with type := .user } <;> rfl
  | _ => cases hslot

/-- The clock does not go back. -/
theorem step_now_le {rt rt' : System} {action : Action} (h : step rt action = some rt') :
    rt.now ≤ rt'.now := by
  rcases step_fsm h with rfl | ⟨hnow, -⟩
  · exact Nat.le_succ _
  · exact Nat.le_of_eq hnow.symm

theorem slotsSound_step {s s' : System × TaskRecord} {action : Action} (h : SlotsSound s)
    (hstep : taskStep s action = some s') : SlotsSound s' := by
  obtain ⟨rt, r⟩ := s
  obtain ⟨rt', hrt, rfl⟩ := Machine.recording_some step TaskRecord.next hstep
  intro i
  refine SlotView.Sound.later ?_ (step_now_le hrt)
  have hi := h i
  cases action with
  | worker j =>
    have hmove := (workerStep_move hrt).2
    by_cases hij : i = j
    · subst hij
      exact sound_workerMove hmove hi
    · have hview : viewOf (rt', r.next rt (.worker j) rt') i = viewOf (rt, r) i := by
        obtain ⟨hsoft, hhard, hflag⟩ := hmove.apart hij
        simp only [viewOf, hmove.others hij, hsoft, hhard, hflag, r.next_worker_other hij]
      rw [hview]
      exact hi
  | handlerReturns j =>
    obtain ⟨item, hpc, rfl⟩ := handlerReturns_some hrt
    replace hpc : (rt.pool.workers j).pc = .running item := hpc
    by_cases hij : i = j
    · subst hij
      refine hi.move rfl rfl rfl ?_ ?_ ?_ ?_
      · simp [viewOf, TaskRecord.next, System.transition, Transition.forcesAbort]
      all_goals simp [viewOf, System.setWorkerPc, WorkerPool.setPc, hpc, WorkerPc.watched,
        WorkerPc.starting]
    · have hview : viewOf (rt.setWorkerPc j (.returned item),
          r.next rt (.handlerReturns j) (rt.setWorkerPc j (.returned item))) i =
            viewOf (rt, r) i := by
        simp [viewOf, TaskRecord.next, System.transition, Transition.forcesAbort,
          System.setWorkerPc, WorkerPool.setPc, hij]
      rw [hview]
      exact hi
  | softWdExpiry j =>
    obtain ⟨hdue, hnew⟩ := Option.ite_none_right_eq_some.mp hrt
    rw [← Option.some.inj hnew]
    by_cases hij : i = j
    · subst hij
      cases hsoft : rt.watchdog.userAppSoftWd i with
      | none => simp [Watchdog.due, hsoft] at hdue
      | some due =>
        have hfires := hi.softExpiry hsoft (by simpa [Watchdog.due, hsoft] using hdue)
        simpa [viewOf, Watchdog.softExpiry, Watchdog.startHard, Watchdog.setFlag,
          Watchdog.stopSoft, TaskRecord.next] using hfires
    · simpa [viewOf, Watchdog.softExpiry, Watchdog.startHard, Watchdog.setFlag,
        Watchdog.stopSoft, TaskRecord.next, hij] using hi
  | hardWdExpiry j =>
    obtain ⟨hdue, hnew⟩ := Option.ite_none_right_eq_some.mp hrt
    rw [← Option.some.inj hnew]
    by_cases hij : i = j
    · subst hij
      refine SlotView.sound_of_quiet ?_ ?_ ?_ ?_ ?_ <;>
        simp [viewOf, Watchdog.stopUserApp, Watchdog.stopSoft, Watchdog.stopHard,
          Watchdog.setFlag, WorkerPool.recoverStalledRunner, WorkerPc.watched, WorkerPc.starting]
    · simpa [viewOf, userAppHardWdExpiry, Watchdog.stopUserApp, Watchdog.stopSoft,
        Watchdog.stopHard, Watchdog.setFlag, WorkerPool.recoverStalledRunner, TaskRecord.next,
        System.transition, Transition.forcesAbort, hij] using hi
  | _ =>
    have hpc := step_pcs hrt rfl i
    have hwatchdog := step_watchdog hrt rfl
    simp only [viewOf, TaskRecord.next, hpc, hwatchdog]
    split_ifs
    · exact hi.force
    · exact hi

/-! ### The claims on the watchdog -/

theorem slotsSound_init : SlotsSound taskInit := fun _ =>
  SlotView.sound_of_quiet rfl rfl rfl (fun _ h => by cases h) fun h => by cases h

theorem due_some {deadline : Option Nat} {now : Nat} (h : Watchdog.due deadline now = true) :
    ∃ due, deadline = some due ∧ due ≤ now := by
  cases deadline with
  | none => cases h
  | some due => exact ⟨due, rfl, by simpa [Watchdog.due] using h⟩

theorem firesInTime_of_sound {s s' : System × TaskRecord} {action : Action} (h : SlotsSound s)
    (hstep : taskStep s action = some s') : FiresInTime s action := by
  obtain ⟨rt', hrt, rfl⟩ := Machine.recording_some step TaskRecord.next hstep
  cases action with
  | softWdExpiry i =>
    obtain ⟨hdue, -⟩ := Option.ite_none_right_eq_some.mp hrt
    obtain ⟨due, hsoft, hle⟩ := due_some hdue
    obtain ⟨hwatched, hfor, hat⟩ := (h i).soft due hsoft
    exact ⟨hwatched, hfor, hat ▸ hle⟩
  | hardWdExpiry i =>
    obtain ⟨hdue, -⟩ := Option.ite_none_right_eq_some.mp hrt
    obtain ⟨due, hhard, hle⟩ := due_some hdue
    obtain ⟨hwatched, hfor, hat⟩ := (h i).hard due hhard
    exact ⟨hwatched, hfor, Nat.le_trans hat hle⟩
  | _ => trivial

theorem slotsApart (s : System × TaskRecord) (action : Action) : SlotsApart s action := by
  rintro i s' hslot hstep j hj
  obtain ⟨rt', hrt, rfl⟩ := Machine.recording_some step TaskRecord.next hstep
  cases action with
  | worker k =>
    cases hslot
    exact (workerStep_move hrt).2.apart hj
  | handlerReturns k =>
    obtain ⟨item, -, rfl⟩ := handlerReturns_some hrt
    exact ⟨rfl, rfl, rfl⟩
  | softWdExpiry k =>
    cases hslot
    obtain ⟨-, hnew⟩ := Option.ite_none_right_eq_some.mp hrt
    rw [← Option.some.inj hnew]
    simp [Watchdog.softExpiry, Watchdog.startHard, Watchdog.setFlag, Watchdog.stopSoft, hj]
  | hardWdExpiry k =>
    cases hslot
    obtain ⟨-, hnew⟩ := Option.ite_none_right_eq_some.mp hrt
    rw [← Option.some.inj hnew]
    simp [Watchdog.stopUserApp, Watchdog.stopHard, Watchdog.setFlag,
      Watchdog.stopSoft, hj]
  | _ => cases hslot

theorem flagsHonest_of_sound {s : System × TaskRecord} (h : SlotsSound s) : FlagsHonest s := by
  intro i hwatched hflag hyoung
  rcases (h i).flag hwatched hflag with hforced | hdue
  · exact hforced
  · exact absurd hyoung (Nat.not_lt.mpr hdue)

/-- Along any run: a watchdog timer fires only for the task that its slot is at and that it
was armed for, the hard one no sooner than both timeouts after the task was started; an
event on one slot leaves the others' timers and flags alone; and a task younger than the
soft timeout is told to abort only when all tasks are. -/
theorem watchdog_spares_others (actions : List Action) :
    Machine.EachStep taskStep FiresInTime taskInit actions ∧
      Machine.EachStep taskStep SlotsApart taskInit actions ∧
      Machine.Always taskStep FlagsHonest taskInit actions := by
  refine ⟨?_, ?_, ?_⟩
  · exact Machine.eachStep_of_invariant actions slotsSound_init
      (fun s action s' h hstep => slotsSound_step h hstep)
      fun s action s' h hstep => firesInTime_of_sound h hstep
  · exact fun before action after s s' hsplit hrun hstep => slotsApart s action
  · exact (Machine.always_of_invariant actions slotsSound_init
      fun s action s' h hstep => slotsSound_step h hstep).mono
        fun s h => flagsHonest_of_sound h

end MinimalWatch.Runtime
