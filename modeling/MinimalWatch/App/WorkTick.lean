import MinimalWatch.Runtime.CurfewHooks
import MinimalWatch.Runtime.Maintenance
import MinimalWatch.Runtime.Timeliness
import MinimalWatch.Ui.Pages

/-! The tick that works the link, from timers.c and event_manager.c: once a second a window of
the runtime is opened with the drain of the TX FIFO as its hook, and the RX FIFO is given to
the maintenance thread. It is a window's grace period at most that is left when the next tick
comes. -/

namespace MinimalWatch.App
open Firmware MinimalWatch.Runtime
open Ui (DisplayState)

/-! ### handle_event, EVENT_WORK_TICK -/

def workTickState (display : DisplayState) : RuntimeState :=
  if display = .on then .uiActive else .backgroundActive

theorem workTickState_active (display : DisplayState) :
    (workTickState display).isActive = true := by
  cases display <;> rfl

/-- `ble_work`, as `add_system_work` has it queued. -/
def bleWork : WorkItem := ⟨.system, some .processRxBuffers, 0, .fill maxWorkerArgPayload 0⟩

/-- The two calls of the tick; `populateTxBuffers` is the address of the hook. -/
def eventWorkTick (display : DisplayState) (populateTxBuffers : CurfewHook) : List Action :=
  [.setRuntimeState (workTickState display) [populateTxBuffers], .addSystemWork bleWork]

/-- The windows and the maintenance thread as they are logged, the ticks begun, when the last
was, and how many have made their second call. -/
structure TickLog where
  window : WindowLog
  maint : MaintLog
  ticks : Nat
  lastTick : Option Nat
  asked : Nat
  deriving DecidableEq, Repr

def TickLog.next (rt : System) (action : Action) (rt' : System) (l : TickLog) : TickLog where
  window := l.window.next rt action rt'
  maint := l.maint.next rt action rt'
  ticks := match action with | .setRuntimeState _ _ => l.ticks + 1 | _ => l.ticks
  lastTick := match action with | .setRuntimeState _ _ => some rt.now | _ => l.lastTick
  asked := match action with | .addSystemWork _ => l.asked + 1 | _ => l.asked

abbrev tickLogStep : System × TickLog → Action → Option (System × TickLog) :=
  Machine.recording step TickLog.next

def tickLogInit : System × TickLog := (.init, ⟨⟨0, .sleep⟩, ⟨[], []⟩, 0, none, 0⟩)

/-- Only the tick opens windows and adds system work, in the order of its calls, and finds room
for its work. Ticks are a second apart, and one may be late by all but the longest window. -/
def WorkTickOnly (populateTxBuffers : CurfewHook) (s : System × TickLog) : Action → Prop
  | .setRuntimeState target hooks =>
    (target = workTickState .on ∨ target = workTickState .off) ∧ hooks = [populateTxBuffers] ∧
      s.2.asked = s.2.ticks ∧ ∀ t ∈ s.2.lastTick, t + windowUiMaxMs < s.1.now
  | .addSystemWork item =>
    item = bleWork ∧ s.2.asked + 1 = s.2.ticks ∧
      s.1.sysMaintMsgq.items.length < sysMaintMsgqSize
  | _ => True

/-- With the window timers served, and room for the hook when its window closes. -/
structure TickKept (populateTxBuffers : CurfewHook) (s : System × TickLog) (action : Action) :
    Prop where
  only : WorkTickOnly populateTxBuffers s action
  served : WindowTimersServed s.1 action
  fit : HooksFit s.1 action

/-- The drains that the maintenance thread has called, has on its queue, or that wait for the
window to close are one for each tick; so are the reads of the RX FIFO, once the tick has come
to its second call; and a drain waits no longer than a window. -/
structure TicksServed (populateTxBuffers : CurfewHook) (s : System × TickLog) : Prop where
  drained : (s.2.maint.called ++ s.1.sysMaintMsgq.items).filterMap WorkItem.hook? ++
    s.1.activeWindowHooks = .replicate s.2.ticks populateTxBuffers
  received : (s.2.maint.called ++ s.1.sysMaintMsgq.items).count bleWork = s.2.asked
  asked : s.2.asked = s.2.ticks ∨ s.2.asked + 1 = s.2.ticks
  inTime : s.1.activeWindowHooks ≠ [] → ∀ t ∈ s.2.lastTick, s.1.now ≤ t + windowUiMaxMs

/-! ### Steps -/

/-- No other step opens a window. -/
theorem openWindow_action {rt : System} {action : Action} {target : RuntimeState}
    {hooks : List CurfewHook} (h : rt.transition action = .openWindow target hooks) :
    action = .setRuntimeState target hooks := by
  have hcurfew : ∀ caller target hooks,
      curfewTransition rt caller ≠ .openWindow target hooks := by
    intro caller target hooks
    rw [curfewTransition]
    split_ifs <;> simp
  cases action with
  | setRuntimeState target' hooks' =>
    simp only [System.transition] at h
    unfold setStateTransition at h
    split_ifs at h
    cases target' <;> cases h <;> rfl
  | settlementExpiry =>
    rw [System.transition] at h
    split at h
    · split_ifs at h
      · unfold setStateTransition at h
        split_ifs at h
      · exact absurd h (hcurfew _ _ _)
    · cases h
  | gracePeriodExpiry =>
    rw [System.transition] at h
    split_ifs at h
  | demoteToCurfew | totalWorkWindowExpiry => exact absurd h (hcurfew _ _ _)
  | worker i =>
    rw [System.transition] at h
    split at h
    · exact absurd h (hcurfew _ _ _)
    · cases h
    · cases h
  | maint =>
    rw [System.transition] at h
    split at h
    · split_ifs at h
    · exact absurd h (hcurfew _ _ _)
    · cases h
  | _ => cases h

structure TickInv (populateTxBuffers : CurfewHook) (s : System × TickLog) : Prop where
  windows : WindowsInTime (s.1, s.2.window)
  served : ServedInOrder (s.1, s.2.maint)
  closed : s.1.fsm.currentState.isActive = false → s.1.activeWindowHooks = []
  opened : s.1.fsm.currentState.isActive = true → s.2.lastTick = some s.2.window.openedAt
  hooks : s.2.maint.accepted.filterMap WorkItem.hook? ++ s.1.activeWindowHooks =
    .replicate s.2.ticks populateTxBuffers
  work : s.2.maint.accepted.count bleWork = s.2.asked
  asked : s.2.asked = s.2.ticks ∨ s.2.asked + 1 = s.2.ticks

section Inv
variable {populateTxBuffers : CurfewHook} {s : System × TickLog}

theorem windowMs_le (state : RuntimeState) : state.windowMs ≤ windowUiMaxMs := by
  cases state <;> decide

theorem TickInv.ticksServed (h : TickInv populateTxBuffers s) :
    TicksServed populateTxBuffers s := by
  have horder : s.2.maint.accepted = s.2.maint.called ++ s.1.sysMaintMsgq.items := h.served.order
  refine ⟨horder ▸ h.hooks, horder ▸ h.work, h.asked, fun hstored t ht => ?_⟩
  have hactive : s.1.fsm.currentState.isActive = true := by
    by_contra hnot
    exact hstored (h.closed (Bool.eq_false_iff.mpr hnot))
  rw [h.opened hactive] at ht
  obtain ⟨-, hle, -⟩ := h.windows.active hactive
  rw [← Option.some.inj ht]
  exact Nat.le_trans hle (Nat.add_le_add_left (windowMs_le _) _)

/-- When a tick is due the window of the last one is over. -/
theorem TickInv.inactive (h : TickInv populateTxBuffers s)
    (hdue : ∀ t ∈ s.2.lastTick, t + windowUiMaxMs < s.1.now) :
    s.1.fsm.currentState.isActive = false := by
  by_contra hnot
  have hactive := eq_true_of_ne_false hnot
  obtain ⟨-, hle, -⟩ := h.windows.active hactive
  have hlast := hdue _ (h.opened hactive)
  have hwindow := windowMs_le s.2.window.target
  simp only [WindowLog.end] at hle
  omega

/-- The other parts of the log, whatever the step. -/
theorem TickInv.logs (h : TickInv populateTxBuffers s) {action : Action}
    (hserved : WindowTimersServed s.1 action) {rt : System} (hstep : step s.1 action = some rt) :
    WindowsInTime (rt, (s.2.next s.1 action rt).window) ∧
      ServedInOrder (rt, (s.2.next s.1 action rt).maint) := by
  have hwindow : windowLogStep (s.1, s.2.window) action =
      some (rt, s.2.window.next s.1 action rt) := by
    simp only [Machine.recording, hstep, Option.map_some]
  have hmaint : maintLogStep (s.1, s.2.maint) action =
      some (rt, s.2.maint.next s.1 action rt) := by
    simp only [Machine.recording, hstep, Option.map_some]
  exact ⟨windowsInTime_step h.windows hserved hwindow, servedInOrder_step h.served hmaint⟩

theorem inv_workTick (h : TickInv populateTxBuffers s) {target : RuntimeState}
    {hooks : List CurfewHook} (hkept : TickKept populateTxBuffers s (.setRuntimeState target hooks))
    {rt : System} (hstep : step s.1 (.setRuntimeState target hooks) = some rt) :
    TickInv populateTxBuffers (rt, s.2.next s.1 (.setRuntimeState target hooks) rt) := by
  obtain ⟨htarget, rfl, hasked, hdue⟩ := hkept.only
  have hactive : target.isActive = true := by
    rcases htarget with rfl | rfl <;> exact workTickState_active _
  have hinactive := h.inactive hdue
  have hne : s.1.fsm.currentState ≠ target := by
    intro heq
    rw [heq, hactive] at hinactive
    cases hinactive
  have ht : s.1.transition (.setRuntimeState target [populateTxBuffers]) =
      .openWindow target [populateTxBuffers] := by
    simp only [System.transition]
    unfold setStateTransition
    rw [if_neg hne]
    rcases htarget with rfl | rfl <;> rfl
  have heffect := step_effect hstep
  have hstate : rt.fsm.currentState = target := by rw [heffect.state, ht, Transition.state]
  have hstored : rt.activeWindowHooks = [populateTxBuffers] := by
    rw [heffect.hooks, ht]
    rfl
  have hplaced : s.1.hooksPlaced (.setRuntimeState target [populateTxBuffers]) = [] := by
    rw [System.hooksPlaced, ht]
    rfl
  have haccepted : (s.2.maint.next s.1 (.setRuntimeState target [populateTxBuffers]) rt).accepted =
      s.2.maint.accepted := by
    have haccepts : s.1.accepts (.setRuntimeState target [populateTxBuffers]) = [] := hplaced
    rw [MaintLog.next, haccepts, List.append_nil]
  obtain ⟨hwindows, hserved⟩ := h.logs hkept.served hstep
  refine ⟨hwindows, hserved, fun hnot => ?_, fun _ => ?_, ?_, ?_, .inr ?_⟩
  · rw [show rt.fsm.currentState = target from hstate, hactive] at hnot
    cases hnot
  · have hnew : rt.fsm.currentState.isActive ∧
        rt.fsm.currentState ≠ s.1.fsm.currentState := by
      rw [hstate]
      exact ⟨hactive, Ne.symm hne⟩
    simp only [TickLog.next, WindowLog.next, if_pos hnew]
  · simp only [TickLog.next, haccepted, hstored]
    have hold := h.hooks
    rw [h.closed hinactive, List.append_nil] at hold
    rw [hold, List.replicate_succ']
  · simp only [TickLog.next, haccepted]
    exact h.work
  · simp only [TickLog.next, hasked]

theorem inv_bleWork (h : TickInv populateTxBuffers s) {item : WorkItem}
    (hkept : TickKept populateTxBuffers s (.addSystemWork item)) {rt : System}
    (hstep : step s.1 (.addSystemWork item) = some rt) :
    TickInv populateTxBuffers (rt, s.2.next s.1 (.addSystemWork item) rt) := by
  obtain ⟨rfl, hasked, hroom⟩ := hkept.only
  have hadd : (addSystemWork s.1 bleWork).isSome = true := by
    rw [addSystemWork, if_neg (by decide), Option.isSome_map, MsgQueue.put, dif_pos hroom]
    rfl
  have haccepted : (s.2.maint.next s.1 (.addSystemWork bleWork) rt).accepted =
      s.2.maint.accepted ++ [bleWork] := by
    have haccepts : s.1.accepts (.addSystemWork bleWork) = [bleWork] := if_pos hadd
    rw [MaintLog.next, haccepts]
  have heffect := step_effect hstep
  have hstate : rt.fsm.currentState = s.1.fsm.currentState := heffect.state
  have hstored : rt.activeWindowHooks = s.1.activeWindowHooks := heffect.hooks
  obtain ⟨hwindows, hserved⟩ := h.logs hkept.served hstep
  refine ⟨hwindows, hserved, fun hnot => ?_, fun hactive => ?_, ?_, ?_, .inl hasked⟩
  · rw [show rt.fsm.currentState = _ from hstate] at hnot
    exact hstored.trans (h.closed hnot)
  · rw [show rt.fsm.currentState = _ from hstate] at hactive
    simp only [TickLog.next, windowLog_of_same s.2.window hstate]
    exact h.opened hactive
  · simp only [TickLog.next, haccepted, hstored, List.filterMap_append]
    have hnone : [bleWork].filterMap WorkItem.hook? = [] := by simp [WorkItem.hook?, bleWork]
    rw [hnone, List.append_nil]
    exact h.hooks
  · simp only [TickLog.next, haccepted, List.count_append, h.work, List.count_singleton_self]

/-- A step that is none of the tick's places the hooks or keeps them, and opens no window. -/
theorem hooks_others {rt rt' : System} {action : Action}
    (hset : ∀ target hooks, action ≠ .setRuntimeState target hooks)
    (hclosed : rt.fsm.currentState.isActive = false → rt.activeWindowHooks = [])
    (hfit : HooksFit rt action) (hstep : step rt action = some rt') :
    (rt.hooksPlaced action).filterMap WorkItem.hook? ++ rt'.activeWindowHooks =
        rt.activeWindowHooks ∧
      (rt'.fsm.currentState.isActive = false → rt'.activeWindowHooks = []) ∧
      (rt'.fsm.currentState.isActive = true →
        rt'.fsm.currentState = rt.fsm.currentState) := by
  have heffect := step_effect hstep
  have hguard := transition_guard rt action
  have hinactive {target : RuntimeState} : false = true → target = rt.fsm.currentState :=
    fun h => absurd h Bool.false_ne_true
  rw [System.hooksPlaced, heffect.hooks, heffect.state]
  unfold HooksFit at hfit
  cases ht : rt.transition action with
  | stay => exact ⟨rfl, hclosed, fun _ => rfl⟩
  | openWindow target hooks => exact absurd (openWindow_action ht) (hset target hooks)
  | dropToSleep =>
    rw [ht] at hfit
    exact ⟨rfl, fun _ => hfit, hinactive⟩
  | curfewSleep caller =>
    rw [ht] at hguard
    exact ⟨rfl, fun _ => hguard.2.1, hinactive⟩
  | curfewGrace =>
    simp only [ht] at hfit
    refine ⟨?_, fun _ => rfl, hinactive⟩
    rw [if_pos rfl, List.take_of_length_le (by rw [List.length_map]; omega), filterMap_hookItem]
    exact List.append_nil _
  | graceExpired =>
    rw [ht] at hguard
    exact ⟨rfl, fun _ => hclosed (by rw [hguard]; rfl), hinactive⟩
  | maintSleep =>
    rw [ht] at hguard
    exact ⟨rfl, fun _ => hclosed (by rw [hguard.1]; rfl), hinactive⟩
  | suspendRest i => exact ⟨rfl, hclosed, fun _ => rfl⟩

/-- The items that place hooks are not the tick's work. -/
theorem hooksPlaced_count (rt : System) (action : Action) :
    (rt.hooksPlaced action).count bleWork = 0 := by
  refine List.count_eq_zero_of_not_mem fun hmem => ?_
  rw [System.hooksPlaced] at hmem
  split_ifs at hmem
  · obtain ⟨hook, -, heq⟩ := List.mem_map.mp (List.mem_of_mem_take hmem)
    have hhandler := congrArg WorkItem.handler heq
    simp [hookItem, bleWork] at hhandler
  · cases hmem

theorem inv_others (h : TickInv populateTxBuffers s) {action : Action}
    (hset : ∀ target hooks, action ≠ .setRuntimeState target hooks)
    (hadd : ∀ item, action ≠ .addSystemWork item) (hkept : TickKept populateTxBuffers s action)
    {rt : System} (hstep : step s.1 action = some rt) :
    TickInv populateTxBuffers (rt, s.2.next s.1 action rt) := by
  obtain ⟨hplaced, hclosed, hopened⟩ := hooks_others hset h.closed hkept.fit hstep
  have haccepted : (s.2.maint.next s.1 action rt).accepted =
      s.2.maint.accepted ++ s.1.hooksPlaced action := by
    rw [MaintLog.next, accepts_of_not_add hadd]
  have hlog : s.2.next s.1 action rt =
      ⟨s.2.window.next s.1 action rt, s.2.maint.next s.1 action rt, s.2.ticks, s.2.lastTick,
        s.2.asked⟩ := by
    cases action with
    | setRuntimeState target hooks => exact absurd rfl (hset target hooks)
    | addSystemWork item => exact absurd rfl (hadd item)
    | _ => rfl
  obtain ⟨hwindows, hserved⟩ := h.logs hkept.served hstep
  rw [hlog] at hwindows hserved ⊢
  refine ⟨hwindows, hserved, hclosed, fun hactive => ?_, ?_, ?_, h.asked⟩
  · have hsame := hopened hactive
    rw [windowLog_of_same s.2.window hsame]
    exact h.opened (hsame ▸ hactive)
  · simp only [haccepted, List.filterMap_append, List.append_assoc, hplaced]
    exact h.hooks
  · simp only [haccepted, List.count_append, hooksPlaced_count, Nat.add_zero]
    exact h.work

theorem inv_step {s' : System × TickLog} {action : Action} (h : TickInv populateTxBuffers s)
    (hkept : TickKept populateTxBuffers s action) (hstep : tickLogStep s action = some s') :
    TickInv populateTxBuffers s' := by
  obtain ⟨rt, hrt, rfl⟩ := Machine.recording_some step TickLog.next hstep
  by_cases hset : ∃ target hooks, action = .setRuntimeState target hooks
  · obtain ⟨target, hooks, rfl⟩ := hset
    exact inv_workTick h hkept hrt
  · by_cases hadd : ∃ item, action = .addSystemWork item
    · obtain ⟨item, rfl⟩ := hadd
      exact inv_bleWork h hkept hrt
    · exact inv_others h (fun target hooks heq => hset ⟨target, hooks, heq⟩)
        (fun item heq => hadd ⟨item, heq⟩) hkept hrt

theorem inv_init : TickInv populateTxBuffers tickLogInit where
  windows := ⟨nofun, nofun⟩
  served := ⟨rfl, fun _ h => absurd h List.not_mem_nil⟩
  closed := fun _ => rfl
  opened := nofun
  hooks := rfl
  work := rfl
  asked := .inl rfl

end Inv

/-! ### Runs -/

instance (rt : System) (action : Action) : Decidable (HooksFit rt action) :=
  match h : rt.transition action with
  | .dropToSleep => decidable_of_iff (rt.activeWindowHooks = []) (by rw [HooksFit, h])
  | .curfewGrace =>
    decidable_of_iff
      (rt.sysMaintMsgq.items.length + rt.activeWindowHooks.length ≤ sysMaintMsgqSize)
      (by rw [HooksFit, h])
  | .stay | .openWindow _ _ | .curfewSleep _ | .graceExpired | .maintSleep | .suspendRest _ =>
    .isTrue (by simp only [HooksFit, h])

instance (populateTxBuffers : CurfewHook) (s : System × TickLog) (action : Action) :
    Decidable (WorkTickOnly populateTxBuffers s action) :=
  match action with
  | .setRuntimeState _ _ => inferInstanceAs (Decidable (_ ∧ _ ∧ _ ∧ _))
  | .addSystemWork _ => inferInstanceAs (Decidable (_ ∧ _ ∧ _))
  | .tick | .demoteToCurfew | .addUserWork _ | .enqueueUserWork _ | .totalWorkWindowExpiry
  | .gracePeriodExpiry | .settlementExpiry | .softWdExpiry _ | .hardWdExpiry _ | .worker _
  | .handlerReturns _ | .maint | .maintHandlerReturns => .isTrue trivial

instance (populateTxBuffers : CurfewHook) (s : System × TickLog) (action : Action) :
    Decidable (TickKept populateTxBuffers s action) :=
  decidable_of_iff (WorkTickOnly populateTxBuffers s action ∧ WindowTimersServed s.1 action ∧
    HooksFit s.1 action) ⟨fun h => ⟨h.1, h.2.1, h.2.2⟩, fun h => ⟨h.only, h.served, h.fit⟩⟩

/-- In every run in which the tick alone opens windows and asks for system work, with its
hook and work finding room and the window timers served, no tick is lost and none served
twice: each drains the TX FIFO once and reads the RX FIFO once, in their order on the
maintenance thread, and the drain has gone to that thread by the end of the window. -/
theorem work_ticks_served (populateTxBuffers : CurfewHook) (actions : List Action)
    (hkept : Machine.EachStep tickLogStep (TickKept populateTxBuffers) tickLogInit actions) :
    Machine.Always tickLogStep (TicksServed populateTxBuffers) tickLogInit actions :=
  (Machine.always_of_eachStep inv_init (fun _ _ _ h hkept hstep => inv_step h hkept hstep)
    hkept).mono fun _ h => h.ticksServed

/-- Two ticks, a second apart; the first with the display off, the second with it on. -/
theorem work_ticks_served_twice :
    Machine.Always tickLogStep (TicksServed 1) tickLogInit
      (List.flatten [eventWorkTick .off 1, List.replicate 160 .tick, [.totalWorkWindowExpiry],
        [.maint, .maintHandlerReturns, .maint, .maint, .maint, .maintHandlerReturns],
        List.replicate 700 .tick, [.gracePeriodExpiry], List.replicate 140 .tick,
        eventWorkTick .on 1]) :=
  work_ticks_served 1 _ (by decide +kernel)

end MinimalWatch.App
