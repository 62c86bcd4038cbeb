import MinimalWatch.Lib.Machine
import MinimalWatch.Runtime.Transitions

/-! The curfew hooks of a work window. Beside the runtime a record keeps which hooks the
last window was opened with and which of them have come to `sys_maint_msgq` since. A hook
of the window is stored or has been placed, in order, as long as no transition into the
grace period finds the queue too full and no drop to sleep finds hooks still stored. -/

namespace MinimalWatch.Runtime
open Firmware

/-- The hook that an item of the maintenance queue carries. -/
def WorkItem.hook? (item : WorkItem) : Option CurfewHook :=
  if item.handler = some .curfewHookAsyncAdapter then some item.arg1 else none

@[simp] theorem hookItem_hook (hook : CurfewHook) : (hookItem hook).hook? = some hook := by
  simp [hookItem, WorkItem.hook?]

structure HookRecord where
  window : List CurfewHook
  placed : List CurfewHook
  deriving DecidableEq, Repr

/-- The hooks that a step has put on the maintenance queue. -/
def hooksPut (rt rt' : System) : List CurfewHook :=
  (rt'.sysMaintMsgq.items.drop rt.sysMaintMsgq.items.length).filterMap WorkItem.hook?

/-- A window that opens starts a new record. Work that a caller adds is not placed by the
window. -/
def HookRecord.next (rt : System) (action : Action) (rt' : System) (r : HookRecord) :
    HookRecord :=
  match action, rt.transition action with
  | .addSystemWork _, _ => r
  | _, .openWindow _ hooks => ⟨hooks.take maxCurfewHooks, []⟩
  | _, _ => { r with placed := r.placed ++ hooksPut rt rt' }

abbrev hookStep : System × HookRecord → Action → Option (System × HookRecord) :=
  Machine.recording step HookRecord.next

def hookInit : System × HookRecord := (.init, ⟨[], []⟩)

/-- The hooks of the window are placed once before the runtime sleeps, and none twice. -/
structure HooksPlaced (s : System × HookRecord) : Prop where
  once : s.2.placed <+: s.2.window
  asleep : s.1.fsm.currentState = .sleep → s.2.placed = s.2.window

/-- Each hook of the window is placed or still stored, and only an open window has hooks
stored. -/
structure HooksKept (s : System × HookRecord) : Prop where
  split : s.2.placed ++ s.1.activeWindowHooks = s.2.window
  closed : s.1.fsm.currentState.isActive = false → s.1.activeWindowHooks = []

/-- The maintenance queue has room when the hooks are placed, and the drop to sleep finds
none. -/
def HooksFit (rt : System) (action : Action) : Prop :=
  match rt.transition action with
  | .dropToSleep => rt.activeWindowHooks = []
  | .curfewGrace =>
    rt.sysMaintMsgq.items.length + rt.activeWindowHooks.length ≤ sysMaintMsgqSize
  | _ => True

theorem hooksPut_of_same {rt rt' : System} (h : rt'.sysMaintMsgq = rt.sysMaintMsgq) :
    hooksPut rt rt' = [] := by
  simp [hooksPut, h]

theorem hooksPut_of_take {rt rt' : System} {item : WorkItem}
    (h : rt.sysMaintMsgq.items = item :: rt'.sysMaintMsgq.items) : hooksPut rt rt' = [] := by
  rw [hooksPut, h, List.drop_eq_nil_of_le (by simp)]
  rfl

theorem filterMap_hookItem (hooks : List CurfewHook) :
    (hooks.map hookItem).filterMap WorkItem.hook? = hooks := by
  induction hooks with
  | nil => rfl
  | cons hook hooks ih => simp [ih]

/-- The transition into the grace period places the hooks that find room. -/
theorem hooksPut_of_grace {rt rt' : System}
    (h : rt'.sysMaintMsgq = rt.activeWindowHooks.foldl (fun q hook => q.tryPut (hookItem hook))
      rt.sysMaintMsgq) :
    hooksPut rt rt' =
      rt.activeWindowHooks.take (sysMaintMsgqSize - rt.sysMaintMsgq.items.length) := by
  rw [hooksPut, h, MsgQueue.foldl_tryPut_items, List.drop_left, ← List.map_take,
    filterMap_hookItem]

/-- The record after a step. -/
theorem HookRecord.next_cases {rt rt' : System} {action : Action} (r : HookRecord)
    (h : StepEffect rt action rt') :
    r.next rt action rt' =
      match rt.transition action with
      | .openWindow _ hooks => ⟨hooks.take maxCurfewHooks, []⟩
      | .curfewGrace => { r with placed := r.placed ++
          rt.activeWindowHooks.take (sysMaintMsgqSize - rt.sysMaintMsgq.items.length) }
      | _ => r := by
  by_cases hadd : ∃ item, action = .addSystemWork item
  · obtain ⟨item, rfl⟩ := hadd
    rfl
  · have hnext : r.next rt action rt' =
        match rt.transition action with
        | .openWindow _ hooks => ⟨hooks.take maxCurfewHooks, []⟩
        | _ => { r with placed := r.placed ++ hooksPut rt rt' } := by
      unfold HookRecord.next
      cases action with
      | addSystemWork item => exact absurd ⟨item, rfl⟩ hadd
      | _ => cases rt.transition _ <;> rfl
    have hqueue := h.maintQueue fun item heq => hadd ⟨item, heq⟩
    rw [hnext]
    cases ht : rt.transition action with
    | openWindow target hooks => rfl
    | curfewGrace =>
      simp only [ht, Transition.maintQueue, reduceCtorEq, false_and, or_false] at hqueue
      simp only [hooksPut_of_grace hqueue]
    | stay =>
      have hput : hooksPut rt rt' = [] := by
        rcases hqueue with hsame | ⟨-, item, htaken⟩
        · rw [ht] at hsame
          exact hooksPut_of_same hsame
        · exact hooksPut_of_take htaken
      simp only [hput, List.append_nil]
    | _ =>
      simp only [ht, Transition.maintQueue, reduceCtorEq, false_and, or_false] at hqueue
      simp only [hooksPut_of_same hqueue, List.append_nil]

theorem hooksKept_init : HooksKept hookInit := ⟨rfl, fun _ => rfl⟩

theorem HooksKept.placed {s : System × HookRecord} (h : HooksKept s) : HooksPlaced s := by
  refine ⟨⟨_, h.split⟩, fun hsleep => ?_⟩
  have hnone := h.closed (by rw [hsleep]; rfl)
  rw [← h.split, hnone, List.append_nil]

theorem hooksKept_step {s s' : System × HookRecord} {action : Action} (h : HooksKept s)
    (hfit : HooksFit s.1 action) (hstep : hookStep s action = some s') : HooksKept s' := by
  obtain ⟨rt', hrt, rfl⟩ := Machine.recording_some step HookRecord.next hstep
  have heffect := step_effect hrt
  have hguard := transition_guard s.1 action
  have hstate := heffect.state
  have hhooks := heffect.hooks
  unfold HooksFit at hfit
  refine ⟨?_, fun hinactive => ?_⟩
  · simp only [s.2.next_cases heffect, hhooks]
    cases ht : s.1.transition action with
    | openWindow target hooks => exact List.nil_append _
    | curfewGrace =>
      simp only [ht] at hfit
      rw [List.take_of_length_le (by omega)]
      exact (List.append_nil _).trans h.split
    | _ => exact h.split
  · rw [hhooks]
    cases ht : s.1.transition action with
    | stay | suspendRest _ =>
      rw [hstate, ht] at hinactive
      exact h.closed hinactive
    | openWindow target hooks =>
      rw [ht] at hguard
      rw [hstate, ht, Transition.state, hguard] at hinactive
      cases hinactive
    | dropToSleep =>
      rw [ht] at hfit
      exact hfit
    | curfewSleep caller =>
      rw [ht] at hguard
      exact hguard.2.1
    | curfewGrace => rfl
    | graceExpired =>
      rw [ht] at hguard
      exact h.closed (by rw [hguard]; rfl)
    | maintSleep =>
      rw [ht] at hguard
      exact h.closed (by rw [hguard.1]; rfl)

/-- Hooks that find no room, or that the drop to sleep finds stored, are lost. -/
theorem hooksKept_break {s s' : System × HookRecord} {action : Action} (h : HooksKept s)
    (hfit : ¬ HooksFit s.1 action) (hstep : hookStep s action = some s') : ¬ HooksKept s' := by
  obtain ⟨rt', hrt, rfl⟩ := Machine.recording_some step HookRecord.next hstep
  have heffect := step_effect hrt
  intro h'
  have hsplit := h'.split
  have hclosed := h'.closed
  simp only [s.2.next_cases heffect, heffect.hooks, heffect.state] at hsplit hclosed
  unfold HooksFit at hfit
  cases ht : s.1.transition action with
  | dropToSleep =>
    simp only [ht] at hfit hclosed
    exact hfit (hclosed rfl)
  | curfewGrace =>
    simp only [ht, Transition.hooks, List.append_nil] at hfit hsplit
    have hlen := congrArg List.length (hsplit.trans h.split.symm)
    rw [List.length_append, List.length_append, List.length_take] at hlen
    have hbound := s.1.sysMaintMsgq.bound
    omega
  | _ =>
    rw [ht] at hfit
    exact hfit trivial

/-- Along any run: while every transition into the grace period finds room for the hooks
and no drop to sleep finds hooks stored, the hooks of each window are placed in order,
once, before the runtime sleeps. That condition on the steps is the exact one for no hook
of a window to be lost. -/
theorem hooks_placed (actions : List Action) :
    (Machine.EachStep hookStep (fun s => HooksFit s.1) hookInit actions →
      Machine.Always hookStep HooksPlaced hookInit actions) ∧
    (Machine.Always hookStep HooksKept hookInit actions ↔
      Machine.EachStep hookStep (fun s => HooksFit s.1) hookInit actions) := by
  have hiff : Machine.Always hookStep HooksKept hookInit actions ↔
      Machine.EachStep hookStep (fun s => HooksFit s.1) hookInit actions :=
    Machine.always_iff_eachStep hooksKept_init (fun _ h => h)
      (fun _ _ _ h hfit hstep => hooksKept_step h hfit hstep)
      (fun _ _ _ h hfit hstep => hooksKept_break h hfit hstep)
  exact ⟨fun hfit => (hiff.mpr hfit).mono fun _ h => h.placed, hiff⟩

/-- Twelve items of other work fill the maintenance queue while a window with one hook is
open. The window ends, the put of the hook fails, and the grace period ends in sleep with
the hook never placed. -/
theorem hook_lost_on_full_queue :
    let item : WorkItem := ⟨.system, some .processRxBuffers, 0, .fill maxWorkerArgPayload 0⟩
    let actions : List Action := List.flatten [[.setRuntimeState .backgroundActive [1]],
      List.replicate 12 (.addSystemWork item), List.replicate 160 .tick,
      [.totalWorkWindowExpiry], List.replicate 700 .tick, [.gracePeriodExpiry]]
    ∃ s, Machine.run hookStep hookInit actions = some s ∧ s.1.fsm.currentState = .sleep ∧
      s.2 = ⟨[1], []⟩ ∧ ¬ HooksPlaced s := by
  intro item actions
  have hrun : (Machine.run hookStep hookInit actions).map (fun s =>
      (s.1.fsm.currentState, s.2)) = some (.sleep, ⟨[1], []⟩) := by
    decide +kernel
  obtain ⟨s, hs, hfacts⟩ := Option.map_eq_some_iff.mp hrun
  obtain ⟨hsleep, hrecord⟩ := Prod.mk.inj hfacts
  refine ⟨s, hs, hsleep, hrecord, fun h => ?_⟩
  have hplaced := h.asleep hsleep
  rw [hrecord] at hplaced
  cases hplaced

end MinimalWatch.Runtime
