import Mathlib.Data.List.Basic
import MinimalWatch.Lib.Machine
import MinimalWatch.Runtime.Transitions

/-! The maintenance thread and its queue. Beside the runtime a log keeps the items that
`sys_maint_msgq` has accepted and those that the thread has called. `phase` is how many steps
of its own the thread is away from the next `k_msgq_get`; whatever the other threads do in
between, no step of its own but the one that takes an item goes without lowering it. -/

namespace MinimalWatch.Runtime
open Firmware

/-- A step of the maintenance thread, or the return of the handler that it calls. -/
def Action.isMaint : Action → Bool
  | .maint => true
  | .maintHandlerReturns => true
  | _ => false

/-! ### How far the thread is from its queue -/

def IdlePc.phase : IdlePc → Nat
  | .activeCount => 6
  | .userQueue => 5
  | .maintQueue => 4

def CurfewPc.phase : CurfewPc → Nat
  | .getState => 7
  | .idle _ pc => pc.phase
  | .checkTimer _ => 3
  | .readClock _ => 2
  | .arm _ => 1
  | .demote => 1
  | .suspending => 1

def MaintPc.phase : MaintPc → Nat
  | .waiting => 0
  | .running _ => 11
  | .returned => 10
  | .emptied => 9
  | .checkState => 8
  | .evaluating pc => pc.phase

theorem CurfewPc.phase_bounds (pc : CurfewPc) : 0 < pc.phase ∧ pc.phase ≤ 7 := by
  cases pc with
  | idle state pc => cases pc <;> simp [CurfewPc.phase, IdlePc.phase]
  | _ => simp [CurfewPc.phase]

theorem MaintPc.phase_le (pc : MaintPc) : pc.phase ≤ 11 := by
  cases pc with
  | evaluating pc => exact Nat.le_trans pc.phase_bounds.2 (by decide)
  | _ => simp [MaintPc.phase]

/-- Where an evaluation leads the thread. -/
def afterCurfew (rt : System) (pc : CurfewPc) : MaintPc :=
  (curfewStep rt none pc).2.elim .waiting .evaluating

theorem idleStep_phase {rt : System} {pc pc' : IdlePc} (h : idleStep rt pc = .inl pc') :
    pc'.phase < pc.phase := by
  cases pc with
  | maintQueue => cases h
  | _ =>
    simp only [idleStep] at h
    split_ifs at h
    cases h
    decide

theorem afterCurfew_phase (rt : System) (pc : CurfewPc) :
    (afterCurfew rt pc).phase < pc.phase := by
  have hpos := pc.phase_bounds.1
  cases pc with
  | getState =>
    simp only [afterCurfew, curfewStep]
    split_ifs <;> simp [MaintPc.phase, CurfewPc.phase, IdlePc.phase]
  | idle state pc =>
    simp only [afterCurfew, curfewStep]
    split
    next pc' hidle => exact idleStep_phase hidle
    next => cases pc <;> simp [MaintPc.phase, CurfewPc.phase, IdlePc.phase]
    next => exact hpos
  | checkTimer state =>
    simp only [afterCurfew, curfewStep]
    split_ifs <;> simp [MaintPc.phase, CurfewPc.phase]
  | readClock state =>
    simp only [afterCurfew, curfewStep]
    split_ifs <;> simp [MaintPc.phase, CurfewPc.phase]
  | arm gap => exact hpos
  | demote => exact hpos
  | suspending => exact hpos

/-! ### What a step does to the thread and its queue -/

/-- The hooks that a step puts on the queue: those of the window, as far as there is room. -/
def System.hooksPlaced (rt : System) (action : Action) : List WorkItem :=
  if rt.transition action = .curfewGrace then
    (rt.activeWindowHooks.map hookItem).take (sysMaintMsgqSize - rt.sysMaintMsgq.items.length)
  else []

theorem maintQueue_items (rt : System) (action : Action) :
    ((rt.transition action).maintQueue rt.activeWindowHooks rt.sysMaintMsgq).items =
      rt.sysMaintMsgq.items ++ rt.hooksPlaced action := by
  rw [System.hooksPlaced]
  cases rt.transition action with
  | curfewGrace => exact MsgQueue.foldl_tryPut_items hookItem rt.activeWindowHooks rt.sysMaintMsgq
  | _ => exact (List.append_nil _).symm

inductive ServeMove (rt : System) (action : Action) (rt' : System) : Prop
  | accept {item : WorkItem} (haction : action = .addSystemWork item)
      (hadd : addSystemWork rt item = some rt') (hmaint : rt'.maint = rt.maint)
      (hhandler : item.handler ≠ none)
      (hqueue : rt'.sysMaintMsgq.items = rt.sysMaintMsgq.items ++ [{ item with type := .system }])
  | refuse {item : WorkItem} (haction : action = .addSystemWork item)
      (hadd : addSystemWork rt item = none) (hsame : rt' = rt)
  | others (hnot : ∀ item, action ≠ .addSystemWork item) (hown : action.isMaint = false)
      (hmaint : rt'.maint = rt.maint)
      (hqueue : rt'.sysMaintMsgq.items = rt.sysMaintMsgq.items ++ rt.hooksPlaced action)
  | take {item : WorkItem} (haction : action = .maint) (hpc : rt.maint = .waiting)
      (hmaint : rt'.maint = .running item)
      (hqueue : rt.sysMaintMsgq.items = item :: rt'.sysMaintMsgq.items)
  | own (hown : action.isMaint = true) (hpc : rt.maint ≠ .waiting)
      (hphase : rt'.maint.phase < rt.maint.phase)
      (hqueue : rt'.sysMaintMsgq.items = rt.sysMaintMsgq.items ++ rt.hooksPlaced action)

theorem hooksPlaced_of_ne {rt : System} {action : Action}
    (h : rt.transition action ≠ .curfewGrace) : rt.hooksPlaced action = [] := if_neg h

theorem hooksPlaced_of_stay {rt : System} {action : Action} (h : rt.transition action = .stay) :
    rt.hooksPlaced action = [] := hooksPlaced_of_ne (by simp [h])

/-- A section of the state machine, with what it does to the queue. -/
theorem Effect.placed {rt rt' : System} {action : Action} {t : Transition} (h : Effect rt t rt')
    (ht : rt.transition action = t) :
    rt'.sysMaintMsgq.items = rt.sysMaintMsgq.items ++ rt.hooksPlaced action := by
  rw [h.maintQueue, ← ht, maintQueue_items]

theorem curfewStep_placed (rt : System) (caller : Option Slot) (pc : CurfewPc) {action : Action}
    (hdemote : pc = .demote → rt.transition action = curfewTransition rt caller)
    (hother : pc ≠ .demote → rt.transition action ≠ .curfewGrace) :
    (curfewStep rt caller pc).1.sysMaintMsgq.items =
      rt.sysMaintMsgq.items ++ rt.hooksPlaced action := by
  rcases curfewPc_cases rt caller pc with rfl | ⟨i, rfl, rfl⟩ | ⟨gap, rfl⟩ | ⟨hne, -, -, hsame⟩
  · exact (demoteToCurfew_effect rt caller).placed (hdemote rfl)
  · rw [hooksPlaced_of_ne (hother (by simp)), List.append_nil]
    rfl
  · rw [hooksPlaced_of_ne (hother (by simp)), List.append_nil]
    rfl
  · rw [hsame, hooksPlaced_of_ne (hother hne), List.append_nil]

theorem curfewStep_maint (rt : System) (caller : Option Slot) (pc : CurfewPc) :
    (curfewStep rt caller pc).1.maint = rt.maint := by
  rcases curfewStep_cases rt caller pc with
    hsame | ⟨gap, -, harm⟩ | ⟨-, hdemote⟩ | ⟨i, -, -, hrest⟩
  · rw [hsame]
  · rw [harm]
  · rw [hdemote, demoteToCurfew, executeCurfewTransitionLocked]
    split_ifs <;> rfl
  · rw [hrest]

theorem setRuntimeState_maint (rt : System) (target : RuntimeState) (hooks : List CurfewHook) :
    (setRuntimeStateWithHooks rt target hooks).maint = rt.maint := by
  unfold setRuntimeStateWithHooks
  split_ifs
  · rfl
  · cases target <;> rfl

theorem demoteToCurfew_maint (rt : System) (caller : Option Slot) :
    (demoteToCurfew rt caller).maint = rt.maint := curfewStep_maint rt caller .demote

theorem settlementStep_maint (rt : System) (pc : SettlementPc) :
    (settlementStep rt pc).1.maint = rt.maint := by
  rcases settlementStep_cases rt pc with hsame | ⟨-, hsleep⟩ | ⟨state, -, -, hdemote⟩
  · rw [hsame]
  · rw [hsleep]
    exact setRuntimeState_maint rt _ _
  · rw [hdemote]
    exact demoteToCurfew_maint rt none

theorem WorkerMove.serve {rt rt' : System} {i : Slot} (h : WorkerMove rt i rt') :
    rt'.maint = rt.maint ∧
      rt'.sysMaintMsgq.items = rt.sysMaintMsgq.items ++ rt.hooksPlaced (.worker i) := by
  cases h with
  | @curfew pc hpc =>
    refine ⟨curfewStep_maint rt (some i) pc, curfewStep_placed rt (some i) pc ?_ ?_⟩
    · rintro rfl
      simp [System.transition, hpc]
    · intro hne
      cases pc <;> simp [System.transition, hpc] at hne ⊢
  | _ hpc =>
    have ht : rt.transition (.worker i) = .stay := by simp [System.transition, hpc]
    rw [hooksPlaced_of_stay ht, List.append_nil]
    exact ⟨rfl, rfl⟩

theorem MaintMove.serve {rt rt' : System} (h : MaintMove rt rt') : ServeMove rt .maint rt' := by
  cases h with
  | take hpc hget => exact .take rfl hpc rfl (MsgQueue.get_items hget)
  | lockedSection hpc =>
    refine .own rfl (by simp [hpc]) (by simp [hpc, MaintPc.phase]) ?_
    exact (maintCurfewSection_effect rt).placed (by simp [System.transition, hpc])
  | @curfew pc hpc =>
    refine .own rfl (by simp [hpc]) ?_ (curfewStep_placed rt none pc ?_ ?_)
    · rw [hpc]
      exact afterCurfew_phase rt pc
    · rintro rfl
      simp [System.transition, hpc]
    · intro hne
      cases pc <;> simp [System.transition, hpc] at hne ⊢
  | _ hpc =>
    have ht : rt.transition .maint = .stay := by simp [System.transition, hpc]
    refine .own rfl (by simp [hpc]) (by simp [hpc, MaintPc.phase, CurfewPc.phase]) ?_
    rw [hooksPlaced_of_stay ht, List.append_nil]

theorem addSystemWork_some {rt rt' : System} {item : WorkItem}
    (h : addSystemWork rt item = some rt') : item.handler ≠ none ∧ rt'.maint = rt.maint ∧
      rt'.sysMaintMsgq.items = rt.sysMaintMsgq.items ++ [{ item with type := .system }] := by
  unfold addSystemWork at h
  split_ifs at h with hnone
  obtain ⟨q, hput, rfl⟩ := Option.map_eq_some_iff.mp h
  exact ⟨hnone, rfl, MsgQueue.put_items hput⟩

theorem step_serve {rt rt' : System} {action : Action} (h : step rt action = some rt') :
    ServeMove rt action rt' := by
  have hstay : rt.transition action = .stay →
      rt.sysMaintMsgq.items = rt.sysMaintMsgq.items ++ rt.hooksPlaced action := fun ht => by
    rw [hooksPlaced_of_stay ht, List.append_nil]
  cases step_cases h with
  | addSystemWork item =>
    cases hadd : addSystemWork rt item with
    | none => exact .refuse rfl hadd rfl
    | some rt' =>
      obtain ⟨hhandler, hmaint, hqueue⟩ := addSystemWork_some hadd
      exact .accept rfl hadd hmaint hhandler hqueue
  | setRuntimeState target hooks =>
    exact .others (by simp) rfl (setRuntimeState_maint rt target hooks)
      ((setRuntimeState_effect rt target hooks).placed rfl)
  | demoteToCurfew =>
    exact .others (by simp) rfl (demoteToCurfew_maint rt none)
      ((demoteToCurfew_effect rt none).placed rfl)
  | addUserWork item =>
    rw [addUserWork_fields]
    exact .others (by simp) rfl rfl (hstay rfl)
  | totalWorkWindowExpiry hpending =>
    have heffect := curfew_effect { rt with
      fsm := { rt.fsm with totalWorkWindowTimer := rt.fsm.totalWorkWindowTimer.handle } } none
    have hrt : Effect rt (rt.transition .totalWorkWindowExpiry) _ :=
      heffect.fsm_congr rfl rfl rfl rfl
    exact .others (by simp) rfl (demoteToCurfew_maint _ none) (hrt.placed rfl)
  | gracePeriodExpiry hpending =>
    have heffect := gracePeriodExpiry_effect { rt with
      fsm := { rt.fsm with gracePeriodTimer := rt.fsm.gracePeriodTimer.handle } }
    have hrt : Effect rt (rt.transition .gracePeriodExpiry) _ :=
      heffect.fsm_congr rfl rfl rfl rfl
    refine .others (by simp) rfl ?_ (hrt.placed rfl)
    unfold gracePeriodExpiry
    split_ifs <;> rfl
  | settlementStart hnone hpending =>
    exact .others (by simp) rfl rfl (hstay (by simp [System.transition, hnone]))
  | settlementGoesOn hpc =>
    exact .others (by simp) rfl (settlementStep_maint rt _) ((settlementStep_effect hpc).placed rfl)
  | worker hrunnable hmove => exact .others (by simp) rfl hmove.serve.1 hmove.serve.2
  | maint hmove => exact hmove.serve
  | maintHandlerReturns hpc =>
    exact .own rfl (by simp [hpc]) (by simp [hpc, MaintPc.phase]) (hstay rfl)
  | _ => exact .others (by simp) rfl rfl (hstay rfl)

/-! ### The log -/

/-- What a step brings to the queue. -/
def System.accepts (rt : System) : Action → List WorkItem
  | .addSystemWork item =>
    if (addSystemWork rt item).isSome then [{ item with type := .system }] else []
  | action => rt.hooksPlaced action

/-- What the thread takes off the queue in a step, to call it. -/
def System.calls (rt : System) (action : Action) : List WorkItem :=
  if action = .maint ∧ rt.maint = .waiting then rt.sysMaintMsgq.items.take 1 else []

structure MaintLog where
  accepted : List WorkItem
  called : List WorkItem
  deriving DecidableEq, Repr

def MaintLog.next (rt : System) (action : Action) (_ : System) (l : MaintLog) : MaintLog :=
  ⟨l.accepted ++ rt.accepts action, l.called ++ rt.calls action⟩

abbrev maintLogStep : System × MaintLog → Action → Option (System × MaintLog) :=
  Machine.recording step MaintLog.next

def maintLogInit : System × MaintLog := (.init, ⟨[], []⟩)

theorem accepts_of_not_add {rt : System} {action : Action}
    (h : ∀ item, action ≠ .addSystemWork item) : rt.accepts action = rt.hooksPlaced action := by
  cases action with
  | addSystemWork item => exact absurd rfl (h item)
  | _ => rfl

theorem calls_of_not_maint {rt : System} {action : Action} (h : action.isMaint = false) :
    rt.calls action = [] := by
  rw [System.calls, if_neg]
  rintro ⟨rfl, -⟩
  cases h

/-- The queue is first in, first out. -/
theorem ServeMove.queue {rt rt' : System} {action : Action} (h : ServeMove rt action rt') :
    rt.sysMaintMsgq.items ++ rt.accepts action = rt.calls action ++ rt'.sysMaintMsgq.items := by
  cases h with
  | accept haction hadd hmaint hhandler hqueue =>
    subst haction
    rw [calls_of_not_maint rfl, hqueue, System.accepts, hadd]
    rfl
  | refuse haction hadd hsame =>
    subst haction hsame
    rw [calls_of_not_maint rfl, System.accepts, hadd]
    exact List.append_nil _
  | others hnot hown hmaint hqueue =>
    rw [accepts_of_not_add hnot, calls_of_not_maint hown, hqueue]
    rfl
  | take haction hpc hmaint hqueue =>
    subst haction
    have ht : rt.transition .maint = .stay := by simp [System.transition, hpc]
    rw [accepts_of_not_add (by simp), hooksPlaced_of_stay ht, System.calls, if_pos ⟨rfl, hpc⟩,
      hqueue]
    exact List.append_nil _
  | own hown hpc hphase hqueue =>
    have hnot : ∀ item, action ≠ .addSystemWork item := by
      rintro item rfl
      cases hown
    rw [accepts_of_not_add hnot, System.calls, if_neg fun h => hpc h.2, hqueue]
    rfl

/-- The thread comes nearer to its queue with each step of its own, and goes away from it only
to call an item. -/
theorem ServeMove.phase {rt rt' : System} {action : Action} (h : ServeMove rt action rt') :
    rt'.maint.phase + [action].countP Action.isMaint ≤
      rt.maint.phase + 12 * (rt.calls action).length := by
  rw [List.countP_singleton]
  cases h with
  | accept haction hadd hmaint hhandler hqueue =>
    subst haction
    rw [hmaint]
    exact Nat.le_add_right _ _
  | refuse haction hadd hsame =>
    subst haction hsame
    exact Nat.le_add_right _ _
  | others hnot hown hmaint hqueue =>
    rw [hmaint, hown]
    exact Nat.le_add_right _ _
  | take haction hpc hmaint hqueue =>
    subst haction
    have hcalls : rt.calls .maint = rt.sysMaintMsgq.items.take 1 := if_pos ⟨rfl, hpc⟩
    rw [hcalls, hmaint, hpc, hqueue]
    simp [MaintPc.phase, Action.isMaint]
  | own hown hpc hphase hqueue =>
    rw [hown, if_pos rfl]
    omega

/-- What enters the queue has a handler and is system work. -/
theorem accepts_sound (rt : System) (action : Action) {item : WorkItem}
    (h : item ∈ rt.accepts action) : item.handler ≠ none ∧ item.type = .system := by
  by_cases hadd : ∃ added, action = .addSystemWork added
  · obtain ⟨added, rfl⟩ := hadd
    simp only [System.accepts] at h
    split_ifs at h with hsome
    · obtain ⟨rt', hrt'⟩ := Option.isSome_iff_exists.mp hsome
      rw [List.mem_singleton.mp h]
      exact ⟨(addSystemWork_some hrt').1, rfl⟩
    · cases h
  · rw [accepts_of_not_add fun added heq => hadd ⟨added, heq⟩, System.hooksPlaced] at h
    split_ifs at h
    · obtain ⟨hook, -, rfl⟩ := List.mem_map.mp (List.mem_of_mem_take h)
      exact ⟨by simp [hookItem], rfl⟩
    · cases h

/-! ### Runs -/

/-- The accepted items are those called and those on the queue, in the order of acceptance. -/
structure ServedInOrder (s : System × MaintLog) : Prop where
  order : s.2.accepted = s.2.called ++ s.1.sysMaintMsgq.items
  sound : ∀ item ∈ s.2.accepted, item.handler ≠ none ∧ item.type = .system

theorem servedInOrder_step {s s' : System × MaintLog} {action : Action} (h : ServedInOrder s)
    (hstep : maintLogStep s action = some s') : ServedInOrder s' := by
  obtain ⟨rt', hrt, rfl⟩ := Machine.recording_some step MaintLog.next hstep
  refine ⟨?_, fun item hitem => ?_⟩
  · simp only [MaintLog.next, h.order, List.append_assoc]
    rw [(step_serve hrt).queue]
  · rcases List.mem_append.mp hitem with hold | hnew
    · exact h.sound item hold
    · exact accepts_sound s.1 action hnew

/-- In every run, every item that `add_system_work` has accepted and every hook that has found
room is called exactly once or still on the queue, in the order in which they came; the thread
calls nothing else, and never through a NULL handler. -/
theorem system_work_called_once (actions : List Action) :
    Machine.Always maintLogStep ServedInOrder maintLogInit actions :=
  Machine.always_of_invariant actions ⟨rfl, fun _ h => absurd h List.not_mem_nil⟩
    fun _ _ _ h hstep => servedInOrder_step h hstep

/-- What a run adds to the log, and how far it brings the thread. -/
theorem served_run {s t : System × MaintLog} {actions : List Action}
    (hrun : Machine.run maintLogStep s actions = some t) :
    ∃ accepted called, t.2.called = s.2.called ++ called ∧
      s.1.sysMaintMsgq.items ++ accepted = called ++ t.1.sysMaintMsgq.items ∧
      t.1.maint.phase + actions.countP Action.isMaint ≤ s.1.maint.phase + 12 * called.length := by
  induction actions generalizing s with
  | nil =>
    cases hrun
    exact ⟨[], [], (List.append_nil _).symm, List.append_nil _, Nat.le_refl _⟩
  | cons a rest ih =>
    obtain ⟨s', hstep, hrest⟩ := (Machine.run_cons_eq_some maintLogStep).mp hrun
    obtain ⟨rt', hrt, rfl⟩ := Machine.recording_some step MaintLog.next hstep
    have hserve := step_serve hrt
    have hphase := hserve.phase
    obtain ⟨accepted, called, hcalled, hqueue, hrest⟩ := ih hrest
    refine ⟨s.1.accepts a ++ accepted, s.1.calls a ++ called, ?_, ?_, ?_⟩
    · rw [hcalled]
      exact List.append_assoc _ _ _
    · rw [← List.append_assoc, hserve.queue, List.append_assoc, hqueue, List.append_assoc]
    · rw [List.countP_singleton] at hphase
      rw [List.countP_cons, List.length_append]
      simp only at hrest
      omega

/-- Wherever the thread stands and whatever the other threads and the timers do in between,
twelve of its own steps for each item call the items that are on the queue, in order. -/
theorem system_work_served {s t : System × MaintLog} {actions : List Action}
    (hrun : Machine.run maintLogStep s actions = some t) :
    ∃ called, t.2.called = s.2.called ++ called ∧
      s.1.sysMaintMsgq.items.take (actions.countP Action.isMaint / 12) <+: called := by
  obtain ⟨accepted, called, hcalled, hqueue, hphase⟩ := served_run hrun
  refine ⟨called, hcalled, ?_⟩
  have hle := s.1.maint.phase_le
  have hlen : actions.countP Action.isMaint / 12 ≤ called.length := by omega
  have hprefix : s.1.sysMaintMsgq.items.take (actions.countP Action.isMaint / 12) <+:
      called ++ t.1.sysMaintMsgq.items :=
    hqueue ▸ (List.take_prefix _ _).trans (List.prefix_append _ _)
  exact List.prefix_of_prefix_length_le hprefix (List.prefix_append _ _)
    (by rw [List.length_take]; omega)

/-- Three items are queued while the runtime sleeps, and the thread takes twelve steps. -/
theorem system_work_served_three :
    let item : WorkItem := ⟨.system, some .processRxBuffers, 0, .fill maxWorkerArgPayload 0⟩
    let turn : List Action := [.maint, .maintHandlerReturns, .maint, .maint]
    ∃ s t, Machine.run maintLogStep maintLogInit (List.replicate 3 (.addSystemWork item)) =
        some s ∧
      Machine.run maintLogStep s (List.replicate 3 turn).flatten = some t ∧
      ∃ called, t.2.called = s.2.called ++ called ∧ [item] <+: called := by
  intro item turn
  have hruns : ∃ s ∈ Machine.run maintLogStep maintLogInit
        (List.replicate 3 (.addSystemWork item)),
      s.1.sysMaintMsgq.items = [item, item, item] ∧
        ∃ t ∈ Machine.run maintLogStep s (List.replicate 3 turn).flatten, True := by
    decide +kernel
  obtain ⟨s, hs, hitems, t, ht, -⟩ := hruns
  obtain ⟨called, hcalled, hprefix⟩ := system_work_served ht
  refine ⟨s, t, hs, ht, called, hcalled, ?_⟩
  have hcount : (List.replicate 3 turn).flatten.countP Action.isMaint / 12 = 1 := by
    decide +kernel
  rw [hitems, hcount] at hprefix
  exact hprefix

end MinimalWatch.Runtime
