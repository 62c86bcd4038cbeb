import MinimalWatch.Runtime.Accounting
import MinimalWatch.Runtime.PendingWork
import MinimalWatch.Runtime.Transitions

/-! What the runtime has looked at before it sleeps. The curfew and the maintenance thread
check the count of busy workers and the user queue under the lock; neither sees a worker
between its `k_msgq_get` and its `atomic_inc`. The settlement handler checks the count and
both queues, one after the other, and takes the lock later; it never looks at the
maintenance thread. A record beside the runtime keeps what has gone past these checks. -/

namespace MinimalWatch.Runtime
open Firmware WorkerPool

/-- No item is queued, and no thread has one whose handler has not returned. -/
structure Drained (rt : System) : Prop where
  userQueue : rt.pool.runtimeMsgq.items = []
  maintQueue : rt.sysMaintMsgq.items = []
  workers : ∀ i, (rt.pool.workers i).pc.item? = none
  maint : ∀ item, rt.maint ≠ .running item

/-- A transition to sleep other than that of `grace_period_expiry` or of a caller of
`set_runtime_state_with_hooks`. -/
def EndsEarly (rt : System) (action : Action) : Prop :=
  match rt.transition action with
  | .curfewSleep _ => True
  | .maintSleep => True
  | .dropToSleep => action = .settlementExpiry
  | _ => False

/-- Sleep comes only when the work is done. -/
def SleepsDrained (rt : System) (action : Action) : Prop := EndsEarly rt action → Drained rt

/-- Between `k_msgq_get` and `atomic_inc`. -/
def WorkerPc.inTransit (pc : WorkerPc) : Bool := pc.item?.isSome && !pc.isCounted

/-- The check that the step of an action makes for the settlement handler. -/
def System.checks (rt : System) (action : Action) : Option IdlePc :=
  match action, rt.mgmt.handler with
  | .settlementExpiry, some (.idle _ pc) => some pc
  | _, _ => none

/-- What the settlement handler has not seen: the slots whose item was in transit when it
read the count or has been taken since, and whether a queue has grown since its read. -/
structure Unseen where
  slots : Slot → Bool
  userQueue : Bool
  maintQueue : Bool

def Unseen.next (rt : System) (action : Action) (rt' : System) (u : Unseen) : Unseen where
  slots i :=
    if rt.checks action = some .activeCount then (rt.pool.workers i).pc.inTransit
    else u.slots i ||
      ((rt.pool.workers i).pc.item?.isNone && (rt'.pool.workers i).pc.item?.isSome)
  userQueue :=
    if rt.checks action = some .userQueue then false
    else u.userQueue ||
      decide (rt.pool.runtimeMsgq.numUsed < rt'.pool.runtimeMsgq.numUsed)
  maintQueue :=
    if rt.checks action = some .maintQueue then false
    else u.maintQueue || decide (rt.sysMaintMsgq.numUsed < rt'.sysMaintMsgq.numUsed)

abbrev unseenStep : System × Unseen → Action → Option (System × Unseen) :=
  Machine.recording step Unseen.next

def unseenInit : System × Unseen := (.init, ⟨fun _ => false, false, false⟩)

/-- What the way into sleep has not checked holds all the same. For the curfew: no item is
in transit to a worker, and the maintenance thread and its queue have none. For the
maintenance thread's own section: nothing is in transit or has come to its queue. For the
settlement handler: what has gone past its checks is done with, and the maintenance thread
is in no handler. -/
def UncheckedClear (s : System × Unseen) (action : Action) : Prop :=
  match s.1.transition action with
  | .curfewSleep _ => (∀ i, (s.1.pool.workers i).pc.inTransit = false) ∧
      s.1.sysMaintMsgq.items = [] ∧ ∀ item, s.1.maint ≠ .running item
  | .maintSleep =>
    (∀ i, (s.1.pool.workers i).pc.inTransit = false) ∧ s.1.sysMaintMsgq.items = []
  | .dropToSleep => action = .settlementExpiry →
      (∀ i, s.2.slots i = true → (s.1.pool.workers i).pc.item? = none) ∧
      (s.2.userQueue = true → s.1.pool.runtimeMsgq.items = []) ∧
      (s.2.maintQueue = true → s.1.sysMaintMsgq.items = []) ∧
      ∀ item, s.1.maint ≠ .running item
  | _ => True

/-- The counter is never below the number of counted slots. -/
theorem leak_nonneg_step {rt rt' : System} {action : Action} (h : 0 ≤ rt.pool.leak)
    (hstep : step rt action = some rt') : 0 ≤ rt'.pool.leak := by
  rw [step_leak hstep]
  split_ifs <;> omega

/-- With the count at zero no slot is counted. -/
theorem uncounted_of_count {rt : System} (hleak : 0 ≤ rt.pool.leak)
    (h : rt.pool.activeWorkerCount ≤ 0) (i : Slot) :
    (rt.pool.workers i).pc.isCounted = false := by
  by_contra hcounted
  have hmem : i ∈ rt.pool.countedSlots := by
    rw [countedSlots, Finset.mem_filter]
    exact ⟨Finset.mem_univ i, Bool.eq_true_of_not_eq_false hcounted⟩
  have hpos := Finset.card_pos.mpr ⟨i, hmem⟩
  rw [leak] at hleak
  omega

/-- With the count at zero, a slot with an item is in transit. -/
theorem item_none_iff {rt : System} (hleak : 0 ≤ rt.pool.leak)
    (h : rt.pool.activeWorkerCount ≤ 0) (i : Slot) :
    (rt.pool.workers i).pc.item? = none ↔ (rt.pool.workers i).pc.inTransit = false := by
  rw [WorkerPc.inTransit, uncounted_of_count hleak h i, Bool.not_false, Bool.and_true,
    Option.isSome_eq_false_iff, Option.isNone_iff_eq_none]

theorem hasWork_eq_false {p : WorkerPool} :
    p.hasWork = false ↔ p.activeWorkerCount ≤ 0 ∧ p.runtimeMsgq.items = [] := by
  simp only [hasWork, MsgQueue.numUsed, Bool.or_eq_false_iff, decide_eq_false_iff_not, gt_iff_lt,
    not_lt, Nat.le_zero, List.length_eq_zero_iff]

/-! ### The checks of the settlement handler -/

/-- Whether the handler is past a check. -/
def SettlementPc.past : SettlementPc → IdlePc → Bool
  | .act _, _ => true
  | .idle _ .maintQueue, check => check != .maintQueue
  | .idle _ .userQueue, check => check == .activeCount
  | _, _ => false

/-- What the handler has found when it goes past a check. -/
def IdlePc.Found (rt : System) : IdlePc → Prop
  | .activeCount => rt.pool.activeWorkerCount ≤ 0
  | .userQueue => rt.pool.runtimeMsgq.items = []
  | .maintQueue => rt.sysMaintMsgq.items = []

/-- Nothing but the unseen is against what a check has found. -/
def IdlePc.Stands (s : System × Unseen) : IdlePc → Prop
  | .activeCount => ∀ i, s.2.slots i = false → (s.1.pool.workers i).pc.item? = none
  | .userQueue => s.2.userQueue = false → s.1.pool.runtimeMsgq.items = []
  | .maintQueue => s.2.maintQueue = false → s.1.sysMaintMsgq.items = []

structure ChecksStand (s : System × Unseen) : Prop where
  leak : 0 ≤ s.1.pool.leak
  stands : ∀ check, s.1.mgmt.handler.any (SettlementPc.past · check) = true → check.Stands s

/-- The handler goes on from a check that has found nothing, past that check alone. -/
theorem settlementStep_idle {rt : System} {state : RuntimeState} {check : IdlePc}
    {pc' : SettlementPc} (h : (settlementStep rt (.idle state check)).2 = some pc') :
    check.Found rt ∧ ∀ other, pc'.past other = true →
      other = check ∨ (SettlementPc.idle state check).past other = true := by
  cases check with
  | activeCount =>
    by_cases hcount : rt.pool.activeWorkerCount > 0
    · simp [settlementStep, idleStep, hcount] at h
    · simp only [settlementStep, idleStep, if_neg hcount, Option.some.injEq] at h
      subst h
      refine ⟨not_lt.mp hcount, fun other hpast => Or.inl ?_⟩
      simpa [SettlementPc.past] using hpast
  | userQueue =>
    by_cases hqueue : rt.pool.runtimeMsgq.items = []
    · simp only [settlementStep, idleStep, MsgQueue.numUsed, hqueue, List.length_nil, gt_iff_lt,
        lt_irrefl, if_false, Option.some.injEq] at h
      subst h
      refine ⟨hqueue, fun other hpast => ?_⟩
      cases other with
      | activeCount => exact Or.inr rfl
      | userQueue => exact Or.inl rfl
      | maintQueue => cases hpast
    · simp [settlementStep, idleStep, MsgQueue.numUsed, List.length_pos_iff.mpr hqueue] at h
  | maintQueue =>
    by_cases hqueue : rt.sysMaintMsgq.items = []
    · refine ⟨hqueue, fun other hpast => ?_⟩
      cases other with
      | maintQueue => exact Or.inl rfl
      | _ => exact Or.inr rfl
    · simp [settlementStep, idleStep, MsgQueue.numUsed, hqueue] at h

/-- The handler is past a check by an earlier step, or by this one, which has found
nothing and leaves the runtime as it was. -/
theorem settlementStep_past {rt : System} {pc pc' : SettlementPc} {check : IdlePc}
    (h : (settlementStep rt pc).2 = some pc') (hpast : pc'.past check = true) :
    (pc.past check = true ∧ ∀ state, pc ≠ .idle state check) ∨
      ((∃ state, pc = .idle state check) ∧ check.Found rt ∧ (settlementStep rt pc).1 = rt) := by
  cases pc with
  | getState =>
    simp only [settlementStep] at h
    split_ifs at h
    cases h
    cases hpast
  | idle state other =>
    obtain ⟨hfound, hothers⟩ := settlementStep_idle h
    by_cases hcheck : check = other
    · subst hcheck
      have hsame : (settlementStep rt (.idle state check)).1 = rt := by
        rcases settlementStep_cases rt (.idle state check) with hsame | ⟨hact, -⟩ | ⟨_, hact, -⟩
        · exact hsame
        · cases hact
        · cases hact
      exact Or.inr ⟨⟨state, rfl⟩, hfound, hsame⟩
    · left
      refine ⟨(hothers check hpast).resolve_left hcheck, fun _ heq => hcheck ?_⟩
      exact (SettlementPc.idle.inj heq).2.symm
  | act state =>
    simp only [settlementStep] at h
    split_ifs at h

theorem setRuntimeState_handler (rt : System) (target : RuntimeState)
    (hooks : List CurfewHook) :
    (setRuntimeStateWithHooks rt target hooks).mgmt.handler = rt.mgmt.handler := by
  unfold setRuntimeStateWithHooks
  split_ifs
  · rfl
  · cases target <;> rfl

theorem demoteToCurfew_handler (rt : System) (caller : Option Slot) :
    (demoteToCurfew rt caller).mgmt.handler = rt.mgmt.handler := by
  unfold demoteToCurfew executeCurfewTransitionLocked
  split_ifs <;> rfl

theorem curfewStep_handler (rt : System) (caller : Option Slot) (pc : CurfewPc) :
    (curfewStep rt caller pc).1.mgmt.handler = rt.mgmt.handler := by
  rcases curfewStep_cases rt caller pc with
    hsame | ⟨gap, -, harm⟩ | ⟨-, hdemote⟩ | ⟨i, -, -, hrest⟩
  · rw [hsame]
  · rw [harm]
  · rw [hdemote, demoteToCurfew_handler]
  · rw [hrest]

/-- Only its own steps move the settlement handler. -/
theorem handler_of_other {rt rt' : System} {action : Action} (h : step rt action = some rt')
    (hother : action ≠ .settlementExpiry) : rt'.mgmt.handler = rt.mgmt.handler := by
  cases step_cases h with
  | setRuntimeState target hooks => exact setRuntimeState_handler rt target hooks
  | demoteToCurfew => exact demoteToCurfew_handler rt none
  | addUserWork item => rw [addUserWork_fields]
  | addSystemWork item => rw [addSystemWork_fields]
  | totalWorkWindowExpiry hpending => exact demoteToCurfew_handler _ none
  | gracePeriodExpiry hpending =>
    unfold gracePeriodExpiry
    split_ifs <;> rfl
  | settlementStart hnone hpending => exact absurd rfl hother
  | settlementGoesOn hpc => exact absurd rfl hother
  | worker hrunnable hmove =>
    cases hmove with
    | curfew hpc => exact curfewStep_handler rt _ _
    | _ => rfl
  | maint hmove =>
    cases hmove with
    | lockedSection hpc =>
      unfold maintCurfewSection
      split_ifs <;> rfl
    | curfew hpc => exact curfewStep_handler rt none _
    | _ => rfl
  | _ => rfl

/-- What a check has found stands after a step that makes another check or none. -/
theorem IdlePc.Stands.after {s s' : System × Unseen} {action : Action} {check : IdlePc}
    (h : check.Stands s) (hcheck : s.1.checks action ≠ some check)
    (hstep : unseenStep s action = some s') : check.Stands s' := by
  obtain ⟨rt', -, rfl⟩ := Machine.recording_some step Unseen.next hstep
  cases check with
  | activeCount =>
    intro i hi
    simp only [Unseen.next, if_neg hcheck, Bool.or_eq_false_iff] at hi
    have hnone := h i hi.1
    simpa [hnone] using hi.2
  | userQueue =>
    intro hseen
    simp only [Unseen.next, if_neg hcheck, Bool.or_eq_false_iff, decide_eq_false_iff_not] at hseen
    have hempty := h hseen.1
    simpa [MsgQueue.numUsed, hempty] using hseen.2
  | maintQueue =>
    intro hseen
    simp only [Unseen.next, if_neg hcheck, Bool.or_eq_false_iff, decide_eq_false_iff_not] at hseen
    have hempty := h hseen.1
    simpa [MsgQueue.numUsed, hempty] using hseen.2

/-- A check that has found nothing stands after its step. -/
theorem IdlePc.Found.stands {s s' : System × Unseen} {action : Action} {check : IdlePc}
    (h : check.Found s.1) (hleak : 0 ≤ s.1.pool.leak) (hcheck : s.1.checks action = some check)
    (hpool : s'.1.pool = s.1.pool) (hqueue : s'.1.sysMaintMsgq = s.1.sysMaintMsgq)
    (hstep : unseenStep s action = some s') : check.Stands s' := by
  obtain ⟨rt', -, rfl⟩ := Machine.recording_some step Unseen.next hstep
  cases check with
  | activeCount =>
    intro i hi
    simp only [Unseen.next, if_pos hcheck] at hi
    rw [hpool]
    exact (item_none_iff hleak h i).mpr hi
  | userQueue =>
    intro _
    rw [hpool]
    exact h
  | maintQueue =>
    intro _
    rw [hqueue]
    exact h

theorem checksStand_step {s s' : System × Unseen} {action : Action} (h : ChecksStand s)
    (hstep : unseenStep s action = some s') : ChecksStand s' := by
  obtain ⟨rt', hrt, hs'⟩ := Machine.recording_some step Unseen.next hstep
  have hfirst : s'.1 = rt' := by rw [hs']
  refine ⟨by rw [hfirst]; exact leak_nonneg_step h.leak hrt, fun check hpast => ?_⟩
  rw [hfirst] at hpast
  by_cases hown : action = .settlementExpiry
  · subst hown
    cases step_cases hrt with
    | settlementStart hnone hpending => cases hpast
    | @settlementGoesOn pc hpc =>
      obtain ⟨pc', hnext, hpast'⟩ := (Option.any_eq_true _ _).mp hpast
      rcases settlementStep_past hnext hpast' with ⟨hbefore, hnot⟩ | ⟨⟨state, rfl⟩, hfound, hsame⟩
      · have hcheck : s.1.checks .settlementExpiry ≠ some check := by
          intro heq
          cases pc with
          | idle state other =>
            simp only [System.checks, hpc, Option.some.injEq] at heq
            exact hnot state (by rw [heq])
          | _ => simp [System.checks, hpc] at heq
        exact (h.stands check (by rw [hpc]; exact hbefore)).after hcheck hstep
      · exact hfound.stands h.leak (by simp [System.checks, hpc]) (by rw [hfirst]; simp [hsame])
          (by rw [hfirst]; simp [hsame]) hstep
  · rw [handler_of_other hrt hown] at hpast
    have hnone : s.1.checks action = none := by
      cases action with
      | settlementExpiry => exact absurd rfl hown
      | _ => rfl
    exact (h.stands check hpast).after (by rw [hnone]; simp) hstep

theorem checksStand_init : ChecksStand unseenInit :=
  ⟨by decide, fun check hpast => by cases hpast⟩

/-! ### The ways into sleep -/

/-- The settlement handler drops to sleep from its last step, past all checks. -/
theorem handler_of_drop {rt : System} (h : rt.transition .settlementExpiry = .dropToSleep) :
    ∃ state, rt.mgmt.handler = some (.act state) := by
  simp only [System.transition] at h
  split at h
  next state hpc => exact ⟨state, hpc⟩
  next => cases h

/-- Past all checks, what the handler has not seen decides. -/
theorem ChecksStand.drained_iff {s : System × Unseen} (h : ChecksStand s) {state : RuntimeState}
    (hact : s.1.mgmt.handler = some (.act state)) :
    Drained s.1 ↔
      (∀ i, s.2.slots i = true → (s.1.pool.workers i).pc.item? = none) ∧
      (s.2.userQueue = true → s.1.pool.runtimeMsgq.items = []) ∧
      (s.2.maintQueue = true → s.1.sysMaintMsgq.items = []) ∧
      ∀ item, s.1.maint ≠ .running item := by
  have hstands : ∀ check : IdlePc, check.Stands s := fun check =>
    h.stands check (by rw [hact]; rfl)
  constructor
  · rintro ⟨huser, hqueue, hworkers, hthread⟩
    exact ⟨fun i _ => hworkers i, fun _ => huser, fun _ => hqueue, hthread⟩
  · rintro ⟨hworkers, huser, hqueue, hthread⟩
    refine ⟨?_, ?_, fun i => ?_, hthread⟩
    · cases hseen : s.2.userQueue with
      | false => exact hstands .userQueue hseen
      | true => exact huser hseen
    · cases hseen : s.2.maintQueue with
      | false => exact hstands .maintQueue hseen
      | true => exact hqueue hseen
    · cases hseen : s.2.slots i with
      | false => exact hstands .activeCount i hseen
      | true => exact hworkers i hseen

theorem sleepsDrained_iff {s : System × Unseen} (h : ChecksStand s) (action : Action) :
    SleepsDrained s.1 action ↔ UncheckedClear s action := by
  have hguard := transition_guard s.1 action
  unfold SleepsDrained EndsEarly UncheckedClear
  cases ht : s.1.transition action with
  | curfewSleep caller =>
    simp only [ht, Transition.Guard] at hguard ⊢
    obtain ⟨hcount, hqueue⟩ := hasWork_eq_false.mp hguard.2.2
    simp only [← item_none_iff h.leak hcount]
    constructor
    · intro hdrained
      obtain ⟨-, hmaint, hworkers, hthread⟩ := hdrained trivial
      exact ⟨hworkers, hmaint, hthread⟩
    · rintro ⟨hworkers, hmaint, hthread⟩ -
      exact ⟨hqueue, hmaint, hworkers, hthread⟩
  | maintSleep =>
    simp only [ht, Transition.Guard] at hguard ⊢
    obtain ⟨-, hpc, hwork⟩ := hguard
    obtain ⟨hcount, hqueue⟩ := hasWork_eq_false.mp hwork
    simp only [← item_none_iff h.leak hcount]
    constructor
    · intro hdrained
      obtain ⟨-, hmaint, hworkers, -⟩ := hdrained trivial
      exact ⟨hworkers, hmaint⟩
    · rintro ⟨hworkers, hmaint⟩ -
      exact ⟨hqueue, hmaint, hworkers, fun item heq => by rw [hpc] at heq; cases heq⟩
  | dropToSleep =>
    refine forall_congr' fun haction => ?_
    subst haction
    obtain ⟨state, hact⟩ := handler_of_drop ht
    exact h.drained_iff hact
  | _ => exact iff_of_true (fun hearly => hearly.elim) trivial

/-- Along any run: the runtime never goes to sleep too early exactly when, at every step
into sleep, that holds which the way into it has not checked. -/
theorem sleepsDrained_iff_uncheckedClear (actions : List Action) :
    Machine.EachStep step SleepsDrained System.init actions ↔
      Machine.EachStep unseenStep UncheckedClear unseenInit actions := by
  rw [← Machine.eachStep_recording step Unseen.next unseenInit.2]
  constructor
  · exact Machine.EachStep.imp checksStand_init fun s action s' hstand h hstep =>
      ⟨checksStand_step hstand hstep, (sleepsDrained_iff hstand action).mp h⟩
  · exact Machine.EachStep.imp checksStand_init fun s action s' hstand h hstep =>
      ⟨checksStand_step hstand hstep, (sleepsDrained_iff hstand action).mpr h⟩

/-- The last hook has returned and the maintenance thread has seen its queue empty; a
worker takes the only item of user work. The count is still 0 and the queue is empty, and
the maintenance thread goes to sleep with the item in the worker's hands. -/
theorem sleep_with_item_in_transit :
    let item : WorkItem := ⟨.user, some .sendAppUpdate, 0, .fill maxWorkerArgPayload 0⟩
    let actions : List Action := List.flatten [[.setRuntimeState .backgroundActive [1]],
      List.replicate 160 .tick, [.totalWorkWindowExpiry, .maint, .maintHandlerReturns, .maint,
        .addUserWork item, .enqueueUserWork item, .worker 0]]
    ∃ rt rt', Machine.run step System.init actions = some rt ∧
      step rt .maint = some rt' ∧ rt'.fsm.currentState = .sleep ∧
      (rt.pool.workers 0).pc = .dequeued item ∧ EndsEarly rt .maint ∧
      ¬ Machine.EachStep step SleepsDrained System.init (actions ++ [.maint]) := by
  intro item actions
  have hrun : (Machine.run step System.init actions).map (fun rt =>
      ((rt.pool.workers 0).pc, rt.transition .maint,
        (step rt .maint).map fun rt' => rt'.fsm.currentState)) =
      some (.dequeued item, .maintSleep, some .sleep) := by
    decide +kernel
  obtain ⟨rt, hrt, hfacts⟩ := Option.map_eq_some_iff.mp hrun
  simp only [Prod.mk.injEq] at hfacts
  obtain ⟨hpc, ht, hnext⟩ := hfacts
  obtain ⟨rt', hrt', hsleep⟩ := Option.map_eq_some_iff.mp hnext
  have hearly : EndsEarly rt .maint := by
    rw [EndsEarly, ht]
    trivial
  refine ⟨rt, rt', hrt, hrt', hsleep, hpc, hearly, fun h => ?_⟩
  have hdrained := h actions .maint [] rt rt' rfl hrt hrt' hearly
  have hnone := hdrained.workers 0
  rw [hpc] at hnone
  cases hnone

end MinimalWatch.Runtime
