import MinimalWatch.Runtime.Accounting
import MinimalWatch.Runtime.Transitions

/-! Where accepted user work goes. A record beside the runtime keeps the items that
`add_user_work` has accepted, those handed to their handlers and those that the hard
shutdown has purged. `missing` is what is accepted and in none of these places, on the
queue or with a worker; a step changes it by the items it discards, and by nothing else. -/

namespace MinimalWatch.Runtime
open Firmware

/-- The item of a worker that has not yet called its handler. -/
def WorkerPc.uncalled? : WorkerPc → Option WorkItem
  | .dequeued item => some item
  | .admitted item => some item
  | .settled item => some item
  | .counted item => some item
  | .flagCleared item => some item
  | .calling item => some item
  | _ => none

structure WorkRecord where
  accepted : List WorkItem
  handed : List WorkItem
  purged : List WorkItem
  deriving DecidableEq, Repr

/-- An item is accepted when it comes to the queue, and handed over when its handler is
called; the hard shutdown purges what is queued. -/
def WorkRecord.next (rt : System) (action : Action) (rt' : System) (r : WorkRecord) :
    WorkRecord :=
  match action with
  | .enqueueUserWork _ =>
    { r with accepted := r.accepted ++
        rt'.pool.runtimeMsgq.items.drop rt.pool.runtimeMsgq.items.length }
  | .worker i =>
    match (rt.pool.workers i).pc with
    | .calling item => { r with handed := r.handed ++ [item] }
    | _ => r
  | .gracePeriodExpiry =>
    if rt.fsm.currentState = .gracePeriod then
      { r with purged := r.purged ++ rt.pool.runtimeMsgq.items }
    else r
  | _ => r

abbrev workStep : System × WorkRecord → Action → Option (System × WorkRecord) :=
  Machine.recording step WorkRecord.next

def workInit : System × WorkRecord := (.init, ⟨[], [], []⟩)

/-- How many workers hold an item and have not called its handler. -/
def System.heldBy (rt : System) (item : WorkItem) : Nat :=
  (Finset.univ.filter fun i => (rt.pool.workers i).pc.uncalled? = some item).card

/-- How often an item has been accepted beyond the places where it is or has gone. -/
def missing (s : System × WorkRecord) (item : WorkItem) : Int :=
  s.2.accepted.count item - (s.1.pool.runtimeMsgq.items.count item + s.1.heldBy item +
    s.2.handed.count item + s.2.purged.count item : Nat)

/-- Every item, as often as it has been accepted, is on the queue, with one worker that
has not called its handler, handed to its handler, or purged by the hard shutdown. -/
def Conserved (s : System × WorkRecord) : Prop :=
  ∀ item, s.2.accepted.count item = s.1.pool.runtimeMsgq.items.count item +
    s.1.heldBy item + s.2.handed.count item + s.2.purged.count item

/-- The items that a step throws away. -/
def System.discards (rt : System) : Action → List WorkItem
  | .worker i =>
    match (rt.pool.workers i).pc with
    | .dequeued item => if rt.fsm.currentState = .sleep then [item] else []
    | _ => []
  | .hardWdExpiry i => (rt.pool.workers i).pc.uncalled?.toList
  | action => if rt.transition action = .dropToSleep then rt.pool.runtimeMsgq.items else []

theorem conserved_iff_missing (s : System × WorkRecord) :
    Conserved s ↔ ∀ item, missing s item = 0 := by
  refine forall_congr' fun item => ?_
  unfold missing
  omega

/-! ### What workers hold -/

theorem heldBy_of_same {rt rt' : System}
    (h : ∀ i, (rt'.pool.workers i).pc.uncalled? = (rt.pool.workers i).pc.uncalled?)
    (item : WorkItem) : rt'.heldBy item = rt.heldBy item := by
  simp only [System.heldBy, h]

/-- One worker moves: what it held is held no more, what it has now is. -/
theorem heldBy_of_move {rt rt' : System} {i : Slot} {pc : WorkerPc}
    (hslot : (rt'.pool.workers i).pc = pc)
    (hothers : ∀ j, j ≠ i → (rt'.pool.workers j).pc = (rt.pool.workers j).pc) (item : WorkItem) :
    rt'.heldBy item + (rt.pool.workers i).pc.uncalled?.toList.count item =
      rt.heldBy item + pc.uncalled?.toList.count item := by
  have hcount : ∀ held : Option WorkItem,
      held.toList.count item = if held = some item then 1 else 0 := by
    rintro (_ | held)
    · rfl
    · by_cases hitem : held = item
      · simp [hitem]
      · simp [hitem]
  have hcard := @card_slots_of_move (fun j => (rt.pool.workers j).pc.uncalled? = some item)
    (fun j => (rt'.pool.workers j).pc.uncalled? = some item) _ _ i fun j hj => by rw [hothers j hj]
  simp only [hslot] at hcard
  rw [hcount, hcount]
  exact hcard

/-- The counter, the queue and the watchdog have no part in what workers hold. -/
theorem heldBy_congr {rt rt' : System} (h : rt'.pool.workers = rt.pool.workers)
    (item : WorkItem) : rt'.heldBy item = rt.heldBy item := by
  simp only [System.heldBy, h]

/-! ### One step -/

/-- A step of a worker takes the head of the queue or leaves the queue alone. -/
theorem missing_worker {rt rt' : System} {i : Slot} (h : WorkerMove rt i rt') (r : WorkRecord)
    (taken : List WorkItem)
    (hqueue : rt.pool.runtimeMsgq.items = taken ++ rt'.pool.runtimeMsgq.items)
    (hgoes : ∀ item, (rt.pool.workers i).pc.uncalled?.toList.count item + taken.count item =
      (rt'.pool.workers i).pc.uncalled?.toList.count item +
        (rt.discards (.worker i)).count item +
        ((r.next rt (.worker i) rt').handed.count item - r.handed.count item))
    (hhanded : r.handed <+: (r.next rt (.worker i) rt').handed)
    (haccepted : (r.next rt (.worker i) rt').accepted = r.accepted)
    (hpurged : (r.next rt (.worker i) rt').purged = r.purged) (item : WorkItem) :
    missing (rt', r.next rt (.worker i) rt') item =
      missing (rt, r) item + (rt.discards (.worker i)).count item := by
  have hheld := heldBy_of_move rfl (fun j hj => h.others hj) item
  have hcount := congrArg (List.count item) hqueue
  rw [List.count_append] at hcount
  have hle := hhanded.sublist.count_le item
  have hgo := hgoes item
  simp only [missing, haccepted, hpurged]
  omega

theorem missing_workerMove {rt rt' : System} {i : Slot} (h : WorkerMove rt i rt')
    (r : WorkRecord) (item : WorkItem) :
    missing (rt', r.next rt (.worker i) rt') item =
      missing (rt, r) item + (rt.discards (.worker i)).count item := by
  have hmove := missing_worker h r
  cases h with
  | @take taken q hpc hget =>
    refine hmove [taken] (MsgQueue.get_items hget) (fun x => ?_) ?_ ?_ ?_ item
    · simp [hpc, WorkerPc.uncalled?, System.discards, WorkRecord.next, WorkerPool.setPc]
    all_goals simp [WorkRecord.next, hpc]
  | discard hpc hstate =>
    refine hmove [] rfl (fun x => ?_) ?_ ?_ ?_ item
    · simp [hpc, hstate, WorkerPc.uncalled?, System.discards, WorkRecord.next,
        System.setWorkerPc, WorkerPool.setPc]
    all_goals simp [WorkRecord.next, hpc]
  | goOn hpc hstate =>
    refine hmove [] rfl (fun x => ?_) ?_ ?_ ?_ item
    · simp [hpc, hstate, WorkerPc.uncalled?, System.discards, WorkRecord.next,
        System.setWorkerPc, WorkerPool.setPc]
    all_goals simp [WorkRecord.next, hpc]
  | @curfew pc hpc =>
    refine hmove [] ?_ (fun x => ?_) ?_ ?_ ?_ item
    · rw [← (curfewStep_spares rt (some i) pc).2]
      rfl
    · cases (curfewStep rt (some i) pc).2 <;>
        simp [hpc, WorkerPc.uncalled?, System.discards, WorkRecord.next, System.setWorkerPc,
          WorkerPool.setPc]
    all_goals simp [WorkRecord.next, hpc]
  | _ hpc =>
    refine hmove [] rfl (fun x => ?_) ?_ ?_ ?_ item
    · simp [hpc, WorkerPc.uncalled?, System.discards, WorkRecord.next, System.setWorkerPc,
        WorkerPool.setPc]
    all_goals simp [WorkRecord.next, hpc]

/-- The queue takes an item as accepted, or is full and stays as it is. -/
theorem missing_enqueue (rt : System) (r : WorkRecord) (new item : WorkItem) :
    missing (enqueueUserWork rt new,
        r.next rt (.enqueueUserWork new) (enqueueUserWork rt new)) item =
      missing (rt, r) item := by
  have hheld : (enqueueUserWork rt new).heldBy item = rt.heldBy item := by
    refine heldBy_congr ?_ item
    unfold enqueueUserWork WorkerPool.enqueueUserItem
    cases rt.pool.runtimeMsgq.put { new with type := .user } <;> rfl
  have hqueue : (enqueueUserWork rt new).pool.runtimeMsgq.items =
      rt.pool.runtimeMsgq.items ++
        (enqueueUserWork rt new).pool.runtimeMsgq.items.drop rt.pool.runtimeMsgq.items.length := by
    unfold enqueueUserWork WorkerPool.enqueueUserItem
    cases hput : rt.pool.runtimeMsgq.put { new with type := .user } with
    | none => simp
    | some q => simp [MsgQueue.put_items hput]
  have hcount := congrArg (List.count item) hqueue
  rw [List.count_append] at hcount
  simp only [missing, WorkRecord.next, List.count_append, hheld]
  omega

theorem curfewTransition_ne_graceExpired (rt : System) (caller : Option Slot) :
    curfewTransition rt caller ≠ .graceExpired := by
  unfold curfewTransition
  split_ifs <;> simp

theorem setStateTransition_ne_graceExpired (rt : System) (target : RuntimeState)
    (hooks : List CurfewHook) : setStateTransition rt target hooks ≠ .graceExpired := by
  unfold setStateTransition
  split_ifs
  · simp
  · cases target <;> simp

theorem transition_ne_graceExpired (rt : System) {action : Action}
    (h : action ≠ .gracePeriodExpiry) : rt.transition action ≠ .graceExpired := by
  have hbranch := transition_branch rt action
  generalize rt.transition action = t at hbranch ⊢
  cases hbranch with
  | setState target hooks => exact setStateTransition_ne_graceExpired rt target hooks
  | curfew caller => exact curfewTransition_ne_graceExpired rt caller
  | graceExpired haction hgrace => exact absurd haction h
  | _ => exact nofun

/-- Only the drop to sleep and the hard shutdown purge the queue. -/
theorem Transition.purges_eq {t : Transition} (h : t ≠ .graceExpired) :
    t.purges = decide (t = .dropToSleep) := by
  cases t with
  | graceExpired => exact absurd rfl h
  | _ => rfl

/-- A step of the rest: workers keep what they hold, and what a drop to sleep or the hard
shutdown finds on the queue is gone. -/
theorem missing_other {rt rt' : System} {action : Action} (r : WorkRecord)
    (hstep : step rt action = some rt') (henqueue : ∀ item, action ≠ .enqueueUserWork item)
    (hworker : ∀ i, action ≠ .worker i) (hstrike : ∀ i, action ≠ .hardWdExpiry i)
    (item : WorkItem) :
    missing (rt', r.next rt action rt') item =
      missing (rt, r) item + (rt.discards action).count item := by
  have hheld : rt'.heldBy item = rt.heldBy item := by
    refine heldBy_of_same (fun i => ?_) item
    cases step_move hstep with
    | keeps hkeeps hnot => rw [hkeeps.pcs i]
    | worker hrunnable hmove => exact absurd rfl (hworker _)
    | @returns j called hpc =>
      by_cases hij : i = j
      · subst hij
        rw [hpc]
        simp [System.setWorkerPc, WorkerPool.setPc, WorkerPc.uncalled?]
      · simp [System.setWorkerPc, WorkerPool.setPc, hij]
    | submit hstate => rfl
    | enqueue hmem => exact absurd rfl (henqueue _)
    | abort hdue => exact absurd rfl (hstrike _)
  have hqueue := (step_effect hstep).userQueue henqueue hworker
  have hguard := transition_guard rt action
  cases action with
  | enqueueUserWork new => exact absurd rfl (henqueue new)
  | worker i => exact absurd rfl (hworker i)
  | hardWdExpiry i => exact absurd rfl (hstrike i)
  | gracePeriodExpiry =>
    by_cases hgrace : rt.fsm.currentState = .gracePeriod
    · have ht : rt.transition .gracePeriodExpiry = .graceExpired := by
        simp [System.transition, hgrace]
      rw [ht] at hqueue
      simp only [missing, WorkRecord.next, System.discards, ht, hgrace, hqueue, hheld,
        Transition.purges, if_true, List.count_append, reduceCtorEq, if_false, List.count_nil]
      omega
    · have ht : rt.transition .gracePeriodExpiry = .stay := by
        simp [System.transition, hgrace]
      rw [ht] at hqueue
      simp [missing, WorkRecord.next, System.discards, ht, hgrace, hqueue, hheld,
        Transition.purges]
  | _ =>
    rw [Transition.purges_eq (transition_ne_graceExpired rt (by simp))] at hqueue
    simp only [decide_eq_true_eq] at hqueue
    simp only [missing, WorkRecord.next, System.discards, hqueue, hheld]
    split_ifs
    · rw [List.count_nil]
      omega
    · rw [List.count_nil]
      omega

theorem missing_step {s s' : System × WorkRecord} {action : Action}
    (hstep : workStep s action = some s') (item : WorkItem) :
    missing s' item = missing s item + (s.1.discards action).count item := by
  obtain ⟨rt, r⟩ := s
  obtain ⟨rt', hrt, rfl⟩ := Machine.recording_some step WorkRecord.next hstep
  cases action with
  | worker i => exact missing_workerMove (workerStep_move hrt).2 r item
  | enqueueUserWork new =>
    obtain ⟨-, hput⟩ := Option.ite_none_right_eq_some.mp hrt
    rw [← Option.some.inj hput, missing_enqueue rt r new item]
    simp [System.discards, System.transition]
  | hardWdExpiry i =>
    obtain ⟨-, hnew⟩ := Option.ite_none_right_eq_some.mp hrt
    have hheld := @heldBy_of_move rt rt' i .waiting
      (by rw [← Option.some.inj hnew]; simp [WorkerPool.recoverStalledRunner])
      (fun j hj => by
        rw [← Option.some.inj hnew]
        simp [WorkerPool.recoverStalledRunner, hj]) item
    have hqueue : rt'.pool.runtimeMsgq = rt.pool.runtimeMsgq := by
      rw [← Option.some.inj hnew]
      rfl
    have hnone : WorkerPc.waiting.uncalled?.toList.count item = 0 := rfl
    rw [hnone] at hheld
    simp only [missing, WorkRecord.next, System.discards, hqueue]
    omega
  | _ => exact missing_other r hrt (by simp) (by simp) (by simp) item

/-! ### The claim of the record -/

theorem conserved_init : Conserved workInit := by
  intro item
  have hheld : System.init.heldBy item = 0 := by
    rw [System.heldBy, Finset.card_eq_zero, Finset.filter_eq_empty_iff]
    intro i _ hi
    cases hi
  change List.count item [] =
    List.count item [] + System.init.heldBy item + List.count item [] + List.count item []
  rw [hheld]
  rfl

/-- Along any run, all accepted work is accounted for exactly when no step throws an item
away: no worker finds the runtime asleep with an item it has taken, the hard watchdog
strikes no worker that has not called its handler, and the queue is empty when the runtime
is dropped to sleep. -/
theorem conserved_iff (actions : List Action) :
    Machine.Always workStep Conserved workInit actions ↔
      Machine.EachStep workStep (fun s action => s.1.discards action = []) workInit actions := by
  refine Machine.always_iff_eachStep conserved_init (fun _ h => h)
    (fun s action s' h hnone hstep => ?_) (fun s action s' h hsome hstep h' => ?_)
  · rw [conserved_iff_missing] at h ⊢
    intro item
    rw [missing_step hstep, h item, hnone]
    rfl
  · rw [conserved_iff_missing] at h h'
    obtain ⟨item, hitem⟩ := List.exists_mem_of_ne_nil _ hsome
    have hpos := List.count_pos_iff.mpr hitem
    have hmissing := missing_step hstep item
    rw [h item, h' item] at hmissing
    omega

/-- A task of the grace period outlasts it. A second caller of `add_user_work` has found the
runtime awake just before the hard shutdown and queues its item after it; asleep, the
watchdog makes a new thread for the first task's slot, which takes the item, finds the
runtime asleep and drops it. -/
theorem accepted_item_dropped :
    let first : WorkItem := ⟨.user, some .sendAppUpdate, 1, .fill maxWorkerArgPayload 0⟩
    let second : WorkItem := ⟨.user, some .sendAppUpdate, 2, .fill maxWorkerArgPayload 0⟩
    let actions : List Action := List.flatten [[.setRuntimeState .backgroundActive [1]],
      List.replicate 160 .tick, [.totalWorkWindowExpiry], List.replicate 680 .tick,
      [.addUserWork first, .enqueueUserWork first], List.replicate 7 (.worker 0),
      List.replicate 20 .tick,
      [.addUserWork second, .gracePeriodExpiry, .enqueueUserWork second],
      List.replicate 10 .tick, [.softWdExpiry 0], List.replicate 10 .tick,
      [.hardWdExpiry 0, .worker 0, .worker 0]]
    ∃ s, Machine.run workStep workInit actions = some s ∧ s.2 = ⟨[first, second], [first], []⟩ ∧
      s.1.pool.runtimeMsgq.items = [] ∧ s.1.heldBy second = 0 ∧ ¬ Conserved s := by
  intro first second actions
  have hrun : (Machine.run workStep workInit actions).map (fun s =>
      (s.2, s.1.pool.runtimeMsgq.items, decide (s.1.heldBy second = 0))) =
      some (⟨[first, second], [first], []⟩, [], true) := by
    decide +kernel
  obtain ⟨s, hs, hfacts⟩ := Option.map_eq_some_iff.mp hrun
  simp only [Prod.mk.injEq, decide_eq_true_eq] at hfacts
  obtain ⟨hrecord, hnil, hheld⟩ := hfacts
  refine ⟨s, hs, hrecord, hnil, hheld, fun h => ?_⟩
  have hsecond := h second
  rw [hrecord, hnil, hheld] at hsecond
  have hne : first ≠ second := by
    intro heq
    cases congrArg WorkItem.arg1 heq
  simp [hne] at hsecond

end MinimalWatch.Runtime
