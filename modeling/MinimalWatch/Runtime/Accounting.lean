import MinimalWatch.Lib.Machine
import MinimalWatch.Runtime.Moves
import Mathlib.Algebra.BigOperators.Ring.Finset

/-! The count of busy workers. `leak` is what the counter says beyond the slots that are
between their increment and their decrement. No step changes it but one: the hard
watchdog on a counted slot, whose new thread never makes the decrement. -/

namespace MinimalWatch.Runtime
open Firmware

/-- Between `atomic_inc` and `atomic_dec` on an item. -/
def WorkerPc.isCounted : WorkerPc → Bool
  | .counted _ => true
  | .flagCleared _ => true
  | .calling _ => true
  | .running _ => true
  | .returned _ => true
  | .softStopped _ => true
  | .hardStopped _ => true
  | .unwatched _ => true
  | _ => false

/-- Counting slots by a property, when one slot has changed. -/
theorem card_slots_of_move {p p' : Slot → Prop} [DecidablePred p] [DecidablePred p'] (i : Slot)
    (hothers : ∀ j, j ≠ i → (p' j ↔ p j)) :
    (Finset.univ.filter p').card + (if p i then 1 else 0) =
      (Finset.univ.filter p).card + if p' i then 1 else 0 := by
  have hrest : ∑ j ∈ Finset.univ.erase i, (if p' j then 1 else 0) =
      ∑ j ∈ Finset.univ.erase i, if p j then 1 else 0 :=
    Finset.sum_congr rfl fun j hj => by simp only [hothers j (Finset.ne_of_mem_erase hj)]
  have hp := Finset.add_sum_erase Finset.univ (fun j => if p j then 1 else 0) (Finset.mem_univ i)
  have hp' := Finset.add_sum_erase Finset.univ (fun j => if p' j then 1 else 0)
    (Finset.mem_univ i)
  rw [Finset.card_filter, Finset.card_filter]
  omega

namespace WorkerPool

def countedSlots (p : WorkerPool) : Finset Slot :=
  Finset.univ.filter fun i => (p.workers i).pc.isCounted

def leak (p : WorkerPool) : Int := p.activeWorkerCount - p.countedSlots.card

def share (pc : WorkerPc) : Int := if pc.isCounted then 1 else 0

/-- One slot moves, the others stay. -/
theorem card_countedSlots_of_move {p p' : WorkerPool} {i : Slot} {pc : WorkerPc}
    (hslot : (p'.workers i).pc = pc) (hothers : ∀ j, j ≠ i → (p'.workers j).pc = (p.workers j).pc) :
    (p'.countedSlots.card : Int) =
      p.countedSlots.card - share (p.workers i).pc + share pc := by
  have hcard := @card_slots_of_move (fun j => (p.workers j).pc.isCounted = true)
    (fun j => (p'.workers j).pc.isCounted = true) _ _ i fun j hj => by rw [hothers j hj]
  simp only [hslot] at hcard
  simp only [countedSlots, share]
  split_ifs at hcard ⊢ <;> omega

theorem leak_of_move {p p' : WorkerPool} {i : Slot} {pc : WorkerPc}
    (hslot : (p'.workers i).pc = pc) (hothers : ∀ j, j ≠ i → (p'.workers j).pc = (p.workers j).pc) :
    p'.leak = p.leak + (p'.activeWorkerCount - p.activeWorkerCount) +
      (share (p.workers i).pc - share pc) := by
  have hcard := card_countedSlots_of_move hslot hothers
  simp only [leak]
  omega

theorem leak_setPc (p : WorkerPool) (q : MsgQueue WorkItem runtimeMsgqSize) (count : Int)
    (i : Slot) (pc : WorkerPc) :
    ({ p with runtimeMsgq := q, activeWorkerCount := count }.setPc i pc).leak =
      p.leak + (count - p.activeWorkerCount) + (share (p.workers i).pc - share pc) :=
  leak_of_move (by simp [setPc]) fun j hj => by simp [setPc, hj]

/-- A new thread in a slot gives back what the old one had taken only in the count of
slots. -/
theorem leak_recover (p : WorkerPool) (i : Slot) :
    (p.recoverStalledRunner i).leak = p.leak + share (p.workers i).pc := by
  have hmove := @leak_of_move p (p.recoverStalledRunner i) i .waiting
    (by simp [recoverStalledRunner]) (fun j hj => by simp [recoverStalledRunner, hj])
  simpa [recoverStalledRunner, share, WorkerPc.isCounted] using hmove

theorem leak_of_same {p p' : WorkerPool} (hcount : p'.activeWorkerCount = p.activeWorkerCount)
    (hpcs : ∀ i, (p'.workers i).pc = (p.workers i).pc) : p'.leak = p.leak := by
  have hslots : p'.countedSlots = p.countedSlots := by
    simp only [countedSlots, hpcs]
  rw [leak, leak, hcount, hslots]

theorem leak_enqueue (p : WorkerPool) (item : WorkItem) :
    ((p.enqueueUserItem item).getD p).leak = p.leak := by
  unfold enqueueUserItem
  cases p.runtimeMsgq.put { item with type := .user } <;> rfl

end WorkerPool

open WorkerPool

/-! ### The steps of the system -/

theorem KeepsWork.leak {rt rt' : System} (h : KeepsWork rt rt') :
    rt'.pool.leak = rt.pool.leak := leak_of_same h.count h.pcs

theorem share_idle {pc : WorkerPc} (h : pc.isCounted = false) : share pc = 0 := by
  simp [share, h]

theorem share_busy {pc : WorkerPc} (h : pc.isCounted = true) : share pc = 1 := by
  simp [share, h]

/-- A worker changes the counter exactly when it starts or ceases to be counted. -/
theorem WorkerMove.leak {rt rt' : System} {i : Slot} (h : WorkerMove rt i rt') :
    rt'.pool.leak = rt.pool.leak := by
  have hmove : ∀ q pc, (rt.pool.workers i).pc.isCounted = pc.isCounted →
      ({ rt.pool with runtimeMsgq := q }.setPc i pc).leak = rt.pool.leak := by
    intro q pc hpc
    refine (leak_setPc rt.pool q rt.pool.activeWorkerCount i pc).trans ?_
    simp only [share, hpc]
    omega
  cases h with
  | @count item hpc =>
    refine (leak_setPc rt.pool rt.pool.runtimeMsgq (rt.pool.activeWorkerCount + 1) i
      (.counted item)).trans ?_
    rw [hpc, share_idle rfl, share_busy rfl]
    omega
  | uncount hpc =>
    refine (leak_setPc rt.pool rt.pool.runtimeMsgq (rt.pool.activeWorkerCount - 1) i
      .uncounted).trans ?_
    rw [hpc, share_busy rfl, share_idle rfl]
    omega
  | @curfew pc hpc =>
    have hkeeps := curfewStep_keeps rt (some i) pc
    have hnext : share ((curfewStep rt (some i) pc).2.elim .waiting .evaluating) = 0 := by
      cases (curfewStep rt (some i) pc).2 <;> exact share_idle rfl
    refine (leak_setPc _ _ _ i _).trans ?_
    rw [hkeeps.leak, hkeeps.pcs, hpc, hnext, share_idle rfl]
    omega
  | _ hpc =>
    refine hmove _ _ ?_
    rw [hpc]
    rfl

/-- The hard watchdog strikes a slot that is counted. -/
def AbortsCounted (rt : System) : Action → Prop
  | .hardWdExpiry i => (rt.pool.workers i).pc.isCounted = true
  | _ => False

instance (rt : System) (action : Action) : Decidable (AbortsCounted rt action) :=
  match action with
  | .hardWdExpiry i => inferInstanceAs (Decidable ((rt.pool.workers i).pc.isCounted = true))
  | .tick | .setRuntimeState .. | .demoteToCurfew | .addUserWork _ | .enqueueUserWork _
  | .addSystemWork _ | .totalWorkWindowExpiry | .gracePeriodExpiry | .settlementExpiry
  | .softWdExpiry _ | .worker _ | .handlerReturns _ | .maint | .maintHandlerReturns =>
    inferInstanceAs (Decidable False)

/-- Every abort of a counted slot leaves the counter one too high, for good. -/
theorem step_leak {rt rt' : System} {action : Action} (h : step rt action = some rt') :
    rt'.pool.leak = rt.pool.leak + if AbortsCounted rt action then 1 else 0 := by
  cases step_move h with
  | keeps hkeeps hnot =>
    have hspare : ¬ AbortsCounted rt action := by
      cases action with
      | hardWdExpiry i => exact absurd rfl (hnot i)
      | _ => exact id
    rw [hkeeps.leak, if_neg hspare, Int.add_zero]
  | worker hrunnable hmove => exact hmove.leak.trans (Int.add_zero _).symm
  | @returns i item hpc =>
    refine (leak_setPc rt.pool rt.pool.runtimeMsgq rt.pool.activeWorkerCount i
      (.returned item)).trans ?_
    rw [hpc, share_busy rfl, share_busy rfl]
    simp [AbortsCounted]
  | submit hstate => exact (Int.add_zero _).symm
  | @enqueue item hmem => exact (leak_enqueue rt.pool item).trans (Int.add_zero _).symm
  | @abort i hdue => exact leak_recover rt.pool i

/-! ### The claim of the counter -/

/-- The counter is the number of counted slots; so with every slot waiting and nothing
queued the pool has no work. -/
structure Accounted (rt : System) : Prop where
  count : rt.pool.activeWorkerCount = rt.pool.countedSlots.card
  idle : (∀ i, (rt.pool.workers i).pc = .waiting) → rt.pool.runtimeMsgq.items = [] →
    rt.pool.hasWork = false

theorem accounted_of_leak {rt : System} (h : rt.pool.leak = 0) : Accounted rt := by
  have hcount : rt.pool.activeWorkerCount = rt.pool.countedSlots.card := by
    rw [WorkerPool.leak] at h
    omega
  refine ⟨hcount, fun hwaiting hnil => ?_⟩
  have hnone : rt.pool.countedSlots = ∅ := by
    rw [countedSlots, Finset.filter_eq_empty_iff]
    intro i _
    rw [hwaiting i]
    exact Bool.false_ne_true
  simp [WorkerPool.hasWork, hcount, hnone, MsgQueue.numUsed, hnil]

theorem leak_of_accounted {rt : System} (h : Accounted rt) : rt.pool.leak = 0 := by
  rw [WorkerPool.leak, h.count, Int.sub_self]

/-- Along any run the counter is right at all times exactly when the hard watchdog never
strikes a counted slot. -/
theorem accounted_iff (actions : List Action) :
    Machine.Always step Accounted System.init actions ↔
      Machine.EachStep step (fun rt action => ¬ AbortsCounted rt action) System.init
        actions := by
  have hinit : System.init.pool.leak = 0 := by decide
  refine Machine.always_iff_eachStep (accounted_of_leak hinit) (fun _ h => h)
    (fun rt action rt' h hspare hstep => accounted_of_leak ?_)
    (fun rt action rt' h hstrike hstep h' => ?_)
  · rw [step_leak hstep, leak_of_accounted h, if_neg hspare]
    rfl
  · have hleak := step_leak hstep
    rw [leak_of_accounted h, leak_of_accounted h', if_pos (not_not.mp hstrike)] at hleak
    omega

/-- One user task that does not return: the watchdog's two deadlines pass, the slot gets a
new thread, and the counter stays at 1 with every slot waiting. -/
theorem hard_watchdog_leaks :
    let item : WorkItem := ⟨.user, some .sendAppUpdate, 0, .fill maxWorkerArgPayload 0⟩
    let actions := [.setRuntimeState .backgroundActive [], .addUserWork item,
        .enqueueUserWork item] ++ List.replicate 7 (.worker 0) ++ List.replicate 30 .tick ++
      [.softWdExpiry 0] ++ List.replicate 10 .tick ++ [.hardWdExpiry 0]
    ∃ rt, Machine.run step System.init actions = some rt ∧
      (∀ i, (rt.pool.workers i).pc = .waiting) ∧ rt.pool.runtimeMsgq.items = [] ∧
      rt.pool.activeWorkerCount = 1 ∧ rt.pool.hasWork = true ∧ ¬ Accounted rt := by
  intro item actions
  have hrun : (Machine.run step System.init actions).map (fun rt =>
      (decide (∀ i, (rt.pool.workers i).pc = .waiting), rt.pool.runtimeMsgq.items,
        rt.pool.activeWorkerCount, rt.pool.hasWork)) = some (true, [], 1, true) := by
    decide +kernel
  obtain ⟨rt, hrt, hfacts⟩ := Option.map_eq_some_iff.mp hrun
  simp only [Prod.mk.injEq, decide_eq_true_eq] at hfacts
  obtain ⟨hwaiting, hnil, hcount, hwork⟩ := hfacts
  refine ⟨rt, hrt, hwaiting, hnil, hcount, hwork, fun h => ?_⟩
  rw [h.idle hwaiting hnil] at hwork
  cases hwork

end MinimalWatch.Runtime
