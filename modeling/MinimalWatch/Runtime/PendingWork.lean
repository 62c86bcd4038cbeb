import MinimalWatch.Runtime.Moves

/-! User work that has not come to its end: on the queue, with a worker, or with a caller
of `add_user_work`. Nothing but that call brings an item in. -/

namespace MinimalWatch.Runtime
open Firmware

/-- The item of a worker that has not come back from its handler. -/
def WorkerPc.item? : WorkerPc → Option WorkItem
  | .dequeued item => some item
  | .admitted item => some item
  | .settled item => some item
  | .counted item => some item
  | .flagCleared item => some item
  | .calling item => some item
  | .running item => some item
  | _ => none

/-- The items on the queue and with the workers. -/
def System.pending (rt : System) : List WorkItem :=
  rt.pool.runtimeMsgq.items ++
    (List.finRange workerPoolSize).filterMap fun i => (rt.pool.workers i).pc.item?

theorem System.mem_pending {rt : System} {item : WorkItem} :
    item ∈ rt.pending ↔ item ∈ rt.pool.runtimeMsgq.items ∨
      ∃ i, (rt.pool.workers i).pc.item? = some item := by
  simp [System.pending]

/-- Pending, or in the hands of a caller of `add_user_work`. -/
def System.Holds (rt : System) (item : WorkItem) : Prop :=
  item ∈ rt.userCallers ∨ item ∈ rt.pending

theorem KeepsWork.holds {rt rt' : System} (h : KeepsWork rt rt') {item : WorkItem}
    (hitem : rt'.Holds item) : rt.Holds item := by
  rcases hitem with hcaller | hpending
  · exact Or.inl (h.callers ▸ hcaller)
  · right
    rw [System.mem_pending] at hpending ⊢
    rcases hpending with hqueue | ⟨i, hi⟩
    · rcases h.queue with hsame | hnil
      · exact Or.inl (hsame ▸ hqueue)
      · rw [hnil] at hqueue
        cases hqueue
    · exact Or.inr ⟨i, by rw [← h.pcs i, hi]⟩

/-- A worker that moves on, in a pool whose queue has lost at most what that worker now
has, holds nothing new. -/
theorem holds_setPc {rt rt' : System} {item : WorkItem} (i : Slot) (pc : WorkerPc)
    (hitem : rt'.Holds item) (hcallers : rt'.userCallers = rt.userCallers)
    (hqueue : ∀ x ∈ rt'.pool.runtimeMsgq.items, x ∈ rt.pool.runtimeMsgq.items)
    (hworkers : ∀ j, j ≠ i → (rt'.pool.workers j).pc = (rt.pool.workers j).pc)
    (hpc : (rt'.pool.workers i).pc = pc)
    (hnew : ∀ x, pc.item? = some x → x ∈ rt.pending) : rt.Holds item := by
  rcases hitem with hcaller | hpending
  · exact Or.inl (hcallers ▸ hcaller)
  · right
    rcases System.mem_pending.mp hpending with hin | ⟨j, hj⟩
    · exact System.mem_pending.mpr (Or.inl (hqueue item hin))
    · by_cases hji : j = i
      · subst hji
        exact hnew item (hpc ▸ hj)
      · exact System.mem_pending.mpr (Or.inr ⟨j, hworkers j hji ▸ hj⟩)

theorem holds_setWorkerPc {rt : System} {i : Slot} {pc : WorkerPc} {item : WorkItem}
    (hpc : ∀ x, pc.item? = some x → (rt.pool.workers i).pc.item? = some x)
    (hitem : (rt.setWorkerPc i pc).Holds item) : rt.Holds item :=
  holds_setPc i pc hitem rfl (fun _ hx => hx)
    (fun j hj => by simp [System.setWorkerPc, WorkerPool.setPc, hj])
    (by simp [System.setWorkerPc, WorkerPool.setPc])
    (fun x hx => System.mem_pending.mpr (Or.inr ⟨i, hpc x hx⟩))

theorem WorkerMove.holds {rt rt' : System} {i : Slot} (h : WorkerMove rt i rt')
    {item : WorkItem} (hitem : rt'.Holds item) : rt.Holds item := by
  cases h with
  | @take taken q hpc hget =>
    have hitems := MsgQueue.get_items hget
    refine holds_setPc i (.dequeued taken) hitem rfl (fun x hx => ?_)
      (fun j hj => by simp [WorkerPool.setPc, hj]) (by simp [WorkerPool.setPc])
      (fun x hx => ?_)
    · rw [hitems]
      exact List.mem_cons_of_mem _ hx
    · rw [← Option.some.inj hx]
      refine System.mem_pending.mpr (Or.inl ?_)
      rw [hitems]
      exact List.mem_cons_self
  | @curfew pc hpc =>
    refine (curfewStep_keeps rt (some i) pc).holds (holds_setWorkerPc (fun held hheld => ?_) hitem)
    cases hnext : (curfewStep rt (some i) pc).2 <;> rw [hnext] at hheld <;> cases hheld
  | _ hpc =>
    refine holds_setWorkerPc (fun held hheld => ?_) hitem
    rw [hpc]
    first
    | exact hheld
    | cases hheld

theorem addUserWork_pending (rt : System) (item : WorkItem) :
    ((addUserWork rt item).getD rt).pending = rt.pending := by
  unfold addUserWork
  split_ifs <;> rfl

theorem addUserWork_holds {rt : System} {new item : WorkItem}
    (hitem : ((addUserWork rt new).getD rt).Holds item) : rt.Holds item ∨ item = new := by
  rcases hitem with hcaller | hpending
  · unfold addUserWork at hcaller
    split_ifs at hcaller
    · exact Or.inl (Or.inl hcaller)
    · exact Or.inl (Or.inl hcaller)
    · rcases List.mem_append.mp hcaller with hold | hnew
      · exact Or.inl (Or.inl hold)
      · exact Or.inr (List.mem_singleton.mp hnew)
  · rw [addUserWork_pending] at hpending
    exact Or.inl (Or.inr hpending)

/-- Only a caller brings user work in; what is held came in before, up to the type that
the queue puts on it. -/
theorem step_holds {rt rt' : System} {action : Action} (h : step rt action = some rt')
    (hnot : ∀ item, action ≠ .addUserWork item) {item : WorkItem} (hitem : rt'.Holds item) :
    ∃ held, rt.Holds held ∧ item = { held with type := item.type } := by
  cases step_move h with
  | keeps hkeeps => exact ⟨item, hkeeps.holds hitem, rfl⟩
  | worker hrunnable hmove => exact ⟨item, hmove.holds hitem, rfl⟩
  | returns hpc => exact ⟨item, holds_setWorkerPc (fun held hheld => by cases hheld) hitem, rfl⟩
  | submit hstate => exact absurd rfl (hnot _)
  | @enqueue put hmem =>
    rcases hitem with hcaller | hpending
    · exact ⟨item, Or.inl (List.mem_of_mem_erase hcaller), rfl⟩
    · rw [System.mem_pending] at hpending
      cases hput : rt.pool.runtimeMsgq.put { put with type := .user } with
      | none =>
        simp only [enqueueUserWork, WorkerPool.enqueueUserItem, hput, Option.map_none,
          Option.getD_none] at hpending
        exact ⟨item, Or.inr (System.mem_pending.mpr hpending), rfl⟩
      | some q =>
        simp only [enqueueUserWork, WorkerPool.enqueueUserItem, hput, Option.map_some,
          Option.getD_some, MsgQueue.put_items hput, List.mem_append, List.mem_singleton]
          at hpending
        rcases hpending with (hqueue | rfl) | hworker
        · exact ⟨item, Or.inr (System.mem_pending.mpr (Or.inl hqueue)), rfl⟩
        · exact ⟨put, Or.inl hmem, rfl⟩
        · exact ⟨item, Or.inr (System.mem_pending.mpr (Or.inr hworker)), rfl⟩
  | @abort i hdue =>
    exact ⟨item, holds_setPc i .waiting hitem rfl (fun _ hx => hx)
      (fun j hj => by simp [WorkerPool.recoverStalledRunner, hj])
      (by simp [WorkerPool.recoverStalledRunner]) (fun x hx => by cases hx), rfl⟩

end MinimalWatch.Runtime
