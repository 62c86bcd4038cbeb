import MinimalWatch.App.Update
import MinimalWatch.Lib.AddressSpace
import MinimalWatch.Lib.Machine
import MinimalWatch.Runtime.PendingWork

/-! Application updates on their way to the worker that hands them over. `handle_event`
copies an update into a work item in its own stack frame and lets the item's `arg1`
point there. The queue copies the item on; the storage that `arg1` points to stays
behind and is free for other use when the call has returned. -/

namespace MinimalWatch.App
open Firmware Firmware.Memory Firmware.AddressSpace MinimalWatch.Runtime

/-! ### EVENT_APP_WORK_SCHEDULE -/

/-- `app_work.arg_payload` with the update copied to its start. -/
def argPayload (update : AppUpdate) : Buffer UInt8 maxWorkerArgPayload :=
  (Buffer.fill maxWorkerArgPayload 0).blit 0 update.toBytes

/-- `app_work` in a frame that has its `arg_payload` at the address `payload`. -/
def appWork (payload : Nat) (update : AppUpdate) : WorkItem :=
  ⟨.system, some .sendAppUpdate, payload, argPayload update⟩

@[simp] theorem ofBytes_argPayload (update : AppUpdate) :
    AppUpdate.ofBytes (argPayload update).cells = update := by
  have hcells : (argPayload update).cells = update.toBytes := by
    have hlen : update.toBytes.length = maxWorkerArgPayload := update.toBytes_length
    rw [← Buffer.take_blit_zero hlen (Nat.le_refl _),
      List.take_of_length_le (Nat.le_of_eq (Buffer.length_eq _))]
    rfl
  rw [hcells, AppUpdate.ofBytes_toBytes]

/-- The `app_update_t` that a pointer gives. -/
def updateAt (memory : Memory) (addr : Nat) : AppUpdate :=
  .ofBytes (readBytes memory addr sizeofAppUpdate)

/-- What `send_app_update` has read, and the item it was called for. -/
structure Delivery where
  item : WorkItem
  update : AppUpdate
  deriving DecidableEq, Repr

/-- The runtime with the memory that its threads share, the events handled so far and
the deliveries so far. -/
structure AppRun where
  sys : System
  memory : Memory
  scheduled : List (Nat × AppUpdate)
  delivered : List Delivery

def AppRun.init (memory : Memory) : AppRun := ⟨.init, memory, [], []⟩

namespace AppRun

/-- The branch of `handle_event`; the check of the size is the source's. -/
def handleAppWorkSchedule (s : AppRun) (payload : Nat) (update : AppUpdate) : AppRun :=
  if sizeofAppUpdate ≤ maxWorkerArgPayload then
    { s with
      sys := (addUserWork s.sys (appWork payload update)).getD s.sys
      memory := writeBytes s.memory payload (argPayload update).cells
      scheduled := s.scheduled ++ [(payload, update)] }
  else s

/-- The bytes are not in the frame of a call of `handle_event` that goes on. -/
def Unowned (s : AppRun) (addr n : Nat) : Prop :=
  ∀ item ∈ s.sys.userCallers, Apart addr n item.arg1 maxWorkerArgPayload

instance (s : AppRun) (addr n : Nat) : Decidable (s.Unowned addr n) :=
  inferInstanceAs (Decidable (∀ item ∈ s.sys.userCallers, _))

/-- `send_app_update` in slot `i` reads the `app_update_t` at `arg1`. -/
def readUpdate (s : AppRun) (i : Slot) : Option AppRun :=
  if (s.sys.pool.workers i).suspended then none
  else
    match (s.sys.pool.workers i).pc with
    | .running item =>
      if item.handler = some .sendAppUpdate then
        some { s with
          delivered := s.delivered ++
            [⟨item, updateAt s.memory item.arg1⟩] }
      else none
    | _ => none

end AppRun

inductive AppAction
  | runtime (action : Action)
  | schedule (payload : Nat) (update : AppUpdate)
  | write (addr : Nat) (byte : UInt8)
  | readUpdate (i : Slot)
  deriving DecidableEq, Repr

/-- `handle_event` is the one caller of `add_user_work`. A frame is where no other frame
is that is in use, and no thread writes into the frame of another. -/
def appStep (s : AppRun) : AppAction → Option AppRun
  | .runtime (.addUserWork _) => none
  | .runtime action => (step s.sys action).map fun sys => { s with sys := sys }
  | .schedule payload update =>
    if s.Unowned payload maxWorkerArgPayload then
      some (s.handleAppWorkSchedule payload update)
    else none
  | .write addr byte =>
    if s.Unowned addr 1 then some { s with memory := writeBytes s.memory addr [byte] }
    else none
  | .readUpdate i => s.readUpdate i

/-! ### What a step can do -/

inductive AppMove (s : AppRun) : AppAction → AppRun → Prop
  | runtime {action : Action} {sys : System} (hnot : ∀ item, action ≠ .addUserWork item)
      (hsys : step s.sys action = some sys) : AppMove s (.runtime action) { s with sys := sys }
  | schedule {payload : Nat} {update : AppUpdate}
      (hunowned : s.Unowned payload (argPayload update).cells.length) :
      AppMove s (.schedule payload update)
        { s with
          sys := (addUserWork s.sys (appWork payload update)).getD s.sys
          memory := writeBytes s.memory payload (argPayload update).cells
          scheduled := s.scheduled ++ [(payload, update)] }
  | write {addr : Nat} {byte : UInt8} (hunowned : s.Unowned addr 1) :
      AppMove s (.write addr byte) { s with memory := writeBytes s.memory addr [byte] }
  | read {i : Slot} {item : WorkItem} (hpending : item ∈ s.sys.pending) :
      AppMove s (.readUpdate i)
        { s with delivered := s.delivered ++ [⟨item, updateAt s.memory item.arg1⟩] }

theorem handleAppWorkSchedule_eq (s : AppRun) (payload : Nat) (update : AppUpdate) :
    s.handleAppWorkSchedule payload update =
      { s with
        sys := (addUserWork s.sys (appWork payload update)).getD s.sys
        memory := writeBytes s.memory payload (argPayload update).cells
        scheduled := s.scheduled ++ [(payload, update)] } :=
  if_pos (Nat.le_refl sizeofAppUpdate)

theorem readUpdate_move {s s' : AppRun} {i : Slot} (h : s.readUpdate i = some s') :
    AppMove s (.readUpdate i) s' := by
  unfold AppRun.readUpdate at h
  split at h
  · cases h
  · split at h
    next item hpc =>
      split at h
      · rw [← Option.some.inj h]
        exact .read (System.mem_pending.mpr (Or.inr ⟨i, by rw [hpc]; rfl⟩))
      · cases h
    next => cases h

theorem runtime_move {s s' : AppRun} {action : Action}
    (h : appStep s (.runtime action) = some s') : AppMove s (.runtime action) s' := by
  cases action with
  | addUserWork item => cases h
  | _ =>
    simp only [appStep, Option.map_eq_some_iff] at h
    obtain ⟨sys, hsys, rfl⟩ := h
    exact .runtime (fun _ => by simp) hsys

theorem appStep_move {s s' : AppRun} {action : AppAction} (h : appStep s action = some s') :
    AppMove s action s' := by
  cases action with
  | runtime action => exact runtime_move h
  | schedule payload update =>
    obtain ⟨hunowned, hs'⟩ := Option.ite_none_right_eq_some.mp h
    rw [← Option.some.inj hs', handleAppWorkSchedule_eq]
    exact .schedule (by rwa [Buffer.length_eq])
  | write addr byte =>
    obtain ⟨hunowned, hs'⟩ := Option.ite_none_right_eq_some.mp h
    rw [← Option.some.inj hs']
    exact .write hunowned
  | readUpdate i => exact readUpdate_move h

/-! ### Whose update is read -/

theorem updateAt_payload (memory : Memory) (payload : Nat) (update : AppUpdate) :
    updateAt (writeBytes memory payload (argPayload update).cells) payload = update := by
  have hlen : (argPayload update).cells.length = sizeofAppUpdate := Buffer.length_eq _
  rw [updateAt, read_write_same memory payload hlen, ofBytes_argPayload]

theorem updateAt_apart {memory : Memory} {addr b : Nat} {bytes : List UInt8}
    (h : Apart addr bytes.length b sizeofAppUpdate) :
    updateAt (writeBytes memory addr bytes) b = updateAt memory b := by
  rw [updateAt, updateAt, read_write_apart h]

/-- Two items with the same payload carry the same update. -/
theorem argPayload_inj {update update' : AppUpdate}
    (h : argPayload update = argPayload update') : update = update' := by
  rw [← ofBytes_argPayload update, h, ofBytes_argPayload]

/-- The memory after the action. -/
def AppRun.memoryAfter (s : AppRun) : AppAction → Memory
  | .schedule payload update => writeBytes s.memory payload (argPayload update).cells
  | .write addr byte => writeBytes s.memory addr [byte]
  | _ => s.memory

/-- What the action writes leaves the update at the `arg1` of every pending item as it
is. -/
def SparesPending (s : AppRun) (action : AppAction) : Prop :=
  ∀ item ∈ s.sys.pending,
    updateAt (s.memoryAfter action) item.arg1 = updateAt s.memory item.arg1

instance (s : AppRun) (action : AppAction) : Decidable (SparesPending s action) :=
  inferInstanceAs (Decidable (∀ item ∈ s.sys.pending, _))

/-- Of an event that was handled, the item carries the update, and `arg1` gives it. -/
def AppRun.Gives (s : AppRun) (item : WorkItem) : Prop :=
  ∃ update, (item.arg1, update) ∈ s.scheduled ∧ item.argPayload = argPayload update ∧
    updateAt s.memory item.arg1 = update

def AppRun.Intact (s : AppRun) : Prop := ∀ item, s.sys.Holds item → s.Gives item

/-- Each update that was read is that of the event that queued the item. -/
def AppRun.OwnUpdates (s : AppRun) : Prop :=
  ∀ d ∈ s.delivered, (d.item.arg1, d.update) ∈ s.scheduled ∧
    d.item.argPayload = argPayload d.update

theorem AppRun.Gives.mono {s s' : AppRun} {item : WorkItem} (h : s.Gives item)
    (hscheduled : ∀ e ∈ s.scheduled, e ∈ s'.scheduled)
    (hmemory : updateAt s'.memory item.arg1 = updateAt s.memory item.arg1) :
    s'.Gives item := by
  obtain ⟨update, hin, hpayload, hat⟩ := h
  exact ⟨update, hscheduled _ hin, hpayload, hmemory.trans hat⟩

/-- A write that spares the pending items changes the update of no item that is held: a
caller's frame is its own. -/
theorem updateAt_held {s : AppRun} {action : AppAction} {addr : Nat} {bytes : List UInt8}
    (hafter : s.memoryAfter action = writeBytes s.memory addr bytes)
    (hunowned : s.Unowned addr bytes.length) (hspare : SparesPending s action)
    {item : WorkItem} (hitem : s.sys.Holds item) :
    updateAt (writeBytes s.memory addr bytes) item.arg1 = updateAt s.memory item.arg1 := by
  rcases hitem with hcaller | hpending
  · exact updateAt_apart (hunowned item hcaller)
  · rw [← hafter]
    exact hspare item hpending

theorem intact_step {s s' : AppRun} {action : AppAction} (h : s.Intact)
    (hspare : SparesPending s action) (hstep : appStep s action = some s') : s'.Intact := by
  intro item hitem
  cases appStep_move hstep with
  | runtime hnot hsys =>
    obtain ⟨held, hheld, heq⟩ := step_holds hsys hnot hitem
    rw [heq]
    exact h held hheld
  | @schedule payload update hunowned =>
    rcases addUserWork_holds hitem with hheld | rfl
    · exact (h item hheld).mono (fun e he => List.mem_append_left _ he)
        (updateAt_held rfl hunowned hspare hheld)
    · exact ⟨update, List.mem_append_right _ List.mem_cons_self, rfl,
        updateAt_payload s.memory payload update⟩
  | write hunowned =>
    exact (h item hitem).mono (fun _ he => he) (updateAt_held rfl hunowned hspare hitem)
  | read hpending => exact h item hitem

theorem ownUpdates_step {s s' : AppRun} {action : AppAction} (hintact : s.Intact)
    (h : s.OwnUpdates) (hstep : appStep s action = some s') : s'.OwnUpdates := by
  cases appStep_move hstep with
  | runtime hnot hsys => exact h
  | schedule hunowned =>
    exact fun d hd => ⟨List.mem_append_left _ (h d hd).1, (h d hd).2⟩
  | write hunowned => exact h
  | @read i item hpending =>
    intro d hd
    rcases List.mem_append.mp hd with hold | hnew
    · exact h d hold
    · obtain ⟨update, hin, hpayload, hat⟩ := hintact item (Or.inr hpending)
      rw [List.mem_singleton.mp hnew, hat]
      exact ⟨hin, hpayload⟩

/-- A write that does not spare a pending item leaves it with an `arg1` that gives
something else. -/
theorem not_intact_step {s s' : AppRun} {action : AppAction} (h : s.Intact)
    (hhits : ¬ SparesPending s action) (hstep : appStep s action = some s') : ¬ s'.Intact := by
  intro h'
  refine hhits fun item hpending => ?_
  have hafter : s'.memory = s.memoryAfter action ∧ item ∈ s'.sys.pending := by
    cases appStep_move hstep with
    | runtime hnot hsys => exact absurd (fun _ _ => rfl) hhits
    | schedule hunowned => exact ⟨rfl, by rw [addUserWork_pending]; exact hpending⟩
    | write hunowned => exact ⟨rfl, hpending⟩
    | read hread => exact absurd (fun _ _ => rfl) hhits
  obtain ⟨update, -, hpayload, hat⟩ := h item (Or.inr hpending)
  obtain ⟨update', -, hpayload', hat'⟩ := h' item (Or.inr hafter.2)
  rw [← hafter.1, hat', hat]
  exact argPayload_inj (hpayload'.symm.trans hpayload)

/-- Along any run, the storage of every item stays as its event left it exactly when no
write hits the storage of a pending item; and then every update that is read is that of
the event that queued the item. -/
theorem updates_arrive (memory : Memory) (actions : List AppAction) :
    (Machine.Always appStep AppRun.Intact (.init memory) actions ↔
        Machine.EachStep appStep SparesPending (.init memory) actions) ∧
      (Machine.EachStep appStep SparesPending (.init memory) actions →
        Machine.Always appStep AppRun.OwnUpdates (.init memory) actions) := by
  have hintact : (AppRun.init memory).Intact := by
    rintro item (hcaller | hpending)
    · cases hcaller
    · rcases System.mem_pending.mp hpending with hqueue | ⟨i, hi⟩
      · cases hqueue
      · cases hi
  have hown : (AppRun.init memory).OwnUpdates := fun d hd => by cases hd
  constructor
  · exact Machine.always_iff_eachStep hintact (fun _ h => h)
      (fun _ _ _ h hspare hstep => intact_step h hspare hstep)
      (fun _ _ _ h hhits hstep => not_intact_step h hhits hstep)
  · intro hspares
    refine (@Machine.always_of_eachStep _ _ appStep (fun s => s.Intact ∧ s.OwnUpdates) _ _ _
      ⟨hintact, hown⟩ (fun s action s' h hspare hstep => ?_) hspares).mono (fun _ h => h.2)
    exact ⟨intact_step h.1 hspare hstep, ownUpdates_step h.1 h.2 hstep⟩

/-- One answer, handled and read before anything else uses its storage. -/
theorem updates_arrive_single :
    let update : AppUpdate := ⟨datedWeatherRequest, 11, .fill _ 7⟩
    let actions := [.runtime (.setRuntimeState .backgroundActive []), .schedule 4096 update,
        .runtime (.enqueueUserWork (appWork 4096 update))] ++
      List.replicate 7 (.runtime (.worker 0)) ++ [.readUpdate 0]
    Machine.EachStep appStep SparesPending (.init fun _ => 0) actions ∧
      Machine.Always appStep AppRun.OwnUpdates (.init fun _ => 0) actions := by
  intro update actions
  have hspares : Machine.EachStep appStep SparesPending (.init fun _ => 0) actions := by
    decide +kernel
  exact ⟨hspares, (updates_arrive (fun _ => 0) actions).2 hspares⟩

/-- Two answers come in before a worker takes the first one. The second call of
`handle_event` has its frame where the first had it, and the first item is delivered
with the update of the second. -/
theorem second_update_read_for_first :
    let update (app : UInt8) : AppUpdate := ⟨datedWeatherRequest, app, .fill _ app⟩
    let actions := [.runtime (.setRuntimeState .backgroundActive []),
        .schedule 4096 (update 11), .runtime (.enqueueUserWork (appWork 4096 (update 11))),
        .schedule 4096 (update 12), .runtime (.enqueueUserWork (appWork 4096 (update 12)))] ++
      List.replicate 7 (.runtime (.worker 0)) ++ [.readUpdate 0]
    ∃ s, Machine.run appStep (.init fun _ => 0) actions = some s ∧
      s.delivered = [⟨{ appWork 4096 (update 11) with type := .user }, update 12⟩] ∧
      ¬ s.OwnUpdates := by
  intro update actions
  have hrun : (Machine.run appStep (.init fun _ => 0) actions).map AppRun.delivered =
      some [⟨{ appWork 4096 (update 11) with type := .user }, update 12⟩] := by
    decide +kernel
  obtain ⟨s, hs, hdelivered⟩ := Option.map_eq_some_iff.mp hrun
  refine ⟨s, hs, hdelivered, fun hown => ?_⟩
  have hpayload := (hown _ (by rw [hdelivered]; exact List.mem_cons_self)).2
  exact absurd (argPayload_inj hpayload) (by decide)

end MinimalWatch.App
