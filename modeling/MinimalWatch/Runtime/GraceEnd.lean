import MinimalWatch.Lib.Machine
import MinimalWatch.Runtime.Moves

/-! The early end of the grace period. A record beside the runtime keeps, for each slot,
whether the call of `runtime_manager_evaluate_early_curfew` that its worker is in has found
the grace period calm from its start until now: nothing counted or queued, the maintenance
thread idle. Such a call arms the settlement timer if it reads the clock within the time of
a background window; later it demotes, which in the grace period does nothing. -/

namespace MinimalWatch.Runtime
open Firmware

/-- The grace period with all of its work done. -/
structure Calm (rt : System) : Prop where
  grace : rt.fsm.currentState = .gracePeriod
  count : rt.pool.activeWorkerCount = 0
  userQueue : rt.pool.runtimeMsgq.items = []
  maintQueue : rt.sysMaintMsgq.items = []
  maint : rt.maint = .waiting

instance (rt : System) : Decidable (Calm rt) :=
  decidable_of_iff (rt.fsm.currentState = .gracePeriod ∧ rt.pool.activeWorkerCount = 0 ∧
    rt.pool.runtimeMsgq.items = [] ∧ rt.sysMaintMsgq.items = [] ∧ rt.maint = .waiting)
    ⟨fun ⟨hgrace, hcount, huser, hqueue, hmaint⟩ => ⟨hgrace, hcount, huser, hqueue, hmaint⟩,
      fun ⟨hgrace, hcount, huser, hqueue, hmaint⟩ => ⟨hgrace, hcount, huser, hqueue, hmaint⟩⟩

def WorkerPc.isEvaluating : WorkerPc → Bool
  | .evaluating _ => true
  | _ => false

/-- Whether the evaluation of a slot has found the grace period calm so far. -/
abbrev CallRecord := Slot → Bool

def CallRecord.next (rt : System) (_ : Action) (rt' : System) (calls : CallRecord) :
    CallRecord := fun i =>
  (rt'.pool.workers i).pc.isEvaluating && decide (Calm rt') &&
    (!(rt.pool.workers i).pc.isEvaluating || calls i)

abbrev callStep : System × CallRecord → Action → Option (System × CallRecord) :=
  Machine.recording step CallRecord.next

def callInit : System × CallRecord := (.init, fun _ => false)

/-- An evaluation that has found the grace period calm all along leaves the runtime asleep
or with the settlement timer armed. -/
def EndsGrace (s : System × CallRecord) (action : Action) : Prop :=
  ∀ i, action = .worker i → s.2 i = true → ∀ s', callStep s action = some s' →
    (s'.1.pool.workers i).pc.isEvaluating = false →
      s'.1.fsm.currentState = .sleep ∨ s'.1.mgmt.curfewSettlementTimer.deadline.isSome = true

/-- Such an evaluation reads the clock less than the time of a background window after the
window was opened. -/
def ReadsInTime (s : System × CallRecord) (action : Action) : Prop :=
  ∀ i state, action = .worker i → s.2 i = true →
    (s.1.pool.workers i).pc = .evaluating (.readClock state) →
      (s.1.now : Int) - s.1.mgmt.windowStartTime < windowBackgroundMaxMs

/-- A calm evaluation that comes to demote finds the settlement timer armed. -/
def DemotesArmed (s : System × CallRecord) (action : Action) : Prop :=
  ∀ i, action = .worker i → s.2 i = true → (s.1.pool.workers i).pc = .evaluating .demote →
    s.1.mgmt.curfewSettlementTimer.deadline.isSome = true

/-- The points of an evaluation that has read the grace period, where no worker comes to
suspend itself. -/
def CurfewPc.inGrace : CurfewPc → Prop
  | .idle state _ => state = .gracePeriod
  | .checkTimer state => state = .gracePeriod
  | .readClock state => state = .gracePeriod
  | .suspending => False
  | _ => True

def CallsCalm (s : System × CallRecord) : Prop :=
  ∀ i, s.2 i = true → Calm s.1 ∧ ∃ pc, (s.1.pool.workers i).pc = .evaluating pc ∧ pc.inGrace

/-- No calm evaluation is at the demotion. -/
def NoDemotion (s : System × CallRecord) : Prop :=
  ∀ i, s.2 i = true → (s.1.pool.workers i).pc ≠ .evaluating .demote

theorem idleStep_of_calm {rt : System} (h : Calm rt) (pc : IdlePc) :
    (∃ pc', idleStep rt pc = .inl pc') ∨ idleStep rt pc = .inr true := by
  cases pc with
  | activeCount =>
    left
    rw [idleStep, h.count]
    exact ⟨_, rfl⟩
  | userQueue =>
    left
    rw [idleStep, MsgQueue.numUsed, h.userQueue]
    exact ⟨_, rfl⟩
  | maintQueue =>
    right
    rw [idleStep, MsgQueue.numUsed, h.maintQueue]
    rfl

/-- One step of a calm evaluation before the demotion: it goes on, to the demotion only
from a late reading of the clock, or has returned with the settlement timer armed. -/
theorem curfewStep_of_calm {rt : System} (caller : Option Slot) {pc : CurfewPc} (h : Calm rt)
    (hpc : pc.inGrace) (hdemote : pc ≠ .demote) :
    (∃ pc', (curfewStep rt caller pc).2 = some pc' ∧ pc'.inGrace ∧
        (pc' = .demote → (∃ state, pc = .readClock state) ∧
          ¬ (rt.now : Int) - rt.mgmt.windowStartTime < windowBackgroundMaxMs)) ∨
      ((curfewStep rt caller pc).2 = none ∧
        (curfewStep rt caller pc).1.mgmt.curfewSettlementTimer.deadline.isSome = true) := by
  cases pc with
  | getState =>
    left
    have hawake : rt.fsm.currentState ≠ .sleep := by rw [h.grace]; simp
    simp only [curfewStep, if_neg hawake]
    exact ⟨_, rfl, h.grace, by simp⟩
  | idle state pc =>
    left
    rcases idleStep_of_calm h pc with ⟨pc', hnext⟩ | hidle
    · simp only [curfewStep, hnext]
      exact ⟨_, rfl, hpc, by simp⟩
    · simp only [curfewStep, hidle]
      exact ⟨_, rfl, hpc, by simp⟩
  | checkTimer state =>
    simp only [curfewStep]
    split_ifs with hremaining
    · right
      refine ⟨rfl, ?_⟩
      cases hdeadline : rt.mgmt.curfewSettlementTimer.deadline with
      | none => simp [Timer.remaining, hdeadline] at hremaining
      | some due => rfl
    · left
      exact ⟨_, rfl, hpc, by simp⟩
  | readClock state =>
    left
    have hlimit : (state.windowMs : Int) = windowBackgroundMaxMs := by
      rw [show state = .gracePeriod from hpc]
      rfl
    simp only [curfewStep, hlimit]
    by_cases hpos : (windowBackgroundMaxMs : Int) - (rt.now - rt.mgmt.windowStartTime) > 0
    · rw [if_pos hpos]
      exact ⟨_, rfl, trivial, by simp⟩
    · rw [if_neg hpos]
      exact ⟨_, rfl, trivial, fun _ => ⟨⟨state, rfl⟩, by omega⟩⟩
  | arm gap => exact Or.inr ⟨rfl, rfl⟩
  | demote => exact absurd rfl hdemote
  | suspending => exact hpc.elim

/-- In the grace period the demotion by a worker does nothing. -/
theorem curfewStep_demote {rt : System} {i : Slot} (h : Calm rt)
    (hrunnable : (rt.pool.workers i).suspended = false) :
    curfewStep rt (some i) .demote = (rt, none) := by
  have hinactive : ¬ rt.fsm.currentState.isActive = true := by
    rw [h.grace]
    decide
  have hsame : demoteToCurfew rt (some i) = rt := by rw [demoteToCurfew, if_neg hinactive]
  simp [curfewStep, hsame, hrunnable]

/-- A worker comes to evaluate the curfew when it has counted itself off, or goes on with
an evaluation. -/
theorem WorkerMove.evaluates {rt rt' : System} {i : Slot} {pc' : CurfewPc}
    (h : WorkerMove rt i rt') (hpc' : (rt'.pool.workers i).pc = .evaluating pc') :
    ((rt.pool.workers i).pc.isEvaluating = false ∧ pc' = .getState) ∨
      ∃ pc, (rt.pool.workers i).pc = .evaluating pc ∧
        (curfewStep rt (some i) pc).2 = some pc' := by
  cases h with
  | evaluate hpc hcount =>
    left
    simp only [System.setWorkerPc, WorkerPool.setPc, Function.update_self,
      WorkerPc.evaluating.injEq] at hpc'
    exact ⟨by rw [hpc]; rfl, hpc'.symm⟩
  | @curfew pc hpc =>
    right
    refine ⟨pc, hpc, ?_⟩
    simp only [System.setWorkerPc, WorkerPool.setPc, Function.update_self] at hpc'
    cases hnext : (curfewStep rt (some i) pc).2 with
    | none =>
      rw [hnext] at hpc'
      cases hpc'
    | some next =>
      rw [hnext] at hpc'
      rw [WorkerPc.evaluating.inj hpc']
  | _ => simp [System.setWorkerPc, WorkerPool.setPc] at hpc'

/-- An evaluating worker takes the next step of the evaluation. -/
theorem WorkerMove.evaluation {rt rt' : System} {i : Slot} {pc : CurfewPc}
    (h : WorkerMove rt i rt') (hpc : (rt.pool.workers i).pc = .evaluating pc) :
    rt' = (curfewStep rt (some i) pc).1.setWorkerPc i
      ((curfewStep rt (some i) pc).2.elim .waiting .evaluating) := by
  cases h with
  | @curfew pc' hpc' => rw [WorkerPc.evaluating.inj (hpc.symm.trans hpc')]
  | _ hpc' => cases hpc.symm.trans hpc'

/-- A slot that evaluates after a step of something else did so before. -/
theorem evaluates_of_other {rt rt' : System} {action : Action} {i : Slot} {pc : CurfewPc}
    (h : step rt action = some rt') (hother : action ≠ .worker i)
    (hpc : (rt'.pool.workers i).pc = .evaluating pc) :
    (rt.pool.workers i).pc = .evaluating pc := by
  cases step_move h with
  | keeps hkeeps hnot => rwa [hkeeps.pcs i] at hpc
  | @worker j rt' hrunnable hmove =>
    have hij : i ≠ j := by
      rintro rfl
      exact hother rfl
    rwa [hmove.others hij] at hpc
  | @returns j item hrunning =>
    by_cases hij : i = j
    · subst hij
      simp [System.setWorkerPc, WorkerPool.setPc] at hpc
    · simpa [System.setWorkerPc, WorkerPool.setPc, hij] using hpc
  | submit hstate => exact hpc
  | @enqueue item hmem =>
    unfold enqueueUserWork WorkerPool.enqueueUserItem at hpc
    cases hput : rt.pool.runtimeMsgq.put { item with type := .user } <;> rw [hput] at hpc <;>
      exact hpc
  | @abort j hdue =>
    by_cases hij : i = j
    · subst hij
      simp [WorkerPool.recoverStalledRunner] at hpc
    · simpa [WorkerPool.recoverStalledRunner, hij] using hpc

/-- A call that is calm after a step is as its worker's step has left it: it has just
begun, has gone on by one step of its own, or has stood still. -/
theorem call_cases {rt rt' : System} {calls : CallRecord} {action : Action} {i : Slot}
    (hstep : step rt action = some rt') (hcall : CallRecord.next rt action rt' calls i = true) :
    Calm rt' ∧ ∃ pc', (rt'.pool.workers i).pc = .evaluating pc' ∧ (pc' = .getState ∨
      (calls i = true ∧ ∃ pc, (rt.pool.workers i).pc = .evaluating pc ∧
        ((action = .worker i ∧ (curfewStep rt (some i) pc).2 = some pc') ∨ pc' = pc))) := by
  simp only [CallRecord.next, Bool.and_eq_true, decide_eq_true_eq, Bool.or_eq_true,
    Bool.not_eq_true'] at hcall
  obtain ⟨⟨heval, hcalm⟩, hbefore⟩ := hcall
  refine ⟨hcalm, ?_⟩
  obtain ⟨pc', hpc'⟩ : ∃ pc', (rt'.pool.workers i).pc = .evaluating pc' := by
    cases hpc : (rt'.pool.workers i).pc with
    | evaluating pc' => exact ⟨pc', rfl⟩
    | _ =>
      rw [hpc] at heval
      cases heval
  have hongoing : ∀ pc, (rt.pool.workers i).pc = .evaluating pc → calls i = true := by
    intro pc hpc
    rcases hbefore with hnew | hcall
    · rw [hpc] at hnew
      cases hnew
    · exact hcall
  refine ⟨pc', hpc', ?_⟩
  by_cases hown : action = .worker i
  · subst hown
    rcases (workerStep_move hstep).2.evaluates hpc' with ⟨-, hfirst⟩ | ⟨pc, hpc, hnext⟩
    · exact Or.inl hfirst
    · exact Or.inr ⟨hongoing pc hpc, pc, hpc, Or.inl ⟨rfl, hnext⟩⟩
  · have hpc := evaluates_of_other hstep hown hpc'
    exact Or.inr ⟨hongoing pc' hpc, pc', hpc, Or.inr rfl⟩

theorem callsCalm_step {s s' : System × CallRecord} {action : Action} (h : CallsCalm s)
    (hstep : callStep s action = some s') : CallsCalm s' := by
  obtain ⟨rt, calls⟩ := s
  obtain ⟨rt', hrt, rfl⟩ := Machine.recording_some step CallRecord.next hstep
  intro i hi
  obtain ⟨hcalm', pc', hpc', hcases⟩ := call_cases hrt hi
  refine ⟨hcalm', pc', hpc', ?_⟩
  rcases hcases with rfl | ⟨hcall, pc, hpc, hmove⟩
  · trivial
  · obtain ⟨hcalm, pc₀, hpc₀, hgrace⟩ := h i hcall
    obtain rfl := WorkerPc.evaluating.inj (hpc.symm.trans hpc₀)
    rcases hmove with ⟨rfl, hnext⟩ | rfl
    · have hdemote : pc ≠ .demote := by
        rintro rfl
        rw [curfewStep_demote hcalm (workerStep_move hrt).1] at hnext
        cases hnext
      rcases curfewStep_of_calm (some i) hcalm hgrace hdemote with
        ⟨pc'', hsome, hgrace', -⟩ | ⟨hnone, -⟩
      · rw [hnext] at hsome
        rw [Option.some.inj hsome]
        exact hgrace'
      · rw [hnext] at hnone
        cases hnone
    · exact hgrace

theorem noDemotion_step {s s' : System × CallRecord} {action : Action} (h : CallsCalm s)
    (hno : NoDemotion s) (hclock : ReadsInTime s action) (hstep : callStep s action = some s') :
    NoDemotion s' := by
  obtain ⟨rt, calls⟩ := s
  obtain ⟨rt', hrt, rfl⟩ := Machine.recording_some step CallRecord.next hstep
  intro i hi hdemotes
  obtain ⟨-, pc', hpc', hcases⟩ := call_cases hrt hi
  obtain rfl := WorkerPc.evaluating.inj (hdemotes.symm.trans hpc')
  rcases hcases with hfirst | ⟨hcall, pc, hpc, hmove⟩
  · cases hfirst
  · obtain ⟨hcalm, pc₀, hpc₀, hgrace⟩ := h i hcall
    obtain rfl := WorkerPc.evaluating.inj (hpc.symm.trans hpc₀)
    have hdemote : pc ≠ .demote := by
      rintro rfl
      exact hno i hcall hpc
    rcases hmove with ⟨hown, hnext⟩ | rfl
    · rcases curfewStep_of_calm (some i) hcalm hgrace hdemote with
        ⟨pc'', hsome, -, hlate⟩ | ⟨hnone, -⟩
      · rw [hnext] at hsome
        obtain ⟨⟨state, rfl⟩, hover⟩ := hlate (Option.some.inj hsome).symm
        exact hover (hclock i state hown hcall hpc)
      · rw [hnext] at hnone
        cases hnone
    · exact hdemote rfl

/-- A calm evaluation ends well unless it is a demotion that finds the timer not armed. -/
theorem endsGrace_iff_demotesArmed {s s' : System × CallRecord} {action : Action}
    (h : CallsCalm s) (hstep : callStep s action = some s') :
    EndsGrace s action ↔ DemotesArmed s action := by
  obtain ⟨rt, calls⟩ := s
  constructor
  · rintro hends i rfl hcall hpc
    obtain ⟨rt', hrt, rfl⟩ := Machine.recording_some step CallRecord.next hstep
    have hcalm := (h i hcall).1
    have hrt' := (workerStep_move hrt).2.evaluation hpc
    rw [curfewStep_demote hcalm (workerStep_move hrt).1] at hrt'
    rcases hends i rfl hcall _ hstep (by simp [hrt', System.setWorkerPc, WorkerPool.setPc,
      WorkerPc.isEvaluating]) with hsleep | harmed
    · simp only [hrt'] at hsleep
      cases hsleep.symm.trans hcalm.grace
    · simpa [hrt', System.setWorkerPc] using harmed
  · rintro harmed i rfl hcall s'' hstep' hdone
    obtain ⟨rt', hrt, rfl⟩ := Machine.recording_some step CallRecord.next hstep'
    obtain ⟨hcalm, pc, hpc, hgrace⟩ := h i hcall
    have hrt' := (workerStep_move hrt).2.evaluation hpc
    right
    by_cases hdemote : pc = .demote
    · subst hdemote
      rw [hrt', curfewStep_demote hcalm (workerStep_move hrt).1]
      exact harmed i rfl hcall hpc
    · rcases curfewStep_of_calm (some i) hcalm hgrace hdemote with ⟨pc', hnext, -, -⟩ | ⟨-, harms⟩
      · rw [hrt', hnext] at hdone
        simp [System.setWorkerPc, WorkerPool.setPc, WorkerPc.isEvaluating] at hdone
      · rw [hrt']
        exact harms

theorem callsCalm_init : CallsCalm callInit := fun i hi => by cases hi

/-- Along any run: the evaluations that find the grace period calm end it exactly when none
comes to demote with the settlement timer not armed; and so they do while each reads the
clock within the time of a background window after the window was opened. -/
theorem endsGrace_of_readsInTime (actions : List Action) :
    (Machine.EachStep callStep EndsGrace callInit actions ↔
      Machine.EachStep callStep DemotesArmed callInit actions) ∧
    (Machine.EachStep callStep ReadsInTime callInit actions →
      Machine.EachStep callStep EndsGrace callInit actions) := by
  refine ⟨⟨?_, ?_⟩, ?_⟩
  · exact Machine.EachStep.imp callsCalm_init fun s action s' hcalm hends hstep =>
      ⟨callsCalm_step hcalm hstep, (endsGrace_iff_demotesArmed hcalm hstep).mp hends⟩
  · exact Machine.EachStep.imp callsCalm_init fun s action s' hcalm harmed hstep =>
      ⟨callsCalm_step hcalm hstep, (endsGrace_iff_demotesArmed hcalm hstep).mpr harmed⟩
  · have hinit : CallsCalm callInit ∧ NoDemotion callInit :=
      ⟨callsCalm_init, fun i hi => by cases hi⟩
    refine @Machine.EachStep.imp _ _ _ (fun s => CallsCalm s ∧ NoDemotion s) _ _ _ _ hinit ?_
    rintro s action s' ⟨hcalm, hno⟩ hclock hstep
    have harmed : DemotesArmed s action := fun i _ hcall hpc => absurd hpc (hno i hcall)
    exact ⟨⟨callsCalm_step hcalm hstep, noDemotion_step hcalm hno hclock hstep⟩,
      (endsGrace_iff_demotesArmed hcalm hstep).mpr harmed⟩

/-- The window has run its full time when the last worker finishes in the grace period, all
queues empty and the maintenance thread idle. Its evaluation demotes to no effect and
returns awake without the settlement timer. -/
theorem grace_not_ended :
    let item : WorkItem := ⟨.user, some .sendAppUpdate, 0, .fill maxWorkerArgPayload 0⟩
    let actions : List Action := List.flatten [[.setRuntimeState .backgroundActive [1]],
      List.replicate 160 .tick, [.totalWorkWindowExpiry, .maint, .addUserWork item,
        .enqueueUserWork item], List.replicate 7 (.worker 0), [.maintHandlerReturns],
      List.replicate 3 .maint, [.handlerReturns 0], List.replicate 11 (.worker 0)]
    ∃ s s', Machine.run callStep callInit actions = some s ∧ s.2 0 = true ∧
      callStep s (.worker 0) = some s' ∧ (s'.1.pool.workers 0).pc = .waiting ∧
      s'.1.fsm.currentState = .gracePeriod ∧
      s'.1.mgmt.curfewSettlementTimer.deadline = none ∧
      ¬ Machine.EachStep callStep EndsGrace callInit (actions ++ [.worker 0]) := by
  intro item actions
  have hrun : (Machine.run callStep callInit actions).map (fun s =>
      (s.2 0, (callStep s (.worker 0)).map fun s' => ((s'.1.pool.workers 0).pc,
        s'.1.fsm.currentState, s'.1.mgmt.curfewSettlementTimer.deadline))) =
      some (true, some (.waiting, .gracePeriod, none)) := by
    decide +kernel
  obtain ⟨s, hs, hfacts⟩ := Option.map_eq_some_iff.mp hrun
  obtain ⟨hcall, hnext⟩ := Prod.mk.inj hfacts
  obtain ⟨s', hs', hafter⟩ := Option.map_eq_some_iff.mp hnext
  simp only [Prod.mk.injEq] at hafter
  obtain ⟨hpc, hgrace, hdeadline⟩ := hafter
  refine ⟨s, s', hs, hcall, hs', hpc, hgrace, hdeadline, fun h => ?_⟩
  rcases h actions (.worker 0) [] s s' rfl hs hs' 0 rfl hcall s' hs'
    (by rw [hpc]; rfl) with hsleep | harmed
  · rw [hgrace] at hsleep
    cases hsleep
  · rw [hdeadline] at harmed
    cases harmed

end MinimalWatch.Runtime
