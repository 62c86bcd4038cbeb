import Mathlib.Data.List.Basic
import Mathlib.Tactic.Common

/-! Runs of a machine whose step is a partial function of a state and an action.
An action that is not enabled has no successor and ends the run there. `Always`
speaks of the states a run passes through, `EachStep` of the steps it takes;
the rules below reduce both to what one step does. The last section is about
machines that answer every action with an output. -/

namespace Firmware.Machine

section Runs
variable {σ α : Type*} (step : σ → α → Option σ)

def run : σ → List α → Option σ
  | s, [] => some s
  | s, a :: rest => (step s a).bind fun s' => run s' rest

theorem run_cons {s s' : σ} {a : α} (rest : List α) (h : step s a = some s') :
    run step s (a :: rest) = run step s' rest := by
  simp [run, h]

theorem run_cons_eq_some {s t : σ} {a : α} {rest : List α} :
    run step s (a :: rest) = some t ↔
      ∃ s', step s a = some s' ∧ run step s' rest = some t := by
  simp [run, Option.bind_eq_some_iff]

theorem run_append (s : σ) (first second : List α) :
    run step s (first ++ second) = (run step s first).bind fun t => run step t second := by
  induction first generalizing s with
  | nil => rfl
  | cons a rest ih =>
    rw [List.cons_append, run, run, Option.bind_assoc]
    exact congrArg _ (funext ih)

/-- What a map takes step by step it takes run by run. -/
theorem run_map {τ : Type*} {step' : τ → α → Option τ} (f : σ → τ)
    (hstep : ∀ s a, (step s a).map f = step' (f s) a) {s t : σ} {actions : List α}
    (hrun : run step s actions = some t) : run step' (f s) actions = some (f t) := by
  induction actions generalizing s with
  | nil =>
    cases hrun
    rfl
  | cons a rest ih =>
    obtain ⟨s', hs, hrun⟩ := (run_cons_eq_some step).mp hrun
    have hs' := hstep s a
    rw [hs] at hs'
    rw [run_cons step' rest hs'.symm]
    exact ih hrun

/-- `P` holds in every state that the run from `s` along `actions` passes through. -/
def Always (P : σ → Prop) (s : σ) (actions : List α) : Prop :=
  ∀ before after s', actions = before ++ after → run step s before = some s' → P s'

/-- Every step that the run from `s` along `actions` takes meets `G`, a condition
on the state before the step and on the action. -/
def EachStep (G : σ → α → Prop) (s : σ) (actions : List α) : Prop :=
  ∀ before a after s' s'', actions = before ++ a :: after →
    run step s before = some s' → step s' a = some s'' → G s' a

variable {step} {P inv : σ → Prop} {G : σ → α → Prop}

theorem Always.head {s : σ} {actions : List α} (h : Always step P s actions) : P s :=
  h [] actions s rfl rfl

theorem Always.tail {s s' : σ} {a : α} {rest : List α} (hs : step s a = some s')
    (h : Always step P s (a :: rest)) : Always step P s' rest := by
  intro before after t hsplit hrun
  exact h (a :: before) after t (by rw [hsplit]; rfl) (by rw [run_cons step before hs, hrun])

theorem EachStep.head {s s' : σ} {a : α} {rest : List α} (hs : step s a = some s')
    (h : EachStep step G s (a :: rest)) : G s a :=
  h [] a rest s s' rfl rfl hs

theorem EachStep.tail {s s' : σ} {a : α} {rest : List α} (hs : step s a = some s')
    (h : EachStep step G s (a :: rest)) : EachStep step G s' rest := by
  intro before b after t t' hsplit hrun hstep
  exact h (a :: before) b after t t' (by rw [hsplit]; rfl)
    (by rw [run_cons step before hs, hrun]) hstep

theorem always_nil {s : σ} (h : P s) : Always step P s [] := by
  intro before after s' hsplit hrun
  have hb : before = [] := (List.append_eq_nil_iff.mp hsplit.symm).1
  subst hb
  cases hrun
  exact h

theorem always_cons {s : σ} {a : α} {rest : List α} (h : P s)
    (ht : ∀ s', step s a = some s' → Always step P s' rest) :
    Always step P s (a :: rest) := by
  intro before after t hsplit hrun
  cases before with
  | nil =>
    cases hrun
    exact h
  | cons b before =>
    obtain ⟨rfl, hrest⟩ := List.cons.inj hsplit
    obtain ⟨s', hs, hrun⟩ := (run_cons_eq_some step).mp hrun
    exact ht s' hs before after t hrest hrun

theorem eachStep_cons {s : σ} {a : α} {rest : List α}
    (h : ∀ s', step s a = some s' → G s a ∧ EachStep step G s' rest) :
    EachStep step G s (a :: rest) := by
  intro before b after t t' hsplit hrun hstep
  cases before with
  | nil =>
    obtain ⟨rfl, -⟩ := List.cons.inj hsplit
    cases hrun
    exact (h t' hstep).1
  | cons c before =>
    obtain ⟨rfl, hrest⟩ := List.cons.inj hsplit
    obtain ⟨s', hs, hrun⟩ := (run_cons_eq_some step).mp hrun
    exact (h s' hs).2 before b after t t' hrest hrun hstep

theorem eachStep_nil {s : σ} : EachStep step G s [] := by
  intro before a after s' s'' hsplit
  simp at hsplit

theorem eachStep_cons_iff {s : σ} {a : α} {rest : List α} :
    EachStep step G s (a :: rest) ↔ ∀ s', step s a = some s' → G s a ∧ EachStep step G s' rest :=
  ⟨fun h _ hs => ⟨h.head hs, h.tail hs⟩, eachStep_cons⟩

instance decidableEachStep [∀ s a, Decidable (G s a)] :
    ∀ (s : σ) (actions : List α), Decidable (EachStep step G s actions)
  | _, [] => isTrue eachStep_nil
  | s, a :: rest =>
    match h : step s a with
    | none => isTrue (eachStep_cons_iff.mpr fun s' hs => by rw [h] at hs; cases hs)
    | some s' =>
      haveI := decidableEachStep s' rest
      decidable_of_iff (G s a ∧ EachStep step G s' rest) (by simp [eachStep_cons_iff, h])

/-- What the steps meeting `G` preserve holds along every run made of such steps. -/
theorem always_of_eachStep {s : σ} {actions : List α} (h0 : inv s)
    (hstep : ∀ s a s', inv s → G s a → step s a = some s' → inv s')
    (h : EachStep step G s actions) : Always step inv s actions := by
  induction actions generalizing s with
  | nil => exact always_nil h0
  | cons a rest ih =>
    refine always_cons h0 fun s' hs => ?_
    exact ih (hstep s a s' h0 (h.head hs) hs) (h.tail hs)

theorem Always.mono {Q : σ → Prop} {s : σ} {actions : List α} (hPQ : ∀ s, P s → Q s)
    (h : Always step P s actions) : Always step Q s actions :=
  fun before after s' hsplit hrun => hPQ s' (h before after s' hsplit hrun)

/-- An invariant of every step holds in every state that a run ends in. -/
theorem run_invariant {s t : σ} {actions : List α} (h0 : inv s)
    (hstep : ∀ s a s', inv s → step s a = some s' → inv s')
    (hrun : run step s actions = some t) : inv t := by
  induction actions generalizing s with
  | nil =>
    cases hrun
    exact h0
  | cons a rest ih =>
    obtain ⟨s', hs, hrun⟩ := (run_cons_eq_some step).mp hrun
    exact ih (hstep s a s' h0 hs) hrun

/-- An invariant of every step holds all along every run. -/
theorem always_of_invariant {s : σ} (actions : List α) (h0 : inv s)
    (hstep : ∀ s a s', inv s → step s a = some s' → inv s') : Always step inv s actions :=
  fun _ _ _ _ hrun => run_invariant h0 hstep hrun

/-- `G` is the exact condition for `P` along a run, when the steps meeting it keep
an invariant stronger than `P` and a step against it ends in a state without `P`. -/
theorem always_iff_eachStep {s : σ} {actions : List α} (h0 : inv s) (hP : ∀ s, inv s → P s)
    (hstep : ∀ s a s', inv s → G s a → step s a = some s' → inv s')
    (hbreak : ∀ s a s', inv s → ¬ G s a → step s a = some s' → ¬ P s') :
    Always step P s actions ↔ EachStep step G s actions := by
  constructor
  · intro h
    induction actions generalizing s with
    | nil => exact eachStep_nil
    | cons a rest ih =>
      refine eachStep_cons fun s' hs => ?_
      have hG : G s a := by
        by_contra hG
        exact hbreak s a s' h0 hG hs (h.tail hs).head
      exact ⟨hG, ih (hstep s a s' h0 hG hs) (h.tail hs)⟩
  · intro h
    exact (always_of_eachStep h0 hstep h).mono hP

/-- When steps meeting `H` keep an invariant under which they meet `G`, a run made of
the former is made of the latter. -/
theorem EachStep.imp {H : σ → α → Prop} {s : σ} {actions : List α} (h0 : inv s)
    (hstep : ∀ s a s', inv s → H s a → step s a = some s' → inv s' ∧ G s a)
    (h : EachStep step H s actions) : EachStep step G s actions := by
  induction actions generalizing s with
  | nil => exact eachStep_nil
  | cons a rest ih =>
    refine eachStep_cons fun s' hs => ?_
    obtain ⟨hinv, hG⟩ := hstep s a s' h0 (h.head hs) hs
    exact ⟨hG, ih hinv (h.tail hs)⟩

/-- A condition on the actions alone. -/
theorem eachStep_of_forall {H : α → Prop} {s : σ} {actions : List α} (h : ∀ a ∈ actions, H a) :
    EachStep step (fun _ a => H a) s actions := by
  intro before a after _ _ hsplit _ _
  exact h a (by rw [hsplit]; simp)

/-- Under an invariant every step meets what the invariant says of it. -/
theorem eachStep_of_invariant {s : σ} (actions : List α) (h0 : inv s)
    (hstep : ∀ s a s', inv s → step s a = some s' → inv s')
    (hG : ∀ s a s', inv s → step s a = some s' → G s a) : EachStep step G s actions :=
  @EachStep.imp σ α step inv G (fun _ _ => True) s actions h0
    (fun s a s' hinv _ hs => ⟨hstep s a s' hinv hs, hG s a s' hinv hs⟩)
    fun _ _ _ _ _ _ _ _ => trivial

end Runs

/-! A machine run beside a record of its past: the record sees every step with the states
before and after it, and has no part in what the machine does. -/

section Records
variable {σ α γ : Type*} (step : σ → α → Option σ) (record : σ → α → σ → γ → γ)

def recording (p : σ × γ) (a : α) : Option (σ × γ) :=
  (step p.1 a).map fun s' => (s', record p.1 a s' p.2)

theorem recording_some {p p' : σ × γ} {a : α} (h : recording step record p a = some p') :
    ∃ s', step p.1 a = some s' ∧ p' = (s', record p.1 a s' p.2) := by
  obtain ⟨s', hs, heq⟩ := Option.map_eq_some_iff.mp h
  exact ⟨s', hs, heq.symm⟩

/-- Every run has its record. -/
theorem run_recording {s t : σ} {actions : List α} (g : γ) (h : run step s actions = some t) :
    ∃ g', run (recording step record) (s, g) actions = some (t, g') := by
  induction actions generalizing s g with
  | nil =>
    cases h
    exact ⟨g, rfl⟩
  | cons a rest ih =>
    obtain ⟨s', hs, hrun⟩ := (run_cons_eq_some step).mp h
    obtain ⟨g', hg⟩ := ih (record s a s' g) hrun
    refine ⟨g', ?_⟩
    rw [run_cons (recording step record) rest (by rw [recording, hs]; rfl)]
    exact hg

/-- The record takes no part in what each step meets. -/
theorem eachStep_recording {G : σ → α → Prop} {s : σ} {actions : List α} (g : γ) :
    EachStep (recording step record) (fun p a => G p.1 a) (s, g) actions ↔
      EachStep step G s actions := by
  induction actions generalizing s g with
  | nil => exact iff_of_true eachStep_nil eachStep_nil
  | cons a rest ih =>
    rw [eachStep_cons_iff, eachStep_cons_iff]
    constructor
    · intro h s' hs
      obtain ⟨hG, hrest⟩ := h (s', record s a s' g) (by rw [recording, hs]; rfl)
      exact ⟨hG, (ih _).mp hrest⟩
    · intro h p hp
      obtain ⟨s', hs, rfl⟩ := recording_some step record hp
      obtain ⟨hG, hrest⟩ := h s' hs
      exact ⟨hG, (ih _).mpr hrest⟩

end Records

section Answers
variable {σ τ α ω υ : Type*}

/-- A run of a machine that answers every action, with the answers in order. -/
def answers (op : σ → α → σ × ω) : σ → List α → σ × List ω
  | s, [] => (s, [])
  | s, a :: rest =>
    let (s', o) := op s a
    let (s'', os) := answers op s' rest
    (s'', o :: os)

theorem answers_cons (op : σ → α → σ × ω) (s : σ) (a : α) (rest : List α) :
    answers op s (a :: rest) =
      ((answers op (op s a).1 rest).1, (op s a).2 :: (answers op (op s a).1 rest).2) := rfl

theorem answers_append (op : σ → α → σ × ω) (s : σ) (first second : List α) :
    answers op s (first ++ second) =
      ((answers op (answers op s first).1 second).1,
        (answers op s first).2 ++ (answers op (answers op s first).1 second).2) := by
  induction first generalizing s with
  | nil => rfl
  | cons a rest ih => simp [answers_cons, ih]

/-- Refinement of one answering machine by another: when every operation commutes
with the abstraction of states and answers, so does every run. -/
theorem answers_refine {op : σ → α → σ × ω} {spec : τ → α → τ × υ}
    (state : σ → τ) (answer : ω → υ)
    (hop : ∀ s a, spec (state s) a = (state (op s a).1, answer (op s a).2))
    (s : σ) (actions : List α) :
    answers spec (state s) actions =
      (state (answers op s actions).1, (answers op s actions).2.map answer) := by
  induction actions generalizing s with
  | nil => rfl
  | cons a rest ih => simp [answers_cons, hop, ih]

/-- The same along a relation between the states of the two machines. -/
theorem answers_simulate {op : σ → α → σ × ω} {spec : τ → α → τ × υ} {R : σ → τ → Prop}
    (answer : ω → υ)
    (hop : ∀ s t a, R s t → R (op s a).1 (spec t a).1 ∧ answer (op s a).2 = (spec t a).2)
    {s : σ} {t : τ} (h : R s t) (actions : List α) :
    R (answers op s actions).1 (answers spec t actions).1 ∧
      (answers op s actions).2.map answer = (answers spec t actions).2 := by
  induction actions generalizing s t with
  | nil => exact ⟨h, rfl⟩
  | cons a rest ih =>
    obtain ⟨hrel, hans⟩ := hop s t a h
    obtain ⟨hfinal, hrest⟩ := ih hrel
    refine ⟨hfinal, ?_⟩
    simp [answers_cons, hans, hrest]

end Answers

end Firmware.Machine
