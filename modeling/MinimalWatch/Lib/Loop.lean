import Mathlib.Tactic.Common

/-! While loops by fuel. A loop body either goes on with a new loop state or leaves
the loop with a result; running out of fuel is `none`, never a result. The rule
`loop_total` is the total-correctness rule: an invariant and a measure that every
continuing iteration lowers. -/

namespace Firmware.Loop
variable {σ ρ : Type*}

def loop (body : σ → σ ⊕ ρ) : Nat → σ → Option ρ
  | 0, _ => none
  | fuel + 1, s =>
    match body s with
    | .inl s' => loop body fuel s'
    | .inr r => some r

theorem loop_continue {body : σ → σ ⊕ ρ} {s s' : σ} (fuel : Nat) (h : body s = .inl s') :
    loop body (fuel + 1) s = loop body fuel s' := by
  simp [loop, h]

theorem loop_leave {body : σ → σ ⊕ ρ} {s : σ} {r : ρ} (fuel : Nat) (h : body s = .inr r) :
    loop body (fuel + 1) s = some r := by
  simp [loop, h]

theorem loop_total {body : σ → σ ⊕ ρ} (inv : σ → Prop) (post : ρ → Prop) (measure : σ → Nat)
    (hgo : ∀ s s', inv s → body s = .inl s' → inv s' ∧ measure s' < measure s)
    (hout : ∀ s r, inv s → body s = .inr r → post r)
    {s : σ} {fuel : Nat} (h0 : inv s) (hfuel : measure s < fuel) :
    ∃ r, loop body fuel s = some r ∧ post r := by
  induction fuel generalizing s with
  | zero => omega
  | succ fuel ih =>
    cases hb : body s with
    | inl s' =>
      obtain ⟨hinv, hlt⟩ := hgo s s' h0 hb
      rw [loop_continue fuel hb]
      exact ih hinv (by omega)
    | inr r =>
      rw [loop_leave fuel hb]
      exact ⟨r, rfl, hout s r h0 hb⟩

/-- The loop states at which the body is run, from a first one on. -/
inductive Visits (body : σ → σ ⊕ ρ) : σ → σ → Prop
  | here (s : σ) : Visits body s s
  | next {s s' t : σ} (h : body s = .inl s') (rest : Visits body s' t) : Visits body s t

theorem Visits.invariant {body : σ → σ ⊕ ρ} {inv : σ → Prop} {s t : σ}
    (hvisits : Visits body s t) (hgo : ∀ s s', inv s → body s = .inl s' → inv s') (h0 : inv s) :
    inv t := by
  induction hvisits with
  | here s => exact h0
  | next hbody _ ih => exact ih (hgo _ _ h0 hbody)

end Firmware.Loop
