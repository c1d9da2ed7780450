import Mathlib.Data.Sum.Basic

/-! # Bounded loops with early exit

A loop body leaves with a result or goes on with a new state, a bounded number of times. Loops whose
bodies match step by step match as a whole. -/

set_option autoImplicit false

namespace Loop

variable {σ τ ρ ρ' : Type}

def iterate (body : σ → ρ ⊕ σ) : Nat → σ → ρ ⊕ σ
  | 0, s => .inr s
  | n + 1, s =>
    match body s with
    | .inl r => .inl r
    | .inr s => iterate body n s

variable {body : σ → ρ ⊕ σ}

theorem iterate_keeps {E : ρ → Prop} {P : σ → Prop} (step : ∀ s, P s → Sum.elim E P (body s)) :
    ∀ n s, P s → Sum.elim E P (iterate body n s) := by
  intro n
  induction n with
  | zero =>
    intro s holds
    exact holds
  | succ n ih =>
    intro s holds
    have after := step s holds
    rw [iterate]
    generalize body s = next at after
    cases next with
    | inl r => exact after
    | inr s' => exact ih s' after

/-- Bodies that match on the guarded states of the second loop give matching loops.
The guard may depend on the iterations left. -/
theorem iterate_sim {Q : ρ → ρ' → Prop} {R : σ → τ → Prop} {G : Nat → τ → Prop} {first : σ → ρ ⊕ σ}
    {second : τ → ρ' ⊕ τ}
    (step : ∀ n s t, R s t → G (n + 1) t → Sum.LiftRel Q R (first s) (second t))
    (guard : ∀ n t t', G (n + 1) t → second t = .inr t' → G n t') :
    ∀ n s t, R s t → G n t → Sum.LiftRel Q R (iterate first n s) (iterate second n t) := by
  intro n
  induction n with
  | zero =>
    intro s t related _
    exact .inr related
  | succ n ih =>
    intro s t related guarded
    have matched := step n s t related guarded
    rw [iterate, iterate]
    generalize first s = one at matched
    generalize run : second t = other at matched
    cases matched with
    | inl q => exact .inl q
    | inr next => exact ih _ _ next (guard n t _ guarded run)

theorem liftRel_common {ρ'' τ' : Type} {Q : ρ → ρ'' → Prop} {Q' : ρ' → ρ'' → Prop}
    {R : σ → τ' → Prop} {R' : τ → τ' → Prop} {a : ρ ⊕ σ} {b : ρ' ⊕ τ} {c : ρ'' ⊕ τ'}
    (first : Sum.LiftRel Q R a c) (second : Sum.LiftRel Q' R' b c) :
    Sum.LiftRel (fun x y => ∃ z, Q x z ∧ Q' y z) (fun x y => ∃ z, R x z ∧ R' y z) a b := by
  cases first with
  | inl q =>
    cases second with
    | inl q' => exact .inl ⟨_, q, q'⟩
  | inr r =>
    cases second with
    | inr r' => exact .inr ⟨_, r, r'⟩

end Loop
