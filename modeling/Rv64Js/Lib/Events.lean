import Mathlib.Data.List.Basic

/-! # Runs of an event-driven state

A system is a step function on states and events. A run meets a condition when each event meets it
in the state it finds. -/

set_option autoImplicit false

namespace Rv64Js.Events

variable {σ ε : Type*} (step : σ → ε → σ)

def run (s : σ) (events : List ε) : σ := events.foldl step s

variable (s : σ)

@[simp] theorem run_nil : run step s [] = s := rfl

@[simp] theorem run_cons (e : ε) (events : List ε) :
    run step s (e :: events) = run step (step s e) events := rfl

theorem run_append (first second : List ε) :
    run step s (first ++ second) = run step (run step s first) second := List.foldl_append

theorem run_snoc (events : List ε) (e : ε) :
    run step s (events ++ [e]) = step (run step s events) e := by rw [run_append, run_cons, run_nil]

/-- Every event of the run is admitted in the state it finds. -/
def Admitted (admits : σ → ε → Prop) : σ → List ε → Prop
  | _, [] => True
  | s, e :: events => admits s e ∧ Admitted admits (step s e) events

instance Admitted.decidable {admits : σ → ε → Prop} [∀ s e, Decidable (admits s e)] :
    ∀ (s : σ) (events : List ε), Decidable (Admitted step admits s events)
  | _, [] => instDecidableTrue
  | s, e :: events =>
    have : Decidable (Admitted step admits (step s e) events) :=
      Admitted.decidable (step s e) events
    instDecidableAnd

variable {step}

variable {admits : σ → ε → Prop} {s : σ}

theorem Admitted.keeps {I : σ → Prop} (stepKeeps : ∀ s e, admits s e → I s → I (step s e))
    {events : List ε} (admitted : Admitted step admits s events)
    (holds : I s) : I (run step s events) := by
  induction events generalizing s with
  | nil => exact holds
  | cons e events ih => exact ih admitted.2 (stepKeeps s e admitted.1 holds)

theorem admitted_append {first second : List ε} : Admitted step admits s (first ++ second) ↔
      Admitted step admits s first ∧ Admitted step admits (run step s first) second := by
  induction first generalizing s with
  | nil => simp [Admitted]
  | cons e first ih => simp [Admitted, ih, and_assoc]

theorem Admitted.and {admits' : σ → ε → Prop} {events : List ε}
    (first : Admitted step admits s events) (second : Admitted step admits' s events) :
    Admitted step (fun s e => admits s e ∧ admits' s e) s events := by
  induction events generalizing s with
  | nil => trivial
  | cons e events ih => exact ⟨⟨first.1, second.1⟩, ih first.2 second.2⟩

/-! ## Histories -/

variable {α : Type*}

/-- Every entry of a history meets a condition on what precedes it. -/
def Each (P : List α → α → Prop) (l : List α) : Prop :=
  ∀ before a after, l = before ++ a :: after → P before a

theorem each_nil (P : List α → α → Prop) : Each P [] := by
  intro before a after eq
  simp at eq

theorem each_snoc {P : List α → α → Prop} {l : List α} {a : α} :
    Each P (l ++ [a]) ↔ Each P l ∧ P l a := by
  constructor
  · intro all
    refine ⟨fun before b after eq => all before b (after ++ [a]) (by simp [eq]), all l a [] rfl⟩
  · rintro ⟨all, last⟩ before b after eq
    -- the entry is the new one, or it was there
    rcases List.eq_nil_or_concat after with rfl | ⟨after, c, rfl⟩
    · obtain ⟨rfl, rfl⟩ : l = before ∧ a = b := by
        have := List.append_inj' eq rfl
        simpa using this
      exact last
    · have split : l ++ [a] = (before ++ b :: after) ++ [c] := by simpa using eq
      obtain ⟨rfl, -⟩ := List.append_inj' split rfl
      exact all before b after rfl

end Rv64Js.Events
