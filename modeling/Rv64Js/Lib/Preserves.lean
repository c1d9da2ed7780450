import Rv64Js.Lib.Fallible

/-! # Invariants of fallible state computations

`Preserves I Q m` says that `m`, started in a state of `I`, ends in one whether it succeeds or
not, and that what it returns satisfies `Q`; the rules follow the shape of a `do` block. -/

set_option autoImplicit false

namespace Fallible

variable {ε σ τ α γ : Type}

/-- A result whose state is in `I` and whose value, if there is one, is in `Q`. -/
def Ends (I : σ → Prop) (Q : α → Prop) : EStateM.Result ε σ α → Prop
  | .ok a s => I s ∧ Q a
  | .error _ s => I s

def Preserves (I : σ → Prop) (Q : α → Prop) (m : EStateM ε σ α) : Prop := ∀ s, I s → Ends I Q (m s)

/-- Turn the errors in `caught` into `none`. -/
def attempt (caught : ε → Bool) (m : EStateM ε σ α) : EStateM ε σ (Option α) := fun s =>
  match m s with
  | .ok a s => .ok (some a) s
  | .error e s => if caught e then .ok none s else .error e s

/-! ## Triples -/

/-- From a state of `P`, success ends in `Q` and failure in `E`. -/
def Triple (P : σ → Prop) (m : EStateM ε σ α) (Q : α → σ → Prop) (E : σ → Prop) : Prop :=
  ∀ s, P s →
    match m s with
    | .ok a t => Q a t
    | .error _ t => E t

namespace Triple

variable {P : σ → Prop} {Q : α → σ → Prop} {E : σ → Prop}

variable {m : EStateM ε σ α}

theorem of_run (ok : ∀ s a t, P s → m s = .ok a t → Q a t)
    (error : ∀ s e t, P s → m s = .error e t → E t) : Triple P m Q E := by
  intro s holds
  cases run : m s with
  | ok a t => exact ok s a t holds run
  | error e t => exact error s e t holds run

theorem ok (triple : Triple P m Q E) {s t : σ} {a : α} (holds : P s) (run : m s = .ok a t) :
    Q a t := by
  have ends := triple s holds
  rwa [run] at ends

theorem error (triple : Triple P m Q E) {s t : σ} {e : ε} (holds : P s) (run : m s = .error e t) :
    E t := by
  have ends := triple s holds
  rwa [run] at ends

theorem pure {a : α} (value : ∀ s, P s → Q a s) : Triple P (Pure.pure a : EStateM ε σ α) Q E :=
  fun s holds => value s holds

theorem throw (e : ε) (value : ∀ s, P s → E s) : Triple P (throw e : EStateM ε σ α) Q E :=
  fun s holds => value s holds

theorem bind {R : γ → σ → Prop} {m : EStateM ε σ γ} {k : γ → EStateM ε σ α} (first : Triple P m R E)
    (rest : ∀ c, Triple (R c) (k c) Q E) : Triple P (m >>= k) Q E := by
  intro s holds
  cases run : m s with
  | ok c t =>
    rw [bind_ok k run]
    exact rest c t (first.ok holds run)
  | error e t =>
    rw [bind_error k run]
    exact first.error holds run

theorem ite {p : Prop} [Decidable p] {n : EStateM ε σ α} (yes : Triple P m Q E)
    (no : Triple P n Q E) : Triple P (if p then m else n) Q E := by
  by_cases h : p
  · rw [if_pos h]; exact yes
  · rw [if_neg h]; exact no

theorem conseq {P' : σ → Prop} {Q' : α → σ → Prop} (triple : Triple P m Q E) (pre : ∀ s, P' s → P s)
    (post : ∀ a s, Q a s → Q' a s) : Triple P' m Q' E :=
  of_run (fun _ _ _ holds run => post _ _ (triple.ok (pre _ holds) run))
    fun _ _ _ holds run => triple.error (pre _ holds) run

theorem given {p : Prop} (rest : p → Triple P m Q E) : Triple (fun s => P s ∧ p) m Q E :=
  fun s holds => rest holds.2 s holds.1

theorem attempt (caught : ε → Bool) (triple : Triple P m Q E) :
    Triple P (Fallible.attempt caught m) (fun found s => found.elim (E s) fun a => Q a s) E := by
  intro s holds
  unfold Fallible.attempt
  cases run : m s with
  | ok a t => exact triple.ok holds run
  | error e t =>
    have ends := triple.error holds run
    by_cases yes : caught e = true
    · simp only [yes, if_true]
      exact ends
    · simp only [yes]
      exact ends

end Triple

/-! ## Invariants -/

namespace Preserves

variable {I : σ → Prop} {Q : α → Prop}

variable {m : EStateM ε σ α}

theorem iff_triple : Preserves I Q m ↔ Triple I m (fun a s => I s ∧ Q a) I := .rfl

theorem pure {a : α} (value : Q a) : Preserves I Q (Pure.pure a : EStateM ε σ α) :=
  fun _ inside => ⟨inside, value⟩

theorem throw (e : ε) : Preserves I Q (throw e : EStateM ε σ α) := fun _ inside => inside

theorem bind {P : γ → Prop} {m : EStateM ε σ γ} {k : γ → EStateM ε σ α} (first : Preserves I P m)
    (rest : ∀ c, P c → Preserves I Q (k c)) : Preserves I Q (m >>= k) :=
  Triple.bind (iff_triple.mp first) fun c => Triple.given (rest c)

theorem ite {p : Prop} [Decidable p] {n : EStateM ε σ α} (yes : p → Preserves I Q m)
    (no : ¬p → Preserves I Q n) : Preserves I Q (if p then m else n) := by
  by_cases h : p
  · rw [if_pos h]; exact yes h
  · rw [if_neg h]; exact no h

theorem weaken {Q' : α → Prop} (kept : Preserves I Q m) (post : ∀ a, Q a → Q' a) :
    Preserves I Q' m :=
  (iff_triple.mp kept).conseq (fun _ => id) fun a _ => .imp_right (post a)

theorem attempt (caught : ε → Bool) (kept : Preserves I Q m) :
    Preserves I (fun found => ∀ a, found = some a → Q a) (Fallible.attempt caught m) := by
  refine ((iff_triple.mp kept).attempt caught).conseq (fun _ => id) fun found s ends => ?_
  cases found with
  | none => exact ⟨ends, nofun⟩
  | some a => exact ⟨ends.1, fun b same => Option.some.inj same ▸ ends.2⟩

theorem zoom {J : τ → Prop} {get : τ → σ} {set : σ → τ → τ} (part : ∀ t, J t → I (get t))
    (whole : ∀ t s, J t → I s → J (set s t)) (kept : Preserves I Q m) :
    Preserves J Q (Fallible.zoom get set m) := by
  intro t inside
  have ends := kept (get t) (part t inside)
  unfold Fallible.zoom
  cases run : m (get t) with
  | ok a s => rw [run] at ends; exact ⟨whole t s inside ends.1, ends.2⟩
  | error e s => rw [run] at ends; exact whole t s inside ends

end Preserves

theorem Triple.preserves {I : σ → Prop} {m : EStateM ε σ α} (triple : Triple I m (fun _ => I) I) :
    Preserves I (fun _ => True) m :=
  triple.conseq (fun _ => id) fun _ _ inside => ⟨inside, trivial⟩

theorem Along.attempt {R : σ → σ → Prop} {m : EStateM ε σ α} (caught : ε → Bool)
    (inner : Along R m) : Along R (Fallible.attempt caught m) := by
  intro s
  have step := inner s
  unfold Fallible.attempt
  cases run : m s with
  | ok a t => rw [run] at step; exact step
  | error e t =>
    rw [run] at step
    dsimp only
    split <;> exact step

end Fallible
