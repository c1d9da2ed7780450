import Mathlib.Logic.Relation

/-! # Fallible state computations

`EStateM ε σ` keeps the state a failed computation leaves behind. `Along R m`: `m`, successful or
not, only moves the state along the preorder `R`. `zoom` runs a computation on a part of the state.
`Matches Q R` compares computations on different state types. `Undoes R m` is about failed runs
only. -/

set_option autoImplicit false

namespace Fallible

variable {ε σ τ α γ : Type}

def finalState : EStateM.Result ε σ α → σ
  | .ok _ s => s
  | .error _ s => s

@[simp] theorem finalState_ok (a : α) (s : σ) : finalState (.ok a s : EStateM.Result ε σ α) = s :=
  rfl

@[simp] theorem finalState_error (e : ε) (s : σ) :
    finalState (.error e s : EStateM.Result ε σ α) = s := rfl

variable {m : EStateM ε σ α} {s s' : σ} {a : α} (k : α → EStateM ε σ γ)

theorem bind_ok (first : m s = .ok a s') : (m >>= k) s = k a s' := by
  change EStateM.bind m k s = _
  simp only [EStateM.bind, first]

variable {e : ε}

theorem bind_error (first : m s = .error e s') : (m >>= k) s = .error e s' := by
  change EStateM.bind m k s = _
  simp only [EStateM.bind, first]

theorem bind_eq_ok {k : α → EStateM ε σ γ} {c : γ}
    (run : (m >>= k) s = .ok c s') : ∃ a t, m s = .ok a t ∧ k a t = .ok c s' := by
  cases first : m s with
  | ok a t => exact ⟨a, t, rfl, by rwa [bind_ok k first] at run⟩
  | error e t =>
    rw [bind_error k first] at run
    cases run

theorem except_bind_ok {m : Except ε α} {k : α → Except ε γ} {c : γ} (run : m >>= k = .ok c) :
    ∃ a, m = .ok a ∧ k a = .ok c := by
  cases m with
  | error e => cases run
  | ok a => exact ⟨a, rfl, run⟩

theorem get_bind (k : σ → EStateM ε σ α) (s : σ) : ((get : EStateM ε σ σ) >>= k) s = k s s := rfl

def withError (e : ε) (m : EStateM ε σ α) : EStateM ε σ α := fun s =>
  match m s with
  | .ok a s => .ok a s
  | .error _ s => .error e s

def zoom (get : τ → σ) (set : σ → τ → τ) (m : EStateM ε σ α) : EStateM ε τ α := fun t =>
  match m (get t) with
  | .ok a s => .ok a (set s t)
  | .error e s => .error e (set s t)

variable {set : σ → τ → τ} {t : τ}

theorem zoom_ok {get : τ → σ} (run : m (get t) = .ok a s) : zoom get set m t = .ok a (set s t) := by
  simp only [zoom, run]

theorem zoom_error {get : τ → σ} (run : m (get t) = .error e s) :
    zoom get set m t = .error e (set s t) := by
  simp only [zoom, run]

theorem zoom_eq_ok {get : τ → σ} {t' : τ}
    (run : zoom get set m t = .ok a t') : ∃ s, m (get t) = .ok a s ∧ t' = set s t := by
  unfold zoom at run
  cases inner : m (get t) with
  | ok b s =>
    rw [inner] at run
    cases run
    exact ⟨s, rfl, rfl⟩
  | error e s =>
    rw [inner] at run
    cases run

/-- `m` moves the state along `R`, successful or not. -/
def Along (R : σ → σ → Prop) (m : EStateM ε σ α) : Prop := ∀ s, R s (finalState (m s))

namespace Along

variable {R : σ → σ → Prop}

theorem pure (refl : ∀ s, R s s) (a : α) : Along R (Pure.pure a : EStateM ε σ α) := fun s => refl s

theorem throw (refl : ∀ s, R s s) (e : ε) : Along R (throw e : EStateM ε σ α) := fun s => refl s

variable {m : EStateM ε σ α} {k : α → EStateM ε σ γ}

theorem bind (trans : ∀ a b c, R a b → R b c → R a c) (first : Along R m)
    (rest : ∀ a, Along R (k a)) : Along R (m >>= k) := by
  intro s
  have head := first s
  cases run : m s with
  | ok a s' =>
    rw [run] at head
    rw [bind_ok k run]
    exact trans _ _ _ head (rest a s')
  | error e s' =>
    rw [run] at head
    rw [bind_error k run]
    exact head

theorem bind_run (raised : ∀ s e s', m s = .error e s' → R s s')
    (rest : ∀ s a s', m s = .ok a s' → R s (finalState (k a s'))) : Along R (m >>= k) := by
  intro s
  cases run : m s with
  | ok a s' => rw [bind_ok k run]; exact rest s a s' run
  | error e s' => rw [bind_error k run]; exact raised s e s' run

theorem map (f : α → γ) (inner : Along R m) : Along R (m >>= fun a => Pure.pure (f a)) := by
  intro s
  have step := inner s
  cases run : m s with
  | ok a s' => rw [run] at step; rw [bind_ok _ run]; exact step
  | error e s' => rw [run] at step; rw [bind_error _ run]; exact step

theorem get (refl : ∀ s, R s s) : Along R (MonadState.get : EStateM ε σ σ) := fun s => refl s

theorem ite {p : Prop} [Decidable p] {n : EStateM ε σ α} (yes : Along R m) (no : Along R n) :
    Along R (if p then m else n) := by
  by_cases h : p
  · rw [if_pos h]; exact yes
  · rw [if_neg h]; exact no

theorem of_ok (inner : Along R m) {s s' : σ} {a : α} (run : m s = .ok a s') : R s s' := by
  have step := inner s
  rwa [run] at step

theorem withError {e : ε} (inner : Along R m) : Along R (Fallible.withError e m) := by
  intro s
  have step := inner s
  unfold Fallible.withError
  cases run : m s <;> rw [run] at step <;> exact step

theorem zoom {Q : τ → τ → Prop} {get : τ → σ} {set : σ → τ → τ}
    (lift : ∀ t s, R (get t) s → Q t (set s t)) (inner : Along R m) :
    Along Q (Fallible.zoom get set m) := by
  intro t
  have step := inner (get t)
  unfold Fallible.zoom
  cases run : m (get t) with
  | ok a s => rw [run] at step; exact lift t s step
  | error e s => rw [run] at step; exact lift t s step

end Along

/-! ## Failed runs -/

/-- A failed run of `m` has moved the state along `R` only; a successful one is free. -/
def Undoes (R : σ → σ → Prop) (m : EStateM ε σ α) : Prop := ∀ s e s', m s = .error e s' → R s s'

def Finishes (m : EStateM ε σ α) : Prop := ∀ s, ∃ a s', m s = .ok a s'

namespace Finishes

theorem pure (a : α) : Finishes (Pure.pure a : EStateM ε σ α) := fun s => ⟨a, s, rfl⟩

theorem bind {m : EStateM ε σ α} {k : α → EStateM ε σ γ} (first : Finishes m)
    (rest : ∀ a, Finishes (k a)) : Finishes (m >>= k) := by
  intro s
  obtain ⟨a, s', run⟩ := first s
  rw [bind_ok k run]
  exact rest a s'

theorem ite {p : Prop} [Decidable p] {m n : EStateM ε σ α} (yes : Finishes m) (no : Finishes n) :
    Finishes (if p then m else n) := by
  by_cases h : p
  · rw [if_pos h]; exact yes
  · rw [if_neg h]; exact no

end Finishes

namespace Undoes

variable {R Q : σ → σ → Prop}

variable {m : EStateM ε σ α}

theorem of_along (along : Along R m) : Undoes R m := by
  intro s e s' raised
  have step := along s
  rwa [raised] at step

theorem of_finishes (finishes : Finishes m) : Undoes R m := by
  intro s e s' raised
  obtain ⟨a, s'', run⟩ := finishes s
  rw [raised] at run
  cases run

theorem after (trans : ∀ a b c, Q a b → R b c → R a c) (widen : ∀ a b, Q a b → R a b)
    {k : α → EStateM ε σ γ} (first : Along Q m) (rest : ∀ a, Undoes R (k a)) :
    Undoes R (m >>= k) := by
  intro s e s' raised
  have head := first s
  cases run : m s with
  | ok a t =>
    rw [run] at head
    rw [bind_ok k run] at raised
    exact trans _ _ _ head (rest a t e s' raised)
  | error e' t =>
    rw [run] at head
    rw [bind_error k run] at raised
    cases raised
    exact widen _ _ head

theorem before {k : α → EStateM ε σ γ} (first : Undoes R m) (rest : ∀ a, Finishes (k a)) :
    Undoes R (m >>= k) := by
  intro s e s' raised
  cases run : m s with
  | ok a t =>
    rw [bind_ok k run] at raised
    obtain ⟨c, t', run'⟩ := rest a t
    rw [raised] at run'
    cases run'
  | error e' t =>
    rw [bind_error k run] at raised
    cases raised
    exact first s _ _ run

theorem ite {p : Prop} [Decidable p] {n : EStateM ε σ α} (yes : Undoes R m) (no : Undoes R n) :
    Undoes R (if p then m else n) := by
  by_cases h : p
  · rw [if_pos h]; exact yes
  · rw [if_neg h]; exact no

end Undoes

def Returns (P : α → Prop) (m : EStateM ε σ α) : Prop := ∀ s a s', m s = .ok a s' → P a

namespace Returns

variable {P : α → Prop}

theorem pure {a : α} (value : P a) : Returns P (Pure.pure a : EStateM ε σ α) := by
  intro s a' s' run
  cases run
  exact value

theorem throw (e : ε) : Returns P (throw e : EStateM ε σ α) := by
  intro s a s' run
  cases run

theorem bind {m : EStateM ε σ γ} {k : γ → EStateM ε σ α} (rest : ∀ c, Returns P (k c)) :
    Returns P (m >>= k) := by
  intro s a s' run
  cases first : m s with
  | ok c t =>
    rw [bind_ok k first] at run
    exact rest c t a s' run
  | error e t =>
    rw [bind_error k first] at run
    cases run

theorem ite {p : Prop} [Decidable p] {m n : EStateM ε σ α} (yes : Returns P m)
    (no : Returns P n) : Returns P (if p then m else n) := by
  by_cases h : p
  · rw [if_pos h]; exact yes
  · rw [if_neg h]; exact no

end Returns

/-- Two results agree: values related by `Q`, or the same error, and states related by `R`. -/
inductive Matches (Q : α → γ → Prop) (R : σ → τ → Prop) :
    EStateM.Result ε σ α → EStateM.Result ε τ γ → Prop
  | ok {a : α} {c : γ} {s : σ} {t : τ} (value : Q a c) (state : R s t) :
      Matches Q R (.ok a s) (.ok c t)
  | error {e : ε} {s : σ} {t : τ} (state : R s t) : Matches Q R (.error e s) (.error e t)

namespace Matches

variable {α' γ' : Type} {Q : α → γ → Prop} {Q' : α' → γ' → Prop} {R : σ → τ → Prop}

variable {s : σ} {t : τ}

theorem bind {m : EStateM ε σ α} {n : EStateM ε τ γ} {k : α → EStateM ε σ α'}
    {l : γ → EStateM ε τ γ'} (first : Matches Q R (m s) (n t))
    (rest : ∀ a c s' t', m s = .ok a s' → n t = .ok c t' → Q a c → R s' t' →
      Matches Q' R (k a s') (l c t')) : Matches Q' R ((m >>= k) s) ((n >>= l) t) := by
  cases run₁ : m s with
  | ok a s' =>
    cases run₂ : n t with
    | ok c t' =>
      rw [run₁, run₂] at first
      cases first with
      | ok value state =>
        rw [bind_ok k run₁, bind_ok l run₂]
        exact rest a c s' t' run₁ run₂ value state
    | error e t' =>
      rw [run₁, run₂] at first
      cases first
  | error e s' =>
    cases run₂ : n t with
    | ok c t' =>
      rw [run₁, run₂] at first
      cases first
    | error e' t' =>
      rw [run₁, run₂] at first
      cases first with
      | error state =>
        rw [bind_error k run₁, bind_error l run₂]
        exact .error state

theorem pure {a : α} {c : γ} (value : Q a c) (state : R s t) :
    Matches Q R ((Pure.pure a : EStateM ε σ α) s) ((Pure.pure c : EStateM ε τ γ) t) :=
  .ok value state

variable {r : EStateM.Result ε σ α}

theorem mapRight {Q' : α → γ' → Prop} {n : EStateM ε τ γ} {f : γ → γ'}
    (matched : Matches Q R r (n t)) (reshape : ∀ a c, Q a c → Q' a (f c)) :
    Matches Q' R r ((n >>= fun c => Pure.pure (f c)) t) := by
  cases run : n t with
  | ok c t' =>
    rw [run] at matched
    rw [bind_ok _ run]
    cases matched with
    | ok value state => exact .ok (reshape _ _ value) state
  | error e t' =>
    rw [run] at matched
    rw [bind_error _ run]
    cases matched with
    | error state => exact .error state

theorem ok_right {c : γ} (matched : Matches Q R r (.ok c t)) :
    ∃ a s, r = .ok a s ∧ Q a c ∧ R s t := by
  cases matched with
  | ok value state => exact ⟨_, _, rfl, value, state⟩

theorem error_right {e : ε} (matched : Matches Q R r (.error e t)) :
    ∃ s, r = .error e s ∧ R s t := by
  cases matched with
  | error state => exact ⟨_, rfl, state⟩

theorem zoom {π : Type} {getσ : σ → π} {setσ : π → σ → σ} {getτ : τ → π} {setτ : π → τ → τ}
    (op : EStateM ε π α) (part : getσ s = getτ t) (keep : ∀ p, R (setσ p s) (setτ p t)) :
    Matches Eq R (Fallible.zoom getσ setσ op s) (Fallible.zoom getτ setτ op t) := by
  unfold Fallible.zoom
  rw [part]
  cases op (getτ t) with
  | ok a p => exact .ok rfl (keep p)
  | error e p => exact .error (keep p)

end Matches

/-- Two computations on one state run alike; only their values differ, by `Q`. -/
def RunsLike (Q : α → γ → Prop) (m : EStateM ε σ α) (n : EStateM ε σ γ) : Prop :=
  ∀ s, Matches Q Eq (m s) (n s)

namespace RunsLike

variable {α' : Type} {Q : α → γ → Prop}

theorem pure {a : α} {c : γ} (value : Q a c) :
    RunsLike Q (Pure.pure a : EStateM ε σ α) (Pure.pure c) := fun _ => Matches.ok value rfl

theorem throw (e : ε) : RunsLike Q (throw e : EStateM ε σ α) (throw e) := fun _ => .error rfl

theorem bind {m : EStateM ε σ α'} {k : α' → EStateM ε σ α} {l : α' → EStateM ε σ γ}
    (rest : ∀ a, RunsLike Q (k a) (l a)) : RunsLike Q (m >>= k) (m >>= l) := by
  intro s
  cases run : m s with
  | ok a s' =>
    rw [bind_ok k run, bind_ok l run]
    exact rest a s'
  | error e s' =>
    rw [bind_error k run, bind_error l run]
    exact .error rfl

theorem along {R : σ → σ → Prop} {m : EStateM ε σ α} {n : EStateM ε σ γ} (runs : RunsLike Q m n)
    (inner : Along R n) : Along R m := by
  intro s
  have step := inner s
  have matched := runs s
  cases run : n s with
  | ok c s' =>
    rw [run] at matched step
    obtain ⟨a, s'', run', -, rfl⟩ := matched.ok_right
    rwa [run']
  | error e s' =>
    rw [run] at matched step
    obtain ⟨s'', run', rfl⟩ := matched.error_right
    rwa [run']

theorem throw_bind (e : ε) (k : α' → EStateM ε σ γ) :
    RunsLike Q (MonadExcept.throw e : EStateM ε σ α) (MonadExcept.throw e >>= k) :=
  fun _ => .error rfl

theorem ite {p : Prop} [Decidable p] {m m' : EStateM ε σ α} {n n' : EStateM ε σ γ}
    (yes : RunsLike Q m n) (no : RunsLike Q m' n') :
    RunsLike Q (if p then m else m') (if p then n else n') := by
  by_cases h : p
  · rw [if_pos h, if_pos h]; exact yes
  · rw [if_neg h, if_neg h]; exact no

theorem map {Q' : α → α' → Prop} {m : EStateM ε σ α} {n : EStateM ε σ γ} {f : γ → α'}
    (inner : RunsLike Q m n) (reshape : ∀ a c, Q a c → Q' a (f c)) :
    RunsLike Q' m (n >>= fun c => Pure.pure (f c)) :=
  fun s => (inner s).mapRight reshape

end RunsLike

end Fallible
