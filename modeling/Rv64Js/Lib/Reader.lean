import Rv64Js.Lib.Fallible

/-! # Readers

A reader's state is the part of its input not yet read. `Reads e m written a`: behind `written` may
stand anything, and of `written` nothing may be missing. -/

set_option autoImplicit false

namespace Fallible

variable {ε β α γ : Type} {e : ε}

theorem bind_eq_error {σ : Type} {m : EStateM ε σ α} {k : α → EStateM ε σ γ} {s s' : σ}
    (run : (m >>= k) s = .error e s') :
    m s = .error e s' ∨ ∃ a t, m s = .ok a t ∧ k a t = .error e s' := by
  cases first : m s with
  | ok a t => exact Or.inr ⟨a, t, rfl, by rwa [bind_ok k first] at run⟩
  | error e' t =>
    rw [bind_error k first] at run
    cases run
    exact Or.inl rfl

structure Reads (e : ε) (m : EStateM ε (List β) α) (written : List β) (a : α) : Prop where
  whole : ∀ rest, m (written ++ rest) = .ok a rest
  cut : ∀ first, first <+: written → first ≠ written → ∃ rest, m first = .error e rest

namespace Reads

variable {m : EStateM ε (List β) α} {written : List β} {a : α}

theorem done (unread : ∀ s, m s = .ok a s) : Reads e m [] a :=
  ⟨unread, fun _ before short => absurd (List.prefix_nil.mp before) short⟩

theorem bind {k : α → EStateM ε (List β) γ} {next : List β} {c : γ} (head : Reads e m written a)
    (tail : Reads e (k a) next c) : Reads e (m >>= k) (written ++ next) c := by
  refine ⟨fun rest => ?_, fun first before short => ?_⟩
  · rw [List.append_assoc, bind_ok k (head.whole _), tail.whole]
  · -- the part missing begins inside `written` or behind it
    by_cases through : written <+: first
    · obtain ⟨more, rfl⟩ := through
      rw [bind_ok k (head.whole more)]
      exact tail.cut more ((List.prefix_append_right_inj written).mp before) fun all =>
        short (all ▸ rfl)
    · have inside : first <+: written :=
        (List.prefix_or_prefix_of_prefix before (List.prefix_append written next)).resolve_right
          through
      obtain ⟨rest, failed⟩ := head.cut first inside fun all => through (all ▸ List.prefix_rfl)
      exact ⟨rest, bind_error k failed⟩

theorem map (inner : Reads e m written a) (f : α → γ) :
    Reads e (m >>= fun a => pure (f a)) written (f a) := by
  rw [← List.append_nil written]
  exact inner.bind (done fun _ => rfl)

end Reads

end Fallible
