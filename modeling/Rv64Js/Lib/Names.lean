import Mathlib.Data.List.Basic
import Mathlib.Logic.Function.Basic

/-! # Names in a labelled graph

A directory tree is a graph with labelled edges; a path names the node it leads to. What changing
one edge does to the names follows when the node it leaves has one path only. -/

set_option autoImplicit false

namespace Rv64Js.Names

variable {ν α : Type*}

def walk (child : ν → α → Option ν) : ν → List α → Option ν
  | i, [] => some i
  | i, a :: path => (child i a).bind fun j => walk child j path

variable {child : ν → α → Option ν} (i : ν)

@[simp] theorem walk_nil : walk child i [] = some i := rfl

theorem walk_cons (a : α) (path : List α) :
    walk child i (a :: path) = (child i a).bind fun j => walk child j path := rfl

theorem walk_append (p q : List α) :
    walk child i (p ++ q) = (walk child i p).bind fun j => walk child j q := by
  induction p generalizing i with
  | nil => rfl
  | cons a p ih =>
    rw [List.cons_append, walk_cons, walk_cons]
    cases child i a with
    | none => rfl
    | some j => exact ih j

theorem walk_snoc (p : List α) (a : α) :
    walk child i (p ++ [a]) = (walk child i p).bind fun j => child j a := by
  rw [walk_append]
  cases walk child i p with
  | none => rfl
  | some j => cases h : child j a <;> simp [walk_cons, h]

variable {i : ν}

theorem walk_of_append {j : ν} {p q : List α} (leads : walk child i (p ++ q) = some j) :
    ∃ k, walk child i p = some k ∧ walk child k q = some j := by
  rw [walk_append] at leads
  exact Option.bind_eq_some_iff.mp leads

theorem walk_leaf (leaf : ∀ a, child i a = none) {p : List α} (nonempty : p ≠ []) :
    walk child i p = none := by
  cases p with
  | nil => exact absurd rfl nonempty
  | cons a p => rw [walk_cons, leaf a]; rfl

variable [DecidableEq ν] [DecidableEq α]

def setEdge (child : ν → α → Option ν) (d : ν) (n : α) (v : Option ν) : ν → α → Option ν :=
  fun i a => if i = d ∧ a = n then v else child i a

theorem walk_setEdge_other {d : ν} {n : α} {v : Option ν} {path : List α}
    (other : ∀ p, p ++ [n] <+: path → walk child i p ≠ some d) :
    walk (setEdge child d n v) i path = walk child i path := by
  induction path generalizing i with
  | nil => rfl
  | cons a path ih =>
    have same : setEdge child d n v i a = child i a := by
      refine if_neg fun taken => other [] ?_ (by rw [taken.1]; rfl)
      rw [taken.2]
      exact ⟨path, rfl⟩
    rw [walk_cons, walk_cons, same]
    cases step : child i a with
    | none => rfl
    | some j =>
      refine ih fun p before leads => other (a :: p) ?_ (by rw [walk_cons, step]; exact leads)
      exact List.cons_prefix_cons.mpr ⟨rfl, before⟩

theorem walk_setEdge_apart {d : ν} {n : α} {v : Option ν} (apart : ∀ p, walk child i p ≠ some d)
    (path : List α) : walk (setEdge child d n v) i path = walk child i path :=
  walk_setEdge_other fun p _ => apart p

section

variable {root d : ν} {at' : List α} (only : ∀ p, walk child root p = some d ↔ p = at')
include only

theorem walk_setEdge_elsewhere {n : α} {v : Option ν} {path : List α}
    (elsewhere : ¬at' ++ [n] <+: path) :
    walk (setEdge child d n v) root path = walk child root path :=
  walk_setEdge_other fun p before leads => elsewhere ((only p).mp leads ▸ before)

theorem walk_setEdge_below (n : α) (v : Option ν) (path : List α) :
    walk (setEdge child d n v) root (at' ++ n :: path) = v.bind fun j =>
      walk (setEdge child d n v) j path := by
  have up : walk (setEdge child d n v) root at' = some d := by
    rw [walk_setEdge_elsewhere only]
    · exact (only at').mpr rfl
    · intro longer
      have le := longer.length_le
      rw [List.length_append, List.length_singleton] at le
      omega
  rw [walk_append, up, Option.bind_some, walk_cons]
  simp [setEdge]

end

end Rv64Js.Names
