import Mathlib.Data.List.Basic

/-! # Paths of the 9P server

Strings are lists of characters.  The server builds paths one component at a time: the root
is the empty path, every other path is a sequence of `/`-prefixed components. -/

set_option autoImplicit false

namespace Rv64Js.P9

open List

abbrev Str := List Char

def NUL : Char := Char.ofNat 0

/-- Containing directory of `path`: everything before its last slash; the root is its own
parent. -/
def parent (path : Str) : Str := ((path.reverse.dropWhile (· != '/')).drop 1).reverse

/-- Append one path component; `.` and `..` are resolved here. -/
def join (base name : Str) : Option Str :=
  if name = [] then none
  else if name = ['.'] then some base
  else if name = ['.', '.'] then some (parent base)
  else if '/' ∈ name ∨ NUL ∈ name then none
  else some (base ++ '/' :: name)

/-- Non-empty path components, accepting both `/a/b` and `a/b`. -/
def components (path : Str) : List Str :=
  (path.splitOn '/').filter fun c => !c.isEmpty && c != ['.']

/-! ## Normal form -/

/-- A name a path may be made of. -/
structure Component (c : Str) : Prop where
  nonempty : c ≠ []
  notDot : c ≠ ['.']
  notDotDot : c ≠ ['.', '.']
  noSlash : '/' ∉ c
  noNul : NUL ∉ c

def render (cs : List Str) : Str := cs.flatMap fun c => '/' :: c

/-- The root, or `/c1/…/cn` with every component a name. -/
def Normal (path : Str) : Prop := ∃ cs, (∀ c ∈ cs, Component c) ∧ path = render cs

theorem normal_root : Normal [] := ⟨[], by simp, rfl⟩

theorem render_snoc (cs : List Str) (c : Str) : render (cs ++ [c]) = render cs ++ '/' :: c := by
  simp [render]

theorem parent_append {base name : Str} (noSlash : '/' ∉ name) :
    parent (base ++ '/' :: name) = base := by
  have skip : ((base ++ '/' :: name).reverse.dropWhile (· != '/')) = '/' :: base.reverse := by
    rw [reverse_append, reverse_cons, append_assoc, dropWhile_append_of_pos]
    · simp
    · intro a mem
      rw [mem_reverse] at mem
      simpa using fun same : a = '/' => noSlash (same ▸ mem)
  rw [parent, skip]
  simp

theorem Normal.parent {path : Str} (normal : Normal path) : Normal (parent path) := by
  obtain ⟨cs, names, rfl⟩ := normal
  rcases eq_nil_or_concat cs with rfl | ⟨cs, c, rfl⟩
  · exact normal_root
  · rw [concat_eq_append] at names ⊢
    rw [render_snoc, parent_append (names c (by simp)).noSlash]
    exact ⟨cs, fun c mem => names c (mem_append_left _ mem), rfl⟩

theorem Normal.join {base name path : Str} (normal : Normal base)
    (joined : join base name = some path) : Normal path := by
  unfold P9.join at joined
  split_ifs at joined with empty dot dotdot bad
  · exact Option.some.inj joined ▸ normal
  · exact Option.some.inj joined ▸ normal.parent
  · obtain ⟨cs, names, rfl⟩ := normal
    rw [not_or] at bad
    have last : Component name := ⟨empty, dot, dotdot, bad.1, bad.2⟩
    refine ⟨cs ++ [name], forall_mem_append.mpr ⟨names, forall_mem_singleton.mpr last⟩, ?_⟩
    · rw [render_snoc]
      exact (Option.some.inj joined).symm

/-! ## Components of a path in normal form -/

theorem render_eq_intercalate {cs : List Str} (nonempty : cs ≠ []) :
    render cs = intercalate ['/'] ([] :: cs) := by
  induction cs with
  | nil => exact absurd rfl nonempty
  | cons c cs ih =>
    cases cs with
    | nil => simp [render, intercalate]
    | cons d cs =>
      have rest := ih (by simp)
      simp only [render, flatMap_cons, intercalate, intersperse, flatten] at rest ⊢
      rw [rest]
      simp

end Rv64Js.P9
