import Mathlib.Data.List.Basic
import Mathlib.Data.List.Nodup

/-! # Lists with distinct keys

A table kept as a list: rows are found by key, replaced in place, removed and appended. -/

set_option autoImplicit false

namespace Rv64Js.Keyed

open List

variable {α κ : Type*} [DecidableEq κ] (key : α → κ)

def lookup (l : List α) (k : κ) : Option α := l.find? fun a => key a = k

variable {key}

variable {l : List α} {k : κ} {a : α}

theorem lookup_some (found : lookup key l k = some a) : a ∈ l ∧ key a = k := by
  have holds := find?_some found
  exact ⟨mem_of_find?_eq_some found, by simpa using holds⟩

theorem lookup_none : lookup key l k = none ↔ k ∉ l.map key := by
  simp [lookup]

theorem lookup_of_mem (nodup : (l.map key).Nodup) (mem : a ∈ l) :
    lookup key l (key a) = some a := by
  induction l with
  | nil => cases mem
  | cons b l ih =>
    rw [map_cons, nodup_cons] at nodup
    rcases mem_cons.mp mem with rfl | mem
    · simp [lookup]
    · have apart : key b ≠ key a := fun same => nodup.1 (same ▸ mem_map_of_mem mem)
      simpa [lookup, apart] using ih nodup.2 mem

theorem lookup_set (nodup : (l.map key).Nodup) {i : Nat} {b : α} (found : l[i]? = some a)
    (same : key b = key a) (k : κ) :
    lookup key (l.set i b) k = if key a = k then some b else lookup key l k := by
  induction l generalizing i with
  | nil => simp at found
  | cons c l ih =>
    rw [map_cons, nodup_cons] at nodup
    cases i with
    | zero =>
      obtain rfl : c = a := by simpa using found
      by_cases hit : key c = k <;> simp [lookup, same, hit]
    | succ i =>
      have found' : l[i]? = some a := by simpa using found
      have apart : key c ≠ key a := fun eq =>
        nodup.1 (eq ▸ mem_map_of_mem (mem_of_getElem? found'))
      have rest := ih nodup.2 found'
      by_cases hit : key c = k
      · have other : key a ≠ k := fun eq => apart (hit.trans eq.symm)
        simp [lookup, hit, other]
      · simpa [lookup, hit] using rest

theorem lookup_eraseIdx (nodup : (l.map key).Nodup) {i : Nat} (found : l[i]? = some a) (k : κ) :
    lookup key (l.eraseIdx i) k = if key a = k then none else lookup key l k := by
  induction l generalizing i with
  | nil => simp at found
  | cons c l ih =>
    rw [map_cons, nodup_cons] at nodup
    cases i with
    | zero =>
      obtain rfl : c = a := by simpa using found
      by_cases hit : key c = k
      · have gone : lookup key l k = none := lookup_none.mpr (hit ▸ nodup.1)
        simpa [hit] using gone
      · simp [lookup, hit]
    | succ i =>
      have found' : l[i]? = some a := by simpa using found
      have apart : key c ≠ key a := fun eq =>
        nodup.1 (eq ▸ mem_map_of_mem (mem_of_getElem? found'))
      have rest := ih nodup.2 found'
      by_cases hit : key c = k
      · have other : key a ≠ k := fun eq => apart (hit.trans eq.symm)
        simp [lookup, hit, other]
      · simpa [lookup, hit] using rest

theorem lookup_append {b : α} (fresh : key b ∉ l.map key) (k : κ) :
    lookup key (l ++ [b]) k = if key b = k then some b else lookup key l k := by
  by_cases hit : key b = k
  · have absent : l.find? (fun a => key a = k) = none := lookup_none.mpr (hit ▸ fresh)
    simp [lookup, find?_append, absent, hit]
  · simp [lookup, find?_append, hit]

variable {f : α → α}

theorem lookup_map (same : ∀ a, key (f a) = key a) (l : List α) (k : κ) :
    lookup key (l.map f) k = (lookup key l k).map f := by
  have keyed : (fun a => decide (key a = k)) ∘ f = fun a => decide (key a = k) := by
    funext a
    rw [Function.comp_apply, same]
  rw [lookup, List.find?_map, keyed, lookup]

variable (key)

def adjust (l : List α) (k : κ) (f : α → α) : List α :=
  match l.findIdx? fun a => key a = k with
  | none => l
  | some i => l.modify i f

variable {key}

theorem adjust_cons (a : α) (l : List α) (k : κ) (f : α → α) :
    adjust key (a :: l) k f = if key a = k then f a :: l else a :: adjust key l k f := by
  by_cases hit : key a = k
  · simp [adjust, findIdx?_cons, hit]
  · simp only [adjust, findIdx?_cons, hit, decide_false, if_false]
    cases l.findIdx? fun a => key a = k <;> simp

theorem map_adjust (same : ∀ a, key (f a) = key a) (l : List α) (k : κ) :
    (adjust key l k f).map key = l.map key := by
  induction l with
  | nil => rfl
  | cons a l ih => by_cases hit : key a = k <;> simp [adjust_cons, hit, same, ih]

theorem lookup_adjust (same : ∀ a, key (f a) = key a) (l : List α) (k k' : κ) :
    lookup key (adjust key l k f) k' =
      if k' = k then (lookup key l k').map f else lookup key l k' := by
  induction l with
  | nil => simp [adjust, lookup]
  | cons a l ih =>
    rw [adjust_cons]
    by_cases hit : key a = k
    · by_cases asked : k' = k
      · simp [lookup, hit, asked, same]
      · have other : key a ≠ k' := fun eq => asked (eq.symm.trans hit)
        have other' : k ≠ k' := fun eq => asked eq.symm
        simp [lookup, hit, asked, same, other']
    · by_cases found : key a = k'
      · have asked : k' ≠ k := fun eq => hit (found.trans eq)
        simp [lookup, found, asked]
      · simpa [lookup, hit, found] using ih

/-! ## Tables as partial functions -/

def rows (keys : List κ) (f : κ → Option α) : List α := keys.filterMap f

omit [DecidableEq κ] in
theorem rows_empty (keys : List κ) : rows keys (fun _ => (none : Option α)) = [] := by
  simp [rows]

variable {f : κ → Option α} {keys : List κ}

omit [DecidableEq κ] in
theorem rows_congr {g : κ → Option α} (same : ∀ k ∈ keys, f k = g k) :
    rows keys f = rows keys g := filterMap_congr same

theorem rows_insert (nodup : keys.Nodup) (known : k ∈ keys) (free : f k = none) (a : α) :
    (rows keys fun t => if t = k then some a else f t).Perm (a :: rows keys f) := by
  induction keys with
  | nil => cases known
  | cons t keys ih =>
    rw [nodup_cons] at nodup
    rcases mem_cons.mp known with rfl | known
    · have rest : rows keys (fun t => if t = k then some a else f t) = rows keys f :=
        rows_congr fun t member => if_neg (ne_of_mem_of_not_mem member nodup.1)
      simpa [rows, free] using Perm.of_eq (congrArg (a :: ·) rest)
    · have other : t ≠ k := fun same => nodup.1 (same ▸ known)
      have rest := ih nodup.2 known
      cases row : f t with
      | none => simpa [rows, other, row] using rest
      | some b =>
        have swapped : (b :: rows keys fun t => if t = k then some a else f t).Perm
            (a :: b :: rows keys f) :=
          (rest.cons b).trans (.swap a b _)
        simpa [rows, other, row] using swapped

theorem rows_remove (nodup : keys.Nodup) (known : k ∈ keys) (found : f k = some a) :
    (rows keys f).Perm (a :: rows keys fun t => if t = k then none else f t) := by
  have back : (fun t => if t = k then some a else if t = k then none else f t) = f := by
    funext t
    by_cases same : t = k
    · rw [if_pos same, same, found]
    · rw [if_neg same, if_neg same]
  have inserted :=
    rows_insert nodup known (f := fun t => if t = k then none else f t) (if_pos rfl) a
  rwa [back] at inserted

end Rv64Js.Keyed
