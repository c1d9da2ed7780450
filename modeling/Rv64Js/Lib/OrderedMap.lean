import Mathlib.Data.List.Basic

/-! # Ordered maps as lists

A map is a list of entries in the order of its keys. -/

set_option autoImplicit false

namespace Rv64Js.OrderedMap

variable {α β : Type*} [DecidableEq α]

def get : List (α × β) → α → Option β
  | [], _ => none
  | (k, v) :: rest, a => if k = a then some v else get rest a

def insert [LT α] [DecidableLT α] (a : α) (b : β) : List (α × β) → List (α × β)
  | [] => [(a, b)]
  | (k, v) :: rest =>
    if k = a then (a, b) :: rest
    else if a < k then (a, b) :: (k, v) :: rest
    else (k, v) :: insert a b rest

def remove (a : α) (m : List (α × β)) : List (α × β) := m.filter fun e => e.1 ≠ a

@[simp] theorem get_nil (a : α) : get ([] : List (α × β)) a = none := rfl

theorem get_insert [LT α] [DecidableLT α] (a : α) (b : β) (m : List (α × β)) (a' : α) :
    get (insert a b m) a' = if a' = a then some b else get m a' := by
  induction m with
  | nil => simp [insert, get, eq_comm]
  | cons e m ih =>
    obtain ⟨k, v⟩ := e
    by_cases found : k = a
    · subst found
      by_cases same : a' = k <;> simp [insert, get, same, eq_comm]
    · by_cases before : a < k
      · simp [insert, get, found, before, eq_comm]
      · simp only [insert, if_neg found, if_neg before, get, ih]
        by_cases same : a' = a
        · subst same
          simp [found]
        · simp [same]

theorem get_remove (a : α) (m : List (α × β)) (a' : α) :
    get (remove a m) a' = if a' = a then none else get m a' := by
  induction m with
  | nil => simp [remove]
  | cons e m ih =>
    obtain ⟨k, v⟩ := e
    by_cases gone : k = a
    · subst gone
      have skip : remove k ((k, v) :: m) = remove k m := by simp [remove]
      rw [skip, ih]
      by_cases same : a' = k
      · simp [same]
      · simp [same, get, Ne.symm same]
    · have keep : remove a ((k, v) :: m) = (k, v) :: remove a m := by simp [remove, gone]
      rw [keep, get, get, ih]
      by_cases same : a' = a
      · subst same
        simp [gone]
      · simp [same]

theorem mem_of_get {m : List (α × β)} {a : α} {b : β} (found : get m a = some b) : (a, b) ∈ m := by
  induction m with
  | nil => cases found
  | cons e m ih =>
    obtain ⟨k, v⟩ := e
    rw [get] at found
    split_ifs at found with same
    · cases found
      rw [same]
      exact List.mem_cons_self
    · exact List.mem_cons_of_mem _ (ih found)

theorem mem_insert [LT α] [DecidableLT α] {a : α} {b : β} {m : List (α × β)} {e : α × β}
    (mem : e ∈ insert a b m) : e = (a, b) ∨ e ∈ m := by
  induction m with
  | nil => exact Or.inl (List.mem_singleton.mp mem)
  | cons head m ih =>
    obtain ⟨k, v⟩ := head
    rw [insert] at mem
    split_ifs at mem
    · exact (List.mem_cons.mp mem).imp_right (List.mem_cons_of_mem _)
    · exact List.mem_cons.mp mem
    · rcases List.mem_cons.mp mem with rfl | old
      · exact Or.inr List.mem_cons_self
      · exact (ih old).imp_right (List.mem_cons_of_mem _)

theorem get_eq_none_iff (m : List (α × β)) : (∀ a, get m a = none) ↔ m = [] := by
  constructor
  · intro none
    cases m with
    | nil => rfl
    | cons e m =>
      have head := none e.1
      simp [get] at head
  · rintro rfl a
    rfl

end Rv64Js.OrderedMap
