import Rv64Js.P9.MemFs

/-! # The tree of named files

Paths name objects, some objects have several names. `Effect` says what a call does to the tree when
POSIX allows it. -/

set_option autoImplicit false

namespace Rv64Js.P9

open Fallible
open Names (walk setEdge)

/-! ## Trees -/

inductive Obj where
  | dir
  | file (data : List Byte)
  | link (target : Str)
  | special (rdev : BitVec 64)
  | gone
deriving DecidableEq

/-- Which object a path names; names of one object share its number. -/
abbrev Tree := List Str → Option (Nat × Obj)

namespace Tree

def IsDir (t : Tree) (p : List Str) : Prop := ∃ i, t p = some (i, .dir)

def Free (t : Tree) (p : List Str) : Prop := p ≠ [] ∧ t p = none ∧ t.IsDir p.dropLast

def Empty (t : Tree) (p : List Str) : Prop := ∀ n, t (p ++ [n]) = none

def Creates (t : Tree) (p : List Str) (o : Obj) (t' : Tree) : Prop :=
  t.Free p ∧ ∃ i, (∀ q o', t q ≠ some (i, o')) ∧ t' = Function.update t p (some (i, o))

/-- The contents of a file under all its names. -/
def setFile (t : Tree) (i : Nat) (data : List Byte) : Tree := fun p =>
  (t p).map fun e => if e.1 = i then (i, .file data) else e

/-- Everything at or below `p` moves to `q`. -/
def move (t : Tree) (p q : List Str) : Tree := fun r =>
  if q <+: r then t (p ++ r.drop q.length) else if p <+: r then none else t r

def Within (t : Tree) (bound : Nat) : Prop := ∀ p i d, t p = some (i, .file d) → d.length < bound

/-- What `rename` does to the object that has the new name already. -/
def Replaces (t : Tree) (i : Nat) (o : Obj) (q : List Str) : Option (Nat × Obj) → Prop
  | none => True
  | some (j, o') => j ≠ i ∧ (if o = .dir then o' = .dir ∧ t.Empty q else o' ≠ .dir)

variable {t : Tree} {bound : Nat}

theorem Within.update (within : t.Within bound) (p : List Str) {v : Option (Nat × Obj)}
    (short : ∀ i d, v = some (i, .file d) → d.length < bound) :
    Within (Function.update t p v) bound := by
  intro q i d at'
  by_cases here : q = p
  · subst here
    exact short i d (by rwa [Function.update_self] at at')
  · exact within q i d (by rwa [Function.update_of_ne here] at at')

theorem Within.setFile (within : t.Within bound) (i : Nat) {data : List Byte}
    (short : data.length < bound) : (t.setFile i data).Within bound := by
  intro q j d at'
  obtain ⟨e, old, same⟩ := Option.map_eq_some_iff.mp at'
  split at same
  · cases same
    exact short
  · exact within q j d (same ▸ old)

theorem Within.move (within : t.Within bound) (p q : List Str) : (t.move p q).Within bound := by
  intro r i d at'
  unfold Tree.move at at'
  split_ifs at at'
  · exact within _ i d at'
  · exact within r i d at'

theorem Within.creates (within : t.Within bound) {p : List Str} {o : Obj} {t' : Tree}
    (short : ∀ d, o = .file d → d.length < bound) (creates : t.Creates p o t') :
    t'.Within bound := by
  obtain ⟨-, i, -, rfl⟩ := creates
  refine within.update p fun j d new => short d ?_
  cases new
  rfl

end Tree

/-- Contents after a write; a write of nothing changes nothing. -/
def written (d : List Byte) (start : Nat) (data : List Byte) : List Byte :=
  if data = [] then d
  else MemFs.overwrite (MemFs.resize d (max d.length (start + data.length))) start data

/-- The effect POSIX gives a call that succeeds. -/
def Effect (t : Tree) : Op → Tree → Prop
  | .create path _ _, t' => t.Creates (components path) (.file []) t'
  | .mkdir path _, t' => t.Creates (components path) .dir t'
  | .symlink path target, t' => t.Creates (components path) (.link target) t'
  | .mknod path _ major minor, t' => t.Creates (components path) (.special (makedev major minor)) t'
  | .hardlink existing new, t' =>
    ∃ i o, t (components existing) = some (i, o) ∧ o ≠ .dir ∧ t.Free (components new) ∧
      t' = Function.update t (components new) (some (i, o))
  | .remove path isDir, t' =>
    ∃ i o, t (components path) = some (i, o) ∧ components path ≠ [] ∧
      (if isDir then o = .dir ∧ t.Empty (components path) else o ≠ .dir) ∧
      t' = Function.update t (components path) none
  | .rename src dst, t' =>
    ∃ i o, t (components src) = some (i, o) ∧ components src ≠ [] ∧ components dst ≠ [] ∧
      t.IsDir (components dst).dropLast ∧
      ¬(components src <+: components dst ∧ components src ≠ components dst) ∧
      -- two names of one object: nothing happens
      ((t (components dst) = some (i, o) ∧ t' = t) ∨
        (t.Replaces i o (components dst) (t (components dst)) ∧
          t' = t.move (components src) (components dst)))
  | .write path offset data, t' =>
    ∃ i d, t (components path) = some (i, .file d) ∧ t' = t.setFile i (written d offset.toNat data)
  | .truncate path size, t' =>
    ∃ i d, t (components path) = some (i, .file d) ∧ t' = t.setFile i (MemFs.resize d size.toNat)
  | .openFile path flags, t' =>
    ∃ i o, t (components path) = some (i, o) ∧
      match o with
      | .file _ => t' = if flags &&& O_TRUNC ≠ 0 then t.setFile i [] else t
      | _ => t' = t
  | _, t' => t' = t

/-! ## The tree of the in-memory backend -/

def Body.obj : Body → Obj
  | .dir _ => .dir
  | .file d => .file d
  | .link t => .link t
  | .special rdev => .special rdev
  | .freed => .gone

def Body.isDir : Body → Bool
  | .dir _ => true
  | _ => false

def Body.isFull : Body → Bool
  | .dir (_ :: _) => true
  | _ => false

namespace MemFs

def node (fs : MemFs) (p : List Str) : Option Nat := walk fs.childIdx 0 p

def tree (fs : MemFs) : Tree := fun p => (fs.node p).map fun i => (i, (fs.body i).obj)

/-- The directories form a tree and no node with a name is a tombstone. -/
structure WellFormed (fs : MemFs) : Prop where
  root : (fs.body 0).isDir = true
  live : ∀ p i, fs.node p = some i → fs.body i ≠ .freed
  single : ∀ p q i, fs.node p = some i → fs.node q = some i → (fs.body i).isDir = true → p = q

variable {fs : MemFs} {i : Nat}

theorem descend_ok {j : Nat} {cs : List Str} :
    fs.descend i cs = .ok j ↔ walk fs.childIdx i cs = some j := by
  induction cs generalizing i with
  | nil => simp [descend]
  | cons c cs ih =>
    rw [descend, Names.walk_cons, childIdx]
    cases fs.body i with
    | dir m =>
      cases found : OrderedMap.get m c with
      | none => simp [found]
      | some k => simpa [found] using ih
    | _ => simp

theorem lookup_ok {path : Str} : fs.lookup path = .ok i ↔ fs.node (components path) = some i :=
  descend_ok

theorem split_ok {path : Str} {d : Nat} {n : Str} :
    fs.split path = .ok (d, n) ↔ ∃ pd, components path = pd ++ [n] ∧ fs.node pd = some d := by
  unfold split
  rcases List.eq_nil_or_concat (components path) with nil | ⟨pd, m, parts⟩
  · simp [nil]
  · rw [parts, List.concat_eq_append, List.getLast?_append, List.dropLast_concat]
    simp only [List.getLast?_singleton, Option.some_or]
    cases found : fs.descend 0 pd with
    | error e =>
      have none : fs.node pd ≠ some d := fun some => by
        rw [descend_ok.mpr some] at found
        cases found
      simp only [Except.map, reduceCtorEq, false_iff, not_exists]
      rintro pd' ⟨same, some⟩
      obtain ⟨rfl, -⟩ := List.append_inj' same rfl
      exact none some
    | ok k =>
      have at' := descend_ok.mp found
      constructor
      · intro eq
        cases eq
        exact ⟨pd, rfl, at'⟩
      · rintro ⟨pd', same, some⟩
        obtain ⟨rfl, last⟩ := List.append_inj' same rfl
        cases last
        have : k = d := Option.some.inj (at'.symm.trans some)
        rw [this]
        rfl

/-! ## Names and contents after an update -/

theorem childIdx_congr {fs' : MemFs} (bodies : fs'.body = fs.body) :
    fs'.childIdx = fs.childIdx := by
  funext i n
  rw [childIdx, childIdx, bodies]

theorem childIdx_setFile {fs' : MemFs} {d d' : List Byte} (file : fs.body i = .file d)
    (bodies : ∀ j, fs'.body j = if j = i then .file d' else fs.body j) :
    fs'.childIdx = fs.childIdx := by
  funext j n
  unfold childIdx
  rw [bodies]
  by_cases here : j = i
  · simp [here, file]
  · simp [here]

theorem resize_self (d : List Byte) : resize d d.length = d := by simp [resize]

variable {w : Nat}

theorem resizeFile_run (fs : MemFs) {n : Nat} (i : Nat) (d : List Byte) (fits : n < 2 ^ (w - 1)) :
    resizeFile w i d n fs = .ok () (fs.setBody i (.file (resize d n))) := by
  rw [resizeFile, if_neg fun big => Nat.not_le.mpr fits big.2]
  rfl

theorem growFile_run (fs : MemFs) {stop : Nat} (i : Nat) (d : List Byte)
    (fits : stop < 2 ^ (w - 1)) :
    growFile w i d stop fs =
      if stop > d.length then .ok (resize d stop) (fs.setBody i (.file (resize d stop)))
        else .ok d fs := by
  unfold growFile
  split
  · rw [bind_ok _ (resizeFile_run fs i d fits)]
    rfl
  · rfl

theorem writeFile_run {start : Nat} {d data : List Byte} (file : fs.body i = .file d)
    (real : data ≠ [] ∨ start ≤ d.length) (fits : start + data.length < 2 ^ (w - 1)) :
    ∃ fs', writeFile w i d start data fs = .ok data.length fs' ∧
      ∀ j, fs'.body j = if j = i then .file (written d start data) else fs.body j := by
  have inside : i < fs.nodes.length := body_lt (by simp [file])
  have stop : (start + data.length) % 2 ^ w = start + data.length :=
    Nat.mod_eq_of_lt (Nat.lt_of_lt_of_le fits (Nat.pow_le_pow_right (by decide) (Nat.sub_le w 1)))
  have room : ¬start + data.length ≠ start + data.length := by simp
  unfold writeFile
  rw [stop]
  by_cases grows : start + data.length > d.length
  · have grown := growFile_run fs i d fits
    rw [if_pos grows] at grown
    rw [bind_ok _ grown, if_neg room]
    refine ⟨_, rfl, fun j => ?_⟩
    have inside' : i < (fs.setBody i (.file (resize d (start + data.length)))).nodes.length := by
      rwa [length_setBody]
    have nonempty : data ≠ [] := by
      rcases real with nonempty | short
      · exact nonempty
      · rintro rfl
        simp at grows
        omega
    rw [body_setBody inside', body_setBody inside, written, if_neg nonempty,
      Nat.max_eq_right (by omega)]
    split <;> rfl
  · have grown := growFile_run fs i d fits
    rw [if_neg grows] at grown
    rw [bind_ok _ grown, if_neg room]
    refine ⟨_, rfl, fun j => ?_⟩
    have same : overwrite d start data = written d start data := by
      unfold written
      split
      · next empty => simp [overwrite, empty]
      · rw [Nat.max_eq_left (by omega), resize_self]
    rw [body_setBody inside, same]

end MemFs

end Rv64Js.P9
