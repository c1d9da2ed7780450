import Rv64Js.P9.HostFs
import Rv64Js.P9.NormalPaths

/-! # What an export lets a guest reach

Paths in normal form only go down, so a system call that meets no symlink it would follow stays
below the exported directory, and so do the nodes it links. A symlink on the way leads wherever the
guest made it point. -/

set_option autoImplicit false

namespace Rv64Js.P9

open Fallible Names Host MemFs List

/-! ## Straight paths -/

def Body.isLink : Body → Bool
  | .link _ => true
  | _ => false

/-- No component the call follows is a symlink. -/
def Host.Straight (h : Host) (follows : Bool) : Nat → List Str → Prop
  | _, [] => True
  | cur, c :: rest =>
    ∀ j ∈ h.disk.childIdx cur c,
      ((h.disk.body j).isLink = true → rest = [] ∧ follows = false) ∧ h.Straight follows j rest

instance Host.Straight.decidable (h : Host) (follows : Bool) :
    ∀ (cur : Nat) (path : List Str), Decidable (h.Straight follows cur path)
  | _, [] => inferInstanceAs (Decidable True)
  | cur, c :: rest =>
    have : ∀ j, Decidable (h.Straight follows j rest) :=
      fun j => Host.Straight.decidable h follows j rest
    inferInstanceAs (Decidable (∀ j ∈ h.disk.childIdx cur c, _ ∧ _))

def Access.Straight (a : Access) : Prop := a.before.Straight a.follows a.start a.path

instance (a : Access) : Decidable a.Straight := inferInstanceAs (Decidable (Host.Straight ..))

def MemFs.Entry (fs : MemFs) (d j : Nat) : Prop := ∃ m n, fs.body d = .dir m ∧ (n, j) ∈ m

/-- The nodes of the exported tree: those below the exported directory at the start, and
those made since. -/
def Host.Exported (h : Host) (root i : Nat) : Prop :=
  Relation.ReflTransGen h.disk.Entry root i ∨ h.disk.nodes.length ≤ i

/-! ## Nodes that only lead to each other -/

section Entries

variable {fs : MemFs} {d j : Nat}

theorem MemFs.entry_of_child {n : Str} (child : fs.childIdx d n = some j) : fs.Entry d j := by
  unfold childIdx at child
  cases body : fs.body d with
  | dir m =>
    rw [body] at child
    exact ⟨m, n, body, OrderedMap.mem_of_get child⟩
  | _ => rw [body] at child; cases child

variable {i : Nat}

theorem MemFs.entry_setBody {b : Body} (entry : (fs.setBody i b).Entry d j) :
    fs.Entry d j ∨ d = i ∧ ∃ m n, b = .dir m ∧ (n, j) ∈ m := by
  obtain ⟨m, n, body, mem⟩ := entry
  rcases Nat.lt_or_ge i fs.nodes.length with inside | out
  · rw [body_setBody inside] at body
    split_ifs at body with here
    · exact .inr ⟨here, m, n, body, mem⟩
    · exact .inl ⟨m, n, body, mem⟩
  · rw [setBody, modifyNode, modify_eq_self out] at body
    exact .inl ⟨m, n, body, mem⟩

theorem MemFs.entry_setFile {data : List Byte} (entry : (fs.setBody i (.file data)).Entry d j) :
    fs.Entry d j := by
  rcases entry_setBody entry with old | ⟨_, m, n, same, _⟩
  · exact old
  · cases same

theorem MemFs.entry_mapDir {dir : Nat} {f : List (Str × Nat) → List (Str × Nat)}
    (entry : (fs.mapDir dir f).Entry d j) :
    fs.Entry d j ∨ ∃ m n, fs.body d = .dir m ∧ (n, j) ∈ f m := by
  unfold mapDir at entry
  cases body : fs.body dir with
  | dir m =>
    rw [body] at entry
    rcases entry_setBody entry with old | ⟨rfl, _, n, same, mem⟩
    · exact .inl old
    · exact Or.inr ⟨m, n, body, Body.dir.inj same ▸ mem⟩
  | _ =>
    rw [body] at entry
    exact .inl entry

theorem MemFs.entry_linkChild {dir node : Nat} {name : Str}
    (entry : (fs.linkChild dir name node).Entry d j) : fs.Entry d j ∨ j = node := by
  rcases entry_mapDir entry with old | ⟨m, n, body, mem⟩
  · exact .inl old
  · rcases OrderedMap.mem_insert mem with new | old
    · exact Or.inr (Prod.mk.inj new).2
    · exact .inl ⟨m, n, body, old⟩

theorem MemFs.entry_unlinkChild {dir : Nat} {name : Str}
    (entry : (fs.unlinkChild dir name).Entry d j) : fs.Entry d j := by
  rcases entry_mapDir entry with old | ⟨m, n, body, mem⟩
  · exact old
  · exact ⟨m, n, body, mem_of_mem_filter mem⟩

theorem MemFs.entry_alloc {b : Body} {mode : BitVec 32} (bare : b.isFull = false)
    (entry : (fs.alloc b mode).Entry d j) : fs.Entry d j := by
  obtain ⟨m, n, body, mem⟩ := entry
  rw [body_alloc] at body
  split_ifs at body
  · subst body
    cases m with
    | nil => cases mem
    | cons _ _ => cases bare
  · exact ⟨m, n, body, mem⟩

theorem MemFs.entry_modifyNode {f : Node → Node} (keep : ∀ n, (f n).body = n.body)
    (entry : (fs.modifyNode i f).Entry d j) : fs.Entry d j := by
  obtain ⟨m, n, body, mem⟩ := entry
  rw [body_modifyNode fs i keep] at body
  exact ⟨m, n, body, mem⟩

end Entries

/-- From nodes of `T` only nodes of `T` are reached, and new nodes are of `T`. -/
structure MemFs.Encloses (T : Nat → Prop) (fs : MemFs) : Prop where
  down : ∀ d j, T d → fs.Entry d j → T j
  fresh : ∀ i, fs.nodes.length ≤ i → T i

theorem MemFs.Encloses.grow {T : Nat → Prop} {fs fs' : MemFs} (enclosed : fs.Encloses T)
    (grows : fs.nodes.length ≤ fs'.nodes.length)
    (entries : ∀ d j, fs'.Entry d j → fs.Entry d j ∨ T j) : fs'.Encloses T := by
  refine ⟨fun d j inside entry => ?_, fun i out => enclosed.fresh i (grows.trans out)⟩
  rcases entries d j entry with old | new
  · exact enclosed.down d j inside old
  · exact new

theorem Host.exported_encloses (h : Host) (root : Nat) : h.disk.Encloses (h.Exported root) := by
  refine ⟨fun d j inside entry => ?_, fun i new => .inr new⟩
  rcases inside with reached | new
  · exact .inl (reached.tail entry)
  · obtain ⟨m, n, body, _⟩ := entry
    exact absurd (body_lt (by simp [body])) (Nat.not_lt.mpr new)

/-! ## System calls on places inside -/

/-- A call that touches nodes of `T` only and leaves them closed; its value is in `Q`. -/
def Host.Inside {α : Type} (T : Nat → Prop) (Q : α → Prop) : Host.Effects α → Prop
  | .ok (a, touched, h) => (∀ i ∈ touched, T i) ∧ h.disk.Encloses T ∧ Q a
  | .error _ => True

section Calls

variable {T : Nat → Prop} {h : Host}

theorem Host.enter_inside (enclosed : h.disk.Encloses T)
    {again : Nat → List Str → Except Errno Place} {follows : Bool} {cs : List Str}
    (names : ∀ c ∈ cs, Component c) {cur : Nat} (inside : T cur)
    (straight : h.Straight follows cur cs) {p : Place}
    (done : h.enter again follows cur cs = .ok p) : T p.dir := by
  induction cs generalizing cur with
  | nil =>
    cases done
    exact inside
  | cons c rest ih =>
    have name := names c mem_cons_self
    rw [enter] at done
    by_cases dir : (h.disk.body cur).isDir = false
    · rw [if_pos dir] at done
      cases done
    rw [if_neg dir, if_neg name.notDot, if_neg name.notDotDot] at done
    cases child : h.disk.childIdx cur c with
    | none =>
      rw [child] at done
      dsimp only at done
      split_ifs at done
      cases done
      exact inside
    | some j =>
      rw [child] at done
      dsimp only at done
      obtain ⟨link, further⟩ := straight j child
      have below := ih (fun c mem => names c (mem_cons_of_mem _ mem))
        (enclosed.down cur j inside (entry_of_child child)) further
      have plain (done : (if rest = [] then .ok ⟨cur, some c⟩ else h.enter again follows j rest :
          Except Errno Place) = .ok p) : T p.dir := by
        split_ifs at done
        · cases done
          exact inside
        · exact below done
      cases body : h.disk.body j with
      | link target =>
        rw [body] at done link
        dsimp only at done
        rw [if_pos (link rfl)] at done
        cases done
        exact inside
      | _ =>
        rw [body] at done
        exact plain done

variable {i : Nat}

theorem Host.node_inside (enclosed : h.disk.Encloses T) {p : Place} (inside : T p.dir)
    (there : h.node p = some i) : T i := by
  unfold Host.node at there
  cases name : p.name with
  | none =>
    rw [name] at there
    cases there
    exact inside
  | some n =>
    rw [name] at there
    exact enclosed.down p.dir i inside (entry_of_child there)

/-- A call that stays inside from a place inside. -/
def Host.Stays {α : Type} (T : Nat → Prop) (Q : α → Prop) (body : Host → Place → Host.Effects α) :
    Prop :=
  ∀ ⦃h p⦄, h.disk.Encloses T → T p.dir → Host.Inside T Q (body h p)

variable {α : Type} {Q : α → Prop}

theorem Host.onFound_stays {k : Host → Place → Nat → Effects α}
    (call : ∀ ⦃h p i⦄, h.disk.Encloses T → T p.dir → T i → Inside T Q (k h p i)) :
    Stays T Q fun h p => h.onFound p (k h p) := by
  intro h p enclosed inside
  dsimp only [onFound]
  cases there : h.node p with
  | none => trivial
  | some i => exact call enclosed inside (node_inside enclosed inside there)

theorem Host.inside_one {fs : MemFs} (enclosed : fs.Encloses T) (inside : T i) {a : α} (value : Q a)
    (disk : h.disk.nodes.length = fs.nodes.length)
    (entries : ∀ d j, h.disk.Entry d j → fs.Entry d j) : Inside T Q (.ok (a, [i], h)) :=
  ⟨fun _ mem => mem_singleton.mp mem ▸ inside,
    enclosed.grow disk.ge fun d j entry => .inl (entries d j entry), value⟩

theorem Host.inside_pair {d j : Nat} {a : α} (first : T d) (second : T j) (disk : h.disk.Encloses T)
    (value : Q a) : Inside T Q (.ok (a, [d, j], h)) := by
  refine ⟨fun i mem => ?_, disk, value⟩
  rcases mem_pair.mp mem with rfl | rfl <;> assumption

theorem Host.lstat_stays : Stays T (fun _ => True) Host.lstat :=
  onFound_stays fun _ _ _ enclosed _ at' => inside_one enclosed at' trivial rfl fun _ _ entry =>
    entry

theorem Host.readDir_stays : Stays T (fun _ => True) readDir := by
  refine onFound_stays fun h _ i enclosed _ at' => ?_
  cases body : h.disk.body i with
  | dir m =>
    refine ⟨fun j mem => ?_, enclosed, trivial⟩
    rcases mem_cons.mp mem with rfl | mem
    · exact at'
    · obtain ⟨e, listed, rfl⟩ := mem_map.mp mem
      exact enclosed.down i e.2 at' ⟨m, e.1, body, listed⟩
  | _ => trivial

theorem Host.openNode_inside (enclosed : h.disk.Encloses T) (at' : T i) (write trunc : Bool) :
    Inside T T (h.openNode i write trunc) := by
  have same : Inside T T (.ok (i, [i], h)) :=
    inside_one enclosed at' at' rfl fun _ _ entry => entry
  unfold openNode
  cases h.disk.body i with
  | dir m => cases write <;> [exact same; trivial]
  | link target => trivial
  | file data =>
    cases trunc
    · exact same
    · exact inside_one enclosed at' at' (by simp [withDisk]) fun _ _ => entry_setFile
  | _ => exact same

theorem Host.openExisting_stays (write trunc : Bool) : Stays T T (·.openExisting write trunc) :=
  onFound_stays fun _ _ _ enclosed _ at' => openNode_inside enclosed at' write trunc

theorem Host.make_stays {body : Body} (bare : body.isFull = false) (mode : BitVec 32) :
    Stays T T (·.make body mode) := by
  intro h p enclosed inside
  have new : T h.disk.nodes.length := enclosed.fresh _ le_rfl
  dsimp only [make]
  split
  · refine inside_pair inside new (enclosed.grow (by simp) fun d j entry => ?_) new
    rcases entry_linkChild entry with old | rfl
    · exact .inl (entry_alloc bare old)
    · exact .inr new
  · trivial

theorem Host.mknod_stays (mode : BitVec 32) (rdev : BitVec 64) : Stays T T (·.mknod mode rdev) := by
  intro h p enclosed inside
  dsimp only [Host.mknod]
  split_ifs
  · exact make_stays (by rfl) _ enclosed inside
  · trivial
  · exact make_stays (by rfl) _ enclosed inside

theorem Host.openCreate_stays (trunc : Bool) (mode : BitVec 32) :
    Stays T T (·.openCreate trunc mode) := by
  intro h p enclosed inside
  dsimp only [openCreate]
  cases there : h.node p with
  | none => exact make_stays (by rfl) _ enclosed inside
  | some i => exact openNode_inside enclosed (node_inside enclosed inside there) true trunc

theorem Host.change_stays {f : Host → Node → Node} (keep : ∀ h n, (f h n).body = n.body) :
    Stays T (fun _ => True) fun h => h.change (f h) :=
  onFound_stays fun h _ _ enclosed _ at' =>
    inside_one enclosed at' trivial (by simp [withDisk]) fun _ _ => entry_modifyNode (keep h)

theorem Host.readLink_stays : Stays T (fun _ => True) readLink := by
  refine onFound_stays fun h _ i enclosed _ at' => ?_
  cases h.disk.body i with
  | link target => exact inside_one enclosed at' trivial rfl fun _ _ entry => entry
  | _ => trivial

theorem Host.hardLink_stays {new : Place} (inside' : T new.dir) :
    Stays T (fun _ => True) (·.hardLink · new) := by
  refine onFound_stays fun h _ i enclosed _ at' => ?_
  split_ifs
  · trivial
  · split
    · refine inside_pair at' inside' (enclosed.grow (by simp [withDisk]) fun d j entry => ?_)
        trivial
      rcases entry_linkChild entry with old | rfl
      · exact .inl old
      · exact .inr at'
    · trivial

theorem Host.remove_stays (isDir : Bool) : Stays T (fun _ => True) (·.remove isDir) := by
  refine onFound_stays fun h p i enclosed inside at' => ?_
  cases p.name with
  | none => trivial
  | some n =>
    dsimp only
    split_ifs <;> try trivial
    exact inside_pair inside at'
      (enclosed.grow (by simp [withDisk]) fun d j entry => .inl (entry_unlinkChild entry)) trivial

theorem Host.rename_stays {dst : Place} (inside' : T dst.dir) :
    Stays T (fun _ => True) (·.rename · dst) := by
  refine onFound_stays fun h p i enclosed inside at' => ?_
  cases p.name with
  | none => trivial
  | some n =>
    cases dst.name with
    | none => trivial
    | some n' =>
      have moved : ((h.disk.unlinkChild p.dir n).linkChild dst.dir n' i).Encloses T := by
        refine enclosed.grow (by simp) fun d j entry => ?_
        rcases entry_linkChild entry with old | rfl
        · exact .inl (entry_unlinkChild old)
        · exact .inr at'
      dsimp only
      by_cases below : i ∈ h.above h.disk.nodes.length dst.dir
      · rw [if_pos below]
        trivial
      rw [if_neg below]
      cases there : h.node dst with
      | none => exact ⟨by simp [inside, at', inside'], moved, trivial⟩
      | some j =>
        have there := node_inside enclosed inside' there
        dsimp only
        split_ifs <;> try trivial
        · exact ⟨by simp [at'], enclosed, trivial⟩
        · exact ⟨by simp [inside, at', inside', there], moved, trivial⟩

theorem Host.readAt_stays (offset len : Nat) : Stays T (fun _ => True) (·.readAt offset len) := by
  refine onFound_stays fun h _ i enclosed _ at' => ?_
  cases h.disk.body i with
  | file data => exact inside_one enclosed at' trivial rfl fun _ _ entry => entry
  | _ => trivial

theorem Host.writeAt_stays (offset : Nat) (data : List Byte) :
    Stays T (fun _ => True) (·.writeAt offset data) := by
  refine onFound_stays fun h _ i enclosed _ at' => ?_
  cases h.disk.body i with
  | file d =>
    exact inside_one enclosed at' trivial (by simp [withDisk]) fun _ _ => entry_setFile
  | _ => trivial

theorem Host.setLen_stays (size : Nat) : Stays T (fun _ => True) (·.setLen size) := by
  refine onFound_stays fun h _ i enclosed _ at' => ?_
  cases h.disk.body i with
  | file d =>
    exact inside_one enclosed at' trivial (by simp [withDisk]) fun _ _ => entry_setFile
  | _ => trivial

end Calls

/-! ## The backend -/

namespace HostFs

def Honest (s : HostFs) : Prop := ∀ a ∈ s.log, a.Straight

/-- Everything the backend can reach or has touched is in `T`. -/
structure Within (T : Nat → Prop) (s : HostFs) : Prop where
  disk : s.host.disk.Encloses T
  handles : ∀ path i writable, s.opened path = some (i, writable) → T i
  touched : ∀ a ∈ s.log, ∀ i ∈ a.touched, T i

/-- As long as no symlink is followed, the backend stays within `T`. -/
structure Confined (T : Nat → Prop) (s : HostFs) : Prop where
  root : T s.root
  within : s.Honest → s.Within T

variable {T : Nat → Prop} {s : HostFs} {α β : Type}

variable {route : Route} {follows : Bool}

theorem honest_note {touched : List Nat} :
    (s.note route follows touched).Honest ↔ s.Honest ∧ s.host.Straight follows route.1 route.2 := by
  refine forall_mem_append.trans (and_congr_right fun _ => ?_)
  exact forall_mem_singleton

theorem Within.note (within : s.Within T) (route : Route) (follows : Bool) {touched : List Nat}
    (inside : ∀ i ∈ touched, T i) {host : Host} (disk : host.disk.Encloses T) :
    Within T { s.note route follows touched with host := host } := by
  refine ⟨disk, within.handles, ?_⟩
  exact forall_mem_append.mpr ⟨within.touched, forall_mem_singleton.mpr inside⟩

theorem Confined.failed (confined : s.Confined T) (route : Route) (follows : Bool) :
    (s.note route follows []).Confined T := by
  refine ⟨confined.root, fun honest => ?_⟩
  have within := confined.within (honest_note.mp honest).1
  exact within.note route follows (by simp) within.disk

theorem Within.resolve (within : s.Within T) (start : T route.1)
    (names : ∀ c ∈ route.2, Component c) (straight : s.host.Straight follows route.1 route.2)
    {p : Place} (done : s.resolve follows route = .ok p) : T p.dir :=
  enter_inside within.disk names start straight (place_of_resolve done)

abbrev Yields (T : Nat → Prop) (Q : α → Prop) (a : α) (s : HostFs) :
    Prop := s.Confined T ∧ (s.Honest → Q a)

abbrev Gives (T : Nat → Prop) (Q : α → Prop) (m : M α) :
    Prop := Triple (Confined T) m (Yields T Q) (Confined T)

abbrev Keeps (T : Nat → Prop) (m : M α) :
    Prop := Triple (Confined T) m (fun _ => Confined T) (Confined T)

variable {Q : α → Prop}

theorem forget {m : M α} (done : Gives T Q m) : Keeps T m :=
  done.conseq (fun _ confined => confined) fun _ _ => And.left

variable {body : Host → Place → Host.Effects α}

theorem sys_confined (route : Route) (names : ∀ c ∈ route.2, Component c) (call : Stays T Q body) :
    Triple (Yields T T route.1) (sys follows route body) (Yields T Q) (Confined T) := by
  rintro s ⟨confined, start⟩
  unfold sys
  cases resolved : s.resolve follows route with
  | error e => exact confined.failed route follows
  | ok p =>
    dsimp only
    have inside (honest : s.Honest ∧ s.host.Straight follows route.1 route.2) :
        Inside T Q (body s.host p) :=
      call (confined.within honest.1).disk
        ((confined.within honest.1).resolve (start honest.1) names honest.2 resolved)
    cases done : body s.host p with
    | error e => exact confined.failed route follows
    | ok out =>
      obtain ⟨a, touched, host⟩ := out
      rw [done] at inside
      dsimp only
      refine ⟨⟨confined.root, fun honest => ?_⟩, fun honest => ?_⟩
      · have before := honest_note.mp honest
        exact (confined.within before.1).note route follows (inside before).1 (inside before).2.1
      · exact (inside (honest_note.mp honest)).2.2

theorem sys2_confined {route' : Route} {body : Host → Place → Place → Effects α}
    (names : ∀ c ∈ route.2, Component c) (names' : ∀ c ∈ route'.2, Component c) (start : T route.1)
    (start' : T route'.1) (call : ∀ p', T p'.dir → Stays T Q (body · · p')) :
    Gives T Q (sys2 follows route route' body) := by
  intro s confined
  have failed : ((s.note route follows []).note route' follows []).Confined T :=
    (confined.failed route follows).failed route' follows
  unfold sys2
  cases resolved : s.resolve follows route with
  | error e => exact failed
  | ok p =>
    cases resolved' : s.resolve follows route' with
    | error e => exact failed
    | ok p' =>
      dsimp only
      cases done : body s.host p p' with
      | error e => exact failed
      | ok out =>
        obtain ⟨a, touched, host⟩ := out
        have inside (honest : ((s.note route follows touched).note route' follows []).Honest) :
            s.Within T ∧ Inside T Q (.ok (a, touched, host)) := by
          obtain ⟨first, straight'⟩ := honest_note.mp honest
          obtain ⟨before, straight⟩ := honest_note.mp first
          have within := confined.within before
          exact ⟨within,
            done ▸ call p' (within.resolve start' names' straight' resolved') within.disk
            (within.resolve start names straight resolved)⟩
        refine ⟨⟨confined.root, fun honest => ?_⟩, fun honest => (inside honest).2.2.2⟩
        obtain ⟨within, touch, disk, _⟩ := inside honest
        exact (within.note route follows touch within.disk).note route' follows (by simp) disk

theorem hostComponents_render {c : Str} {cs : List Str} (names : ∀ d ∈ c :: cs, Component d) :
    hostComponents ((render (c :: cs)).drop 1) = c :: cs := by
  have path : (render (c :: cs)).drop 1 = intercalate ['/'] (c :: cs) := by
    rw [render_eq_intercalate (by simp)]
    rfl
  rw [hostComponents, path, splitOn_intercalate '/' (fun d mem => (names d mem).noSlash) (by simp)]
  refine filter_eq_self.mpr fun d mem => ?_
  simp [(names d mem).nonempty]

variable {path : Str}

theorem real_normal (s : HostFs) (normal : Normal path) :
    (s.real path).1 = s.root ∧ ∀ c ∈ (s.real path).2, Component c := by
  obtain ⟨cs, names, rfl⟩ := normal
  cases cs with
  | nil => exact ⟨rfl, by simp [real, render]⟩
  | cons c cs =>
    have first : ((render (c :: cs)).drop 1).head? ≠ some '/' := by
      have name := names c mem_cons_self
      cases c with
      | nil => exact absurd rfl name.nonempty
      | cons x c =>
        intro slash
        exact name.noSlash (Option.some.inj slash ▸ mem_cons_self)
    unfold real
    rw [if_neg (by simp [render]), if_neg first]
    refine ⟨rfl, ?_⟩
    rw [hostComponents_render names]
    exact names

theorem Confined.realPath (normal : Normal path) {k : Route → M α} {Q : α → HostFs → Prop}
    (rest : ∀ route : Route, T route.1 → (∀ c ∈ route.2, Component c) →
      Triple (Confined T) (k route) Q (Confined T)) :
    Triple (Confined T) (realPath path >>= k) Q (Confined T) := fun s confined =>
  rest (s.real path) ((s.real_normal normal).1 ▸ confined.root) (s.real_normal normal).2 s confined

theorem path_confined (normal : Normal path) (follows : Bool) (call : Stays T Q body) :
    Gives T Q (realPath path >>= fun route => sys follows route body) :=
  Confined.realPath normal fun _ start names =>
    (sys_confined _ names call).conseq (fun _ confined => ⟨confined, fun _ => start⟩) fun _ _
      done => done

theorem calling (normal : Normal path) (follows : Bool) (call : Stays T Q body) {k : α → M β}
    {R : β → HostFs → Prop} (rest : ∀ a, Triple (Yields T Q a) (k a) R (Confined T)) :
    Triple (Confined T) (realPath path >>= fun route => sys follows route body >>= k) R
      (Confined T) :=
  Confined.realPath normal fun _ start names =>
    .bind
      ((sys_confined _ names call).conseq (fun _ confined => ⟨confined, fun _ => start⟩) fun _ _
        done => done)
      rest

theorem onHandle_confined {i : Nat} (call : Stays T Q body) :
    Triple (Yields T T i) (onHandle i body) (Yields T Q) (Confined T) :=
  sys_confined (i, []) (by simp) call

theorem Confined.setHandle (confined : s.Confined T) (path : Str) {handle : Option (Nat × Bool)}
    (inside : s.Honest → ∀ i writable, handle = some (i, writable) → T i) :
    Confined T { s with opened := Function.update s.opened path handle } := by
  refine ⟨confined.root, fun honest => ?_⟩
  have within := confined.within honest
  refine ⟨within.disk, fun path' i writable found => ?_, within.touched⟩
  change Function.update s.opened path handle path' = _ at found
  by_cases same : path' = path
  · subst same
    rw [Function.update_self] at found
    exact inside honest i writable found
  · rw [Function.update_of_ne same] at found
    exact within.handles path' i writable found

theorem putHandle_confined (path : Str) (i : Nat) (writable : Bool) :
    Triple (Yields T T i) (putHandle path (some (i, writable))) (fun _ => Yields T T i)
      (Confined T) := by
  rintro s ⟨confined, inside⟩
  refine ⟨confined.setHandle path fun honest j w same => ?_, inside⟩
  cases same
  exact inside honest

theorem dropHandle_confined (path : Str) : Keeps T (putHandle path none) := fun _ confined =>
  confined.setHandle path fun _ _ _ none => nomatch none

/-! ## One lemma for each method -/

section Methods

variable {path : Str} (normal : Normal path)
include normal

theorem symlinkMetadata_confined : Keeps T (symlinkMetadata path) :=
  forget (path_confined normal false lstat_stays)

theorem thenMetadata {P : HostFs → Prop} (confined : ∀ s, P s → s.Confined T) :
    Triple P (symlinkMetadata path) (fun _ => Confined T) (Confined T) :=
  (symlinkMetadata_confined normal).conseq confined fun _ _ done => done

theorem reopen_confined (write : Bool) : Gives T T (handle.reopen path write) :=
  calling normal true (openExisting_stays write false) fun i =>
    .bind (putHandle_confined path i write) fun _ => .pure fun _ done => done

theorem handle_confined (write : Bool) : Gives T T (handle path write) := by
  refine .bind (R := fun found s => s.Confined T ∧ ∀ i w, found = some (i, w) → s.Honest → T i) ?_
    fun found => ?_
  · exact fun s confined =>
      ⟨confined, fun i w at' honest => (confined.within honest).handles path i w at'⟩
  · have again : Triple (fun s => s.Confined T ∧ ∀ i w, found = some (i, w) → s.Honest → T i)
        (handle.reopen path write) (Yields T T) (Confined T) :=
      (reopen_confined normal write).conseq (fun _ => And.left) fun _ _ done => done
    cases found with
    | none => exact again
    | some cached =>
      exact .ite again (.pure fun s known => ⟨known.1, known.2 _ _ rfl⟩)

theorem openFile_confined (flags : BitVec 32) : Keeps T (openFile path flags) := by
  refine .bind (symlinkMetadata_confined normal) fun md => ?_
  refine .ite (.throw _ fun _ confined => confined) (.ite (.pure fun _ confined => confined) ?_)
  refine calling normal true (openExisting_stays _ _) fun i => ?_
  exact .bind (putHandle_confined path i _) fun _ => thenMetadata normal fun _ => And.left

theorem read_confined (offset : BitVec 64) (len : Nat) :
    Gives T (fun _ => True) (read path offset len) :=
  .bind (handle_confined normal false) fun _ =>
    .ite (.throw _ fun _ => And.left) (onHandle_confined (readAt_stays _ _))

theorem write_confined (offset : BitVec 64) (data : List Byte) :
    Gives T (fun _ => True) (write path offset data) :=
  .bind (handle_confined normal true) fun _ =>
    .ite (.throw _ fun _ => And.left) (onHandle_confined (writeAt_stays _ _))

theorem truncate_confined (size : BitVec 64) : Gives T (fun _ => True) (truncate path size) :=
  .bind (handle_confined normal true) fun _ =>
    .ite (.throw _ fun _ => And.left) (onHandle_confined (setLen_stays _))

theorem create_confined (flags mode : BitVec 32) : Keeps T (create path flags mode) :=
  calling normal true (openCreate_stays _ _) fun i =>
    .bind (putHandle_confined path i true) fun _ => thenMetadata normal fun _ => And.left

theorem setMode_confined (mode : BitVec 32) : Gives T (fun _ => True) (setMode path mode) :=
  path_confined normal true (change_stays fun _ _ => rfl)

/-- A failure to set the mode is not reported. -/
theorem mkdir_confined (mode : BitVec 32) : Keeps T (mkdir path mode) := by
  refine calling normal true (make_stays rfl _) fun _ => ?_
  refine .bind (((setMode_confined normal mode).attempt Fail.isErrno).conseq (fun _ => And.left)
    fun _ _ done => done) fun found => thenMetadata normal fun s done => ?_
  cases found with
  | none => exact done
  | some _ => exact done.1

theorem symlink_confined (target : Str) : Keeps T (symlink path target) :=
  calling normal false (make_stays rfl _) fun _ =>
    thenMetadata normal fun _ => And.left

theorem mknod_confined (mode major minor : BitVec 32) : Keeps T (mknod path mode major minor) :=
  calling normal true (mknod_stays _ _) fun _ =>
    thenMetadata normal fun _ => And.left

theorem remove_confined (isDir : Bool) : Gives T (fun _ => True) (remove path isDir) :=
  .bind (dropHandle_confined path) fun _ =>
    path_confined normal false (remove_stays isDir)

theorem setOwner_confined (uid gid : Option (BitVec 32)) : Keeps T (setOwner path uid gid) := by
  refine .bind (symlinkMetadata_confined normal) fun md =>
    .ite (.pure fun _ confined => confined) ?_
  exact forget (path_confined normal false (change_stays fun _ _ => rfl))

theorem openAny_confined : Gives T T (openAny path) := by
  have opening (write : Bool) := path_confined (T := T) normal true (openExisting_stays write false)
  refine .bind ((opening true).attempt Fail.isErrno) fun found => ?_
  cases found with
  | some i => exact .pure fun _ done => done
  | none => exact opening false

theorem setTimes_confined (atime mtime : Option Time) :
    Gives T (fun _ => True) (setTimes path atime mtime) := by
  refine .bind (openAny_confined normal) fun i => ?_
  have times (now : Time) (t : Option Time) :
      Triple (Yields T T i) (toSys now t) (fun _ => Yields T T i) (Confined T) := by
    cases t with
    | none => exact .pure fun _ known => known
    | some t => exact .ite (.throw _ fun _ => And.left) (.pure fun _ known => known)
  refine .bind (R := fun _ => Yields T T i) (fun s known => known) fun now => ?_
  refine .bind (times now atime) fun a => .bind (times now mtime) fun m => ?_
  exact onHandle_confined (change_stays fun _ _ => rfl)

end Methods

theorem call_confined (op : Op) (normal : ∀ path ∈ op.paths, Normal path) : Keeps T (call op) := by
  cases op <;> simp only [Op.paths, forall_mem_cons, not_mem_nil, false_imp_iff, implies_true,
    and_true] at normal
  case statfs => exact .pure fun _ confined => confined
  case lstat path => exact symlinkMetadata_confined normal
  case readdir path => exact forget (path_confined normal true readDir_stays)
  case openFile path flags => exact openFile_confined normal flags
  case close path => exact dropHandle_confined path
  case read path offset len => exact forget (read_confined normal offset len)
  case write path offset data => exact forget (write_confined normal offset data)
  case create path flags mode => exact create_confined normal flags mode
  case mkdir path mode => exact mkdir_confined normal mode
  case symlink path target => exact symlink_confined normal target
  case mknod path mode major minor => exact mknod_confined normal mode major minor
  case readlink path => exact forget (path_confined normal false readLink_stays)
  case hardlink existing new =>
    exact forget
      (Confined.realPath normal.1 fun _ start names =>
        Confined.realPath normal.2 fun _ start' names' =>
      sys2_confined names names' start start' fun _ => hardLink_stays)
  case remove path isDir => exact forget (remove_confined normal isDir)
  case rename src dst =>
    refine .bind (dropHandle_confined src) fun _ => .bind (dropHandle_confined dst) fun _ => ?_
    exact forget
      (Confined.realPath normal.1 fun _ start names =>
        Confined.realPath normal.2 fun _ start' names' =>
      sys2_confined names names' start start' fun _ => rename_stays)
  case setMode path mode => exact forget (setMode_confined normal mode)
  case setOwner path uid gid => exact setOwner_confined normal uid gid
  case truncate path size => exact forget (truncate_confined normal size)
  case setTimes path atime mtime => exact forget (setTimes_confined normal atime mtime)

theorem backend_confined : backend.Keeps (Confined T) :=
  fun op normal => (call_confined op normal).preserves

end HostFs

/-- As long as no system call meets a symlink it would follow, every node that is touched is in the
exported tree. -/
theorem straight_run_confined (w : Nat) (host : Host) (root : Nat) (reqs : List (List Byte))
    (straight : ∀ a ∈ (Server.run w HostFs.backend (HostFs.new host root) reqs).fs.log,
      a.Straight) :
    ∀ a ∈ (Server.run w HostFs.backend (HostFs.new host root) reqs).fs.log,
      ∀ i ∈ a.touched, host.Exported root i := by
  have start : (HostFs.new host root).Confined (host.Exported root) :=
    ⟨Or.inl .refl,
      fun _ =>
        ⟨host.exported_encloses root, fun _ _ _ none => (nomatch none), by simp [HostFs.new]⟩⟩
  have done := (Server.Sound.new _ start).run HostFs.backend_confined w reqs
  exact (done.files.within straight).touched

/-! ## Through a symlink -/

namespace SymlinkOut

/-- `/e` is exported and empty; `/s` is not for the guest. -/
def host : Host :=
  { disk :=
      { nodes :=
          [Node.fresh (.dir [(['e'], 1), (['s'], 2)]) (S_IFDIR ||| 0o755),
            Node.fresh (.dir []) (S_IFDIR ||| 0o755),
            Node.fresh (.file [104, 105]) (S_IFREG ||| 0o644)]
        capacity := 0 }
    up := fun _ => 0
    top := 0
    clock := (0, 0), refuses := fun _ => none }

def attach : List Byte := reply T_ATTACH 0 (le32 0 ++ le32 0xffffffff ++ leStr [] ++ leStr [])

def link : List Byte := reply T_SYMLINK 0 (le32 0 ++ leStr ['x'] ++ leStr ['/'] ++ le32 0)

def walk : List Byte := reply T_WALK 0 (le32 0 ++ le32 1 ++ le16 2 ++ leStr ['x'] ++ leStr ['s'])

def lopen : List Byte := reply T_LOPEN 0 (le32 1 ++ le32 0)

def read (fid : BitVec 32) : List Byte := reply T_READ 0 (le32 fid ++ le64 0 ++ le32 100)

theorem not_exported : ¬host.Exported 1 2 := by
  rintro (reached | new)
  · rcases reached.cases_head with same | ⟨j, ⟨m, n, body, mem⟩, _⟩
    · cases same
    · cases (body : Body.dir [] = Body.dir m)
      cases mem
  · exact absurd new (by decide)

/-- The guest walks through its link to the host's root: the reply to its read has the bytes of a
file outside the export. -/
theorem secret_read : (Server.handle 64 HostFs.backend
        (Server.run 64 HostFs.backend (HostFs.new host 1) [attach, link, walk, lopen]) (read 1)).1 =
      some (reply (T_READ + 1) 0 (le32 2 ++ [104, 105])) ∧
    (∃ a ∈ (Server.run 64 HostFs.backend (HostFs.new host 1)
      [attach, link, walk, lopen, read 1]).fs.log,
      2 ∈ a.touched) ∧ ¬host.Exported 1 2 :=
  ⟨by decide +kernel, by decide +kernel, not_exported⟩

def inside : List (List Byte) :=
  [attach, reply T_LCREATE 0 (le32 0 ++ leStr ['f'] ++ le32 2 ++ le32 0o644 ++ le32 0),
    reply T_WRITE 0 (le32 0 ++ le64 0 ++ le32 2 ++ [104, 105]), read 0]

theorem inside_confined :
    (∃ a ∈ (Server.run 64 HostFs.backend (HostFs.new host 1) inside).fs.log, 3 ∈ a.touched) ∧
    ∀ a ∈ (Server.run 64 HostFs.backend (HostFs.new host 1) inside).fs.log, ∀ i ∈ a.touched,
    host.Exported 1 i :=
  ⟨by decide +kernel, straight_run_confined 64 host 1 inside (by decide +kernel)⟩

end SymlinkOut

end Rv64Js.P9
