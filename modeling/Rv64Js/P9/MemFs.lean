import Rv64Js.Lib.Names
import Rv64Js.Lib.OrderedMap
import Rv64Js.P9.Server

/-! # The in-memory backend

Nodes are shared by index through the maps of the directories; a removed node is left behind
as a tombstone.  `w` is the width of `usize`. -/

set_option autoImplicit false

namespace Rv64Js.P9

inductive Body where
  | dir (entries : List (Str × Nat))
  | file (data : List Byte)
  | link (target : Str)
  | special (rdev : BitVec 64)
  /-- removed -/
  | freed
deriving DecidableEq

structure Node where
  body : Body
  mode : BitVec 32
  uid : BitVec 32
  gid : BitVec 32
  atime : Time
  mtime : Time
  ctime : Time
deriving DecidableEq

/-- Node 0 is the root; a node's inode number is its index + 1. -/
structure MemFs where
  nodes : List Node
  capacity : Nat
deriving DecidableEq

def S_PERM : BitVec 32 := 0o7777

def Node.fresh (body : Body) (mode : BitVec 32) : Node :=
  { body := body, mode := mode, uid := 0, gid := 0, atime := (0, 0), mtime := (0, 0),
    ctime := (0, 0) }

/-- Linux `makedev` encoding for `st_rdev`. -/
def makedev (major minor : BitVec 32) : BitVec 64 :=
  let ma := major.setWidth 64
  let mi := minor.setWidth 64
  ((ma &&& 0xfffff000) <<< 32) ||| ((ma &&& 0xfff) <<< 8) ||| ((mi &&& 0xffffff00) <<< 12) |||
    (mi &&& 0xff)

namespace MemFs

def new : MemFs := { nodes := [Node.fresh (.dir []) (S_IFDIR ||| 0o755)], capacity := 64 <<< 20 }

variable (fs : MemFs)

def body (i : Nat) : Body := (fs.nodes[i]?).elim .freed Node.body

def modifyNode (i : Nat) (f : Node → Node) : MemFs := { fs with nodes := fs.nodes.modify i f }

def setBody (i : Nat) (body : Body) : MemFs := fs.modifyNode i fun n => { n with body := body }

def alloc (body : Body) (mode : BitVec 32) : MemFs :=
  { fs with nodes := fs.nodes ++ [Node.fresh body mode] }

def childIdx (dir : Nat) (name : Str) : Option Nat :=
  match fs.body dir with
  | .dir m => OrderedMap.get m name
  | _ => none

def linkChild (dir : Nat) (name : Str) (node : Nat) : MemFs :=
  match fs.body dir with
  | .dir m => fs.setBody dir (.dir (OrderedMap.insert name node m))
  | _ => fs

def unlinkChild (dir : Nat) (name : Str) : MemFs :=
  match fs.body dir with
  | .dir m => fs.setBody dir (.dir (OrderedMap.remove name m))
  | _ => fs

def descend (fs : MemFs) : Nat → List Str → Except Errno Nat
  | i, [] => .ok i
  | i, c :: cs =>
    match fs.body i with
    | .dir m =>
      match OrderedMap.get m c with
      | some j => descend fs j cs
      | none => .error ENOENT
    | _ => .error ENOTDIR

def lookup (path : Str) : Except Errno Nat := fs.descend 0 (components path)

/-- Parent node and final component of a path that need not exist. -/
def split (path : Str) : Except Errno (Nat × Str) :=
  match (components path).getLast? with
  | none => .error EINVAL
  | some name => (fs.descend 0 (components path).dropLast).map fun dir => (dir, name)

def attrOf (idx : Nat) : Attr :=
  let n := fs.nodes.getD idx (Node.fresh .freed 0)
  let size : Nat :=
    match n.body with
    | .file d => d.length
    | .link t => (utf8 t).length
    | .dir m => m.length * 32
    | _ => 0
  { qid := Qid.fromMode n.mode (BitVec.ofNat 64 (idx + 1))
    mode := n.mode
    uid := n.uid
    gid := n.gid
    nlink := if n.mode &&& S_IFMT = S_IFDIR then 2 else 1
    rdev :=
      match n.body with
      | .special rdev => rdev
      | _ => 0
    size := BitVec.ofNat 64 size
    blksize := 4096
    blocks := BitVec.ofNat 64 ((size + 511) / 512)
    atime := n.atime
    mtime := n.mtime
    ctime := n.ctime }

def bytesUsed : Nat :=
  (fs.nodes.map fun n =>
    match n.body with
    | .file d => d.length
    | _ => 0).sum

/-! ## The methods of the backend -/

/-- A computation on the file system; an errno leaves it as it is. -/
abbrev M (α : Type) := EStateM Fail MemFs α

def fail {α : Type} (e : Errno) : M α := throw (.errno e)

def lift {α : Type} (f : MemFs → Except Errno α) : M α := fun fs =>
  match f fs with
  | .ok a => .ok a fs
  | .error e => .error (.errno e) fs

/-- Insert a fresh node under `path`, failing if the name is taken. -/
def createAt (path : Str) (body : Body) (mode : BitVec 32) : M Attr := do
  let (dir, name) ← lift (·.split path)
  let fs ← get
  if (fs.childIdx dir name).isSome then fail EEXIST
  else
    match fs.body dir with
    | .dir _ =>
      let node := fs.nodes.length
      set ((fs.alloc body mode).linkChild dir name node)
      pure (((fs.alloc body mode).linkChild dir name node).attrOf node)
    | _ => fail ENOTDIR

def resize (d : List Byte) (n : Nat) : List Byte := d.take n ++ List.replicate (n - d.length) 0

def overwrite (d : List Byte) (start : Nat) (data : List Byte) : List Byte :=
  d.take start ++ data ++ d.drop (start + data.length)

/-- `Vec::resize`: a length past `isize::MAX` panics. -/
def resizeFile (w idx : Nat) (d : List Byte) (n : Nat) : M Unit :=
  if n > d.length ∧ n ≥ 2 ^ (w - 1) then throw .panic
  else modify fun fs => fs.setBody idx (.file (resize d n))

def statfs : StatFs :=
  let free := BitVec.ofNat 64 ((fs.capacity - fs.bytesUsed) / 4096)
  { bsize := 4096
    blocks := BitVec.ofNat 64 (fs.capacity / 4096)
    bfree := free
    bavail := free
    files := BitVec.ofNat 64 fs.nodes.length
    ffree := 1 <<< 20 }

def readdir (path : Str) : M (List DirEntry) := do
  let idx ← lift (·.lookup path)
  let fs ← get
  match fs.body idx with
  | .dir m =>
    pure
      (m.map fun e =>
        ⟨e.1, BitVec.ofNat 64 (e.2 + 1), (fs.nodes.getD e.2 (Node.fresh .freed 0)).mode⟩)
  | _ => fail ENOTDIR

def openNode (idx : Nat) (flags : BitVec 32) : MemFs :=
  match fs.body idx with
  | .file _ => if flags &&& O_TRUNC ≠ 0 then fs.setBody idx (.file []) else fs
  | _ => fs

def openFile (path : Str) (flags : BitVec 32) : M Attr := do
  let idx ← lift (·.lookup path)
  modify (·.openNode idx flags)
  pure ((← get).attrOf idx)

def read (w : Nat) (path : Str) (offset : BitVec 64) (len : Nat) : M (List Byte) := do
  let idx ← lift (·.lookup path)
  match (← get).body idx with
  | .file d => pure ((d.drop (offset.toNat % 2 ^ w)).take len)
  | .dir _ => fail EISDIR
  | _ => fail EINVAL

def growFile (w idx : Nat) (d : List Byte) (stop : Nat) : M (List Byte) :=
  if stop > d.length then do
    resizeFile w idx d stop
    pure (resize d stop)
  else pure d

/-- The bytes go to `start..start + len`; where that sum wraps, the slice is not one of `len`
bytes and the copy panics. -/
def writeFile (w idx : Nat) (d : List Byte) (start : Nat) (data : List Byte) : M Nat := do
  let d ← growFile w idx d ((start + data.length) % 2 ^ w)
  if (start + data.length) % 2 ^ w ≠ start + data.length then throw .panic
  else
    modify fun fs => fs.setBody idx (.file (overwrite d start data))
    pure data.length

def write (w : Nat) (path : Str) (offset : BitVec 64) (data : List Byte) : M Nat := do
  let idx ← lift (·.lookup path)
  match (← get).body idx with
  | .file d => writeFile w idx d (offset.toNat % 2 ^ w) data
  | .dir _ => fail EISDIR
  | _ => fail EINVAL

def readlink (path : Str) : M Str := do
  let idx ← lift (·.lookup path)
  match (← get).body idx with
  | .link t => pure t
  | _ => fail EINVAL

def hardlink (existing new : Str) : M Unit := do
  let src ← lift (·.lookup existing)
  let (dir, name) ← lift (·.split new)
  let fs ← get
  if (fs.childIdx dir name).isSome then fail EEXIST
  else set (fs.linkChild dir name src)

/-- The kind the caller expects is not looked at. -/
def remove (path : Str) (_isDir : Bool) : M Unit := do
  let (dir, name) ← lift (·.split path)
  let fs ← get
  match fs.childIdx dir name with
  | none => fail ENOENT
  | some idx =>
    match fs.body idx with
    | .dir (_ :: _) => fail ENOTEMPTY
    | _ => set ((fs.unlinkChild dir name).setBody idx .freed)

def rename (src dst : Str) : M Unit := do
  let (fromDir, fromName) ← lift (·.split src)
  let fs ← get
  match fs.childIdx fromDir fromName with
  | none => fail ENOENT
  | some idx =>
    let (toDir, toName) ← lift (·.split dst)
    set ((fs.unlinkChild fromDir fromName).linkChild toDir toName idx)

def setMode (path : Str) (mode : BitVec 32) : M Unit := do
  let idx ← lift (·.lookup path)
  modify fun fs => fs.modifyNode idx fun n =>
    { n with mode := (n.mode &&& S_IFMT) ||| (mode &&& S_PERM) }

def setOwner (path : Str) (uid gid : Option (BitVec 32)) : M Unit := do
  let idx ← lift (·.lookup path)
  modify fun fs => fs.modifyNode idx fun n =>
    { n with uid := uid.getD n.uid, gid := gid.getD n.gid }

def truncate (w : Nat) (path : Str) (size : BitVec 64) : M Unit := do
  let idx ← lift (·.lookup path)
  match (← get).body idx with
  | .file d => resizeFile w idx d (size.toNat % 2 ^ w)
  | _ => fail EINVAL

def setTimes (path : Str) (atime mtime : Option Time) : M Unit := do
  let idx ← lift (·.lookup path)
  modify fun fs => fs.modifyNode idx fun n =>
    { n with atime := atime.getD n.atime, mtime := mtime.getD n.mtime }

def lstat (path : Str) : M Attr := lift fun fs => (fs.lookup path).map fs.attrOf

def call (w : Nat) : (op : Op) → M op.Value
  | .statfs => fun fs => .ok fs.statfs fs
  | .lstat path => lstat path
  | .readdir path => readdir path
  | .openFile path flags => openFile path flags
  | .close _ => pure ()
  | .read path offset len => read w path offset len
  | .write path offset data => write w path offset data
  | .create path _ mode => createAt path (.file []) (S_IFREG ||| (mode &&& S_PERM))
  | .mkdir path mode => createAt path (.dir []) (S_IFDIR ||| (mode &&& S_PERM))
  | .symlink path target => createAt path (.link target) (S_IFLNK ||| 0o777)
  | .mknod path mode major minor => createAt path (.special (makedev major minor)) mode
  | .readlink path => readlink path
  | .hardlink existing new => hardlink existing new
  | .remove path isDir => remove path isDir
  | .rename src dst => rename src dst
  | .setMode path mode => setMode path mode
  | .setOwner path uid gid => setOwner path uid gid
  | .truncate path size => truncate w path size
  | .setTimes path atime mtime => setTimes path atime mtime

def backend (w : Nat) : FsBackend MemFs where
  call := call w
  statfs_ok fs := ⟨_, fs, rfl⟩
  close_ok _ fs := ⟨(), fs, rfl⟩

variable {fs : MemFs}

theorem lift_ok {α : Type} {f : MemFs → Except Errno α} {a : α} (run : f fs = .ok a) :
    (lift f : M α) fs = .ok a fs := by
  simp only [lift, run]

/-! ## Nodes after an update -/

theorem body_lt {i : Nat} (live : fs.body i ≠ .freed) : i < fs.nodes.length := by
  by_contra out
  exact live (by simp [body, List.getElem?_eq_none (Nat.le_of_not_lt out)])

theorem body_setBody {i : Nat} (inside : i < fs.nodes.length) (b : Body) (j : Nat) :
    (fs.setBody i b).body j = if j = i then b else fs.body j := by
  unfold body setBody modifyNode
  by_cases same : j = i
  · subst same
    simp [List.getElem?_eq_getElem inside]
  · simp [same, Ne.symm same]

variable (fs : MemFs)

theorem body_alloc (b : Body) (mode : BitVec 32) (j : Nat) :
    (fs.alloc b mode).body j = if j = fs.nodes.length then b else fs.body j := by
  unfold body alloc
  by_cases new : j = fs.nodes.length
  · subst new
    simp [Node.fresh]
  · rcases Nat.lt_or_ge j fs.nodes.length with old | out
    · simp [new, List.getElem?_append_left old]
    · have past : (fs.nodes ++ [Node.fresh b mode]).length ≤ j := by
        rw [List.length_append, List.length_singleton]
        omega
      simp [new, List.getElem?_eq_none out, List.getElem?_eq_none past]

theorem body_modifyNode (i : Nat) {f : Node → Node} (keep : ∀ n, (f n).body = n.body) :
    (fs.modifyNode i f).body = fs.body := by
  funext j
  unfold body modifyNode
  rw [List.getElem?_modify]
  by_cases here : i = j
  · subst here
    cases fs.nodes[i]? <;> simp [keep]
  · simp [here]

@[simp] theorem length_setBody (i : Nat) (b : Body) :
    (fs.setBody i b).nodes.length = fs.nodes.length := by
  simp [setBody, modifyNode]

/-- What the two updates of a directory have in common. -/
def mapDir (dir : Nat) (f : List (Str × Nat) → List (Str × Nat)) : MemFs :=
  match fs.body dir with
  | .dir m => fs.setBody dir (.dir (f m))
  | _ => fs

theorem length_mapDir (d : Nat) (f : List (Str × Nat) → List (Str × Nat)) :
    (fs.mapDir d f).nodes.length = fs.nodes.length := by
  unfold mapDir
  split <;> simp

@[simp] theorem length_linkChild (d : Nat) (n : Str) (v : Nat) :
    (fs.linkChild d n v).nodes.length = fs.nodes.length := fs.length_mapDir d _

@[simp] theorem length_unlinkChild (d : Nat) (n : Str) :
    (fs.unlinkChild d n).nodes.length = fs.nodes.length :=
  fs.length_mapDir d _

@[simp] theorem length_alloc (b : Body) (mode : BitVec 32) :
    (fs.alloc b mode).nodes.length = fs.nodes.length + 1 := by
  simp [alloc]

@[simp] theorem length_modifyNode (i : Nat) (f : Node → Node) :
    (fs.modifyNode i f).nodes.length = fs.nodes.length := by
  simp [modifyNode]

end MemFs

end Rv64Js.P9
