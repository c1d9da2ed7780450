import Rv64Js.P9.Posix

/-! # The host-directory backend

The host keeps nodes as the in-memory backend does, and the parent of each directory. Symlinks are
resolved in every component but the last, and in the last one too except by `lstat`, `readlink`,
`lchown`, `rename`, `unlink` and `symlink`. Every system call leaves an entry with the nodes it
touched. -/

set_option autoImplicit false

namespace Rv64Js.P9

open Fallible

/-! ## The host -/

structure Host where
  disk : MemFs
  up : Nat → Nat
  top : Nat
  clock : Time
  /-- the system calls it turns down for want of rights, of space or of something else -/
  refuses : Nat → Option Errno

/-- Where a path ends: an entry of a directory, taken or not, or a directory itself. -/
structure Place where
  dir : Nat
  name : Option Str
deriving DecidableEq

def hostComponents (path : Str) : List Str := (path.splitOn '/').filter fun c => !c.isEmpty

def EPERM : Errno := 1

def MAXSYMLINKS : Nat := 40

namespace Host

/-- Where the target of a symlink is resolved from. -/
def base (h : Host) (dir : Nat) (target : Str) :
    Nat := if target.head? = some '/' then h.top else dir

/-- Resolve a path up to the first symlink to follow, which is handed to `again`. -/
def enter (h : Host) (again : Nat → List Str → Except Errno Place) (follows : Bool) :
    Nat → List Str → Except Errno Place
  | cur, [] => .ok ⟨cur, none⟩
  | cur, c :: rest =>
    if (h.disk.body cur).isDir = false then .error ENOTDIR
    else if c = ['.'] then enter h again follows cur rest
    else if c = ['.', '.'] then enter h again follows (h.up cur) rest
    else
      match h.disk.childIdx cur c with
      | none => if rest = [] then .ok ⟨cur, some c⟩ else .error ENOENT
      | some j =>
        match h.disk.body j with
        | .link target =>
          if rest = [] ∧ follows = false then .ok ⟨cur, some c⟩
          else again (h.base cur target) (hostComponents target ++ rest)
        | _ => if rest = [] then .ok ⟨cur, some c⟩ else enter h again follows j rest

/-- Resolve a path through at most `links - 1` symlinks. -/
def namei (h : Host) (follows : Bool) : Nat → Nat → List Str → Except Errno Place
  | 0 => fun _ _ => .error ELOOP
  | links + 1 => h.enter (h.namei follows links) follows

def node (h : Host) (p : Place) : Option Nat :=
  match p.name with
  | none => some p.dir
  | some n => h.disk.childIdx p.dir n

def withDisk (h : Host) (disk : MemFs) : Host := { h with disk := disk }

/-! ## System calls, once their paths are resolved

Each returns a value, the nodes it touched and the host after it. -/

abbrev Effects (α : Type) := Except Errno (α × List Nat × Host)

def onFound {α : Type} (h : Host) (p : Place) (k : Nat → Effects α) : Effects α :=
  match h.node p with
  | some i => k i
  | none => .error ENOENT

def lstat (h : Host) (p : Place) : Effects Attr :=
  h.onFound p fun i =>
    .ok (h.disk.attrOf i, [i], h)

def readDir (h : Host) (p : Place) : Effects (List DirEntry) :=
  h.onFound p fun i =>
    match h.disk.body i with
    | .dir m =>
      .ok (m.map fun e => ⟨e.1, (h.disk.attrOf e.2).qid.path, (h.disk.attrOf e.2).mode⟩,
        i :: m.map (·.2), h)
    | _ => .error ENOTDIR

def openNode (h : Host) (i : Nat) (write trunc : Bool) : Effects Nat :=
  match h.disk.body i with
  | .dir _ => if write then .error EISDIR else .ok (i, [i], h)
  | .link _ => .error ELOOP
  | .file _ => .ok (i, [i], if trunc then h.withDisk (h.disk.setBody i (.file [])) else h)
  | _ => .ok (i, [i], h)

def openExisting (h : Host) (write trunc : Bool) (p : Place) : Effects Nat :=
  h.onFound p fun i =>
    h.openNode i write trunc

def make (h : Host) (body : Body) (mode : BitVec 32) (p : Place) : Effects Nat :=
  match h.node p, p.name with
  | none, some n =>
    let new := h.disk.nodes.length
    .ok (new, [p.dir, new],
      { h with
        disk := (h.disk.alloc body mode).linkChild p.dir n new
        up := Function.update h.up new p.dir })
  | _, _ => .error EEXIST

def mknod (h : Host) (mode : BitVec 32) (rdev : BitVec 64) (p : Place) : Effects Nat :=
  if mode &&& S_IFMT = S_IFREG ∨ mode &&& S_IFMT = 0 then
    h.make (.file []) (S_IFREG ||| (mode &&& S_PERM)) p
  else if mode &&& S_IFMT = S_IFDIR ∨ mode &&& S_IFMT = S_IFLNK then .error EPERM
  else h.make (.special rdev) mode p

def openCreate (h : Host) (trunc : Bool) (mode : BitVec 32) (p : Place) : Effects Nat :=
  match h.node p with
  | some i => h.openNode i true trunc
  | none => h.make (.file []) (S_IFREG ||| (mode &&& S_PERM)) p

def change (h : Host) (f : Node → Node) (p : Place) : Effects Unit :=
  h.onFound p fun i =>
    .ok ((), [i], h.withDisk (h.disk.modifyNode i f))

def readLink (h : Host) (p : Place) : Effects Str :=
  h.onFound p fun i =>
    match h.disk.body i with
    | .link target => .ok (target, [i], h)
    | _ => .error EINVAL

def hardLink (h : Host) (existing new : Place) : Effects Unit :=
  h.onFound existing fun i =>
    if (h.disk.body i).isDir then .error EPERM
    else
      match h.node new, new.name with
      | none, some n => .ok ((), [i, new.dir], h.withDisk (h.disk.linkChild new.dir n i))
      | _, _ => .error EEXIST

def remove (h : Host) (isDir : Bool) (p : Place) : Effects Unit :=
  h.onFound p fun i =>
    match p.name with
    | none => .error EINVAL
    | some n =>
      if (h.disk.body i).isDir ≠ isDir then .error (if isDir then ENOTDIR else EISDIR)
      else if (h.disk.body i).isFull then .error ENOTEMPTY
      else .ok ((), [p.dir, i], h.withDisk (h.disk.unlinkChild p.dir n))

def above (h : Host) : Nat → Nat → List Nat
  | 0, d => [d]
  | n + 1, d => d :: h.above n (h.up d)

def rename (h : Host) (src dst : Place) : Effects Unit :=
  h.onFound src fun i =>
    match src.name, dst.name with
    | some n, some n' =>
      if i ∈ h.above h.disk.nodes.length dst.dir then .error EINVAL
      else
        let moved : Host :=
          { h with disk := (h.disk.unlinkChild src.dir n).linkChild dst.dir n' i
                   up := Function.update h.up i dst.dir }
        match h.node dst with
        | none => .ok ((), [src.dir, i, dst.dir], moved)
        | some j =>
          if j = i then .ok ((), [i], h)
          else if (h.disk.body i).isDir ≠ (h.disk.body j).isDir then
            .error (if (h.disk.body i).isDir then ENOTDIR else EISDIR)
          else if (h.disk.body j).isFull then .error ENOTEMPTY
          else .ok ((), [src.dir, i, dst.dir, j], moved)
    | _, _ => .error EINVAL

def readAt (h : Host) (offset len : Nat) (p : Place) : Effects (List Byte) :=
  h.onFound p fun i =>
    match h.disk.body i with
    | .file d => .ok ((d.drop offset).take len, [i], h)
    | .dir _ => .error EISDIR
    | _ => .error EINVAL

def writeAt (h : Host) (offset : Nat) (data : List Byte) (p : Place) : Effects Nat :=
  h.onFound p fun i =>
    match h.disk.body i with
    | .file d =>
      .ok (data.length, [i], h.withDisk (h.disk.setBody i (.file (written d offset data))))
    | _ => .error EINVAL

def setLen (h : Host) (size : Nat) (p : Place) : Effects Unit :=
  h.onFound p fun i =>
    match h.disk.body i with
    | .file d => .ok ((), [i], h.withDisk (h.disk.setBody i (.file (MemFs.resize d size))))
    | _ => .error EINVAL

end Host

/-! ## The backend -/

/-- A path of a system call, in the state the call found. -/
structure Access where
  before : Host
  start : Nat
  path : List Str
  follows : Bool
  touched : List Nat

structure HostFs where
  root : Nat
  host : Host
  /-- handles by path, with whether they can be written -/
  opened : Str → Option (Nat × Bool)
  log : List Access

def HostFs.new (host : Host) (root : Nat) :
    HostFs := { root := root, host := host, opened := fun _ => none, log := [] }

namespace HostFs

abbrev M (α : Type) := EStateM Fail HostFs α

abbrev Route := Nat × List Str

def note (s : HostFs) (route : Route) (follows : Bool) (touched : List Nat) : HostFs :=
  { s with log := s.log ++ [⟨s.host, route.1, route.2, follows, touched⟩] }

def place (s : HostFs) (follows : Bool) (route : Route) : Except Errno Place :=
  s.host.namei follows (MAXSYMLINKS + 1) route.1 route.2

/-- The host may turn the call down; the log counts the calls. -/
def resolve (s : HostFs) (follows : Bool) (route : Route) : Except Errno Place :=
  match s.host.refuses s.log.length with
  | some e => .error e
  | none => s.place follows route

theorem place_of_resolve {s : HostFs} {follows : Bool} {route : Route} {p : Place}
    (resolved : s.resolve follows route = .ok p) : s.place follows route = .ok p := by
  unfold resolve at resolved
  split at resolved
  · cases resolved
  · exact resolved

def sys {α : Type} (follows : Bool) (route : Route) (body : Host → Place → Host.Effects α) :
    M α := fun s =>
  match s.resolve follows route with
  | .error e => .error (.errno e) (s.note route follows [])
  | .ok p =>
    match body s.host p with
    | .error e => .error (.errno e) (s.note route follows [])
    | .ok (a, touched, host) => .ok a { s.note route follows touched with host := host }

def sys2 {α : Type} (follows : Bool) (route route' : Route)
    (body : Host → Place → Place → Host.Effects α) :
    M α := fun s =>
  match s.resolve follows route, s.resolve follows route' with
  | .ok p, .ok p' =>
    match body s.host p p' with
    | .error e => .error (.errno e) ((s.note route follows []).note route' follows [])
    | .ok (a, touched, host) =>
      .ok a { (s.note route follows touched).note route' follows [] with host := host }
  | .error e, _ => .error (.errno e) ((s.note route follows []).note route' follows [])
  | .ok _, .error e => .error (.errno e) ((s.note route follows []).note route' follows [])

/-- Host path for an export-relative path; joining an absolute path would replace the root. -/
def real (s : HostFs) (path : Str) : Route :=
  if path = [] then (s.root, [])
  else (if (path.drop 1).head? = some '/' then s.host.top else s.root, hostComponents (path.drop 1))

def realPath (path : Str) : M Route := fun s => .ok (s.real path) s

def onHandle {α : Type} (i : Nat) (body : Host → Place → Host.Effects α) :
    M α := sys true (i, []) body

/-- Offsets of the host are signed. -/
def signed {α : Type} (offset : BitVec 64) (e : Errno) (m : M α) : M α :=
  if offset.toNat ≥ 2 ^ 63 then throw (.errno e) else m

def putHandle (path : Str) (handle : Option (Nat × Bool)) : M Unit := fun s =>
  .ok () { s with opened := Function.update s.opened path handle }

def cached (path : Str) : M (Option (Nat × Bool)) := fun s => .ok (s.opened path) s

/-- Cached handle for `path`, opening one if needed. -/
def handle (path : Str) (write : Bool) : M Nat := do
  match ← cached path with
  | some (i, writable) => if write && !writable then reopen else pure i
  | none => reopen
where
  reopen : M Nat := do
    let i ← sys true (← realPath path) (·.openExisting write false)
    putHandle path (some (i, write))
    pure i

def symlinkMetadata (path : Str) : M Attr := do
  sys false (← realPath path) Host.lstat

def openFile (path : Str) (flags : BitVec 32) : M Attr := do
  let md ← symlinkMetadata path
  if md.mode &&& S_IFMT = S_IFLNK then throw (.errno ELOOP)
  else if md.mode &&& S_IFMT = S_IFDIR then pure md
  else do
    let writable := flags &&& (O_WRONLY ||| O_RDWR) ≠ 0
    let i ← sys true (← realPath path) (·.openExisting writable (writable && flags &&& O_TRUNC ≠ 0))
    putHandle path (some (i, writable))
    symlinkMetadata path

def read (path : Str) (offset : BitVec 64) (len : Nat) : M (List Byte) := do
  let i ← handle path false
  signed offset EINVAL (onHandle i (·.readAt offset.toNat len))

def write (path : Str) (offset : BitVec 64) (data : List Byte) : M Nat := do
  let i ← handle path true
  signed offset EINVAL (onHandle i (·.writeAt offset.toNat data))

def create (path : Str) (flags mode : BitVec 32) : M Attr := do
  let i ← sys true (← realPath path) (·.openCreate (flags &&& O_TRUNC ≠ 0) mode)
  putHandle path (some (i, true))
  symlinkMetadata path

/-- A change of the mode follows the last symlink. -/
def setMode (path : Str) (mode : BitVec 32) : M Unit := do
  sys true (← realPath path)
    (·.change fun n => { n with mode := (n.mode &&& S_IFMT) ||| (mode &&& S_PERM) })

def mkdir (path : Str) (mode : BitVec 32) : M Attr := do
  let _ ← sys true (← realPath path) (·.make (.dir []) (S_IFDIR ||| 0o777))
  let _ ← attempt Fail.isErrno (setMode path mode)
  symlinkMetadata path

def symlink (path target : Str) : M Attr := do
  let _ ← sys false (← realPath path) (·.make (.link target) (S_IFLNK ||| 0o777))
  symlinkMetadata path

def mknod (path : Str) (mode major minor : BitVec 32) : M Attr := do
  let _ ← sys true (← realPath path) (·.mknod mode (makedev major minor))
  symlinkMetadata path

def readlink (path : Str) : M Str := do
  sys false (← realPath path) Host.readLink

def hardlink (existing new : Str) : M Unit := do
  sys2 true (← realPath existing) (← realPath new) Host.hardLink

def remove (path : Str) (isDir : Bool) : M Unit := do
  putHandle path none
  sys false (← realPath path) (·.remove isDir)

def rename (src dst : Str) : M Unit := do
  putHandle src none
  putHandle dst none
  sys2 false (← realPath src) (← realPath dst) Host.rename

/-- A change of the owner to what it is makes no call. -/
def setOwner (path : Str) (uid gid : Option (BitVec 32)) : M Unit := do
  let md ← symlinkMetadata path
  if uid.getD md.uid = md.uid ∧ gid.getD md.gid = md.gid then pure ()
  else do
    sys false (← realPath path)
      (·.change fun n => { n with uid := uid.getD n.uid, gid := gid.getD n.gid })

/-- The library refuses a negative size without an errno. -/
def truncate (path : Str) (size : BitVec 64) : M Unit := do
  let i ← handle path true
  signed size EIO (onHandle i (·.setLen size.toNat))

def openAny (path : Str) : M Nat := do
  match ← attempt Fail.isErrno (do sys true (← realPath path) (·.openExisting true false)) with
  | some i => pure i
  | none => do sys true (← realPath path) (·.openExisting false false)

def clock : M Time := fun s => .ok s.host.clock s

def toSys (now : Time) : Option Time → M Time
  | none => pure now
  | some (s, ns) =>
    if s.toNat ≥ 2 ^ 63 then throw .panic else pure (s, BitVec.ofNat 64 (min ns.toNat 999999999))

def setTimes (path : Str) (atime mtime : Option Time) : M Unit := do
  let i ← openAny path
  let now ← clock
  let a ← toSys now atime
  let m ← toSys now mtime
  onHandle i (·.change fun n => { n with atime := a, mtime := m })

def statfs : StatFs :=
  { bsize := 4096, blocks := 1 <<< 28, bfree := 1 <<< 27, bavail := 1 <<< 27, files := 1 <<< 20,
    ffree := 1 <<< 19 }

def readdir (path : Str) : M (List DirEntry) := do
  sys true (← realPath path) Host.readDir

def call : (op : Op) → M op.Value
  | .statfs => pure statfs
  | .lstat path => symlinkMetadata path
  | .readdir path => readdir path
  | .openFile path flags => openFile path flags
  | .close path => putHandle path none
  | .read path offset len => read path offset len
  | .write path offset data => write path offset data
  | .create path flags mode => create path flags mode
  | .mkdir path mode => mkdir path mode
  | .symlink path target => symlink path target
  | .mknod path mode major minor => mknod path mode major minor
  | .readlink path => readlink path
  | .hardlink existing new => hardlink existing new
  | .remove path isDir => remove path isDir
  | .rename src dst => rename src dst
  | .setMode path mode => setMode path mode
  | .setOwner path uid gid => setOwner path uid gid
  | .truncate path size => truncate path size
  | .setTimes path atime mtime => setTimes path atime mtime

def backend : FsBackend HostFs where
  call := call
  statfs_ok s := ⟨_, s, rfl⟩
  close_ok _ _ := ⟨(), _, rfl⟩

end HostFs

end Rv64Js.P9
