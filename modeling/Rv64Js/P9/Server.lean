import Rv64Js.Lib.Events
import Rv64Js.Lib.Preserves
import Rv64Js.P9.Message

/-! # The 9P server

The server takes one T-message at a time from the guest and answers it with the files of a
backend.  A backend is addressed by path; its methods are the cases of `Op`. -/

set_option autoImplicit false

namespace Rv64Js.P9

open Fallible

/-! ## Backends -/

/-- Why a request does not succeed: an errno for the guest, or a panic of the host program. -/
inductive Fail where
  | errno (e : Errno)
  | panic
deriving DecidableEq

def Fail.isErrno : Fail → Bool
  | .errno _ => true
  | .panic => false

/-- A call of a backend method. -/
inductive Op where
  | statfs
  | lstat (path : Str)
  | readdir (path : Str)
  | openFile (path : Str) (flags : BitVec 32)
  | close (path : Str)
  | read (path : Str) (offset : BitVec 64) (len : Nat)
  | write (path : Str) (offset : BitVec 64) (data : List Byte)
  | create (path : Str) (flags mode : BitVec 32)
  | mkdir (path : Str) (mode : BitVec 32)
  | symlink (path target : Str)
  | mknod (path : Str) (mode major minor : BitVec 32)
  | readlink (path : Str)
  | hardlink (existing new : Str)
  | remove (path : Str) (isDir : Bool)
  | rename (src dst : Str)
  | setMode (path : Str) (mode : BitVec 32)
  | setOwner (path : Str) (uid gid : Option (BitVec 32))
  | truncate (path : Str) (size : BitVec 64)
  | setTimes (path : Str) (atime mtime : Option Time)
deriving DecidableEq

def Op.Value : Op → Type
  | .statfs => StatFs
  | .lstat _ | .openFile .. | .create .. | .mkdir .. | .symlink .. | .mknod .. => Attr
  | .readdir _ => List DirEntry
  | .read .. => List Byte
  | .write .. => Nat
  | .readlink _ => Str
  | .close _ | .hardlink .. | .remove .. | .rename .. | .setMode .. | .setOwner .. | .truncate ..
  | .setTimes .. => Unit

/-- The paths handed over; the target of a symlink is contents. -/
def Op.paths : Op → List Str
  | .statfs => []
  | .lstat path | .readdir path | .openFile path _ | .close path | .read path .. | .write path ..
  | .create path .. | .mkdir path _ | .symlink path _ | .mknod path .. | .readlink path
  | .remove path _ | .setMode path _ | .setOwner path .. | .truncate path _ | .setTimes path .. =>
    [path]
  | .hardlink existing new => [existing, new]
  | .rename src dst => [src, dst]

structure FsBackend (σ : Type) where
  call : (op : Op) → EStateM Fail σ op.Value
  /-- these two have no way to fail -/
  statfs_ok : ∀ s, ∃ v s', call .statfs s = .ok v s'
  close_ok : ∀ path s, ∃ v s', call (.close path) s = .ok v s'

/-! ## State -/

structure Fid where
  path : Str
  /-- set by `Tlopen` and `Tlcreate` -/
  opened : Bool
  /-- listing taken when `Treaddir` asks for offset 0 -/
  dir : Option (List DirEntry)
deriving DecidableEq

structure Server (σ : Type) where
  fs : σ
  msize : BitVec 32
  fids : BitVec 32 → Option Fid
  /-- the calls made so far, which the server does not look at -/
  calls : List Op := []

def Server.new {σ : Type} (fs : σ) : Server σ := { fs := fs, msize := 8192, fids := fun _ => none }

def Server.called {σ : Type} (srv : Server σ) (op : Op) (fs : σ) : Server σ :=
  { srv with fs := fs, calls := srv.calls ++ [op] }

structure Ctx (σ : Type) where
  srv : Server σ
  body : List Byte

abbrev Handler (σ α : Type) := EStateM Fail (Ctx σ) α

namespace Handler

variable {σ α : Type}

def err (e : Errno) : Handler σ α := throw (.errno e)

/-- The next field of the request; a request that ends early is a protocol error. -/
def field (take : List Byte → Option (α × List Byte)) : Handler σ α := fun ctx =>
  match take ctx.body with
  | some (a, rest) => .ok a { ctx with body := rest }
  | none => .error (.errno EPROTO) ctx

def u8 : Handler σ Byte := field (takeNumber 8 1)
def u16 : Handler σ (BitVec 16) := field (takeNumber 16 2)
def u32 : Handler σ (BitVec 32) := field (takeNumber 32 4)
def u64 : Handler σ (BitVec 64) := field (takeNumber 64 8)
def str : Handler σ Str := field takeStr

def server : Handler σ (Server σ) := fun ctx => .ok ctx.srv ctx

def modifyServer (f : Server σ → Server σ) :
    Handler σ Unit := fun ctx => .ok () { ctx with srv := f ctx.srv }

variable (fs : FsBackend σ)

def ask (op : Op) : Handler σ op.Value :=
  zoom (fun ctx => ctx.srv.fs) (fun s ctx => { ctx with srv := ctx.srv.called op s }) (fs.call op)

def change (wanted : Bool) (m : Handler σ Unit) : Handler σ Unit := if wanted then m else pure ()

/-! ## Fids -/

def lookupFid (fid : BitVec 32) : Handler σ Fid := fun ctx =>
  match ctx.srv.fids fid with
  | some f => .ok f ctx
  | none => .error (.errno EPROTO) ctx

def fidPath (fid : BitVec 32) : Handler σ Str := do
  let f ← lookupFid fid
  pure f.path

def putFid (fid : BitVec 32) (f : Option Fid) : Handler σ Unit :=
  modifyServer fun srv => { srv with fids := Function.update srv.fids fid f }

/-- Forget a fid, closing what it had open. -/
def dropFid (fid : BitVec 32) : Handler σ Unit := do
  match (← server).fids fid with
  | none => pure ()
  | some old =>
    putFid fid none
    change old.opened (ask fs (.close old.path))

def setFid (fid : BitVec 32) (path : Str) : Handler σ Unit := do
  dropFid fs fid
  putFid fid (some { path := path, opened := false, dir := none })

/-- Path of `name` inside the directory `dfid` refers to. -/
def child (dfid : BitVec 32) (name : Str) : Handler σ Str := do
  let dir ← fidPath dfid
  match join dir name with
  | some path => pure path
  | none => err EINVAL

def iounit : Handler σ (BitVec 32) := do
  pure (BitVec.ofNat 32 ((← server).msize.toNat - 24))

/-- Largest payload of a reply: header and count are 11 bytes. -/
def clampCount (count : BitVec 32) : Handler σ Nat := do
  pure (min count.toNat ((← server).msize.toNat - 11))

/-! ## Messages -/

def tVersion : Handler σ (List Byte) := do
  let msize ← u32
  let version ← str
  -- a new session: the client's fids are all gone
  modifyServer fun srv =>
    { srv with
      fids := fun _ => none
      msize := BitVec.ofNat 32 (max 4096 (min msize.toNat MAX_MSIZE)) }
  let srv ← server
  pure (le32 srv.msize ++ leStr (if VERSION.isPrefixOf version then VERSION else UNKNOWN))

def tAttach : Handler σ (List Byte) := do
  let fid ← u32
  let _afid ← u32
  let _uname ← str
  let _aname ← str
  let attr ← ask fs (.lstat [])
  setFid fs fid []
  pure (leQid attr.qid)

/-- The names of a walk, up to the first that leads nowhere. -/
def walkNames (fs : FsBackend σ) : Nat → Str → List Qid → Handler σ (Str × List Qid)
  | 0, path, qids => pure (path, qids)
  | n + 1, path, qids => do
    let name ← str
    match join path name with
    | none => pure (path, qids)
    | some next =>
      match ← attempt Fail.isErrno (ask fs (.lstat next)) with
      | some attr => walkNames fs n next (qids ++ [attr.qid])
      | none => pure (path, qids)

def tWalk : Handler σ (List Byte) := do
  let fid ← u32
  let newfid ← u32
  let nwname ← u16
  let start ← fidPath fid
  let (path, qids) ← walkNames fs nwname.toNat start []
  setFid fs newfid path
  pure (le16 (BitVec.ofNat 16 qids.length) ++ qids.flatMap leQid)

def tClunk : Handler σ (List Byte) := do
  let fid ← u32
  dropFid fs fid
  pure []

def tStatfs : Handler σ (List Byte) := do
  let _fid ← u32
  let st ← ask fs .statfs
  pure
    (le32 0 ++ le32 st.bsize ++ le64 st.blocks ++ le64 st.bfree ++ le64 st.bavail ++ le64
      st.files ++
    le64 st.ffree ++ le64 0 ++ le32 255)

def tGetattr : Handler σ (List Byte) := do
  let fid ← u32
  let mask ← u64
  let path ← fidPath fid
  let a ← ask fs (.lstat path)
  pure (le64 mask ++ leQid a.qid ++ le32 a.mode ++ le32 a.uid ++ le32 a.gid ++ le64 a.nlink ++
    le64 a.rdev ++ le64 a.size ++ le64 a.blksize ++ le64 a.blocks ++ le64 a.atime.1 ++ le64
      a.atime.2 ++
    le64 a.mtime.1 ++ le64 a.mtime.2 ++ le64 a.ctime.1 ++ le64 a.ctime.2 ++ le64 0 ++ le64 0 ++ le64
      0 ++ le64 0)

def given {β : Type} (valid bit : BitVec 32) (v : β) :
    Option β := if valid &&& bit ≠ 0 then some v else none

def tSetattr : Handler σ (List Byte) := do
  let fid ← u32
  let valid ← u32
  let mode ← u32
  let uid ← u32
  let gid ← u32
  let size ← u64
  let atimeSec ← u64
  let atimeNsec ← u64
  let mtimeSec ← u64
  let mtimeNsec ← u64
  let path ← fidPath fid
  -- chown can clear setuid bits, so mode goes last
  change (valid &&& (SETATTR_UID ||| SETATTR_GID) ≠ 0)
    (ask fs (.setOwner path (given valid SETATTR_UID uid) (given valid SETATTR_GID gid)))
  change (valid &&& SETATTR_SIZE ≠ 0) (ask fs (.truncate path size))
  change (valid &&& (SETATTR_ATIME ||| SETATTR_MTIME) ≠ 0)
    (ask fs
      (.setTimes path
        ((given valid SETATTR_ATIME (given valid SETATTR_ATIME_SET (atimeSec, atimeNsec))).join)
      ((given valid SETATTR_MTIME (given valid SETATTR_MTIME_SET (mtimeSec, mtimeNsec))).join)))
  change (valid &&& SETATTR_MODE ≠ 0) (ask fs (.setMode path mode))
  pure []

def tLopen : Handler σ (List Byte) := do
  let fid ← u32
  let flags ← u32
  let path ← fidPath fid
  let attr ← ask fs (.openFile path flags)
  let f ← lookupFid fid
  putFid fid (some { f with opened := true, dir := none })
  pure (leQid attr.qid ++ le32 (← iounit))

def tLcreate : Handler σ (List Byte) := do
  let fid ← u32
  let name ← str
  let flags ← u32
  let mode ← u32
  let _gid ← u32
  let path ← child fid name
  let attr ← ask fs (.create path flags mode)
  -- the fid moves from the directory to the new file
  let _ ← lookupFid fid
  putFid fid (some { path := path, opened := true, dir := none })
  pure (leQid attr.qid ++ le32 (← iounit))

/-- `Tread`, `Twrite` and `Treaddir` need an open fid. -/
def openedFid (fid : BitVec 32) : Handler σ Fid := do
  let f ← lookupFid fid
  if f.opened then pure f else err EPROTO

def tRead : Handler σ (List Byte) := do
  let fid ← u32
  let offset ← u64
  let count ← u32
  let f ← openedFid fid
  let count ← clampCount count
  let data : List Byte ← ask fs (.read f.path offset count)
  pure (le32 (BitVec.ofNat 32 data.length) ++ data)

def tWrite : Handler σ (List Byte) := do
  let fid ← u32
  let offset ← u64
  let count ← u32
  let data ← field (takeBytes count.toNat)
  let f ← openedFid fid
  let n ← ask fs (.write f.path offset data)
  pure (le32 (BitVec.ofNat 32 n))

/-- The listing `Treaddir` hands out, with `.` and `..` ahead of the backend's entries. -/
def listing (path : Str) : Handler σ (List DirEntry) := do
  let self ← ask fs (.lstat path)
  let up ← ask fs (.lstat (parent path))
  let entries ← ask fs (.readdir path)
  pure (⟨['.'], self.qid.path, self.mode⟩ :: ⟨['.', '.'], up.qid.path, up.mode⟩ :: entries)

/-- Entries from index `i` on that fit into `count` bytes. -/
def packEntries (count : Nat) : Nat → List DirEntry → List Byte → List Byte
  | _, [], out => out
  | i, e :: entries, out =>
    if out.length + (13 + 8 + 1 + 2 + (utf8 e.name).length) > count then out
    else
      packEntries count (i + 1) entries (out ++ leQid (Qid.fromMode e.mode e.ino) ++
        le64 (BitVec.ofNat 64 (i + 1)) ++ le 1 ((e.mode &&& S_IFMT) >>> 12) ++ leStr e.name)

/-- The listing a fid goes through: taken anew at offset 0. -/
def snapshot (f : Fid) (offset : BitVec 64) : Handler σ (List DirEntry) :=
  match f.dir with
  | some entries => if offset = 0 then listing fs f.path else pure entries
  | none => listing fs f.path

/-- `Treaddir` body; `w` is the width of `usize`. -/
def readdir (w : Nat) (fs : FsBackend σ) (fid : BitVec 32) (offset : BitVec 64)
    (count : BitVec 32) :
    Handler σ (List Byte) := do
  let f ← openedFid fid
  let entries ← snapshot fs f offset
  putFid fid (some { f with dir := some entries })
  let count ← clampCount count
  let skip := offset.toNat % 2 ^ w
  pure (packEntries count skip (entries.drop skip) [])

def tReaddir (w : Nat) (fs : FsBackend σ) : Handler σ (List Byte) := do
  let fid ← u32
  let offset ← u64
  let count ← u32
  let body ← readdir w fs fid offset count
  pure (le32 (BitVec.ofNat 32 body.length) ++ body)

def tMkdir : Handler σ (List Byte) := do
  let dfid ← u32
  let name ← str
  let mode ← u32
  let _gid ← u32
  let path ← child dfid name
  let attr ← ask fs (.mkdir path mode)
  pure (leQid attr.qid)

def tUnlinkat : Handler σ (List Byte) := do
  let dfid ← u32
  let name ← str
  let flags ← u32
  let path ← child dfid name
  ask fs (.remove path (flags &&& AT_REMOVEDIR ≠ 0))
  pure []

def tRenameat : Handler σ (List Byte) := do
  let olddirfid ← u32
  let oldname ← str
  let newdirfid ← u32
  let newname ← str
  let src ← child olddirfid oldname
  let dst ← child newdirfid newname
  ask fs (.rename src dst)
  pure []

def tSymlink : Handler σ (List Byte) := do
  let dfid ← u32
  let name ← str
  let target ← str
  let _gid ← u32
  let path ← child dfid name
  let attr ← ask fs (.symlink path target)
  pure (leQid attr.qid)

def tReadlink : Handler σ (List Byte) := do
  let fid ← u32
  let path ← fidPath fid
  let target ← ask fs (.readlink path)
  pure (leStr target)

def tLink : Handler σ (List Byte) := do
  let dfid ← u32
  let fid ← u32
  let name ← str
  let existing ← fidPath fid
  let new ← child dfid name
  ask fs (.hardlink existing new)
  pure []

def tMknod : Handler σ (List Byte) := do
  let dfid ← u32
  let name ← str
  let mode ← u32
  let major ← u32
  let minor ← u32
  let _gid ← u32
  let path ← child dfid name
  let attr ← ask fs (.mknod path mode major minor)
  pure (leQid attr.qid)

/-- Locks are granted unconditionally. -/
def tLock : Handler σ (List Byte) := do
  let _fid ← u32
  pure (le 1 (0 : Byte))

def tGetlock : Handler σ (List Byte) := do
  let _fid ← u32
  let _kind ← u8
  let start ← u64
  let length ← u64
  let procId ← u32
  let clientId ← str
  pure (le 1 (2 : Byte) ++ le64 start ++ le64 length ++ le32 procId ++ leStr clientId)

def dispatch (w : Nat) (fs : FsBackend σ) (id : Byte) : Handler σ (List Byte) :=
  if id = T_VERSION then tVersion
  else if id = T_ATTACH then tAttach fs
  else if id = T_WALK then tWalk fs
  else if id = T_CLUNK then tClunk fs
  else if id = T_STATFS then tStatfs fs
  else if id = T_GETATTR then tGetattr fs
  else if id = T_SETATTR then tSetattr fs
  else if id = T_LOPEN then tLopen fs
  else if id = T_LCREATE then tLcreate fs
  else if id = T_READ then tRead fs
  else if id = T_WRITE then tWrite fs
  else if id = T_READDIR then tReaddir w fs
  else if id = T_MKDIR then tMkdir fs
  else if id = T_UNLINKAT then tUnlinkat fs
  else if id = T_RENAMEAT then tRenameat fs
  else if id = T_SYMLINK then tSymlink fs
  else if id = T_READLINK then tReadlink fs
  else if id = T_LINK then tLink fs
  else if id = T_MKNOD then tMknod fs
  else if id = T_FSYNC ∨ id = T_FLUSH then pure []
  else if id = T_XATTRWALK then err EOPNOTSUPP
  else if id = T_LOCK then tLock
  else if id = T_GETLOCK then tGetlock
  else err EOPNOTSUPP

end Handler

namespace Server

variable {σ : Type}

def header (req : List Byte) : Option (Byte × BitVec 16 × List Byte) := do
  let (_, rest) ← takeNumber 32 4 req
  let (id, rest) ← takeNumber 8 1 rest
  let (tag, rest) ← takeNumber 16 2 rest
  pure (id, tag, rest)

/-- Handle one T-message, returning the complete R-message; there is none after a panic. -/
def handle (w : Nat) (fs : FsBackend σ) (srv : Server σ) (req : List Byte) :
    Option (List Byte) × Server σ :=
  match header req with
  | none => (some (reply R_LERROR 0 (errBody EPROTO)), srv)
  | some (id, tag, body) =>
    match Handler.dispatch w fs id { srv := srv, body := body } with
    | .ok out ctx => (some (reply (id + 1) tag out), ctx.srv)
    | .error (.errno e) ctx => (some (reply R_LERROR tag (errBody e)), ctx.srv)
    | .error .panic ctx => (none, ctx.srv)

def step (w : Nat) (fs : FsBackend σ) (srv : Server σ) (req : List Byte) :
    Server σ := (handle w fs srv req).2

def run (w : Nat) (fs : FsBackend σ) (files : σ) (reqs : List (List Byte)) : Server σ :=
  Events.run (step w fs) (Server.new files) reqs

end Server

end Rv64Js.P9
