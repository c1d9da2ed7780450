import Rv64Js.Core.State
import Rv64Js.Machine.Buses

/-! # Linux system calls of user-mode programs

`handle` of `syscall.rs`: number and arguments from the registers, effects on a flat guest memory
and on the host, the result in `a0`. `usize` has `w` bits and wraps; an index out of the memory
vector is a host panic. -/

set_option autoImplicit false

namespace Rv64Js.Linux

open Rv64Js.Core Rv64Js.Board Rv64Js.Machine

/-! ## Numbers -/

def SYS_GETCWD : Word := 17#64
def SYS_FCNTL : Word := 25#64
def SYS_IOCTL : Word := 29#64
def SYS_UNLINKAT : Word := 35#64
def SYS_FACCESSAT : Word := 48#64
def SYS_OPENAT : Word := 56#64
def SYS_CLOSE : Word := 57#64
def SYS_LSEEK : Word := 62#64
def SYS_READ : Word := 63#64
def SYS_WRITE : Word := 64#64
def SYS_READV : Word := 65#64
def SYS_WRITEV : Word := 66#64
def SYS_PPOLL : Word := 73#64
def SYS_READLINKAT : Word := 78#64
def SYS_NEWFSTATAT : Word := 79#64
def SYS_FSTAT : Word := 80#64
def SYS_EXIT : Word := 93#64
def SYS_EXIT_GROUP : Word := 94#64
def SYS_SET_TID_ADDRESS : Word := 96#64
def SYS_FUTEX : Word := 98#64
def SYS_SET_ROBUST_LIST : Word := 99#64
def SYS_CLOCK_GETTIME : Word := 113#64
def SYS_SCHED_GETAFFINITY : Word := 123#64
def SYS_SIGALTSTACK : Word := 132#64
def SYS_RT_SIGACTION : Word := 134#64
def SYS_RT_SIGPROCMASK : Word := 135#64
def SYS_UNAME : Word := 160#64
def SYS_GETRUSAGE : Word := 165#64
def SYS_GETTIMEOFDAY : Word := 169#64
def SYS_GETPID : Word := 172#64
def SYS_GETPPID : Word := 173#64
def SYS_GETUID : Word := 174#64
def SYS_GETEUID : Word := 175#64
def SYS_GETGID : Word := 176#64
def SYS_GETEGID : Word := 177#64
def SYS_GETTID : Word := 178#64
def SYS_BRK : Word := 214#64
def SYS_MUNMAP : Word := 215#64
def SYS_MREMAP : Word := 216#64
def SYS_MMAP : Word := 222#64
def SYS_MPROTECT : Word := 226#64
def SYS_MADVISE : Word := 233#64
def SYS_RISCV_FLUSH_ICACHE : Word := 259#64
def SYS_PRLIMIT64 : Word := 261#64
def SYS_GETRANDOM : Word := 278#64
def SYS_RSEQ : Word := 293#64

def ENOSYS : Word := -38#64
def EBADF : Word := -9#64
def EINVAL : Word := -22#64
def ENOENT : Word := -2#64
def ENOMEM : Word := -12#64

def PAGE : Word := 4096#64

/-- For the numbers of argument registers. -/
instance neZeroSix : NeZero 6 := ⟨by decide⟩

/-- What the ABI passes in a register when it is an address. -/
inductive Pointer where
  | record (reg : Fin 6) (size : Nat)
  /-- as many items as another register says -/
  | items (reg count : Fin 6) (size : Nat)
  /-- up to a NUL -/
  | text (reg : Fin 6)
  /-- pairs of an address and a length, and what they stand for -/
  | iovec (reg count : Fin 6)
  /-- pages, if not at 0 -/
  | pages (reg length : Fin 6)
  deriving DecidableEq

/-- What a number asks for. Calls answered by a constant are one case; their pointers, which the
source does not look at, are those of the ABI. -/
inductive Call where
  | exit
  | write
  | writev
  | brk
  | mmap
  | flushIcache
  | clockGettime
  | gettimeofday
  | getrandom
  | uname
  | getcwd
  | fstat
  | newfstatat
  | closeOrSeek
  | schedGetaffinity
  | answer (value : Word) (pointers : List Pointer)
  deriving DecidableEq

def calls : List (Word × Call) :=
  [(SYS_EXIT, .exit), (SYS_EXIT_GROUP, .exit), (SYS_WRITE, .write), (SYS_WRITEV, .writev),
    -- nothing to read
    (SYS_READ, .answer 0 [.items 1 2 1]), (SYS_READV, .answer 0 [.iovec 1 2]),
    (SYS_PPOLL, .answer 0 [.items 0 1 8, .record 2 16, .items 3 4 1]),
    (SYS_BRK, .brk), (SYS_MMAP, .mmap), (SYS_RISCV_FLUSH_ICACHE, .flushIcache),
    (SYS_MUNMAP, .answer 0 [.pages 0 1]), (SYS_MPROTECT, .answer 0 [.pages 0 1]),
    (SYS_MADVISE, .answer 0 [.pages 0 1]), (SYS_MREMAP, .answer ENOMEM [.pages 0 1]),
    (SYS_CLOCK_GETTIME, .clockGettime), (SYS_GETTIMEOFDAY, .gettimeofday),
    (SYS_GETRANDOM, .getrandom), (SYS_UNAME, .uname), (SYS_GETCWD, .getcwd), (SYS_FSTAT, .fstat),
    (SYS_NEWFSTATAT, .newfstatat),
    -- what the last arguments point to, if they do, is up to the request
    (SYS_IOCTL, .answer 0 [.record 2 1]), (SYS_FCNTL, .answer 0 [.record 2 1]),
    (SYS_FUTEX, .answer 0 [.record 0 4, .record 3 1, .record 4 1]),
    -- no file system
    (SYS_OPENAT, .answer ENOENT [.text 1]), (SYS_FACCESSAT, .answer ENOENT [.text 1]),
    (SYS_UNLINKAT, .answer ENOENT [.text 1]),
    (SYS_READLINKAT, .answer ENOENT [.text 1, .items 2 3 1]),
    (SYS_CLOSE, .closeOrSeek), (SYS_LSEEK, .closeOrSeek),
    (SYS_SET_TID_ADDRESS, .answer 42 [.record 0 4]), (SYS_GETTID, .answer 42 []),
    (SYS_GETPID, .answer 42 []), (SYS_GETPPID, .answer 1 []), (SYS_GETUID, .answer 1000 []),
    (SYS_GETEUID, .answer 1000 []), (SYS_GETGID, .answer 1000 []), (SYS_GETEGID, .answer 1000 []),
    (SYS_SET_ROBUST_LIST, .answer 0 [.items 0 1 1]),
    (SYS_RT_SIGACTION, .answer 0 [.record 1 24, .record 2 24]),
    (SYS_RT_SIGPROCMASK, .answer 0 [.items 1 3 1, .items 2 3 1]),
    (SYS_SIGALTSTACK, .answer 0 [.record 0 24, .record 1 24]),
    (SYS_PRLIMIT64, .answer 0 [.record 2 16, .record 3 16]),
    (SYS_GETRUSAGE, .answer 0 [.record 1 144]), (SYS_RSEQ, .answer 0 [.items 0 1 1]),
    (SYS_SCHED_GETAFFINITY, .schedGetaffinity)]

def Call.ofNumber (nr : Word) : Call := (calls.lookup nr).getD (.answer ENOSYS [])

/-! ## Machine and host -/

/-- A user-mode process; the memory vector is as long as the host allows at most. -/
structure Machine (w : Nat) where
  cpu : Cpu
  mem : Ram
  memLen : Nat
  brk : Word
  brkStart : Word
  mmapTop : Word
  icacheFlushPending : Bool
  fits : memLen < 2 ^ (w - 1)

class Host (η : Type) where
  writeOut : BitVec 32 → List (BitVec 8) → η → η
  clockNs : η → Word × η
  /-- the bytes a buffer of the given length is filled with -/
  random : Nat → η → (Nat → BitVec 8) × η

structure Process (w : Nat) (η : Type) where
  machine : Machine w
  host : η

inductive Panic where
  | index

abbrev M (w : Nat) (η : Type) := EStateM Panic (Process w η)

abbrev Args := Fin 6 → Word

variable {w : Nat} {η : Type} (p : Process w η)

def Process.args : Args := fun i => p.machine.cpu.hart.x (10#5 + BitVec.ofNat 5 i)

def Process.call : Call := Call.ofNumber (p.machine.cpu.hart.x 17#5)

def Process.withMem (mem : Ram) : Process w η :=
  { p with machine := { p.machine with mem := mem } }

/-! ## Memory -/

def copyAt (mem : Ram) (off n : Nat) (src : Nat → BitVec 8) : Ram := fun i =>
  if off ≤ i ∧ i < off + n then src (i - off) else mem i

def overwrite (start n : Nat) (src : Nat → BitVec 8) : M w η Unit := fun p =>
  match slice p.machine.memLen start (addUsize w start n) with
  | .bytes off => .ok () (p.withMem (copyAt p.machine.mem off n src))
  | _ => .error .index p

def wordByte (v : Word) (i : Nat) : BitVec 8 := BitVec.ofNat 8 (v.toNat >>> (8 * i))

def writeU64 (addr v : Word) : M w η Unit := overwrite (asUsize w addr) 8 (wordByte v)

def readU64 (addr : Word) : M w η Word := fun p =>
  match slice p.machine.memLen (asUsize w addr) (addUsize w (asUsize w addr) 8) with
  | .bytes off => .ok (BitVec.ofNat 64 (p.machine.mem.load off 8)) p
  | _ => .error .index p

/-! ## Calls -/

variable [Host η]

/-- Standard output and standard error are open. -/
def isOutput (fd : BitVec 32) : Bool := decide (fd = 1#32) || decide (fd = 2#32)

def sysWrite (fd : BitVec 32) (buf len : Word) : M w η Word := fun p =>
  if !isOutput fd then .ok EBADF p
  else
    let s := asUsize w buf
    let e := asUsize w (buf + len)
    if p.machine.memLen < e then .ok EINVAL p
    else
      match slice p.machine.memLen s e with
      | .bytes off =>
        let bytes := (List.range (e - off)).map fun i => p.machine.mem (off + i)
        .ok len { p with host := Host.writeOut fd bytes p.host }
      | _ => .error .index p

/-- Entries of the iovec from the `i`-th on, and what has been written so far. -/
def writevLoop (fd : BitVec 32) (iov : Word) : Nat → Nat → Word → M w η Word
  | 0, _, total => pure total
  | left + 1, i, total => do
    let base ← readU64 (iov + BitVec.ofNat 64 i * 16#64)
    let len ← readU64 (iov + BitVec.ofNat 64 i * 16#64 + 8#64)
    let n ← sysWrite fd base len
    if n.slt 0#64 then pure n
    else if n < len then pure (total + n)
    else writevLoop fd iov left (i + 1) (total + n)

def sysBrk (req : Word) : M w η Word := fun p =>
  let m := p.machine
  let m := if m.brkStart ≤ req ∧ req < m.mmapTop then { m with brk := req } else m
  .ok m.brk { p with machine := m }

def mapLength (len : Word) : Word := (len + PAGE - 1#64) &&& ~~~(PAGE - 1#64)

def growMmap (len : Word) : M w η Word := fun p =>
  if p.machine.mmapTop - len ≤ p.machine.brk then .ok ENOMEM p
  else
    let top := p.machine.mmapTop - len
    let p := { p with machine := { p.machine with mmapTop := top } }
    match slice p.machine.memLen (asUsize w top) (asUsize w (top + len)) with
    | .bytes off =>
      .ok top (p.withMem (copyAt p.machine.mem off (asUsize w (top + len) - off) fun _ => 0))
    | _ => .error .index p

/-- A wanted address is taken as it is. -/
def sysMmap (addr length : Word) : M w η Word := fun p =>
  let len := mapLength length
  if len = 0#64 then .ok EINVAL p
  else if addr ≠ 0#64 then .ok addr p
  else growMmap len p

/-- The host's clock, as two doublewords at an address. -/
def writeClock (addr : Word) (fraction : Word → Word) : M w η Word := do
  let ns ← modifyGet fun p : Process w η =>
    ((Host.clockNs p.host).1, { p with host := (Host.clockNs p.host).2 })
  writeU64 addr (ns / 1000000000#64)
  writeU64 (addr + 8#64) (fraction (ns % 1000000000#64))
  pure 0#64

def sysGetrandom (buf buflen : Word) : M w η Word := do
  let len := min (asUsize w buflen) 256
  let bytes ← modifyGet fun p : Process w η =>
    ((Host.random len p.host).1, { p with host := (Host.random len p.host).2 })
  overwrite (asUsize w buf) len bytes
  pure (BitVec.ofNat 64 len)

def utsname : List String := ["Linux", "rv64js", "6.1.0", "#1 rv64.js", "riscv64"]

def charByte (s : String) (i : Nat) : BitVec 8 := BitVec.ofNat 8 ((s.toList.getD i '\x00').toNat)

def putFields (base : Nat) : Nat → List String → M w η Unit
  | _, [] => pure ()
  | i, s :: rest => do
    overwrite (addUsize w base (i * 65)) s.length (charByte s)
    putFields base (i + 1) rest

def sysUname (buf : Word) : M w η Word := do
  overwrite (asUsize w buf) (65 * 6) fun _ => 0
  putFields (asUsize w buf) 0 utsname
  pure 0#64

def sysGetcwd (buf size : Word) : M w η Word := do
  if size < 2#64 then pure EINVAL
  else
    overwrite (asUsize w buf) 2 fun i => if i = 0 then 0x2f#8 else 0#8
    pure buf

/-- A character device for every descriptor. -/
def sysFstat (statbuf : Word) : M w η Word := do
  overwrite (asUsize w statbuf) 128 fun _ => 0
  overwrite (addUsize w (asUsize w statbuf) 16) 4 (wordByte 0x2190#64)
  pure 0#64

def sysSchedGetaffinity (size mask : Word) : M w η Word := do
  if 8#64 ≤ size then
    writeU64 mask 1#64
    pure 8#64
  else pure EINVAL

/-- The value a call returns; `exit` does not get here. -/
def serve (call : Call) (a : Args) : M w η Word :=
  match call with
  | .exit => pure 0#64
  | .write => sysWrite ((a 0).setWidth 32) (a 1) (a 2)
  | .writev => writevLoop ((a 0).setWidth 32) (a 1) (min (asUsize w (a 2)) 64) 0 0#64
  | .brk => sysBrk (a 0)
  | .mmap => sysMmap (a 0) (a 1)
  | .flushIcache => fun p =>
    .ok 0#64 { p with machine := { p.machine with icacheFlushPending := true } }
  | .clockGettime => writeClock (a 1) id
  | .gettimeofday => writeClock (a 0) (· / 1000#64)
  | .getrandom => sysGetrandom (a 0) (a 1)
  | .uname => sysUname (a 0)
  | .getcwd => sysGetcwd (a 0) (a 1)
  | .fstat => sysFstat (a 1)
  | .newfstatat => sysFstat (a 2)
  | .closeOrSeek => pure (if ((a 0).setWidth 32).sle 2#32 then 0#64 else EBADF)
  | .schedGetaffinity => sysSchedGetaffinity (a 1) (a 2)
  | .answer value _ => pure value

omit [Host η] in
def Process.setResult (ret : Word) : Process w η :=
  { p with
    machine := { p.machine with
      cpu := { p.machine.cpu with hart := p.machine.cpu.hart.setX 10#5 ret } } }

/-- Service the call at an ECALL; the exit code when the program has ended. -/
def handle : M w η (Option (BitVec 32)) := do
  let p ← get
  match p.call with
  | .exit => pure (some ((p.args 0).setWidth 32))
  | call =>
    let ret ← serve call p.args
    modify (·.setResult ret)
    pure none

end Rv64Js.Linux
