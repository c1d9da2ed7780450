import Rv64Js.Lib.Masks
import Rv64Js.Linux.Pointers

/-! # Loading a program

`load` of `elf.rs` places the segments of an image in zeroed memory, and `setup_stack` of `lib.rs`
pushes the arguments down from its top. Neither looks at where the other, or a mapping, will be. -/

set_option autoImplicit false

namespace Rv64Js.Linux

open Rv64Js.Core Rv64Js.Board Rv64Js.Machine Fallible

abbrev Bytes := List (BitVec 8)

inductive LoadError where
  | notElf
  | not64Bit
  | notRiscv
  | notExecutable
  | truncated
  | segmentOutOfRange (vaddr size : Word)
  | panic
  deriving DecidableEq

/-! ## The image -/

def ET_EXEC : Nat := 2
def ET_DYN : Nat := 3
def PT_LOAD : Nat := 1
def EM_RISCV : Nat := 243
def PIE_BASE : Word := 0x400000#64

/-- The little-endian number in `n` bytes. -/
def number (b : Bytes) (o n : Nat) : Nat := Ram.load (fun i => b.getD i 0) o n

structure ElfHeader where
  bias : Word
  entry : Word
  phoff : Word
  phentsize : Word
  phnum : Word
  deriving DecidableEq

def elfHeader (elf : Bytes) : Except LoadError ElfHeader :=
  if elf.length < 64 then .error .truncated
  else if elf.take 4 ≠ [0x7f, 0x45, 0x4c, 0x46] then .error .notElf
  else if elf.getD 4 0 ≠ 2 then .error .not64Bit
  else if number elf 18 2 ≠ EM_RISCV then .error .notRiscv
  else if number elf 16 2 ≠ ET_EXEC ∧ number elf 16 2 ≠ ET_DYN then .error .notExecutable
  else
    .ok { bias := if number elf 16 2 = ET_DYN then PIE_BASE else 0
          entry := .ofNat 64 (number elf 24 8)
          phoff := .ofNat 64 (number elf 32 8)
          phentsize := .ofNat 64 (number elf 54 2)
          phnum := .ofNat 64 (number elf 56 2) }

structure Segment where
  type : Nat
  offset : Word
  vaddr : Word
  filesz : Word
  memsz : Word
  deriving DecidableEq

section Image

variable (w memLen : Nat) (elf : Bytes) (h : ElfHeader)

def segment (i : Nat) : Except LoadError Segment :=
  let off := asUsize w (h.phoff + BitVec.ofNat 64 i * h.phentsize)
  if elf.length < addUsize w off 56 then .error .truncated
  -- the sum has wrapped, and the index is out of the file
  else if elf.length < off + 56 then .error .panic
  else
    .ok { type := number elf off 4
          offset := .ofNat 64 (number elf (off + 8) 8)
          vaddr := .ofNat 64 (number elf (off + 16) 8) + h.bias
          filesz := .ofNat 64 (number elf (off + 32) 8)
          memsz := .ofNat 64 (number elf (off + 40) 8) }

structure Image where
  mem : Ram
  brkStart : Word
  phdrAddr : Word
  /-- start and length of what has been placed -/
  placed : List (Nat × Nat)

/-- `mem[dst..dstEnd].copy_from_slice(&elf[src..srcEnd])`. -/
def copySlice (mem : Ram) (dst dstEnd src srcEnd : Nat) : Except LoadError Ram :=
  match slice memLen dst dstEnd, slice elf.length src srcEnd with
  | .bytes dst, .bytes src =>
    if dstEnd - dst = srcEnd - src then
      .ok (copyAt mem dst (srcEnd - src) fun i => elf.getD (src + i) 0)
    else .error .panic
  | _, _ => .error .panic

def place (image : Image) (seg : Segment) : Except LoadError Image :=
  let stop := seg.vaddr + seg.memsz
  if seg.type ≠ PT_LOAD then .ok image
  else if memLen < seg.vaddr.toNat + seg.memsz.toNat then
    .error (.segmentOutOfRange seg.vaddr seg.memsz)
  else if elf.length < asUsize w (seg.offset + seg.filesz) then .error .truncated
  else
    -- the file size is not held against the size in memory
    (copySlice memLen elf image.mem (asUsize w seg.vaddr) (asUsize w (seg.vaddr + seg.filesz))
      (asUsize w seg.offset) (asUsize w (seg.offset + seg.filesz))).map fun mem =>
        { mem := mem
          brkStart := if image.brkStart < stop then stop else image.brkStart
          phdrAddr :=
            if seg.offset ≤ h.phoff ∧ h.phoff < seg.offset + seg.filesz then
              seg.vaddr + (h.phoff - seg.offset)
            else image.phdrAddr
          placed := (seg.vaddr.toNat, max seg.filesz.toNat seg.memsz.toNat) :: image.placed }

/-- The program headers go behind the segments if none has them. -/
def placeHeaders (image : Image) : Except LoadError Image :=
  let sz := asUsize w (h.phentsize * h.phnum)
  let dst := asUsize w image.brkStart
  let src := asUsize w h.phoff
  if image.phdrAddr ≠ 0#64 then .ok image
  else
    (copySlice memLen elf image.mem dst (addUsize w dst sz) src (addUsize w src sz)).map fun mem =>
      { mem := mem
        brkStart := image.brkStart + BitVec.ofNat 64 sz
        phdrAddr := image.brkStart
        placed := (image.brkStart.toNat, sz) :: image.placed }

def placeSegments : List Nat → Image → Except LoadError Image
  | [], image => .ok image
  | i :: rest, image => do
    let seg ← segment w elf h i
    let image ← place w memLen elf h image seg
    placeSegments rest image

structure LoadedElf where
  entry : Word
  phdrAddr : Word
  phent : Word
  phnum : Word
  brkStart : Word
  image : Image

def loadElf : Except LoadError LoadedElf := do
  let h ← elfHeader elf
  let image ← placeSegments w memLen elf h (List.range h.phnum.toNat)
    { mem := fun _ => 0, brkStart := 0, phdrAddr := 0, placed := [] }
  let image ← placeHeaders w memLen elf h image
  pure { entry := h.entry + h.bias
         phdrAddr := image.phdrAddr
         phent := h.phentsize
         phnum := h.phnum
         brkStart := (image.brkStart + 0xfff#64) &&& ~~~0xfff#64
         image := image }

end Image

/-! ## The stack -/

section Stack

variable {w : Nat} {η : Type}

def auxv (loaded : LoadedElf) (atRandom : Word) : List (Word × Word) :=
  -- AT_PHDR, AT_PHENT, AT_PHNUM, AT_PAGESZ, AT_BASE, AT_FLAGS, AT_ENTRY
  [(3, loaded.phdrAddr), (4, loaded.phent), (5, loaded.phnum), (6, 4096), (7, 0), (8, 0),
    (9, loaded.entry),
    -- AT_UID, AT_EUID, AT_GID, AT_EGID, AT_HWCAP, AT_CLKTCK, AT_SECURE, AT_RANDOM, AT_NULL
    (11, 1000), (12, 1000), (13, 1000), (14, 1000), (16, 0x20112d), (17, 100), (23, 0),
    (25, atRandom), (0, 0)]

def pushBytes (pos : Word) (bytes : Bytes) : M w η Word := do
  let pos := pos - (BitVec.ofNat 64 bytes.length + 1#64)
  overwrite (asUsize w pos) bytes.length (bytes.getD · 0)
  overwrite (addUsize w (asUsize w pos) bytes.length) 1 fun _ => 0
  pure pos

/-- The position after the last string, and the pointers. -/
def pushStrings (pos : Word) : List Bytes → M w η (Word × List Word)
  | [] => pure (pos, [])
  | s :: rest => do
    let ptr ← pushBytes pos s
    let (last, ptrs) ← pushStrings ptr rest
    pure (last, ptr :: ptrs)

def putWords (addr : Word) : List Word → M w η Unit
  | [] => pure ()
  | v :: rest => do
    writeU64 addr v
    putWords (addr + 8#64) rest

def vector (argv envp : List Word) (auxv : List (Word × Word)) : List Word :=
  BitVec.ofNat 64 argv.length :: argv ++ 0#64 :: envp ++ 0#64 :: auxv.flatMap fun entry =>
    [entry.1, entry.2]

def Process.setSp (p : Process w η) (sp : Word) : Process w η :=
  { p with machine :=
    { p.machine with cpu := { p.machine.cpu with hart := p.machine.cpu.hart.setX 2#5 sp } } }

variable [Host η]

def setupStack (stackTop : Word) (argv envp : List Bytes) (loaded : LoadedElf) : M w η Unit := do
  let (pos, argvPtrs) ← pushStrings stackTop argv
  let (pos, envpPtrs) ← pushStrings pos envp
  let rnd ← modifyGet fun p : Process w η =>
    ((Host.random 16 p.host).1, { p with host := (Host.random 16 p.host).2 })
  let atRandom := pos - 16#64
  overwrite (asUsize w atRandom) 16 rnd
  let auxv := auxv loaded atRandom
  let words := 1 + argvPtrs.length + 1 + envpPtrs.length + 1 + auxv.length * 2
  let sp := ((atRandom &&& ~~~15#64) - BitVec.ofNat 64 words * 8#64) &&& ~~~15#64
  putWords sp (vector argvPtrs envpPtrs auxv)
  modify (·.setSp sp)

end Stack

def STACK_SIZE : Word := 0x800000#64

/-- `Machine::load`, with what it placed of the image. -/
def load {w : Nat} {η : Type} [Host η] (elf : Bytes) (argv envp : List Bytes) (memSize : Nat)
    (fits : memSize < 2 ^ (w - 1)) (host : η) :
    Except LoadError (Process w η × List (Nat × Nat)) := do
  let loaded ← loadElf w memSize elf
  let machine : Machine w :=
    { cpu := { Cpu.new with pc := loaded.entry }
      mem := loaded.image.mem
      memLen := memSize
      brk := loaded.brkStart
      brkStart := loaded.brkStart
      mmapTop := BitVec.ofNat 64 memSize - STACK_SIZE
      icacheFlushPending := false
      fits := fits }
  match setupStack (BitVec.ofNat 64 memSize - 16#64) argv envp loaded ⟨machine, host⟩ with
  | .ok () p => .ok (p, loaded.image.placed)
  | .error _ _ => .error .panic

/-! ## Where the image ends -/

/-- No segment of the file has more bytes in the file than in memory. -/
def Proper (w : Nat) (elf : Bytes) : Prop :=
  ∀ h, elfHeader elf = .ok h → ∀ i < h.phnum.toNat, ∀ seg, segment w elf h i = .ok seg →
    seg.type = PT_LOAD → seg.filesz ≤ seg.memsz

/-- What has been placed ends below the break. -/
structure Image.Below (memLen : Nat) (image : Image) : Prop where
  inside : image.brkStart.toNat ≤ memLen
  ends : ∀ r ∈ image.placed, r.1 + r.2 ≤ image.brkStart.toNat

section Image

variable {w memLen : Nat} {elf : Bytes} {h : ElfHeader} {image image' : Image}

theorem map_eq_ok {α β : Type} {m : Except LoadError α} {f : α → β} {b : β}
    (run : m.map f = .ok b) : ∃ a, m = .ok a ∧ f a = b := by
  cases m <;> cases run
  exact ⟨_, rfl, rfl⟩

theorem Image.Below.place (small : memLen < 2 ^ 63) {seg : Segment}
    (proper : seg.type = PT_LOAD → seg.filesz ≤ seg.memsz) (below : image.Below memLen)
    (run : place w memLen elf h image seg = .ok image') : image'.Below memLen := by
  have inside := below.inside
  unfold Linux.place at run
  by_cases other : seg.type ≠ PT_LOAD
  · cases (if_pos other).symm.trans run
    exact below
  replace run := (if_neg other).symm.trans run
  by_cases outside : memLen < seg.vaddr.toNat + seg.memsz.toNat
  · cases (if_pos outside).symm.trans run
  replace run := (if_neg outside).symm.trans run
  by_cases short : elf.length < asUsize w (seg.offset + seg.filesz)
  · cases (if_pos short).symm.trans run
  obtain ⟨mem, -, rfl⟩ := map_eq_ok ((if_neg short).symm.trans run)
  have sizes : seg.filesz.toNat ≤ seg.memsz.toNat := proper (not_not.mp other)
  have stop : (seg.vaddr + seg.memsz).toNat = seg.vaddr.toNat + seg.memsz.toNat := by
    rw [BitVec.toNat_add]
    omega
  have later : ∀ r ∈ (seg.vaddr.toNat, max seg.filesz.toNat seg.memsz.toNat) :: image.placed,
      r.1 + r.2 ≤ max image.brkStart.toNat (seg.vaddr + seg.memsz).toNat := by
    refine List.forall_mem_cons.mpr ⟨?_, fun r old => ?_⟩
    · rw [max_eq_right sizes, stop]
      exact le_max_right _ _
    · exact (below.ends r old).trans (le_max_left _ _)
  have top :
    (if image.brkStart < seg.vaddr + seg.memsz then seg.vaddr + seg.memsz
      else image.brkStart).toNat =
      max image.brkStart.toNat (seg.vaddr + seg.memsz).toNat := by
    split <;> bv_omega
  exact ⟨by dsimp only; omega, fun r member => top ▸ later r member⟩

theorem Image.Below.segments (small : memLen < 2 ^ 63) {indices : List Nat}
    (proper : ∀ i ∈ indices, ∀ seg, segment w elf h i = .ok seg → seg.type = PT_LOAD →
      seg.filesz ≤ seg.memsz)
    (below : image.Below memLen) (run : placeSegments w memLen elf h indices image = .ok image') :
    image'.Below memLen := by
  induction indices generalizing image with
  | nil =>
    cases run
    exact below
  | cons i rest ih =>
    obtain ⟨seg, read, run⟩ := except_bind_ok run
    obtain ⟨next, placed, run⟩ := except_bind_ok run
    exact ih (fun j later => proper j (List.mem_cons_of_mem _ later))
      (below.place small (proper i List.mem_cons_self seg read) placed) run

theorem Image.Below.headers (host : w = 32 ∨ w = 64) (small : memLen < 2 ^ (w - 1))
    (below : image.Below memLen)
    (run : placeHeaders w memLen elf h image = .ok image') : image'.Below memLen := by
  have inside := below.inside
  have room : memLen < 2 ^ w ∧ memLen < 2 ^ 63 := by rcases host with rfl | rfl <;> omega
  unfold placeHeaders at run
  by_cases found : image.phdrAddr ≠ 0#64
  · cases (if_pos found).symm.trans run
    exact below
  obtain ⟨mem, copied, rfl⟩ := map_eq_ok ((if_neg found).symm.trans run)
  have start : asUsize w image.brkStart = image.brkStart.toNat := Nat.mod_eq_of_lt (by omega)
  have size : asUsize w (h.phentsize * h.phnum) < 2 ^ w := Nat.mod_lt _ (Nat.two_pow_pos w)
  clear run
  generalize asUsize w (h.phentsize * h.phnum) = sz at copied size ⊢
  -- the slice is in memory, so that its end has not wrapped
  have fits : image.brkStart.toNat + sz ≤ memLen := by
    unfold copySlice slice at copied
    rw [start, addUsize] at copied
    split_ifs at copied with dst
    rcases Nat.lt_or_ge (image.brkStart.toNat + sz) (2 ^ w) with whole | wrapped
    · rw [Nat.mod_eq_of_lt whole] at dst
      exact dst.2
    · rw [Nat.mod_eq_sub_mod wrapped, Nat.mod_eq_of_lt (by omega)] at dst
      omega
  have stop : (image.brkStart + BitVec.ofNat 64 sz).toNat = image.brkStart.toNat + sz := by
    rw [BitVec.toNat_add, BitVec.toNat_ofNat]
    omega
  refine ⟨by dsimp only; omega, ?_⟩
  dsimp only
  rw [stop]
  exact List.forall_mem_cons.mpr
    ⟨le_rfl, fun r old => (below.ends r old).trans (Nat.le_add_right _ _)⟩

/-- Everything placed ends below the initial break. -/
theorem loadElf_below (host : w = 32 ∨ w = 64) (small : memLen < 2 ^ (w - 1))
    (proper : Proper w elf) {loaded : LoadedElf} (run : loadElf w memLen elf = .ok loaded) :
    ∀ r ∈ loaded.image.placed, r.1 + r.2 ≤ loaded.brkStart.toNat := by
  have room : memLen < 2 ^ 63 := by rcases host with rfl | rfl <;> omega
  obtain ⟨h, header, run⟩ := except_bind_ok run
  obtain ⟨image, segments, run⟩ := except_bind_ok run
  obtain ⟨image', headers, run⟩ := except_bind_ok run
  cases run
  have empty :
      Image.Below memLen { mem := fun _ => 0, brkStart := 0, phdrAddr := 0, placed := [] } :=
    ⟨Nat.zero_le _, nofun⟩
  have below := (empty.segments room (fun i member => proper h header i (List.mem_range.mp member))
    segments).headers host small headers
  have inside := below.inside
  have rounded : ((image'.brkStart + 0xfff#64) &&& ~~~0xfff#64).toNat =
      (image'.brkStart.toNat + 0xfff) / 2 ^ 12 * 2 ^ 12 := by
    refine (Masks.toNat_and_highMask (image'.brkStart + 0xfff#64) 12 (by decide)).trans ?_
    rw [BitVec.toNat_add, BitVec.toNat_ofNat, Nat.mod_eq_of_lt (by omega)]
  intro r member
  have ends := below.ends r member
  dsimp only
  omega

end Image

/-! ## Where the stack ends -/

section Stack

variable {w : Nat} {η : Type}

def size (texts : List Bytes) : Nat := (texts.map fun s => s.length + 1).sum

/-- What the strings, the random bytes, the pointers and the auxiliary vector take, and what
aligning them takes. -/
def stackUse (argv envp : List Bytes) : Nat :=
  size argv + size envp + 16 + 8 * (35 + argv.length + envp.length) + 30

/-- Memory and registers may change, not the layout. -/
def Kept (p p' : Process w η) : Prop :=
  p'.machine.memLen = p.machine.memLen ∧ p'.machine.brk = p.machine.brk ∧
    p'.machine.brkStart = p.machine.brkStart ∧ p'.machine.mmapTop = p.machine.mmapTop

theorem Kept.refl (p : Process w η) : Kept p p := ⟨rfl, rfl, rfl, rfl⟩

theorem Kept.trans (p q r : Process w η) (first : Kept p q) (second : Kept q r) : Kept p r :=
  ⟨second.1.trans first.1, second.2.1.trans first.2.1, second.2.2.1.trans first.2.2.1,
    second.2.2.2.trans first.2.2.2⟩

theorem overwrite_kept (start n : Nat) (src : Nat → BitVec 8) :
    Along Kept (overwrite start n src : M w η Unit) := by
  intro p
  unfold overwrite
  cases slice p.machine.memLen start (addUsize w start n) <;> exact Kept.refl p

theorem pushBytes_kept (pos : Word) (bytes : Bytes) :
    Along Kept (pushBytes pos bytes : M w η Word) :=
  .bind Kept.trans (overwrite_kept _ _ _) fun _ => .bind Kept.trans (overwrite_kept _ _ _) fun _ =>
    .pure Kept.refl _

theorem pushStrings_kept (texts : List Bytes) :
    ∀ pos, Along Kept (pushStrings pos texts : M w η _) := by
  induction texts with
  | nil => exact fun pos => .pure Kept.refl _
  | cons s rest ih =>
    exact fun pos => .bind Kept.trans (pushBytes_kept pos s) fun ptr =>
      .bind Kept.trans (ih ptr) fun _ =>
      .pure Kept.refl _

theorem putWords_kept (vs : List Word) : ∀ addr, Along Kept (putWords addr vs : M w η Unit) := by
  induction vs with
  | nil => exact fun addr => .pure Kept.refl _
  | cons v rest ih => exact fun addr => .bind Kept.trans (overwrite_kept _ _ _) fun _ => ih _

variable {p p' : Process w η}

theorem pushStrings_down {texts : List Bytes} {pos last : Word} {ptrs : List Word}
    (fits : size texts ≤ pos.toNat) (run : pushStrings pos texts p = .ok (last, ptrs) p') :
    last.toNat + size texts = pos.toNat ∧ ptrs.length = texts.length := by
  induction texts generalizing pos p ptrs with
  | nil =>
    cases run
    exact ⟨rfl, rfl⟩
  | cons s rest ih =>
    simp only [size, List.map_cons, List.sum_cons] at fits ih ⊢
    obtain ⟨ptr, q, pushed, run⟩ := bind_eq_ok run
    obtain ⟨⟨last', ptrs'⟩, q', later, run⟩ := bind_eq_ok run
    cases run
    have down : ptr = pos - (BitVec.ofNat 64 s.length + 1#64) := by
      obtain ⟨_, _, -, pushed⟩ := bind_eq_ok pushed
      obtain ⟨_, _, -, pushed⟩ := bind_eq_ok pushed
      cases pushed
      rfl
    have moved : ptr.toNat + (s.length + 1) = pos.toNat := by
      have bound := pos.isLt
      rw [down]
      bv_omega
    obtain ⟨ends, count⟩ := ih (by omega) later
    exact ⟨by omega, by rw [List.length_cons, count, List.length_cons]⟩

variable [Host η]

theorem setupStack_spec {top : Word} {argv envp : List Bytes} {loaded : LoadedElf}
    (fits : stackUse argv envp ≤ top.toNat) (run : setupStack top argv envp loaded p = .ok () p') :
    Kept p p' ∧ top.toNat ≤ (p'.machine.cpu.hart.x 2#5).toNat + stackUse argv envp := by
  unfold stackUse at fits ⊢
  obtain ⟨⟨pos, argvPtrs⟩, p₁, pushed, run⟩ := bind_eq_ok run
  obtain ⟨⟨pos', envpPtrs⟩, p₂, pushed', run⟩ := bind_eq_ok run
  obtain ⟨rnd, p₃, random, run⟩ := bind_eq_ok run
  cases random
  obtain ⟨_, p₄, filled, run⟩ := bind_eq_ok run
  obtain ⟨_, p₅, put, run⟩ := bind_eq_ok run
  obtain ⟨down, count⟩ := pushStrings_down (by omega) pushed
  obtain ⟨down', count'⟩ := pushStrings_down (by omega) pushed'
  have strings : Kept p p₂ :=
    .trans _ _ _ ((pushStrings_kept argv _).of_ok pushed) ((pushStrings_kept envp _).of_ok pushed')
  have kept : Kept p p₅ :=
    .trans _ _ _ strings
      (.trans p₂ p₄ p₅ ((overwrite_kept _ _ _).of_ok filled : Kept ⟨p₂.machine, _⟩ p₄)
        ((putWords_kept _ _).of_ok put))
  cases run
  refine ⟨kept, ?_⟩
  have aligned (x : Word) : (x &&& ~~~15#64).toNat = x.toNat / 16 * 16 :=
    Masks.toNat_and_highMask x 4 (by decide)
  have random : (pos' - 16#64).toNat = top.toNat - (size argv + size envp + 16) := by
    have bound := top.isLt
    bv_omega
  generalize pos' - 16#64 = atRandom at random
  have step : (BitVec.ofNat 64 (1 + argvPtrs.length + 1 + envpPtrs.length + 1 + 32) * 8#64).toNat =
      8 * (35 + argv.length + envp.length) := by
    have bound := top.isLt
    rw [count, count']
    bv_omega
  change top.toNat ≤ ((((atRandom &&& ~~~15#64) - BitVec.ofNat 64
    (1 + argvPtrs.length + 1 + envpPtrs.length + 1 + 32) * 8#64) &&& ~~~15#64)).toNat + _
  rw [aligned, BitVec.toNat_sub_of_le, aligned, step]
  · omega
  · rw [BitVec.le_def, aligned, step]
    omega

end Stack

end Rv64Js.Linux
