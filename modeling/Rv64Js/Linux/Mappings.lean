import Mathlib.Data.Fin.VecNotation
import Rv64Js.Lib.Events
import Rv64Js.Linux.Load

/-! # Memory handed out by `brk` and `mmap`

The heap grows up from the image and mappings grow down from the stack. They stay apart as long as
image and stack are where the loader takes them to be, and no length is above `mmap_top`: the
subtraction wraps. -/

set_option autoImplicit false

namespace Rv64Js.Linux

open Rv64Js.Core Rv64Js.Machine BitVec

variable {w : Nat} {η : Type} [Host η]

inductive Alloc where
  | brk (req : Word)
  | mmap (length : Word)
  | munmap (addr length : Word)
  | mremap (addr old new : Word)

def Alloc.number : Alloc → Word
  | .brk _ => SYS_BRK
  | .mmap _ => SYS_MMAP
  | .munmap .. => SYS_MUNMAP
  | .mremap .. => SYS_MREMAP

def Alloc.args : Alloc → Args
  | .brk req => ![req, 0, 0, 0, 0, 0]
  | .mmap length => ![0, length, 0, 0, 0, 0]
  | .munmap addr length => ![addr, length, 0, 0, 0, 0]
  | .mremap addr old new => ![addr, old, new, 0, 0, 0]

def Alloc.serve (c : Alloc) : M w η Word := Linux.serve (Call.ofNumber c.number) c.args

/-- A process and the mappings it was given, each as start and length. -/
structure Session (w : Nat) (η : Type) where
  process : Process w η
  maps : List (Nat × Nat)

namespace Session

def record (maps : List (Nat × Nat)) (v : Word) : Alloc → List (Nat × Nat)
  | .mmap length => if IsError v then maps else (v.toNat, (mapLength length).toNat) :: maps
  | _ => maps

def step (s : Session w η) (c : Alloc) : Session w η :=
  match c.serve s.process with
  | .ok v p => ⟨p, record s.maps v c⟩
  | .error _ p => ⟨p, s.maps⟩

/-- The subtraction of the length does not wrap. -/
def Admits (s : Session w η) : Alloc → Prop
  | .mmap length => mapLength length ≤ s.process.machine.mmapTop
  | _ => True

def Apart (a b : Nat × Nat) : Prop := a.1 + a.2 ≤ b.1 ∨ b.1 + b.2 ≤ a.1

/-- Heap, mappings and stack lie in this order, in a memory that starts and ends as given. -/
structure Sound (start : Word) (len : Nat) (s : Session w η) : Prop where
  base : s.process.machine.brkStart = start
  size : s.process.machine.memLen = len
  heap : s.process.machine.brkStart ≤ s.process.machine.brk
  below : s.process.machine.brk < s.process.machine.mmapTop
  maps : ∀ r ∈ s.maps, s.process.machine.mmapTop.toNat ≤ r.1 ∧
    r.1 + r.2 + STACK_SIZE.toNat ≤ s.process.machine.memLen
  apart : s.maps.Pairwise Apart
  stack : s.process.machine.mmapTop.toNat + STACK_SIZE.toNat ≤ s.process.machine.memLen

def given (s : Session w η) (v : Word) (len : Nat) : Process w η :=
  { s.process with machine := { s.process.machine with
      mmapTop := v
      mem := fun i => if v.toNat ≤ i ∧ i < v.toNat + len then 0 else s.process.machine.mem i } }

/-- A mapping that fits is zeroed memory below the others and one that does not is an error; the
break
moves to where it fits and is returned; the other calls do nothing. -/
def Answers (s : Session w η) : Alloc → EStateM.Result Panic (Process w η) Word → Prop
  | _, .error _ _ => False
  | .brk req, .ok v p => v = p.machine.brk ∧ p = { s.process with machine :=
      if s.process.machine.brkStart ≤ req ∧ req < s.process.machine.mmapTop then
        { s.process.machine with brk := req }
      else s.process.machine }
  | .mmap length, .ok v p =>
    if 0 < (mapLength length).toNat ∧
        s.process.machine.brk.toNat + (mapLength length).toNat < s.process.machine.mmapTop.toNat
          then
      v.toNat + (mapLength length).toNat = s.process.machine.mmapTop.toNat ∧
        p = s.given v (mapLength length).toNat
    else IsError v ∧ p = s.process
  | .munmap .., .ok v p => v = 0#64 ∧ p = s.process
  | .mremap .., .ok v p => IsError v ∧ p = s.process

variable {s : Session w η} {start : Word} {len : Nat}

theorem mmap_answers (sound : s.Sound start len) {length : Word}
    (admits : s.Admits (.mmap length)) :
    s.Answers (.mmap length) ((Alloc.mmap length).serve s.process) := by
  have served : (Alloc.mmap length).serve s.process = sysMmap 0#64 length s.process := rfl
  have stack := sound.stack
  have room := s.process.room
  have diff : (s.process.machine.mmapTop - mapLength length).toNat =
      s.process.machine.mmapTop.toNat - (mapLength length).toNat := toNat_sub_of_le admits
  have width := le_def.mp admits
  rw [served, sysMmap]
  by_cases none : mapLength length = 0#64
  · have zero : (mapLength length).toNat = 0 := by rw [none]; rfl
    rw [if_pos none]
    exact (if_neg fun fits => absurd fits.1 (by omega)).mpr ⟨by decide, rfl⟩
  · have pos : (mapLength length).toNat ≠ 0 := fun zero => none (eq_of_toNat_eq zero)
    rw [if_neg none, if_neg (not_not.mpr rfl), growMmap]
    by_cases full : s.process.machine.mmapTop - mapLength length ≤ s.process.machine.brk
    · rw [if_pos full]
      rw [le_def, diff] at full
      exact (if_neg fun fits => absurd fits.2 (by omega)).mpr ⟨by decide, rfl⟩
    · have start : asUsize w (s.process.machine.mmapTop - mapLength length) =
          s.process.machine.mmapTop.toNat - (mapLength length).toNat := by
        rw [asUsize, diff, Nat.mod_eq_of_lt (by omega)]
      have stop : asUsize w s.process.machine.mmapTop = s.process.machine.mmapTop.toNat :=
        Nat.mod_eq_of_lt (by omega)
      rw [if_neg full]
      dsimp only
      rw [sub_add_cancel, start, stop, slice, if_pos (by omega)]
      rw [le_def, diff] at full
      refine (if_pos (by omega)).mpr ⟨by omega, ?_⟩
      rw [given, diff, Process.withMem]
      dsimp only
      rw [Nat.sub_sub_self width]
      rfl

theorem isError_iff (v : Word) : IsError v ↔ 2 ^ 64 - 4095 ≤ v.toNat := by
  have small := v.isLt
  unfold IsError
  rw [BitVec.toInt_eq_toNat_cond]
  split <;> omega

theorem answers (sound : s.Sound start len) (c : Alloc) (admits : s.Admits c) :
    s.Answers c (c.serve s.process) := by
  cases c with
  | mmap length => exact mmap_answers sound admits
  | mremap => exact ⟨by decide, rfl⟩
  | _ => exact ⟨rfl, rfl⟩

theorem Sound.step (host : w = 32 ∨ w = 64) (sound : s.Sound start len) (c : Alloc)
    (admits : s.Admits c) : (s.step c).Sound start len := by
  have answers := answers sound c admits
  obtain ⟨base, size, heap, below, maps, apart, stack⟩ := sound
  rw [Session.step]
  cases run : c.serve s.process with
  | error e p => rw [run] at answers; cases c <;> exact answers.elim
  | ok v p =>
    rw [run] at answers
    cases c with
    | brk req =>
      obtain ⟨-, rfl⟩ := answers
      dsimp only [record]
      split
      next fits => exact ⟨base, size, fits.1, fits.2, maps, apart, stack⟩
      next => exact ⟨base, size, heap, below, maps, apart, stack⟩
    | mmap length =>
      dsimp only [Answers] at answers
      split at answers
      next fits =>
        obtain ⟨top, rfl⟩ := answers
        have proper : ¬ IsError v := by
          have small := s.process.machine.fits
          rw [isError_iff]
          rcases host with rfl | rfl <;> omega
        dsimp only [record]
        rw [if_neg proper]
        refine ⟨base, size, heap, lt_def.mpr (by dsimp only [given]; omega), ?_,
          ?_, by dsimp only [given]; omega⟩
        · rintro r (_ | ⟨_, old⟩)
          · dsimp only [given]; omega
          · have := maps r old
            dsimp only [given]; omega
        · refine .cons (fun r old => .inl ?_) apart
          have := maps r old
          dsimp only; omega
      next =>
        obtain ⟨error, rfl⟩ := answers
        dsimp only [record]
        rw [if_pos error]
        exact ⟨base, size, heap, below, maps, apart, stack⟩
    | munmap => exact answers.2 ▸ ⟨base, size, heap, below, maps, apart, stack⟩
    | mremap => exact answers.2 ▸ ⟨base, size, heap, below, maps, apart, stack⟩

/-- Every mapping lies in guest memory, apart from the image, the heap, the stack with what was put
there at the start, and the other mappings. -/
structure Separate (sp : Word) (placed : List (Nat × Nat)) (s : Session w η) : Prop where
  heap : s.process.machine.brkStart ≤ s.process.machine.brk
  below : s.process.machine.brk < s.process.machine.mmapTop
  inside : ∀ r ∈ s.maps, r.1 + r.2 ≤ s.process.machine.memLen
  image : ∀ r ∈ s.maps, ∀ q ∈ placed, Apart r q
  brk : ∀ r ∈ s.maps, Apart r (s.process.machine.brkStart.toNat,
    s.process.machine.brk.toNat - s.process.machine.brkStart.toNat)
  stack : ∀ r ∈ s.maps, r.1 + r.2 ≤ sp.toNat ∧
    r.1 + r.2 + STACK_SIZE.toNat ≤ s.process.machine.memLen
  maps : s.maps.Pairwise Apart

omit [Host η] in
theorem Sound.separate {sp : Word} {placed : List (Nat × Nat)} (sound : s.Sound start len)
    (image : ∀ r ∈ placed, r.1 + r.2 ≤ start.toNat) (stack : len ≤ sp.toNat + STACK_SIZE.toNat) :
    s.Separate sp placed := by
  have heap := BitVec.le_def.mp sound.heap
  have below := BitVec.lt_def.mp sound.below
  have size := sound.size
  have base := congrArg BitVec.toNat sound.base
  refine ⟨sound.heap, sound.below, fun r given => ?_, fun r given q placed => ?_, fun r given => ?_,
    fun r given => ?_, sound.apart⟩
  all_goals have place := sound.maps r given
  · omega
  · have ends := image q placed
    exact .inr (by omega)
  · exact .inr (by dsimp only; omega)
  · omega

end Session

section Loaded

variable {elf : Bytes} {argv envp : List Bytes} {memSize : Nat} {fits : memSize < 2 ^ (w - 1)}
    {given : η}
  {p : Process w η} {placed : List (Nat × Nat)}

/-- What `load` leaves: the image below the break, the break below the stack, the arguments in
it. -/
theorem load_sound (host : w = 32 ∨ w = 64)
    (loaded : load elf argv envp memSize fits given = .ok (p, placed)) (proper : Proper w elf)
    (arguments : stackUse argv envp + 16 ≤ STACK_SIZE.toNat)
    (room : p.machine.brkStart.toNat + STACK_SIZE.toNat < memSize) :
    Session.Sound p.machine.brkStart memSize ⟨p, []⟩ ∧
      (∀ r ∈ placed, r.1 + r.2 ≤ p.machine.brkStart.toNat) ∧
      memSize ≤ (p.machine.cpu.hart.x 2#5).toNat + STACK_SIZE.toNat := by
  have small : memSize < 2 ^ 63 := by rcases host with rfl | rfl <;> omega
  have size : (BitVec.ofNat 64 memSize).toNat = memSize := Nat.mod_eq_of_lt (by omega)
  have top : (BitVec.ofNat 64 memSize - 16#64).toNat = memSize - 16 := by
    rw [BitVec.toNat_sub_of_le (by rw [BitVec.le_def, size]; exact (by omega : 16 ≤ memSize)), size]
    rfl
  have bottom : (BitVec.ofNat 64 memSize - STACK_SIZE).toNat = memSize - STACK_SIZE.toNat := by
    rw [BitVec.toNat_sub_of_le (by rw [BitVec.le_def, size]; omega), size]
  obtain ⟨image, read, loaded⟩ := Fallible.except_bind_ok loaded
  dsimp only at loaded
  split at loaded
  next p' run =>
    cases loaded
    obtain ⟨⟨sameLen, sameBrk, sameStart, sameTop⟩, low⟩ := setupStack_spec (by omega) run
    dsimp only at sameLen sameBrk sameStart sameTop
    rw [sameStart] at room
    refine ⟨⟨rfl, sameLen, ?_, ?_, nofun, .nil, ?_⟩, ?_, by omega⟩
    · exact BitVec.le_of_eq (sameStart.trans sameBrk.symm)
    · rw [BitVec.lt_def, sameBrk, sameTop, bottom]
      omega
    · rw [sameLen, sameTop, bottom]
      omega
    · rw [sameStart]
      exact loadElf_below host fits proper read
  next => cases loaded

/-- From a load with an image in order that ends below the stack, and with arguments that fit in the
stack, every mapping is separate after any calls that meet the condition, and the next such call is
answered. -/
theorem allocations_sound (host : w = 32 ∨ w = 64)
    (loaded : load elf argv envp memSize fits given = .ok (p, placed)) (proper : Proper w elf)
    (arguments : stackUse argv envp + 16 ≤ STACK_SIZE.toNat)
    (room : p.machine.brkStart.toNat + STACK_SIZE.toNat < memSize) (calls : List Alloc)
    (admitted : Events.Admitted Session.step Session.Admits ⟨p, []⟩ calls) :
    let s := Events.run Session.step ⟨p, []⟩ calls
    s.Separate (p.machine.cpu.hart.x 2#5) placed ∧ ∀ c, s.Admits c →
    s.Answers c (c.serve s.process) := by
  obtain ⟨start, image, stack⟩ := load_sound host loaded proper arguments room
  have sound := admitted.keeps (fun s c admits sound => sound.step host c admits) start
  exact ⟨sound.separate image stack, Session.answers sound⟩

end Loaded

/-! ## A program of one segment -/

namespace OneSegment

def le (n v : Nat) : Bytes := (List.range n).map fun i => BitVec.ofNat 8 (v >>> (8 * i))

/-- Header and program header: the file at `0x10000`, with `0x2000` bytes in memory. -/
def elf : Bytes :=
  [0x7f, 0x45, 0x4c, 0x46, 2] ++ le 11 0 ++ le 2 ET_EXEC ++ le 2 EM_RISCV ++ le 4 1 ++ le 8
    0x10000 ++
    le 8 64 ++ le 14 0 ++ le 2 56 ++ le 2 1 ++ le 6 0 ++ le 4 PT_LOAD ++ le 4 5 ++ le 8 0 ++
    le 8 0x10000 ++ le 8 0x10000 ++ le 8 120 ++ le 8 0x2000 ++ le 8 0x1000

def start : Except LoadError (Process 64 Unit × List (Nat × Nat)) :=
  load elf [[0x61]] [] 0x1000000 (by decide) ()

theorem start_isSome : start.toOption.isSome := by decide +kernel

def program : Process 64 Unit × List (Nat × Nat) := start.toOption.get start_isSome

theorem eq_ok {α : Type} :
    ∀ {m : Except LoadError α} (some : m.toOption.isSome), m = .ok (m.toOption.get some)
  | .ok _, _ => rfl

theorem start_eq_ok : start = .ok (program.1, program.2) := by
  rw [Prod.mk.eta]
  exact eq_ok start_isSome

def header : ElfHeader := ⟨0#64, 0x10000#64, 64#64, 56#64, 1#64⟩

theorem elfHeader_elf : elfHeader elf = .ok header := by decide +kernel

theorem segment_elf :
    segment 64 elf header 0 = .ok ⟨PT_LOAD, 0#64, 0x10000#64, 120#64, 0x2000#64⟩ := by
  decide +kernel

theorem proper : Proper 64 elf := by
  intro h read i few seg file _
  cases elfHeader_elf.symm.trans read
  obtain rfl : i = 0 := Nat.lt_one_iff.mp few
  cases segment_elf.symm.trans file
  decide

def requests : List Alloc := [.mmap 1#64, .brk 0x7f0000#64, .mmap 0x2000#64]

end OneSegment

open OneSegment in
theorem two_mappings_sound :
    (Events.run Session.step ⟨program.1, []⟩ requests).maps =
      [(0x7fd000, 0x2000), (0x7ff000, 0x1000)] ∧
      (Events.run Session.step ⟨program.1, []⟩ requests).Separate (program.1.machine.cpu.hart.x 2#5)
        program.2 :=
  ⟨by decide +kernel,
    (allocations_sound (.inr rfl) start_eq_ok proper (by decide) (by decide +kernel) requests
    ⟨(by decide +kernel : mapLength 1#64 ≤ _), trivial,
      (by decide +kernel : mapLength 0x2000#64 ≤ _), trivial⟩).1⟩

open OneSegment in
/-- A length above `mmap_top` is not refused: the start of the mapping wraps past the break. -/
theorem far_mapping_panics :
    start = .ok (program.1, program.2) ∧
      (match (Alloc.mmap (1#64 <<< 40)).serve program.1 with
        | .error .index _ => true
        | _ => false) = true :=
  ⟨start_eq_ok, by decide +kernel⟩

end Rv64Js.Linux
