import Rv64Js.Linux.Syscall

/-! # Pointers that guests pass to system calls

A call is handled well when the host does not panic and a pointer that leaves guest memory gives an
error and no effect. Few calls look at their pointers before the memory vector is indexed. -/

set_option autoImplicit false

namespace Rv64Js.Linux

open Rv64Js.Core Rv64Js.Board Rv64Js.Machine Fallible Process

variable {w : Nat} {η : Type}

/-- A negative error number, as the ABI returns it. -/
def IsError (v : Word) : Prop := -4095 ≤ v.toInt ∧ v.toInt < 0

instance (v : Word) : Decidable (IsError v) := inferInstanceAs (Decidable (_ ∧ _))

structure Range where
  addr : Word
  len : Nat

namespace Process

variable (p : Process w η)

def Inside (r : Range) : Prop := r.addr.toNat + r.len ≤ p.machine.memLen

instance (r : Range) : Decidable (p.Inside r) := inferInstanceAs (Decidable (_ ≤ _))

/-- A string up to its NUL, or past the end of memory when there is none. -/
def text (addr : Word) : Range :=
  let rest := List.range (p.machine.memLen - addr.toNat)
  ⟨addr, ((rest.find? fun i => p.machine.mem (addr.toNat + i) = 0).getD rest.length) + 1⟩

def word (off : Nat) : Word := BitVec.ofNat 64 (p.machine.mem.load off 8)

/-- Entry `i` of an iovec. -/
def buffer (iov : Word) (i : Nat) : Range :=
  ⟨p.word (iov.toNat + 16 * i), (p.word (iov.toNat + 16 * i + 8)).toNat⟩

end Process

/-- The memory a pointer stands for. -/
def Pointer.ranges (p : Process w η) (a : Args) : Pointer → List Range
  | .record reg size => [⟨a reg, size⟩]
  | .items reg count size => [⟨a reg, size * (a count).toNat⟩]
  | .text reg => [p.text (a reg)]
  | .iovec reg count =>
    ⟨a reg, 16 * (a count).toNat⟩ :: (List.range (a count).toNat).map (p.buffer (a reg))
  | .pages reg length => if a reg = 0#64 then [] else [⟨a reg, (mapLength (a length)).toNat⟩]

def Call.pointers : Call → List Pointer
  | .write => [.items 1 2 1]
  | .writev => [.iovec 1 2]
  | .mmap => [.pages 0 1]
  | .clockGettime => [.record 1 16]
  | .gettimeofday => [.record 0 16, .record 1 8]
  | .getrandom => [.items 0 1 1]
  | .uname => [.record 0 (65 * 6)]
  | .getcwd => [.items 0 1 1]
  | .fstat => [.record 1 128]
  | .newfstatat => [.text 1, .record 2 128]
  | .schedGetaffinity => [.items 2 1 1]
  | .answer _ pointers => pointers
  -- the addresses of `flush_icache` are not looked at by Linux either
  | .exit | .brk | .flushIcache | .closeOrSeek => []

def Process.pointers (p : Process w η) (call : Call) (a : Args) : List Range :=
  call.pointers.flatMap (·.ranges p a)

def Process.result (p : Process w η) : Word := p.machine.cpu.hart.x 10#5

variable [Host η]

/-- The call returns, and with a pointer out of guest memory it returns an error and leaves
the memory as it was. -/
structure WellHandled (p : Process w η) : Prop where
  returns : ∃ code p', handle p = .ok code p'
  rejects : ∀ r ∈ p.pointers p.call p.args, ¬ p.Inside r → ∀ code p', handle p = .ok code p' →
    IsError p'.result ∧ p'.machine.mem = p.machine.mem

/-! ## When that is -/

omit [Host η] in
def Process.InGuest (p : Process w η) (call : Call) (a : Args) : Prop :=
  ∀ r ∈ p.pointers call a, p.Inside r

omit [Host η] in
/-- All pointers are into the guest, or the call is one that finds out. -/
def Process.Fine (p : Process w η) (a : Args) : Call → Prop
  -- a buffer that ends before the last host address
  | .write => isOutput ((a 0).setWidth 32) = false ∨ (a 1).toNat + (a 2).toNat < 2 ^ w
  | .writev => p.InGuest .writev a ∨ (a 2).toNat ≤ 64 ∧ p.Inside ⟨a 1, 16 * (a 2).toNat⟩ ∧
      ∀ i < (a 2).toNat, (p.buffer (a 1) i).addr.toNat + (p.buffer (a 1) i).len < 2 ^ w
  | .mmap => mapLength (a 1) = 0#64 ∨ p.InGuest .mmap a ∧
      (a 0 = 0#64 → mapLength (a 1) ≤ p.machine.mmapTop ∧
        p.machine.mmapTop.toNat ≤ p.machine.memLen)
  | .getcwd => a 1 < 2#64 ∨ p.InGuest .getcwd a
  | .schedGetaffinity => a 1 < 8#64 ∨ p.InGuest .schedGetaffinity a
  | .answer value pointers => IsError value ∨ p.InGuest (.answer value pointers) a
  | call => p.InGuest call a

namespace Process.InGuest

omit [Host η]

variable {p : Process w η} {call : Call} {a : Args} {reg count : Fin 6} {size : Nat}

theorem record (inside : p.InGuest call a) (listed : .record reg size ∈ call.pointers) :
    p.Inside ⟨a reg, size⟩ :=
  inside _ (List.mem_flatMap.mpr ⟨_, listed, List.mem_singleton_self _⟩)

theorem items (inside : p.InGuest call a) (listed : .items reg count 1 ∈ call.pointers) :
    p.Inside ⟨a reg, (a count).toNat⟩ := by
  rw [← Nat.one_mul (a count).toNat]
  exact inside _ (List.mem_flatMap.mpr ⟨_, listed, List.mem_singleton_self _⟩)

end Process.InGuest

/-! ## From the registers to the call -/

/-- The same about the value of a call, before it goes into the register. -/
def WellServed (call : Call) (a : Args) (p : Process w η) : Prop :=
  ∃ v p', serve call a p = .ok v p' ∧
    (p.InGuest call a ∨ IsError v ∧ p'.machine.mem = p.machine.mem)

variable {p : Process w η}

theorem WellServed.handled (served : WellServed p.call p.args p) : WellHandled p := by
  obtain ⟨v, p', served, settled⟩ := served
  by_cases exit : p.call = .exit
  · have run : handle p = .ok (some ((p.args 0).setWidth 32)) p := by
      unfold handle
      rw [get_bind, exit]
      rfl
    refine ⟨⟨_, _, run⟩, fun r member => ?_⟩
    rw [exit] at member
    cases member
  have run : handle p = .ok none (p'.setResult v) := by
    have called : handle p =
        (serve p.call p.args >>= fun ret => do modify (·.setResult ret); pure none) p := by
      unfold handle
      rw [get_bind]
      generalize p.call = call at exit ⊢
      cases call with
      | exit => contradiction
      | _ => rfl
    rw [called, bind_ok _ served]
    rfl
  refine ⟨⟨_, _, run⟩, fun r member outside code p'' again => ?_⟩
  cases run.symm.trans again
  exact settled.resolve_left fun inside => outside (inside r member)

/-! ## Host arithmetic -/

variable {n : Nat}

theorem slice_usize {len start : Nat} (room : len < 2 ^ w) (inside : start + n ≤ len) :
    slice len start (addUsize w start n) = .bytes start := by
  unfold slice addUsize
  rw [Nat.mod_eq_of_lt (by omega), if_pos ⟨Nat.le_add_right _ _, inside⟩]

section Completes

omit [Host η]

theorem Process.room (p : Process w η) : p.machine.memLen < 2 ^ w :=
  p.machine.fits.trans_le (Nat.pow_le_pow_right (by decide) (by omega))

variable {α β : Type} {len : Nat}

theorem Process.Inside.start {r : Range} (inside : p.Inside r) :
    asUsize w r.addr = r.addr.toNat := by
  have room := p.room
  exact Nat.mod_eq_of_lt (by unfold Inside at inside; omega)

theorem Process.Inside.fits {r : Range} (inside : p.Inside r) :
    asUsize w r.addr + r.len ≤ p.machine.memLen := by
  rw [inside.start]
  exact inside

def Completes (len : Nat) (m : M w η α) : Prop :=
  ∀ p, p.machine.memLen = len → ∃ a p', m p = .ok a p' ∧ p'.machine.memLen = len

theorem Completes.pure (a : α) : Completes len (Pure.pure a : M w η α) :=
  fun p size => ⟨a, p, rfl, size⟩

theorem Completes.bind {m : M w η α} {k : α → M w η β} (first : Completes len m)
    (rest : ∀ a, Completes len (k a)) : Completes len (m >>= k) := by
  intro p size
  obtain ⟨a, q, run, size'⟩ := first p size
  obtain ⟨b, q', run', size''⟩ := rest a q size'
  exact ⟨b, q', by rw [bind_ok k run, run'], size''⟩

theorem Completes.host (f : η → α × η) : Completes len (modifyGet fun p : Process w η =>
      ((f p.host).1, { p with host := (f p.host).2 }) : M w η α) :=
  fun _ size => ⟨_, _, rfl, size⟩

theorem Completes.overwrite {start n : Nat} (inside : start + n ≤ len) (src : Nat → BitVec 8) :
    Completes len (overwrite start n src : M w η Unit) := by
  rintro p rfl
  unfold Linux.overwrite
  rw [slice_usize p.room inside]
  exact ⟨(), _, rfl, rfl⟩

/-- Fields of `utsname` are put one after the other, each at its own multiple of 65. -/
theorem putFields_completes (room : len < 2 ^ w) (base : Nat) (fields : List String)
    (short : ∀ s ∈ fields, s.length ≤ 65) : ∀ i, base + (i + fields.length) * 65 ≤ len →
      Completes len (putFields base i fields : M w η Unit) := by
  induction fields with
  | nil => exact fun i _ => .pure ()
  | cons s rest ih =>
    intro i inside
    have here : s.length ≤ 65 := short s List.mem_cons_self
    rw [List.length_cons] at inside
    have start : addUsize w base (i * 65) = base + i * 65 := Nat.mod_eq_of_lt (by omega)
    unfold putFields
    rw [start]
    refine .bind (.overwrite (by omega) _) fun _ => ?_
    exact ih (fun s member => short s (List.mem_cons_of_mem _ member)) (i + 1) (by omega)

theorem sysUname_completes {buf : Word} (inside : p.Inside ⟨buf, 65 * 6⟩) :
    Completes p.machine.memLen (sysUname buf : M w η Word) := by
  have fits := inside.fits
  dsimp only at fits
  refine .bind (.overwrite fits _) fun _ => .bind ?_ fun _ => .pure _
  apply putFields_completes p.room _ utsname (by decide)
  change asUsize w buf + 5 * 65 ≤ p.machine.memLen
  omega

theorem sysFstat_completes {statbuf : Word} (inside : p.Inside ⟨statbuf, 128⟩) :
    Completes p.machine.memLen (sysFstat statbuf : M w η Word) := by
  have room := p.room
  have fits := inside.fits
  dsimp only at fits
  have mode : addUsize w (asUsize w statbuf) 16 = asUsize w statbuf + 16 :=
    Nat.mod_eq_of_lt (by omega)
  unfold sysFstat
  rw [mode]
  exact .bind (.overwrite fits _) fun _ => .bind (.overwrite (by omega) _) fun _ => .pure _

end Completes

theorem writeClock_completes (most : w ≤ 64) {addr : Word} (inside : p.Inside ⟨addr, 16⟩)
    (fraction : Word → Word) :
    Completes p.machine.memLen (writeClock addr fraction : M w η Word) := by
  have room := p.room
  have wide : 2 ^ w ≤ 2 ^ 64 := Nat.pow_le_pow_right (by decide) most
  have bound : addr.toNat + 16 ≤ p.machine.memLen := inside
  have fits := inside.fits
  dsimp only at fits
  have next : (addr + 8#64).toNat = addr.toNat + 8 := by
    rw [BitVec.toNat_add]
    exact Nat.mod_eq_of_lt (by change addr.toNat + 8 < 2 ^ 64; omega)
  have high : p.Inside ⟨addr + 8#64, 8⟩ := by
    change (addr + 8#64).toNat + 8 ≤ p.machine.memLen
    omega
  exact .bind (.host Host.clockNs) fun _ => .bind (.overwrite (by omega) _) fun _ =>
    .bind (.overwrite high.fits _) fun _ => .pure _

theorem sysGetrandom_completes {buf buflen : Word} (inside : p.Inside ⟨buf, buflen.toNat⟩) :
    Completes p.machine.memLen (sysGetrandom buf buflen : M w η Word) := by
  have fits := inside.fits
  dsimp only at fits
  have less : asUsize w buflen ≤ buflen.toNat := Nat.mod_le _ _
  exact .bind (.host (Host.random _)) fun _ => .bind (.overwrite (by omega) _) fun _ => .pure _

/-! ## Output -/

variable {fd : BitVec 32} {buf len : Word}

/-- A buffer whose end is a host word is written, or refused. -/
theorem sysWrite_spec (most : w ≤ 64) (fits : isOutput fd = false ∨ buf.toNat + len.toNat < 2 ^ w) :
    (∃ v, sysWrite fd buf len p = .ok v p ∧ IsError v) ∨
      p.Inside ⟨buf, len.toNat⟩ ∧
      ∃ host, sysWrite fd buf len p = .ok len { p with host := host } := by
  unfold sysWrite
  by_cases closed : isOutput fd = false
  · exact .inl ⟨EBADF, by rw [closed]; rfl, by decide⟩
  have wide : 2 ^ w ≤ 2 ^ 64 := Nat.pow_le_pow_right (by decide) most
  have ends := fits.resolve_left closed
  have start : asUsize w buf = buf.toNat := Nat.mod_eq_of_lt (by omega)
  have stop : asUsize w (buf + len) = buf.toNat + len.toNat := by
    rw [asUsize, BitVec.toNat_add, Nat.mod_eq_of_lt (b := 2 ^ 64) (by omega), Nat.mod_eq_of_lt ends]
  rw [if_neg (by simpa using closed)]
  dsimp only
  rw [start, stop]
  by_cases long : p.machine.memLen < buf.toNat + len.toNat
  · rw [if_pos long]
    exact .inl ⟨EINVAL, rfl, by decide⟩
  · rw [if_neg long, slice, if_pos ⟨Nat.le_add_right _ _, not_lt.mp long⟩]
    exact .inr ⟨not_lt.mp long, _, rfl⟩

omit [Host η] in
theorem readU64_inside {addr : Word} {off : Nat} (at' : addr.toNat = off)
    (inside : off + 8 ≤ p.machine.memLen) : readU64 addr p = .ok (p.word off) p := by
  have start : asUsize w addr = off := at' ▸ Process.Inside.start (r := ⟨addr, 8⟩) (at' ▸ inside)
  unfold readU64
  rw [start, slice_usize p.room inside]
  rfl

/-- The loop ends, with an error unless every entry it was to write is in the guest. The machine is
as before, so that the entries are those of the start. -/
theorem writevLoop_spec (least : 1 ≤ w) (most : w ≤ 64) {fd : BitVec 32} {iov : Word} {count : Nat}
    (array : p.Inside ⟨iov, 16 * count⟩)
    (ends : ∀ i < count, (p.buffer iov i).addr.toNat + (p.buffer iov i).len < 2 ^ w) :
    ∀ (left i : Nat) (total : Word) (q : Process w η), q.machine = p.machine → i + left ≤ count →
      ∃ v q', writevLoop fd iov left i total q = .ok v q' ∧ q'.machine = p.machine ∧
        (IsError v ∨ ∀ j, i ≤ j → j < i + left → p.Inside (p.buffer iov j)) := by
  intro left
  induction left with
  | zero => exact fun i total q same _ => ⟨total, q, rfl, same, .inr fun j low high => by omega⟩
  | succ left ih =>
    intro i total q same here
    have room := p.machine.fits
    have half : 2 ^ (w - 1) ≤ 2 ^ 63 := Nat.pow_le_pow_right (by decide) (by omega)
    have array' : iov.toNat + 16 * count ≤ p.machine.memLen := array
    have entry : (iov + BitVec.ofNat 64 i * 16#64).toNat = iov.toNat + 16 * i := by
      rw [BitVec.toNat_add, BitVec.toNat_mul, BitVec.toNat_ofNat, BitVec.toNat_ofNat]
      omega
    have base : readU64 (iov + BitVec.ofNat 64 i * 16#64) q = .ok (p.buffer iov i).addr q := by
      rw [readU64_inside entry (by rw [same]; omega), word, same]
      rfl
    have next : (iov + BitVec.ofNat 64 i * 16#64 + 8#64).toNat = iov.toNat + 16 * i + 8 := by
      rw [BitVec.toNat_add, entry, BitVec.toNat_ofNat]
      omega
    have len : readU64 (iov + BitVec.ofNat 64 i * 16#64 + 8#64) q =
        .ok (p.word (iov.toNat + 16 * i + 8)) q := by
      rw [readU64_inside next (by rw [same]; omega), word, same]
      rfl
    unfold writevLoop
    rw [bind_ok _ base, bind_ok _ len]
    rcases sysWrite_spec (p := q) most (.inr (ends i (by omega))) with
      ⟨v, refused, error⟩ | ⟨inside, host, written⟩
    · have negative : v.slt 0#64 = true := by
        rw [BitVec.slt_eq_decide, decide_eq_true_eq]
        exact error.2
      rw [bind_ok _ refused, if_pos negative]
      exact ⟨v, q, rfl, same, .inl error⟩
    · have within : p.Inside (p.buffer iov i) := by
        unfold Inside at inside ⊢
        rwa [same] at inside
      have positive : ¬(p.word (iov.toNat + 16 * i + 8)).slt 0#64 = true := by
        unfold Inside buffer at within
        dsimp only at within
        rw [BitVec.slt_eq_decide, decide_eq_true_eq, BitVec.toInt_eq_toNat_cond, if_pos (by omega)]
        exact not_lt.mpr (Int.natCast_nonneg _)
      rw [bind_ok _ written, if_neg positive, if_neg (BitVec.lt_irrefl _)]
      obtain ⟨v, q', run, same', settled⟩ := ih (i + 1) _ { q with host := host } same (by omega)
      refine ⟨v, q', run, same', settled.imp_right fun later j low high => ?_⟩
      rcases Nat.eq_or_lt_of_le low with rfl | next
      · exact within
      · exact later j next (by omega)

/-! ## Mappings -/

omit [Host η] in
/-- The new pages are cleared as a slice that ends at the old top. -/
theorem growMmap_returns (below : len ≤ p.machine.mmapTop)
    (top : p.machine.mmapTop.toNat ≤ p.machine.memLen) : ∃ v p', growMmap len p = .ok v p' := by
  have room := p.room
  have least : (p.machine.mmapTop - len).toNat = p.machine.mmapTop.toNat - len.toNat :=
    BitVec.toNat_sub_of_le below
  unfold growMmap slice
  split
  · exact ⟨_, _, rfl⟩
  · dsimp only
    rw [BitVec.sub_add_cancel, asUsize, asUsize, least, Nat.mod_eq_of_lt (by omega),
      Nat.mod_eq_of_lt (by omega), if_pos ⟨Nat.sub_le _ _, top⟩]
    exact ⟨_, _, rfl⟩

/-! ## Every call -/

theorem WellServed.of_guest {call : Call} {a : Args} (inside : p.InGuest call a)
    (returns : ∃ v p', serve call a p = .ok v p') : WellServed call a p := by
  obtain ⟨v, p', served⟩ := returns
  exact ⟨v, p', served, .inl inside⟩

theorem WellServed.of_completes {call : Call} {a : Args} (inside : p.InGuest call a)
    (completes : Completes p.machine.memLen (serve call a : M w η Word)) : WellServed call a p := by
  obtain ⟨v, p', served, -⟩ := completes p rfl
  exact ⟨v, p', served, .inl inside⟩

theorem WellServed.of_error {call : Call} {a : Args} {v : Word} (served : serve call a p = .ok v p)
    (error : IsError v) : WellServed call a p :=
  ⟨v, p, served, .inr ⟨error, rfl⟩⟩

theorem writev_served (least : 1 ≤ w) (most : w ≤ 64) (a : Args) (p : Process w η)
    (fine : p.Fine a .writev) : WellServed .writev a p := by
  have room := p.room
  have array : p.Inside ⟨a 1, 16 * (a 2).toNat⟩ := fine.elim (· _ List.mem_cons_self) (·.2.1)
  have buffers : p.InGuest .writev a ↔
      p.Inside ⟨a 1, 16 * (a 2).toNat⟩ ∧ ∀ i < (a 2).toNat, p.Inside (p.buffer (a 1) i) := by
    simp [InGuest, pointers, Call.pointers, Pointer.ranges]
  have ends : ∀ i < (a 2).toNat,
      (p.buffer (a 1) i).addr.toNat + (p.buffer (a 1) i).len < 2 ^ w := by
    rcases fine with inside | ⟨-, -, ends⟩
    · exact fun i low => ((buffers.mp inside).2 i low).trans_lt room
    · exact ends
  have count : asUsize w (a 2) = (a 2).toNat :=
    Nat.mod_eq_of_lt (by have : (a 1).toNat + 16 * (a 2).toNat ≤ p.machine.memLen := array; omega)
  obtain ⟨v, p', run, same, settled⟩ := writevLoop_spec least most array ends
    (min (asUsize w (a 2)) 64) 0 0#64 p rfl (by omega)
  refine ⟨v, p', run, ?_⟩
  rcases fine with inside | ⟨few, -, -⟩
  · exact .inl inside
  · rcases settled with error | inside
    · exact .inr ⟨error, congrArg Machine.mem same⟩
    · exact .inl (buffers.mpr ⟨array, fun i low => inside i (Nat.zero_le i) (by omega)⟩)

theorem mmap_served (a : Args) (p : Process w η) (fine : p.Fine a .mmap) :
    WellServed .mmap a p := by
  by_cases none : mapLength (a 1) = 0#64
  · exact .of_error (if_pos none) (by decide)
  obtain ⟨inside, room⟩ := fine.resolve_left none
  refine .of_guest inside ?_
  change ∃ v p', sysMmap (a 0) (a 1) p = .ok v p'
  unfold sysMmap
  dsimp only
  rw [if_neg none]
  split
  · exact ⟨_, _, rfl⟩
  · next anywhere =>
    obtain ⟨below, top⟩ := room (not_not.mp anywhere)
    exact growMmap_returns below top

instance : Host Unit where
  writeOut _ _ _ := ()
  clockNs _ := (0#64, ())
  random _ _ := (fun _ => 0, ())

def asking (nr a0 a1 a2 : Word) : Process 64 Unit where
  machine :=
    { cpu := { Cpu.new with
        hart := (((Hart.new.setX 17#5 nr).setX 10#5 a0).setX 11#5 a1).setX 12#5 a2 }
      mem := fun _ => 0
      memLen := 0x10000
      brk := 0x8000#64
      brkStart := 0x8000#64
      mmapTop := 0xf000#64
      icacheFlushPending := false
      fits := by decide }
  host := ()

end Rv64Js.Linux
