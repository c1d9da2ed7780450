import Rv64Js.Board.PageTables
import Rv64Js.Lib.PageWalk

/-! # `translate_slow` against the specified walk

The walk of `cpu.rs` gives what the privileged architecture specifies as long as the bits reserved
in pointers are clear: the specification faults on them, the code does not look. -/

set_option autoImplicit false

namespace Rv64Js.Board

open Rv64Js.Core BitVec
open Fallible Masks
open PageWalk (Kind Privilege Setting Pte Leaf)

/-! ## What the specification is about -/

def kindOf : Access → Kind
  | .fetch => .execute
  | .load => .read
  | .store => .write

def privilegeOf : Mode → Privilege
  | .user => .user
  | .supervisor => .supervisor
  | .machine => .machine

/-- MPP; the reserved encoding counts as machine mode. -/
def previousPrivilege (mstatus : Word) : Privilege :=
  match mstatus.extractLsb' 11 2 with
  | 0#2 => .user
  | 1#2 => .supervisor
  | _ => .machine

/-- MPRV replaces the privilege of loads and stores by MPP. -/
def effectivePrivilege (sys : SysCsrs) (kind : Kind) : Privilege :=
  if kind ≠ .execute ∧ sys.mstatus.getLsbD 17 then previousPrivilege sys.mstatus
  else privilegeOf sys.mode

def settingOf (sys : SysCsrs) (access : Access) : Setting where
  privilege := effectivePrivilege sys (kindOf access)
  sum := sys.mstatus.getLsbD 18
  mxr := sys.mstatus.getLsbD 19

/-- D, A and U, which are reserved in an entry that points to a table. -/
def POINTER_RESERVED : Word := (1#64 <<< 4) ||| (1#64 <<< 6) ||| (1#64 <<< 7)

section Tables

variable {layout : Layout} {δ : Type} [Peripherals δ]

namespace SystemBus

def doublewords (bus : SystemBus layout δ) (addr : Nat) : Option Word :=
  bus.tableEntry (BitVec.ofNat 64 addr)

/-- Every entry that a walk of `va` reads is a doubleword of RAM with the property. -/
def OnPath (bus : SystemBus layout δ) (P : Word → Prop) (va : Word) : Nat → Word → Prop
  | 0, table => ∃ pte, bus.tableEntry (entryAddr va 0 table) = some pte ∧ P pte
  | level + 1, table =>
    ∃ pte, bus.tableEntry (entryAddr va (level + 1) table) = some pte ∧ P pte ∧
      (isPointer pte → OnPath bus P va level ((pte >>> 10) <<< 12))

end SystemBus

end Tables

/-! ## Fields -/

theorem and_bit_ne_zero (w : Word) {i : Nat} (inside : i < 64) :
    w &&& (1#64 <<< i) ≠ 0#64 ↔ w.getLsbD i = true := by
  constructor
  · intro set
    by_contra clear
    refine set (eq_of_getLsbD_eq fun j bound => ?_)
    by_cases same : j = i
    · subst same
      simp [clear]
    · rw [getLsbD_and, getLsbD_shiftLeft, getLsbD_one]
      by_cases below : j < i
      · simp [below]
      · have past : j - i ≠ 0 := by omega
        simp [past]
  · intro set zero
    have bit := congrArg (getLsbD · i) zero
    simp only [getLsbD_and, getLsbD_shiftLeft, getLsbD_one, set, getLsbD_zero] at bit
    simp [inside] at bit

theorem fromBits_mpp (mstatus : Word) :
    privilegeOf (Mode.fromBits ((mstatus &&& MSTATUS_MPP) >>> 11)) = previousPrivilege mstatus := by
  have field : ((mstatus &&& MSTATUS_MPP) >>> 11).extractLsb' 0 2 = mstatus.extractLsb' 11 2 := by
    apply eq_of_getLsbD_eq
    intro i bound
    have mask : ∀ j : Fin 2, MSTATUS_MPP.getLsbD (11 + j.val) = true := by decide
    have bit := mask ⟨i, bound⟩
    simp only at bit
    simp [getLsbD_extractLsb', bit]
  unfold Mode.fromBits previousPrivilege
  rw [field]
  generalize mstatus.extractLsb' 11 2 = mpp
  revert mpp
  decide

theorem effMode_spec (sys : SysCsrs) (access : Access) :
    privilegeOf (sys.effMode access) = effectivePrivilege sys (kindOf access) := by
  have mprv : sys.mstatus &&& MSTATUS_MPRV ≠ 0#64 ↔ sys.mstatus.getLsbD 17 = true :=
    and_bit_ne_zero sys.mstatus (by decide)
  unfold SysCsrs.effMode effectivePrivilege
  have data : access ≠ .fetch ↔ kindOf access ≠ .execute := by cases access <;> decide
  by_cases redirected : access ≠ .fetch ∧ sys.mstatus &&& MSTATUS_MPRV ≠ 0#64
  · rw [if_pos redirected, if_pos ⟨data.mp redirected.1, mprv.mp redirected.2⟩]
    exact fromBits_mpp sys.mstatus
  · rw [if_neg redirected, if_neg]
    exact fun both => redirected ⟨data.mpr both.1, mprv.mpr both.2⟩

def HighClear (pte : Word) : Prop := pte >>> 54 = 0#64

instance (pte : Word) : Decidable (HighClear pte) := inferInstanceAs (Decidable (_ = _))

variable {pte : Word}

theorem HighClear.lt (clear : HighClear pte) : pte.toNat < 2 ^ 54 := by
  have zero : pte.toNat >>> 54 = 0 := by
    rw [← toNat_ushiftRight, clear]
    rfl
  rw [Nat.shiftRight_eq_div_pow] at zero
  exact (Nat.div_eq_zero_iff_lt (Nat.two_pow_pos 54)).mp zero

theorem ppn_eq (clear : HighClear pte) : (Pte.ofBits pte).ppn = (pte >>> 10).toNat := by
  have small := clear.lt
  rw [toNat_ushiftRight, Nat.shiftRight_eq_div_pow]
  exact Nat.mod_eq_of_lt (by omega)

theorem reserved_eq (clear : HighClear pte) : (Pte.ofBits pte).reserved = 0 :=
  Nat.div_eq_of_lt clear.lt

theorem ppn_lt (pte : Word) : (Pte.ofBits pte).ppn < 2 ^ 44 := Nat.mod_lt _ (Nat.two_pow_pos 44)

theorem nextTable_eq (clear : HighClear pte) :
    ((pte >>> 10) <<< 12).toNat = (Pte.ofBits pte).ppn * 2 ^ 12 := by
  have small := ppn_lt pte
  rw [ppn_eq clear] at small ⊢
  rw [toNat_shiftLeft, Nat.shiftLeft_eq]
  exact Nat.mod_eq_of_lt (by omega)

theorem entryAddr_spec (va : Word) (level : Nat) (table : Word) :
    BitVec.ofNat 64 (table.toNat + 8 * PageWalk.vpn va.toNat level) = entryAddr va level table := by
  have index : ((va >>> (12 + 9 * level)) &&& 0x1ff#64).toNat = PageWalk.vpn va.toNat level := by
    rw [show (0x1ff#64 : Word) = (1#64 <<< 9) - 1#64 by decide, toNat_and_lowMask _ 9 (by decide),
      toNat_ushiftRight, Nat.shiftRight_eq_div_pow]
    rfl
  apply eq_of_toNat_eq
  unfold entryAddr
  rw [toNat_add, toNat_mul, index, toNat_ofNat, toNat_ofNat]
  omega

variable {level : Nat}

theorem aligned_spec (clear : HighClear pte) (low : level ≤ 3) : (Pte.ofBits pte).isAligned level =
      !(decide (0 < level) && decide
        ((pte >>> 10) &&& ((1#64 <<< (9 * level)) - 1#64) ≠ 0#64)) := by
  have rest : (pte >>> 10) &&& ((1#64 <<< (9 * level)) - 1#64) = 0#64 ↔
      (pte >>> 10).toNat % 2 ^ (9 * level) = 0 := by
    rw [← toNat_and_lowMask _ _ (by omega)]
    exact ⟨fun zero => by rw [zero]; rfl, fun zero => eq_of_toNat_eq zero⟩
  unfold Pte.isAligned
  rw [ppn_eq clear]
  rcases Nat.eq_zero_or_pos level with rfl | positive
  · simp [Nat.mod_one]
  · rw [decide_eq_true positive, Bool.true_and, decide_not, Bool.not_not]
    exact decide_eq_decide.mpr rest.symm

theorem leafAddress_spec (clear : HighClear pte) (va : Word) (low : level ≤ 3) :
    (leafAddress va level pte).toNat =
      PageWalk.physical va.toNat level (Pte.ofBits pte).ppn := by
  have shift : 12 + 9 * level < 64 := by omega
  have number := ppn_lt pte
  have superpage : (Pte.ofBits pte).ppn * 2 ^ 12 / 2 ^ (12 + 9 * level) =
      (Pte.ofBits pte).ppn / 2 ^ (9 * level) := by
    rw [Nat.pow_add, ← Nat.div_div_eq_div_mul, Nat.mul_div_cancel _ (Nat.two_pow_pos 12)]
  -- a whole superpage below the end of physical memory leaves room for the offset
  have room : (Pte.ofBits pte).ppn / 2 ^ (9 * level) * 2 ^ (12 + 9 * level) +
      va.toNat % 2 ^ (12 + 9 * level) < 2 ^ 64 := by
    have offset := Nat.mod_lt va.toNat (Nat.two_pow_pos (12 + 9 * level))
    have page : 2 ^ (12 + 9 * level) ≤ 2 ^ 39 := Nat.pow_le_pow_right (by decide) (by omega)
    have base : (Pte.ofBits pte).ppn / 2 ^ (9 * level) * 2 ^ (12 + 9 * level) ≤
        (Pte.ofBits pte).ppn * 2 ^ 12 := by
      rw [Nat.pow_add, Nat.mul_comm (2 ^ 12), ← Nat.mul_assoc]
      exact Nat.mul_le_mul_right _ (Nat.div_mul_le_self _ _)
    omega
  unfold leafAddress
  simp only
  rw [or_masked, toNat_add, toNat_and_highMask _ _ shift, toNat_and_lowMask _ _ shift,
    nextTable_eq clear, superpage, Nat.mod_eq_of_lt room]
  rfl

/-! ## Entries -/

theorem isLeaf_spec (clear : HighClear pte) (low : level ≤ 3) :
    isLeaf level pte = ((Pte.ofBits pte).isValid && (Pte.ofBits pte).isLeaf &&
      (Pte.ofBits pte).isAligned level) := by
  rw [aligned_spec clear low]
  unfold isLeaf Pte.isValid Pte.isLeaf
  rw [reserved_eq clear]
  change _ = (pte.getLsbD 0 && !(!pte.getLsbD 1 && pte.getLsbD 2) && true &&
    ((pte.getLsbD 1 || pte.getLsbD 3) || !(pte.getLsbD 7 || pte.getLsbD 6 || pte.getLsbD 4)) &&
      (pte.getLsbD 1 || pte.getLsbD 3) && _)
  generalize pte.getLsbD 0 = v, pte.getLsbD 1 = r, pte.getLsbD 2 = w, pte.getLsbD 3 = x,
    (pte.getLsbD 7 || pte.getLsbD 6 || pte.getLsbD 4) = reserved
  cases v <;> cases r <;> cases w <;> cases x <;> simp

theorem grants_spec (pte : Word) (sys : SysCsrs) (access : Access) : grants sys access pte =
      ((Pte.ofBits pte).admits (settingOf sys access) (kindOf access) &&
        (Pte.ofBits pte).permits (settingOf sys access) (kindOf access)) := by
  have sum : (decide (sys.mstatus &&& MSTATUS_SUM ≠ 0#64)) = sys.mstatus.getLsbD 18 :=
    Bool.eq_iff_iff.mpr (by rw [decide_eq_true_iff]; exact and_bit_ne_zero _ (by decide))
  have mxr : (decide (sys.mstatus &&& MSTATUS_MXR ≠ 0#64)) = sys.mstatus.getLsbD 19 :=
    Bool.eq_iff_iff.mpr (by rw [decide_eq_true_iff]; exact and_bit_ne_zero _ (by decide))
  have admitted : (Pte.ofBits pte).admits (settingOf sys access) (kindOf access) =
      (!(decide (sys.effMode access = .user) && !pte.getLsbD 4) &&
        !(decide (sys.effMode access = .supervisor) && pte.getLsbD 4 &&
          !(sys.mstatus.getLsbD 18 && decide (access ≠ .fetch)))) := by
    have data : decide (kindOf access ≠ .execute) = decide (access ≠ .fetch) := by
      cases access <;> rfl
    have user : (Pte.ofBits pte).u = pte.getLsbD 4 := rfl
    simp only [Pte.admits, settingOf, ← effMode_spec, data, user]
    generalize pte.getLsbD 4 = u, sys.mstatus.getLsbD 18 = sum, decide (access ≠ .fetch) = reads
    cases sys.effMode access <;> cases u <;> cases sum <;> cases reads <;> rfl
  unfold grants
  simp only [sum, mxr]
  rw [admitted]
  cases access <;> rfl

theorem isPointer_spec (clear : HighClear pte)
    (plain : isPointer pte → pte &&& POINTER_RESERVED = 0#64) :
    isPointer pte = ((Pte.ofBits pte).isValid && !(Pte.ofBits pte).isLeaf) := by
  have reserved : isPointer pte = true →
      (pte.getLsbD 7 || pte.getLsbD 6 || pte.getLsbD 4) = false := by
    intro pointer
    have bit : ∀ i, POINTER_RESERVED.getLsbD i = true → pte.getLsbD i = false := by
      intro i set
      have zero := congrArg (getLsbD · i) (plain pointer)
      simpa [getLsbD_and, set] using zero
    rw [bit 7 (by decide), bit 6 (by decide), bit 4 (by decide)]
    rfl
  unfold Pte.isValid Pte.isLeaf
  rw [reserved_eq clear]
  change _ = ((pte.getLsbD 0 && !(!pte.getLsbD 1 && pte.getLsbD 2) && true &&
    ((pte.getLsbD 1 || pte.getLsbD 3) || !(pte.getLsbD 7 || pte.getLsbD 6 || pte.getLsbD 4))) &&
      !(pte.getLsbD 1 || pte.getLsbD 3))
  unfold isPointer at reserved ⊢
  generalize pte.getLsbD 0 = v, pte.getLsbD 1 = r, pte.getLsbD 2 = w, pte.getLsbD 3 = x,
    (pte.getLsbD 7 || pte.getLsbD 6 || pte.getLsbD 4) = d at reserved ⊢
  revert reserved
  cases v <;> cases r <;> cases w <;> cases x <;> cases d <;> simp

/-! ## Walks -/

def CleanEntry (pte : Word) : Prop :=
  HighClear pte ∧ (isPointer pte → pte &&& POINTER_RESERVED = 0#64)

section Walks

variable {layout : Layout} {δ : Type} [Peripherals δ] {bus : SystemBus layout δ}

def Entry.toLeaf (e : Entry) (va : Word) : Leaf where
  pa := (leafAddress va e.level e.pte).toNat
  addr := e.addr.toNat
  bits := e.pte

/-- What the specification makes of the entry a walk stops at. -/
def Entry.specified (e : Entry) (sys : SysCsrs) (va : Word) (access : Access) : Option Leaf :=
  if isLeaf e.level e.pte && grants sys access e.pte then some (e.toLeaf va) else none

variable {table : Word}

omit [Peripherals δ] in
theorem toNat_entryAddr (small : table.toNat < 2 ^ 56) (va : Word) (level : Nat) :
    (entryAddr va level table).toNat = table.toNat + 8 * PageWalk.vpn va.toNat level := by
  have index : PageWalk.vpn va.toNat level < 2 ^ 9 := Nat.mod_lt _ (Nat.two_pow_pos 9)
  rw [← entryAddr_spec, toNat_ofNat]
  exact Nat.mod_eq_of_lt (by omega)

theorem entry_spec {va pte : Word} {level : Nat}
    (found : bus.tableEntry (entryAddr va level table) = some pte) (clean : CleanEntry pte)
    (low : level ≤ 3) (small : table.toNat < 2 ^ 56) (sys : SysCsrs) (access : Access)
    (next : Nat → Option Leaf) :
    PageWalk.entry bus.doublewords (settingOf sys access) (kindOf access) va.toNat level table.toNat
      next =
      if isPointer pte then next ((pte >>> 10) <<< 12).toNat
      else Entry.specified { level := level, addr := entryAddr va level table, pte := pte } sys va
        access := by
  have read : bus.doublewords (table.toNat + 8 * PageWalk.vpn va.toNat level) = some pte := by
    unfold SystemBus.doublewords
    rw [entryAddr_spec]
    exact found
  have address := leafAddress_spec clean.1 va low
  unfold PageWalk.entry Entry.specified Entry.toLeaf
  simp only [read, Option.bind_eq_bind, Option.bind_some]
  rw [isPointer_spec clean.1 clean.2, isLeaf_spec clean.1 low, grants_spec,
    nextTable_eq clean.1, address, toNat_entryAddr small]
  generalize (Pte.ofBits pte).isValid = valid, (Pte.ofBits pte).isLeaf = leaf,
    (Pte.ofBits pte).isAligned level = aligned,
    (Pte.ofBits pte).admits (settingOf sys access) (kindOf access) = admitted,
    (Pte.ofBits pte).permits (settingOf sys access) (kindOf access) = permitted
  cases valid <;> cases leaf <;> cases aligned <;> cases admitted <;> cases permitted <;> rfl

/-- The specified walk stops at the entry the code stops at. -/
theorem walk_spec {va : Word} {level : Nat} (path : bus.OnPath CleanEntry va level table)
    (low : level ≤ 3) (small : table.toNat < 2 ^ 56) (sys : SysCsrs)
    (access : Access) : ∃ e, bus.lastEntry va level table = some e ∧
      PageWalk.walk bus.doublewords (settingOf sys access) (kindOf access) va.toNat level
        table.toNat = e.specified sys va access := by
  induction level generalizing table with
  | zero =>
    obtain ⟨pte, found, clean⟩ := path
    refine ⟨_, by rw [SystemBus.lastEntry, found]; rfl, ?_⟩
    rw [PageWalk.walk, entry_spec found clean low small]
    by_cases pointer : isPointer pte
    · -- a pointer in a last-level table is no leaf
      rw [if_pos pointer]
      simp [Entry.specified, isLeaf_of_pointer pointer]
    · rw [if_neg pointer]
  | succ level ih =>
    obtain ⟨pte, found, clean, deeper⟩ := path
    rw [PageWalk.walk, entry_spec found clean low small, SystemBus.lastEntry, found]
    by_cases pointer : isPointer pte
    · have next : ((pte >>> 10) <<< 12).toNat < 2 ^ 56 := by
        rw [nextTable_eq clean.1]
        have number := ppn_lt pte
        omega
      obtain ⟨e, last, stops⟩ := ih (deeper pointer) (by omega) next
      refine ⟨e, ?_, ?_⟩
      · rw [Option.bind_some, if_pos pointer, last]
      · rw [if_pos pointer, stops]
    · exact ⟨_, by rw [Option.bind_some, if_neg pointer], by rw [if_neg pointer]⟩

/-! ## The A and D update -/

omit [Peripherals δ] in
theorem load_byte (ram : Ram) (off n k : Nat) (inside : k < n) :
    BitVec.ofNat 8 (ram.load off n >>> (8 * k)) = ram (off + k) := by
  induction n generalizing off k with
  | zero => omega
  | succ n ih =>
    have byte := (ram off).isLt
    cases k with
    | zero =>
      apply BitVec.eq_of_toNat_eq
      rw [Ram.load, BitVec.toNat_ofNat, Nat.mul_zero, Nat.shiftRight_zero, Nat.add_zero off]
      omega
    | succ k =>
      have rest := ih (off + 1) k (by omega)
      have drop : ram.load off (n + 1) >>> 8 = ram.load (off + 1) n := by
        rw [Ram.load, Nat.shiftRight_eq_div_pow]
        omega
      rw [show 8 * (k + 1) = 8 + 8 * k by omega, Nat.shiftRight_add, drop, rest]
      congr 1
      omega

omit [Peripherals δ] in
theorem load_lt (ram : Ram) (off n : Nat) : ram.load off n < 256 ^ n := by
  induction n generalizing off with
  | zero => exact Nat.one_pos
  | succ n ih =>
    have byte := (ram off).isLt
    have rest := ih (off + 1)
    rw [Ram.load, Nat.pow_succ]
    omega

omit [Peripherals δ] in
theorem store_load_self (ram : Ram) (off n : Nat) : ram.store off n (ram.load off n) = ram := by
  funext a
  unfold Ram.store
  split
  · rename_i inside
    rw [load_byte ram off n (a - off) (by omega)]
    congr 1
    omega
  · rfl

theorem mark_ram {addr pte : Word} (entry : bus.tableEntry addr = some pte) (access : Access) :
    ∃ off, bus.target addr 8 = some off ∧ (bus.mark access addr pte).devices = bus.devices ∧
        (bus.mark access addr pte).ram = bus.ram.store off 8 (marked access pte).toNat := by
  unfold SystemBus.mark
  by_cases due : marked access pte ≠ pte
  · obtain ⟨off, bus', found, write, devices, ram⟩ := write_entry entry (marked access pte)
    rw [if_pos due, write]
    exact ⟨off, found, devices, ram⟩
  · obtain ⟨off, found, value⟩ := Option.map_eq_some_iff.mp entry
    refine ⟨off, found, by rw [if_neg due], ?_⟩
    have small : bus.ram.load off 8 < 2 ^ 64 := load_lt bus.ram off 8
    rw [if_neg due, not_not.mp due, ← value, toNat_ofNat, Nat.mod_eq_of_lt small,
      store_load_self]

/-! ## Translation -/

theorem satpLevels_cases {vm : Word} {levels : Nat} (depth : satpLevels vm = some levels) :
    levels = 3 ∨ levels = 4 := by
  unfold satpLevels at depth
  split at depth
  · exact Or.inl (Option.some.inj depth).symm
  · exact Or.inr (Option.some.inj depth).symm
  · cases depth

theorem sshiftRight_eq_iff (va c : Word) (n : Nat) :
    va.sshiftRight n = c ↔ va.toInt / 2 ^ n = c.toInt := by
  rw [← toInt_inj, toInt_sshiftRight, Int.shiftRight_eq_div_pow]
  norm_cast

theorem canonical_spec (va : Word) {levels : Nat} (depth : levels = 3 ∨ levels = 4) :
    isCanonical levels va = PageWalk.canonical va.toNat levels := by
  have bound := va.isLt
  have signed := toInt_eq_toNat_cond va
  unfold isCanonical PageWalk.canonical
  apply Bool.eq_iff_iff.mpr
  simp only [Bool.or_eq_true, decide_eq_true_eq, sshiftRight_eq_iff]
  rw [show (0#64 : Word).toInt = 0 by decide, show (~~~0#64 : Word).toInt = -1 by decide, signed]
  rcases depth with rfl | rfl <;> split <;> omega

omit [Peripherals δ] in
theorem toNat_rootTable (satp : Word) : (rootTable satp).toNat = satp.toNat % 2 ^ 44 * 2 ^ 12 := by
  unfold rootTable
  rw [show (0xfffffffffff#64 : Word) = (1#64 <<< 44) - 1#64 by decide, toNat_shiftLeft,
    toNat_and_lowMask _ 44 (by decide), Nat.shiftLeft_eq]
  omega

/-- What `translate_slow` does for each specified outcome: nothing in machine mode, the page fault
of the access with the bus as it was, or the address with A, and D for a store, set in the leaf. -/
def Implements (bus : SystemBus layout δ) (row : Row) (hart : Hart) (sys : SysCsrs) (va : Word)
    (access : Access) : PageWalk.Outcome → Prop
  | .untranslated => translateSlow row hart sys va access bus = .ok (va, row) bus
  | .pageFault => translateSlow row hart sys va access bus = .error (fault access va) bus
  | .translated leaf =>
    ∃ bus' off,
      translateSlow row hart sys va access bus =
          .ok (BitVec.ofNat 64 leaf.pa, row.fill (tlbIndex va) (hart.translationTag va access)
              (BitVec.ofNat 64 leaf.pa - va)) bus' ∧
        bus.target (BitVec.ofNat 64 leaf.addr) 8 = some off ∧
          bus'.devices = bus.devices ∧
            bus'.ram = bus.ram.store off 8 (marked access leaf.bits).toNat

theorem effMode_machine (sys : SysCsrs) (access : Access) :
    sys.effMode access = .machine ↔ (settingOf sys access).privilege = .machine := by
  change _ ↔ effectivePrivilege sys (kindOf access) = .machine
  rw [← effMode_spec]
  cases sys.effMode access <;> decide

/-- Through tables in RAM whose entries have no reserved bit set, `translate_slow` does what
the privileged architecture specifies. -/
theorem translateSlow_implements {sys : SysCsrs} {levels : Nat}
    (depth : satpLevels (sys.satp >>> 60) = some levels) (row : Row) (hart : Hart) (va : Word)
    (access : Access) (tables : bus.OnPath CleanEntry va (levels - 1) (rootTable sys.satp)) :
    Implements bus row hart sys va access
      (PageWalk.translate bus.doublewords (settingOf sys access) (kindOf access) va.toNat levels
        (sys.satp.toNat % 2 ^ 44 * 2 ^ 12)) := by
  have mode := effMode_machine sys access
  have supported := satpLevels_cases depth
  have active : sys.satp >>> 60 ≠ 0#64 := by
    intro bare
    rw [bare] at depth
    cases depth
  unfold PageWalk.translate
  by_cases machine : (settingOf sys access).privilege = .machine
  · rw [if_pos machine]
    have identity : untranslated sys access = true := by
      simp [untranslated, mode.mpr machine]
    exact bind_ok _ (walk_untranslated identity bus va)
  · rw [if_neg machine, ← canonical_spec va supported]
    have translated : untranslated sys access = false := by
      simp [untranslated, active, mt mode.mp machine]
    have run := walk_eq translated depth bus va
    by_cases canonical : isCanonical levels va = true
    · rw [if_pos canonical] at run ⊢
      have small : (rootTable sys.satp).toNat < 2 ^ 56 := by
        rw [toNat_rootTable]
        omega
      obtain ⟨e, last, stops⟩ := walk_spec tables (by omega) small sys access
      have walked := walkTable_eq last sys access
      rw [toNat_rootTable] at stops
      rw [stops]
      unfold SystemBus.stopAt at walked
      unfold Entry.specified
      by_cases granted : (isLeaf e.level e.pte && grants sys access e.pte) = true
      · rw [if_pos granted] at walked ⊢
        rw [bind_ok _ walked] at run
        obtain ⟨off, found, devices, ram⟩ := mark_ram (tableEntry_of_lastEntry last) access
        refine ⟨bus.mark access e.addr e.pte, off, ?_, ?_, devices, ram⟩
        · unfold translateSlow
          rw [bind_ok _ run]
          simp only [Entry.toLeaf, BitVec.ofNat_toNat, BitVec.setWidth_eq]
          rfl
        · simpa [Entry.toLeaf] using found
      · rw [if_neg granted] at walked ⊢
        rw [bind_error _ walked] at run
        exact bind_error _ run
    · rw [if_neg canonical] at run ⊢
      exact bind_error _ run

end Walks

/-! ## Two tables in two pages -/

namespace TwoPages

/-- A root table whose first entry is `pointer`, and a second table whose first is an untouched
superpage at the start of RAM. -/
def mapped (pointer : Nat) : SystemBus twoPages NoDevices where
  ram := (Ram.store (fun _ => 0) 0 8 pointer).store 0x1000 8 0x2000000f
  jitPages := fun _ => false
  jitDirtyPages := []
  devices := {}

def sv39 : SysCsrs := { SysCsrs.new with mode := .supervisor, satp := (8#64 <<< 60) ||| 0x80000#64 }

theorem store_through_superpage : let bus := mapped 0x20000401
    let leaf : Leaf := { pa := 0x80000123, addr := 0x80001000, bits := 0x2000000f#64 }
    PageWalk.translate bus.doublewords (settingOf sv39 .store) (kindOf .store) 0x123 3
        (sv39.satp.toNat % 2 ^ 44 * 2 ^ 12) = .translated leaf ∧
      Implements bus Row.empty Hart.new sv39 0x123#64 .store (.translated leaf) := by
  have spec : PageWalk.translate (mapped 0x20000401).doublewords (settingOf sv39 .store)
      (kindOf .store) 0x123 3 (sv39.satp.toNat % 2 ^ 44 * 2 ^ 12) =
      .translated { pa := 0x80000123, addr := 0x80001000, bits := 0x2000000f#64 } := by
    decide +kernel
  refine ⟨spec, ?_⟩
  rw [← spec]
  refine translateSlow_implements (by decide : satpLevels (sv39.satp >>> 60) = some 3) Row.empty
    Hart.new 0x123#64 .store ?_
  refine ⟨0x20000401#64, by decide +kernel, ⟨by decide, by decide⟩, fun _ => ?_⟩
  refine ⟨0x2000000f#64, by decide +kernel, ⟨by decide, by decide⟩, fun pointer => ?_⟩
  exact absurd pointer (by decide)

/-- A pointer with U set is reserved: the specified walk faults, the code follows it. -/
theorem reserved_pointer_followed : let bus := mapped 0x20000411
    bus.OnPath HighClear 0x123#64 2 (rootTable sv39.satp) ∧
      PageWalk.translate bus.doublewords (settingOf sv39 .store) (kindOf .store) 0x123 3
          (sv39.satp.toNat % 2 ^ 44 * 2 ^ 12) = .pageFault ∧
        ∃ row bus', translateSlow Row.empty Hart.new sv39 0x123#64 .store bus =
          .ok (0x80000123#64, row) bus' := by
  refine ⟨?_, by decide +kernel, ⟨_, _, rfl⟩⟩
  refine ⟨0x20000411#64, by decide +kernel, by decide, fun _ => ?_⟩
  refine ⟨0x2000000f#64, by decide +kernel, by decide, fun pointer => ?_⟩
  exact absurd pointer (by decide)

end TwoPages

end Rv64Js.Board
