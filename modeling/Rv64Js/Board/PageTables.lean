import Rv64Js.Board.CodePages
import Rv64Js.Lib.Masks

/-! # Page tables in RAM

A walk through tables in RAM depends on the last entry it reads, A and D aside, and sets those bits;
it neither reads nor changes anything else of the bus. -/

set_option autoImplicit false

namespace Rv64Js.Board

open Rv64Js.Core BitVec SystemBus
open Fallible Masks

def PTE_AD : Word := (1#64 <<< 6) ||| (1#64 <<< 7)

def unmarked (pte : Word) : Word := pte &&& ~~~PTE_AD

/-- Valid, and neither readable, writable nor executable: the address of the next table. -/
def isPointer (pte : Word) : Bool :=
  pte.getLsbD 0 && !pte.getLsbD 1 && !pte.getLsbD 2 && !pte.getLsbD 3

structure Entry where
  level : Nat
  addr : Word
  pte : Word

def entryAddr (va : Word) (level : Nat) (table : Word) : Word :=
  table + ((va >>> (12 + 9 * level)) &&& 0x1ff#64) * 8#64

section Tables

variable {layout : Layout} {δ : Type} [Peripherals δ]

namespace SystemBus

def tableEntry (bus : SystemBus layout δ) (addr : Word) : Option Word :=
  (bus.target addr 8).map fun off => BitVec.ofNat 64 (bus.ram.load off 8)

/-- The last entry of the walk from a table of the given level, when all of them are RAM. -/
def lastEntry (bus : SystemBus layout δ) (va : Word) : Nat → Word → Option Entry
  | 0, table =>
    (bus.tableEntry (entryAddr va 0 table)).map fun pte =>
      { level := 0, addr := entryAddr va 0 table, pte := pte }
  | level + 1, table =>
    (bus.tableEntry (entryAddr va (level + 1) table)).bind fun pte =>
      if isPointer pte then lastEntry bus va level ((pte >>> 10) <<< 12)
      else some { level := level + 1, addr := entryAddr va (level + 1) table, pte := pte }

end SystemBus

end Tables

/-! ## The leaf -/

def grants (sys : SysCsrs) (access : Access) (pte : Word) : Bool :=
  let mode := sys.effMode access
  let sum : Bool := sys.mstatus &&& MSTATUS_SUM ≠ 0#64
  let mxr : Bool := sys.mstatus &&& MSTATUS_MXR ≠ 0#64
  let u := pte.getLsbD 4
  !(mode = .user && !u) && !(mode = .supervisor && u && !(sum && decide (access ≠ .fetch))) &&
    match access with
    | .fetch => pte.getLsbD 3
    | .load => pte.getLsbD 1 || (mxr && pte.getLsbD 3)
    | .store => pte.getLsbD 2

/-- A usable leaf: valid, no pointer, no reserved rights, and an aligned superpage. -/
def isLeaf (level : Nat) (pte : Word) : Bool :=
  pte.getLsbD 0 && !(!pte.getLsbD 1 && pte.getLsbD 2) && (pte.getLsbD 1 || pte.getLsbD 3) &&
    !(decide (0 < level) && decide ((pte >>> 10) &&& ((1#64 <<< (9 * level)) - 1#64) ≠ 0#64))

def leafAddress (va : Word) (level : Nat) (pte : Word) : Word :=
  let mask := (1#64 <<< (12 + 9 * level)) - 1#64
  (((pte >>> 10) <<< 12) &&& ~~~mask) ||| (va &&& mask)

def marked (access : Access) (pte : Word) : Word :=
  pte ||| (1#64 <<< 6) ||| (if access = .store then 1#64 <<< 7 else 0#64)

section Walks

variable {layout : Layout} {δ : Type} [Peripherals δ] {bus : SystemBus layout δ}

def SystemBus.mark (bus : SystemBus layout δ) (access : Access) (addr pte : Word) :
    SystemBus layout δ :=
  if marked access pte ≠ pte then finalState (Bus.write .dword addr (marked access pte) bus)
    else bus

omit [Peripherals δ] in
theorem jitCheckStore_ram (bus : SystemBus layout δ) (addr : Word) :
    (bus.jitCheckStore addr).ram = bus.ram ∧ (bus.jitCheckStore addr).devices = bus.devices := by
  unfold jitCheckStore
  cases ramPage addr with
  | none => exact ⟨rfl, rfl⟩
  | some page =>
    simp only
    split <;> exact ⟨rfl, rfl⟩

variable {bus' : SystemBus layout δ}

theorem target_congr (same : bus'.devices = bus.devices) (addr : Word)
    (n : Nat) : bus'.target addr n = bus.target addr n := by
  unfold SystemBus.target
  rw [same]

variable {addr pte : Word}

theorem read_entry (entry : bus.tableEntry addr = some pte) :
    Bus.read .dword addr bus = .ok pte bus := by
  obtain ⟨off, found, rfl⟩ := Option.map_eq_some_iff.mp entry
  change SystemBus.read .dword addr bus = _
  unfold SystemBus.read
  change bus.target addr Width.dword.bytes = some off at found
  rw [found]
  rfl

theorem write_entry (entry : bus.tableEntry addr = some pte) (val : Word) :
    ∃ off bus', bus.target addr 8 = some off ∧ Bus.write .dword addr val bus = .ok () bus' ∧
      bus'.devices = bus.devices ∧ bus'.ram = bus.ram.store off 8 val.toNat := by
  obtain ⟨off, found, -⟩ := Option.map_eq_some_iff.mp entry
  obtain ⟨ram, devices⟩ := jitCheckStore_ram bus addr
  refine ⟨off, { bus.jitCheckStore addr with ram := bus.ram.store off 8 val.toNat }, found, ?_,
    devices, rfl⟩
  change SystemBus.write .dword addr val bus = _
  unfold SystemBus.write
  have target : (bus.jitCheckStore addr).target addr Width.dword.bytes = some off :=
    (target_congr devices addr 8).trans found
  simp only [target, ram]
  rfl

def isStop (pte : Word) : Bool :=
  pte.getLsbD 0 && (pte.getLsbD 1 || pte.getLsbD 3) && !(!pte.getLsbD 1 && pte.getLsbD 2)

theorem update_eq (entry : bus.tableEntry addr = some pte) (va : Word) (access : Access)
    (pa : Word) : (do
      if marked access pte ≠ pte then
        withError (fault access va) (Bus.write .dword addr (marked access pte))
      pure pa : EStateM Exception (SystemBus layout δ) Word) bus = .ok pa
        (bus.mark access addr pte) := by
  unfold mark
  by_cases due : marked access pte ≠ pte
  · obtain ⟨off, bus', -, write, -⟩ := write_entry entry (marked access pte)
    have written : withError (fault access va)
        (Bus.write .dword addr (marked access pte)) bus = .ok () bus' := by
      unfold withError
      rw [write]
    rw [if_pos due, if_pos due, write]
    exact bind_ok _ written
  · rw [if_neg due, if_neg due]
    rfl

omit [Peripherals δ] in
theorem rights_eq {pa : Word} {e : Exception} {update : EStateM Exception (SystemBus layout δ) Word}
    (ok u sum : Bool) {mode : Mode} {p : Prop} [Decidable p] (run : update bus = .ok pa bus') :
    (if mode = .user ∧ ¬ u = true then throw e
      else if mode = .supervisor ∧ u = true ∧ ¬ (sum = true ∧ p) then throw e
      else if ¬ ok = true then throw e else update)
        bus = if (!false && (!(decide (mode = .user) && !u) &&
          !(decide (mode = .supervisor) && u && !(sum && decide p)) && ok)) = true then
        .ok pa bus' else .error e bus := by
  cases u <;> cases ok <;> cases sum <;> cases mode <;> by_cases data : p <;>
    simp [data, run] <;> rfl

theorem walkLeaf_eq (entry : bus.tableEntry addr = some pte) (sys : SysCsrs) (va : Word)
    (access : Access) (level : Nat) (stop : isStop pte = true) :
    walkLeaf sys va access level addr pte bus = if isLeaf level pte && grants sys access pte then
        .ok (leafAddress va level pte) (bus.mark access addr pte)
          else .error (fault access va) bus := by
  have leaf : isLeaf level pte = !(decide (0 < level) &&
      decide ((pte >>> 10) &&& ((1#64 <<< (9 * level)) - 1#64) ≠ 0#64)) := by
    unfold isLeaf
    unfold isStop at stop
    revert stop
    cases pte.getLsbD 0 <;> cases pte.getLsbD 1 <;> cases pte.getLsbD 2 <;> cases pte.getLsbD 3 <;>
      simp
  have update := update_eq entry va access (leafAddress va level pte)
  rw [leaf]
  unfold walkLeaf grants
  simp only
  by_cases misaligned : 0 < level ∧ (pte >>> 10) &&& ((1#64 <<< (9 * level)) - 1#64) ≠ 0#64
  · rw [if_pos misaligned, if_neg (by simp [misaligned.1, misaligned.2])]
    rfl
  rw [if_neg misaligned]
  have aligned : (decide (0 < level) &&
      decide ((pte >>> 10) &&& ((1#64 <<< (9 * level)) - 1#64) ≠ 0#64)) = false := by
    rw [← Bool.decide_and]
    exact decide_eq_false misaligned
  rw [aligned]
  -- from here on only the rights count
  cases access with
  | fetch => exact rights_eq (pte.getLsbD 3) (pte.getLsbD 4) _ update
  | load => exact rights_eq (pte.getLsbD 1 || _) (pte.getLsbD 4) _ update
  | store => exact rights_eq (pte.getLsbD 2) (pte.getLsbD 4) _ update

def SystemBus.stopAt (bus : SystemBus layout δ) (sys : SysCsrs) (va : Word) (access : Access)
    (e : Entry) : EStateM.Result Exception (SystemBus layout δ) Word :=
  if isLeaf e.level e.pte && grants sys access e.pte then
    .ok (leafAddress va e.level e.pte) (bus.mark access e.addr e.pte)
  else .error (fault access va) bus

variable {va table : Word} {level : Nat}

theorem walkEntry_eq (entry : bus.tableEntry (entryAddr va level table) = some pte) (sys : SysCsrs)
    (access : Access) (next : Word → EStateM Exception (SystemBus layout δ) Word) :
    walkEntry sys va access level table next bus =
      if isPointer pte then next ((pte >>> 10) <<< 12) bus
      else bus.stopAt sys va access
        { level := level, addr := entryAddr va level table, pte := pte } := by
  have read : withError (fault access va)
      (Bus.read .dword (entryAddr va level table)) bus = .ok pte bus := by
    unfold withError
    rw [read_entry entry]
  have leaf := walkLeaf_eq entry sys va access level
  unfold walkEntry
  refine (bind_ok _ read).trans ?_
  unfold stopAt isPointer isLeaf
  unfold isStop isLeaf at leaf
  change (if ¬ pte.getLsbD 0 = true ∨ (¬ pte.getLsbD 1 = true ∧ pte.getLsbD 2 = true) then
      throw (fault access va)
    else if ¬ pte.getLsbD 1 = true ∧ ¬ pte.getLsbD 3 = true then next ((pte >>> 10) <<< 12)
    else walkLeaf sys va access level (entryAddr va level table) pte :
      EStateM Exception (SystemBus layout δ) Word) bus = _
  generalize (walkLeaf sys va access level (entryAddr va level table) pte :
    EStateM Exception (SystemBus layout δ) Word) = stop at leaf ⊢
  revert leaf
  generalize pte.getLsbD 0 = v, pte.getLsbD 1 = r, pte.getLsbD 2 = w, pte.getLsbD 3 = x
  intro leaf
  cases v <;> cases r <;> cases w <;> cases x <;> simp at leaf ⊢ <;> first | rfl | exact leaf

variable {e : Entry}

theorem tableEntry_of_lastEntry
    (found : bus.lastEntry va level table = some e) : bus.tableEntry e.addr = some e.pte := by
  induction level generalizing table with
  | zero =>
    obtain ⟨pte, entry, rfl⟩ := Option.map_eq_some_iff.mp found
    exact entry
  | succ level ih =>
    obtain ⟨pte, entry, rest⟩ := Option.bind_eq_some_iff.mp found
    split at rest
    · exact ih rest
    · cases rest
      exact entry

omit [Peripherals δ] in
theorem isLeaf_of_pointer (pointer : isPointer pte = true) (level : Nat) :
    isLeaf level pte = false := by
  unfold isPointer at pointer
  unfold isLeaf
  revert pointer
  cases pte.getLsbD 1 <;> cases pte.getLsbD 3 <;> simp

/-- A walk through tables in RAM is decided by the entry it stops at. -/
theorem walkTable_eq (found : bus.lastEntry va level table = some e) (sys : SysCsrs)
    (access : Access) : walkTable sys va access level table bus = bus.stopAt sys va access e := by
  induction level generalizing table with
  | zero =>
    obtain ⟨pte, entry, rfl⟩ := Option.map_eq_some_iff.mp found
    rw [walkTable, walkEntry_eq entry]
    by_cases pointer : isPointer pte
    · rw [if_pos pointer]
      unfold stopAt
      rw [if_neg]
      · rfl
      · simp [isLeaf_of_pointer pointer]
    · rw [if_neg pointer]
  | succ level ih =>
    obtain ⟨pte, entry, rest⟩ := Option.bind_eq_some_iff.mp found
    rw [walkTable, walkEntry_eq entry]
    split at rest
    · rename_i pointer
      rw [if_pos pointer]
      exact ih rest
    · rename_i stop
      rw [if_neg stop]
      cases rest
      rfl

/-! ## Fresh walks -/

def SystemBus.Yields (bus : SystemBus layout δ) (sys : SysCsrs) (va : Word) (access : Access)
    (pa : Word) : Prop :=
  ∃ cached bus', walk sys va access bus = .ok { pa := pa, cached := cached } bus'

def rootTable (satp : Word) : Word := (satp &&& 0xfffffffffff#64) <<< 12

def isCanonical (levels : Nat) (va : Word) : Bool :=
  decide (va.sshiftRight (9 * levels + 12 - 1) = 0#64) ||
    decide (va.sshiftRight (9 * levels + 12 - 1) = ~~~0#64)

/-- Bare and machine mode do not translate. -/
def untranslated (sys : SysCsrs) (access : Access) : Bool :=
  decide (sys.satp >>> 60 = 0#64) || decide (sys.effMode access = .machine)

variable {sys : SysCsrs} {access : Access}

theorem walk_untranslated (identity : untranslated sys access = true) (bus : SystemBus layout δ)
    (va : Word) : walk sys va access bus = .ok { pa := va, cached := false } bus := by
  unfold walk
  simp only
  rw [if_pos (by simpa [untranslated] using identity)]
  rfl

theorem yields_untranslated (identity : untranslated sys access = true) (bus : SystemBus layout δ)
    (va pa : Word) : bus.Yields sys va access pa ↔ pa = va := by
  have run := walk_untranslated identity bus va
  constructor
  · rintro ⟨cached, bus', walked⟩
    rw [run] at walked
    cases walked
    rfl
  · rintro rfl
    exact ⟨false, bus, run⟩

variable {levels : Nat}

theorem walk_eq (translated : untranslated sys access = false)
    (depth : satpLevels (sys.satp >>> 60) = some levels) (bus : SystemBus layout δ) (va : Word) :
    walk sys va access bus = if isCanonical levels va then
      (walkTable sys va access (levels - 1) (rootTable sys.satp) >>= fun pa =>
        pure { pa := pa, cached := true }) bus else .error (fault access va) bus := by
  unfold walk
  simp only
  rw [if_neg (by simpa [untranslated] using translated), depth]
  simp only
  by_cases canonical : isCanonical levels va = true
  · rw [if_pos canonical, if_neg]
    · rfl
    · intro both
      simp only [isCanonical, Bool.or_eq_true, decide_eq_true_eq] at canonical
      exact canonical.elim both.1 both.2
  · rw [if_neg canonical, if_pos]
    · rfl
    · simpa [isCanonical] using canonical

theorem yields_iff (translated : untranslated sys access = false)
    (depth : satpLevels (sys.satp >>> 60) = some levels)
    (found : bus.lastEntry va (levels - 1) (rootTable sys.satp) = some e) (pa : Word) :
    bus.Yields sys va access pa ↔
      isCanonical levels va = true ∧ isLeaf e.level e.pte = true ∧ grants sys access e.pte = true ∧
        pa = leafAddress va e.level e.pte := by
  have stop := walkTable_eq found sys access
  unfold Yields
  rw [walk_eq translated depth]
  unfold stopAt at stop
  by_cases canonical : isCanonical levels va = true
  · rw [if_pos canonical]
    by_cases granted : (isLeaf e.level e.pte && grants sys access e.pte) = true
    · rw [if_pos granted] at stop
      rw [bind_ok _ stop]
      rw [Bool.and_eq_true] at granted
      constructor
      · rintro ⟨cached, bus', walked⟩
        cases walked
        exact ⟨canonical, granted.1, granted.2, rfl⟩
      · rintro ⟨-, -, -, rfl⟩
        exact ⟨true, _, rfl⟩
    · rw [if_neg granted] at stop
      rw [bind_error _ stop]
      constructor
      · rintro ⟨cached, bus', walked⟩
        cases walked
      · rintro ⟨-, leaf, grant, -⟩
        exact absurd (Bool.and_eq_true _ _ ▸ ⟨leaf, grant⟩) granted
  · rw [if_neg canonical]
    constructor
    · rintro ⟨cached, bus', walked⟩
      cases walked
    · rintro ⟨canonical', -⟩
      exact absurd canonical' canonical

theorem not_yields (translated : untranslated sys access = false)
    (depth : satpLevels (sys.satp >>> 60) = none) (bus : SystemBus layout δ) (va pa : Word) :
    ¬ bus.Yields sys va access pa := by
  rintro ⟨cached, bus', walked⟩
  unfold walk at walked
  simp only at walked
  rw [if_neg (by simpa [untranslated] using translated), depth] at walked
  cases walked

/-! ## What a walk depends on -/

theorem getLsbD_unmarked (pte : Word) {i : Nat} (other : i ≠ 6 ∧ i ≠ 7) :
    (unmarked pte).getLsbD i = pte.getLsbD i := by
  have mask : ∀ j : Fin 64, j.val ≠ 6 → j.val ≠ 7 → (~~~PTE_AD).getLsbD j = true := by decide
  by_cases inside : i < 64
  · have bit := mask ⟨i, inside⟩ other.1 other.2
    simp only at bit
    rw [unmarked, getLsbD_and, bit, Bool.and_true]
  · rw [getLsbD_of_ge _ i (by omega), getLsbD_of_ge pte i (by omega)]

theorem unmarked_ppn (pte : Word) : unmarked pte >>> 10 = pte >>> 10 := by
  apply eq_of_getLsbD_eq
  intro i _
  rw [getLsbD_ushiftRight, getLsbD_ushiftRight, getLsbD_unmarked pte (by omega)]

theorem entry_congr {pte' : Word} (same : unmarked pte' = unmarked pte) (level : Nat)
    (sys : SysCsrs) (va : Word) (access : Access) :
    isLeaf level pte' = isLeaf level pte ∧ grants sys access pte' = grants sys access pte ∧
      leafAddress va level pte' = leafAddress va level pte := by
  have bit : ∀ i, i ≠ 6 ∧ i ≠ 7 → pte'.getLsbD i = pte.getLsbD i := fun i other => by
    rw [← getLsbD_unmarked pte' other, same, getLsbD_unmarked pte other]
  have ppn : pte' >>> 10 = pte >>> 10 := by rw [← unmarked_ppn pte', same, unmarked_ppn pte]
  refine ⟨?_, ?_, ?_⟩
  · unfold isLeaf
    rw [bit 0 (by decide), bit 1 (by decide), bit 2 (by decide), bit 3 (by decide), ppn]
  · unfold grants
    rw [bit 4 (by decide)]
    cases access with
    | fetch => rw [bit 3 (by decide)]
    | load => rw [bit 1 (by decide), bit 3 (by decide)]
    | store => rw [bit 2 (by decide)]
  · unfold leafAddress
    rw [ppn]

/-- The tables that map `va` under a `satp` value are RAM on both buses and the same, A and D
aside. -/
def TablesKept (satp va : Word) (bus bus' : SystemBus layout δ) : Prop :=
  ∀ levels, satpLevels (satp >>> 60) = some levels →
    ∃ e e', bus.lastEntry va (levels - 1) (rootTable satp) = some e ∧
      bus'.lastEntry va (levels - 1) (rootTable satp) = some e' ∧
      e'.level = e.level ∧ unmarked e'.pte = unmarked e.pte

theorem TablesKept.yields (kept : TablesKept sys.satp va bus bus') (access : Access) (pa : Word) :
    bus'.Yields sys va access pa ↔ bus.Yields sys va access pa := by
  cases identity : untranslated sys access with
  | true => rw [yields_untranslated identity, yields_untranslated identity]
  | false =>
    cases depth : satpLevels (sys.satp >>> 60) with
    | none =>
      exact iff_of_false (not_yields identity depth _ va pa) (not_yields identity depth _ va pa)
    | some levels =>
      obtain ⟨e, e', found, found', level, same⟩ := kept levels depth
      obtain ⟨leaf, grant, address⟩ := entry_congr same e.level sys va access
      rw [yields_iff identity depth found', yields_iff identity depth found, level, leaf, grant,
        address]

/-- The walk reads privilege and status only through what the access context records. -/
structure SameRights (sys sys' : SysCsrs) (access : Access) : Prop where
  satp : sys'.satp = sys.satp
  mode : sys'.effMode access = sys.effMode access
  sum : access ≠ .fetch → (sys'.mstatus &&& MSTATUS_SUM ≠ 0#64 ↔ sys.mstatus &&& MSTATUS_SUM ≠ 0#64)
  mxr : access = .load → (sys'.mstatus &&& MSTATUS_MXR ≠ 0#64 ↔ sys.mstatus &&& MSTATUS_MXR ≠ 0#64)

theorem grants_congr {sys' : SysCsrs} (same : SameRights sys sys' access)
    (pte : Word) : grants sys' access pte = grants sys access pte := by
  unfold grants
  rw [same.mode]
  cases access with
  | fetch => simp only [ne_eq, not_true_eq_false, decide_false, Bool.and_false]
  | load => simp only [same.sum (by decide), same.mxr rfl]
  | store => simp only [same.sum (by decide)]

theorem SameRights.yields {sys' : SysCsrs} (same : SameRights sys sys' access)
    (kept : TablesKept sys.satp va bus bus) (pa : Word) :
    bus.Yields sys' va access pa ↔ bus.Yields sys va access pa := by
  have identity' : untranslated sys' access = untranslated sys access := by
    unfold untranslated
    rw [same.satp, same.mode]
  cases identity : untranslated sys access with
  | true =>
    rw [identity] at identity'
    rw [yields_untranslated identity, yields_untranslated identity']
  | false =>
    rw [identity] at identity'
    cases depth : satpLevels (sys.satp >>> 60) with
    | none =>
      have depth' : satpLevels (sys'.satp >>> 60) = none := by rw [same.satp, depth]
      exact iff_of_false (not_yields identity' depth' _ va pa) (not_yields identity depth _ va pa)
    | some levels =>
      obtain ⟨e, -, found, -⟩ := kept levels depth
      have depth' : satpLevels (sys'.satp >>> 60) = some levels := by rw [same.satp, depth]
      have found' : bus.lastEntry va (levels - 1) (rootTable sys'.satp) = some e := by
        rw [same.satp, found]
      rw [yields_iff identity' depth' found', yields_iff identity depth found, grants_congr same]

/-! ## One page -/

variable {va' : Word}

section

variable (page : pageOf va' = pageOf va)
include page

theorem entryAddr_of_page (level : Nat) (table : Word) :
    entryAddr va' level table = entryAddr va level table := by
  unfold entryAddr
  rw [shiftRight_of_page page (by omega)]

theorem isCanonical_of_page (some_level : 0 < levels) :
    isCanonical levels va' = isCanonical levels va := by
  have shifted : va'.sshiftRight (9 * levels + 12 - 1) = va.sshiftRight (9 * levels + 12 - 1) := by
    apply eq_of_getLsbD_eq
    intro i _
    have top : va'.msb = va.msb := by
      rw [msb_eq_getLsbD_last, msb_eq_getLsbD_last]
      exact getLsbD_of_page page (by decide)
    rw [getLsbD_sshiftRight, getLsbD_sshiftRight, top, getLsbD_of_page page (by omega)]
  unfold isCanonical
  rw [shifted]

theorem lastEntry_of_page (level : Nat) (table : Word) :
    bus.lastEntry va' level table = bus.lastEntry va level table := by
  induction level generalizing table with
  | zero => rw [SystemBus.lastEntry, SystemBus.lastEntry, entryAddr_of_page page]
  | succ level ih =>
    rw [SystemBus.lastEntry, SystemBus.lastEntry, entryAddr_of_page page]
    simp only [ih]

theorem TablesKept.of_page {satp : Word} (kept : TablesKept satp va bus bus') :
    TablesKept satp va' bus bus' := by
  intro levels depth
  rw [lastEntry_of_page page, lastEntry_of_page page]
  exact kept levels depth

end

theorem leafAddress_of_page (page : pageOf va' = pageOf va) (level : Nat)
    (pte : Word) : leafAddress va' level pte = va' + (leafAddress va level pte - va) := by
  unfold leafAddress
  simp only
  generalize ones : (1#64 <<< (12 + 9 * level)) - 1#64 = mask
  have above : va' &&& ~~~mask = va &&& ~~~mask := by
    apply eq_of_getLsbD_eq
    intro i h
    rw [getLsbD_and, getLsbD_and]
    by_cases low : i < 12
    · rw [getLsbD_not, ← ones, leafMask_low level i low]
      simp
    · rw [getLsbD_of_page page (by omega)]
  have parts := split_masked va mask
  have parts' := split_masked va' mask
  rw [above] at parts'
  rw [or_masked, or_masked]
  grind

/-- What a walk gives for an address it gives for the whole page. -/
theorem yields_of_page {pa : Word} (kept : TablesKept sys.satp va bus bus)
    (page : pageOf va' = pageOf va)
    (yields : bus.Yields sys va access pa) : bus.Yields sys va' access (va' + (pa - va)) := by
  cases identity : untranslated sys access with
  | true =>
    rw [yields_untranslated identity] at yields ⊢
    rw [yields, sub_self, add_zero]
  | false =>
    cases depth : satpLevels (sys.satp >>> 60) with
    | none => exact absurd yields (not_yields identity depth bus va pa)
    | some levels =>
      obtain ⟨e, -, found, -⟩ := kept levels depth
      have found' : bus.lastEntry va' (levels - 1) (rootTable sys.satp) = some e := by
        rw [lastEntry_of_page page, found]
      have positive : 0 < levels := by
        unfold satpLevels at depth
        split at depth <;> cases depth <;> decide
      rw [yields_iff identity depth found] at yields
      rw [yields_iff identity depth found', isCanonical_of_page page positive]
      obtain ⟨canonical, leaf, grant, rfl⟩ := yields
      exact ⟨canonical, leaf, grant, (leafAddress_of_page page _ _).symm⟩

end Walks

end Rv64Js.Board
