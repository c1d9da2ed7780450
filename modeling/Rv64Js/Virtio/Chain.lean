import Rv64Js.Virtio.Device

/-! # Descriptor chains

`descriptor_chain` follows the NEXT links of a guest table. `guest_slice` cuts the distance of an
entry from the start of RAM down to a host word, so on a 32-bit host entries far above RAM are read
as well. -/

set_option autoImplicit false

namespace Rv64Js.Virtio

open Rv64Js.Core (Word)
open Rv64Js.Board (Ram)
open Relation (ReflTransGen TransGen)

section Links

variable (read : Nat → Option RawDescriptor)

/-- The links from entry `i` on lead through these buffers to an entry without NEXT. -/
def Linked (i : Nat) : List Descriptor → Prop
  | [] => False
  | d :: rest => ∃ raw, read i = some raw ∧ raw.flags &&& VIRTQ_DESC_F_INDIRECT = 0 ∧
    d = ⟨raw.addr, raw.len, raw.flags &&& VIRTQ_DESC_F_WRITE ≠ 0⟩ ∧
    if raw.flags &&& VIRTQ_DESC_F_NEXT = 0 then rest = [] else Linked raw.next.toNat rest

def Follows (i j : Nat) : Prop :=
  ∃ raw, read i = some raw ∧ raw.flags &&& VIRTQ_DESC_F_NEXT ≠ 0 ∧ raw.next.toNat = j

variable {read} {i j : Nat} {chain : List Descriptor}

theorem Linked.reaches (linked : Linked read i chain) (path : TransGen (Follows read) i j) :
    ∃ rest, Linked read j rest ∧ rest.length < chain.length := by
  have follow {i j : Nat} {chain} (linked : Linked read i chain) (follows : Follows read i j) :
      ∃ rest, Linked read j rest ∧ rest.length < chain.length := by
    obtain ⟨raw, found, more, rfl⟩ := follows
    cases chain with
    | nil => exact linked.elim
    | cons d rest =>
      obtain ⟨raw', found', -, -, links⟩ := linked
      cases found.symm.trans found'
      rw [if_neg more] at links
      exact ⟨rest, links, Nat.lt_succ_self _⟩
  induction path with
  | single first => exact follow linked first
  | tail _ last ih =>
    obtain ⟨rest, later, shorter⟩ := ih
    obtain ⟨rest', later', shorter'⟩ := follow later last
    exact ⟨rest', later', shorter'.trans shorter⟩

theorem not_linked_of_cycle (cycle : TransGen (Follows read) i i) : ¬ Linked read i chain := by
  induction h : chain.length using Nat.strong_induction_on generalizing chain with
  | _ n ih =>
    intro linked
    obtain ⟨rest, later, shorter⟩ := linked.reaches cycle
    exact ih rest.length (h ▸ shorter) rfl later

end Links

/-- The entry at the head of a queue: it starts a chain in the queue's own table, or stands
for a well-formed indirect table. -/
def Starts (raw : RawDescriptor) (q : Queue) (head : BitVec 16) (table : Word) (count first : Nat) :
    Prop :=
  if raw.flags &&& VIRTQ_DESC_F_INDIRECT = 0 then
    table = q.desc ∧ count = q.num.toNat ∧ first = head.toNat
  else raw.flags &&& VIRTQ_DESC_F_NEXT = 0 ∧ raw.len ≠ 0 ∧ raw.len.toNat % DESCRIPTOR_BYTES = 0 ∧
    table = raw.addr ∧ count = raw.len.toNat / DESCRIPTOR_BYTES ∧ first = 0

/-- What `descriptor_chain` is to return, if entries are read like this. -/
def Chained (read : Word → Nat → Nat → Option RawDescriptor) (q : Queue) (head : BitVec 16)
    (chain : List Descriptor) : Prop :=
  ∃ raw table count first, read q.desc q.num.toNat head.toNat = some raw ∧
    Starts raw q head table count first ∧ Linked (read table count) first chain ∧
    chain.length ≤ count

variable (window : Window) (ram : Ram)

theorem walkFrom_eq_some {table : Word} {count n i : Nat} {chain : List Descriptor} :
    walkFrom window ram table count n i = some chain ↔
      Linked (readDescriptor window ram table count) i chain ∧ chain.length ≤ n := by
  induction n generalizing i chain with
  | zero => cases chain <;> simp [walkFrom, Linked]
  | succ n ih =>
    rw [walkFrom]
    cases found : readDescriptor window ram table count i with
    | none => cases chain <;> simp [Linked, found]
    | some raw =>
      cases chain with
      | nil =>
        simp only [Linked, Option.bind_some, false_and, iff_false]
        split
        · simp
        · split <;> simp
      | cons d rest =>
        simp only [Linked, found, Option.some.injEq, exists_eq_left', Option.bind_some]
        by_cases plain : raw.flags &&& VIRTQ_DESC_F_INDIRECT = 0
        · rw [if_neg (not_not.mpr plain)]
          by_cases ends : raw.flags &&& VIRTQ_DESC_F_NEXT = 0
          · simp only [plain, ends, if_true, true_and, List.length_cons]
            grind
          · simp only [plain, ends, if_false, Option.map_eq_some_iff, ih, List.cons.injEq,
              List.length_cons]
            grind
        · simp only [plain, ne_eq, not_false_eq_true, if_true, false_and, reduceCtorEq]

theorem descriptorChain_eq_some {q : Queue} {head : BitVec 16} {chain : List Descriptor} :
    descriptorChain window q head ram = some chain ↔
      Chained (readDescriptor window ram) q head chain := by
  rw [descriptorChain, Chained]
  cases found : readDescriptor window ram q.desc q.num.toNat head.toNat with
  | none => simp
  | some raw =>
    have walked (table : Word) (count first : Nat) :
        walkDescriptorTable window ram table count first = some chain ↔
          Linked (readDescriptor window ram table count) first chain ∧ chain.length ≤ count := by
      rw [walkDescriptorTable]
      split
      · cases chain with
        | nil => simp [Linked]
        | cons d rest => simp [Linked, readDescriptor, show count ≤ first by omega]
      · exact walkFrom_eq_some window ram
    simp only [Option.bind_some, Option.some.injEq, exists_and_left, exists_eq_left', Starts]
    split
    · simp [walked]
    · split
      · grind
      · simp [walked]
        grind

/-! ## Entries in RAM -/

def Resident (addr : Word) : Bool :=
  window.base ≤ addr ∧ addr.toNat + DESCRIPTOR_BYTES ≤ window.base.toNat + window.len

def readResident (table : Word) (count index : Nat) : Option RawDescriptor :=
  if Resident window (table + BitVec.ofNat 64 (index * DESCRIPTOR_BYTES)) then
    readDescriptor window ram table count index
  else none

/-- The entries of a table are no further from the start of RAM than a host word counts. -/
def Near (table : Word) (count : Nat) : Prop :=
  min (table.toNat + count * DESCRIPTOR_BYTES) (2 ^ 64) ≤ window.base.toNat + 2 ^ window.word

/-- So are those of the queue's table, and of the one that an indirect head names. -/
def TablesNear (q : Queue) (head : BitVec 16) : Prop :=
  Near window q.desc q.num.toNat ∧
    ∀ raw, readResident window ram q.desc q.num.toNat head.toNat = some raw →
      raw.flags &&& VIRTQ_DESC_F_INDIRECT ≠ 0 →
        Near window raw.addr (raw.len.toNat / DESCRIPTOR_BYTES)

variable {window}

theorem readResident_eq {table : Word} {count : Nat} (near : Near window table count) :
    readResident window ram table count = readDescriptor window ram table count := by
  funext index
  refine ite_eq_left_iff.mpr fun outside => ?_
  rw [readDescriptor]
  split_ifs with last far
  · rfl
  · rfl
  have size : DESCRIPTOR_BYTES = 16 := rfl
  have inside : table.toNat + index * DESCRIPTOR_BYTES < window.base.toNat + 2 ^ window.word := by
    rw [Near, size] at near
    rw [size] at far ⊢
    omega
  have entry : (table + BitVec.ofNat 64 (index * DESCRIPTOR_BYTES)).toNat =
      table.toNat + index * DESCRIPTOR_BYTES := by
    rw [BitVec.toNat_add, BitVec.toNat_ofNat]
    omega
  generalize table + BitVec.ofNat 64 (index * DESCRIPTOR_BYTES) = addr at entry outside ⊢
  have refused : guestSlice window addr DESCRIPTOR_BYTES = none := by
    refine if_neg fun ⟨above, fits⟩ => outside ?_
    have distance := BitVec.toNat_sub_of_le above
    have le := BitVec.le_def.mp above
    rw [offset, distance, Nat.mod_eq_of_lt (by omega)] at fits
    exact decide_eq_true ⟨above, by omega⟩
  rw [refused]
  rfl

theorem chained_resident {q : Queue} {head : BitVec 16} (near : TablesNear window ram q head)
    (chain : List Descriptor) :
    Chained (readResident window ram) q head chain ↔
      Chained (readDescriptor window ram) q head chain := by
  have same {raw : RawDescriptor} {table : Word} {count first : Nat}
      (found : readResident window ram q.desc q.num.toNat head.toNat = some raw)
      (starts : Starts raw q head table count first) :
      readResident window ram table count = readDescriptor window ram table count := by
    apply readResident_eq
    unfold Starts at starts
    split at starts
    · obtain ⟨rfl, rfl, -⟩ := starts
      exact near.1
    · obtain ⟨-, -, -, rfl, rfl, -⟩ := starts
      exact near.2 raw found ‹_›
  unfold Chained
  rw [← readResident_eq ram near.1]
  refine exists_congr fun raw => exists_congr fun table => exists_congr fun count =>
    exists_congr fun first => and_congr_right fun found => and_congr_right fun starts => ?_
  rw [same found starts]

variable (window)

end Rv64Js.Virtio
