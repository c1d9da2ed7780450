import Mathlib.Algebra.Group.Nat.Defs

/-! # Address translation of the privileged architecture

The Sv39 and Sv48 walk in the steps of the RISC-V privileged specification, over a memory of
doublewords, for an implementation that sets A and D itself. -/

set_option autoImplicit false

namespace Rv64Js.PageWalk

inductive Kind where
  | execute
  | read
  | write
deriving DecidableEq

inductive Privilege where
  | user
  | supervisor
  | machine
deriving DecidableEq

structure Setting where
  privilege : Privilege
  sum : Bool
  mxr : Bool

structure Pte where
  v : Bool
  r : Bool
  w : Bool
  x : Bool
  u : Bool
  a : Bool
  d : Bool
  ppn : Nat
  reserved : Nat

namespace Pte

def ofBits (bits : BitVec 64) : Pte where
  v := bits.getLsbD 0
  r := bits.getLsbD 1
  w := bits.getLsbD 2
  x := bits.getLsbD 3
  u := bits.getLsbD 4
  a := bits.getLsbD 6
  d := bits.getLsbD 7
  ppn := bits.toNat / 2 ^ 10 % 2 ^ 44
  reserved := bits.toNat / 2 ^ 54

/-- An entry that is no leaf points to the next table. -/
def isLeaf (p : Pte) : Bool := p.r || p.x

/-- Valid, no reserved encoding and no reserved bit; D, A and U are reserved in an entry
that is no leaf. -/
def isValid (p : Pte) : Bool :=
  p.v && !(!p.r && p.w) && decide (p.reserved = 0) && (p.isLeaf || !(p.d || p.a || p.u))

/-- The low page-number fields of a superpage are zero. -/
def isAligned (p : Pte) (level : Nat) : Bool := decide (p.ppn % 2 ^ (9 * level) = 0)

/-- The U bit under the effective privilege and SUM; no privilege but user mode executes
user pages. -/
def admits (p : Pte) (setting : Setting) (kind : Kind) : Bool :=
  match setting.privilege with
  | .user => p.u
  | .supervisor => !p.u || (setting.sum && decide (kind ≠ .execute))
  | .machine => true

/-- The R, W and X bits; MXR makes executable pages readable. -/
def permits (p : Pte) (setting : Setting) : Kind → Bool
  | .execute => p.x
  | .read => p.r || (setting.mxr && p.x)
  | .write => p.w

end Pte

def vpn (va level : Nat) : Nat := va / 2 ^ (12 + 9 * level) % 2 ^ 9

/-- Offset and low page-number fields come from the virtual address, the rest from the leaf. -/
def physical (va level ppn : Nat) : Nat :=
  ppn / 2 ^ (9 * level) * 2 ^ (12 + 9 * level) + va % 2 ^ (12 + 9 * level)

structure Leaf where
  pa : Nat
  addr : Nat
  bits : BitVec 64
deriving DecidableEq

variable (memory : Nat → Option (BitVec 64)) (setting : Setting) (kind : Kind) (va : Nat)

/-- What is done with an entry: `next` is the walk of the table it points to. -/
def entry (level table : Nat) (next : Nat → Option Leaf) : Option Leaf := do
  let addr := table + 8 * vpn va level
  let bits ← memory addr
  let p := Pte.ofBits bits
  if !p.isValid then none
  else if !p.isLeaf then next (p.ppn * 2 ^ 12)
  else if !p.isAligned level || !p.admits setting kind || !p.permits setting kind then none
  else some { pa := physical va level p.ppn, addr := addr, bits := bits }

/-- The walk from a table of the given level; `none` is a page fault. -/
def walk : Nat → Nat → Option Leaf
  | 0, table => entry memory setting kind va 0 table fun _ => none
  | level + 1, table => entry memory setting kind va (level + 1) table (walk level)

/-- The bits above the translated ones repeat the highest of these. -/
def canonical (levels : Nat) : Bool :=
  decide (va / 2 ^ (9 * levels + 11) = 0) ||
    decide (va / 2 ^ (9 * levels + 11) = 2 ^ (64 - (9 * levels + 11)) - 1)

/-- How an access is translated: machine mode uses physical addresses. -/
inductive Outcome where
  | untranslated
  | translated (leaf : Leaf)
  | pageFault
deriving DecidableEq

/-- Translation under a root table of `levels` levels. -/
def translate (levels root : Nat) : Outcome :=
  if setting.privilege = .machine then .untranslated
  else if canonical va levels then
    match walk memory setting kind va (levels - 1) root with
    | some leaf => .translated leaf
    | none => .pageFault
  else .pageFault

end Rv64Js.PageWalk
