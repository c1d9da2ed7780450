import Mathlib.Data.Fintype.Card
import Mathlib.Data.List.Induction
import Rv64Js.Lib.Events

/-! # The interrupt controller

`Plic` of `virt.rs`. A claim takes the last of the sources with the highest priority, where the
PLIC takes the first; a claimed source is not handed out again before it is completed. -/

set_option autoImplicit false

namespace Rv64Js.Board

open List

/-- Source 0 is "no interrupt" and never enabled. -/
structure Plic where
  priority : Fin 32 → BitVec 32
  pending : BitVec 32
  enable : Fin 2 → BitVec 32
  threshold : Fin 2 → BitVec 32
  claimed : BitVec 32
  enable_zero : ∀ ctx, (enable ctx).getLsbD 0 = false

namespace Plic

def new : Plic where
  priority _ := 0
  pending := 0
  enable _ := 0
  threshold _ := 0
  claimed := 0
  enable_zero _ := rfl

variable (p : Plic) (ctx : Fin 2)

def elig : BitVec 32 := p.pending &&& p.enable ctx &&& ~~~p.claimed

/-- One turn of the loop of `best`. -/
def consider (best : Fin 32 × BitVec 32) (i : Fin 32) : Fin 32 × BitVec 32 :=
  if p.priority i > p.threshold ctx ∧ p.priority i ≥ best.2 then (i, p.priority i) else best

/-- The loop takes the bits of `elig` from the lowest on. -/
def best : Fin 32 :=
  (((List.finRange 32).filter fun i : Fin 32 => (p.elig ctx).getLsbD i.val).foldl (p.consider ctx)
    (0, 0)).1

def claim : BitVec 32 × Plic :=
  (BitVec.ofNat 32 (p.best ctx),
    if p.best ctx ≠ 0 then { p with claimed := p.claimed ||| 1#32 <<< (p.best ctx).val } else p)

def complete (val : BitVec 32) : Plic :=
  if val.toNat < 32 then { p with claimed := p.claimed &&& ~~~(1#32 <<< val.toNat) } else p

def setEnable (val : BitVec 32) : Plic :=
  { p with
    enable := Function.update p.enable ctx (val &&& ~~~1)
    enable_zero := fun c => by
      by_cases same : c = ctx
      · simp [same]
      · rw [Function.update_of_ne same]
        exact p.enable_zero c }

inductive Reg where
  | priority (id : Fin 32)
  | pending
  | enable (ctx : Fin 2)
  | threshold (ctx : Fin 2)
  | claim (ctx : Fin 2)
  | other
deriving DecidableEq

/-- The register at an offset, as `read` and `write` tell them apart. -/
def reg (off : Nat) : Reg :=
  if off < 0x1000 then if id : off / 4 < 32 then .priority ⟨_, id⟩ else .other
  else if off = 0x1000 then .pending
  else if bits : 0x2000 ≤ off ∧ off < 0x2000 + 2 * 0x80 ∧ (off - 0x2000) % 0x80 = 0 then
    .enable ⟨(off - 0x2000) / 0x80, by omega⟩
  else if ctx : off ≥ 0x200000 ∧ (off - 0x200000) / 0x1000 < 2 then
    if (off - 0x200000) % 0x1000 = 0 then .threshold ⟨_, ctx.2⟩
    else if (off - 0x200000) % 0x1000 = 4 then .claim ⟨_, ctx.2⟩
    else .other
  else .other

def read (off : Nat) : BitVec 32 × Plic :=
  match reg off with
  | .priority id => (p.priority id, p)
  | .pending => (p.pending, p)
  | .enable ctx => (p.enable ctx, p)
  | .threshold ctx => (p.threshold ctx, p)
  | .claim ctx => p.claim ctx
  | .other => (0, p)

def write (off : Nat) (val : BitVec 32) : Plic :=
  match reg off with
  | .priority id => if id ≠ 0 then { p with priority := Function.update p.priority id val } else p
  | .enable ctx => p.setEnable ctx val
  | .threshold ctx => { p with threshold := Function.update p.threshold ctx val }
  | .claim _ => p.complete val
  | .pending | .other => p

/-! ## Which source a claim takes -/

def Claimable (i : Fin 32) : Prop :=
  p.pending.getLsbD i = true ∧ (p.enable ctx).getLsbD i = true ∧ p.claimed.getLsbD i = false ∧
    p.priority i > p.threshold ctx

variable {p ctx}

theorem Claimable.ne_zero {i : Fin 32} (claimable : p.Claimable ctx i) : i ≠ 0 := by
  rintro rfl
  have enabled := claimable.2.1
  rw [Fin.val_zero, p.enable_zero ctx] at enabled
  cases enabled

theorem claimable_iff {i : Fin 32} :
    p.Claimable ctx i ↔ (p.elig ctx).getLsbD i = true ∧ p.priority i > p.threshold ctx := by
  simp [Claimable, elig, and_assoc]

variable (p ctx)

/-- The last of the claimable sources in `seen` with the highest priority, if there is one. -/
def Top (seen : List (Fin 32)) (best : Fin 32 × BitVec 32) : Prop :=
  (best = (0, 0) ∧ ∀ j ∈ seen, ¬p.priority j > p.threshold ctx) ∨
  (best.1 ∈ seen ∧ p.priority best.1 > p.threshold ctx ∧ best.2 = p.priority best.1 ∧
    ∀ j ∈ seen, p.priority j ≤ best.2 ∧ (p.priority j = best.2 → j ≤ best.1))

theorem foldl_top (seen : List (Fin 32)) (ascending : seen.Pairwise (· < ·)) :
    p.Top ctx seen (seen.foldl (p.consider ctx) (0, 0)) := by
  induction seen using reverseRecOn with
  | nil => exact .inl ⟨rfl, by simp⟩
  | append_singleton seen i ih =>
    obtain ⟨before, -, below⟩ := pairwise_append.mp ascending
    have top := ih before
    rw [foldl_append, foldl_cons, foldl_nil]
    generalize seen.foldl (p.consider ctx) (0, 0) = best at top
    have last : ∀ j ∈ seen, j < i := fun j mem => below j mem i (mem_singleton_self i)
    simp only [Top, consider, mem_append, mem_singleton] at top ⊢
    split
    · grind
    · grind

theorem best_top : (p.best ctx = 0 ∧ ∀ i, ¬p.Claimable ctx i) ∨
    (p.Claimable ctx (p.best ctx) ∧ ∀ j, p.Claimable ctx j →
      p.priority j ≤ p.priority (p.best ctx) ∧
      (p.priority j = p.priority (p.best ctx) → j ≤ p.best ctx)) := by
  have top := p.foldl_top ctx ((finRange 32).filter fun i : Fin 32 => (p.elig ctx).getLsbD i.val)
    ((pairwise_lt_finRange 32).filter _)
  simp only [Top, mem_filter, mem_finRange, true_and] at top
  rcases top with ⟨none, low⟩ | ⟨mem, high, value, above⟩
  · refine .inl ⟨congrArg Prod.fst none, fun i claimable => ?_⟩
    obtain ⟨eligible, high⟩ := claimable_iff.mp claimable
    exact low i eligible high
  · rw [value] at above
    exact .inr
      ⟨claimable_iff.mpr ⟨mem, high⟩, fun j claimable => above j (claimable_iff.mp claimable).1⟩

/-- What a claim is to return. -/
structure Chosen (id : BitVec 32) : Prop where
  none : id = 0 ↔ ∀ i, ¬p.Claimable ctx i
  first : id ≠ 0 → ∃ i : Fin 32, id = BitVec.ofNat 32 i ∧ p.Claimable ctx i ∧
    ∀ j, p.Claimable ctx j →
    p.priority j ≤ p.priority i ∧ (p.priority j = p.priority i → i ≤ j)

/-- One claimable source only has the highest priority. -/
def Untied : Prop := ∀ i j, p.Claimable ctx i → p.Claimable ctx j → p.priority i = p.priority j →
  (∀ k, p.Claimable ctx k → p.priority k ≤ p.priority i) → i = j

theorem ofNat_inj {i j : Fin 32} (same : BitVec.ofNat 32 i.val = BitVec.ofNat 32 j.val) :
    i = j := by
  have toNat := congrArg BitVec.toNat same
  simp only [BitVec.toNat_ofNat] at toNat
  omega

theorem chosen_best_iff : p.Chosen ctx (.ofNat 32 (p.best ctx)) ↔ p.Untied ctx := by
  rcases p.best_top ctx with ⟨zero, empty⟩ | ⟨claimable, top⟩
  · rw [zero]
    exact ⟨fun _ i _ claimable => absurd claimable (empty i),
      fun _ => ⟨by simp [empty], fun some => absurd rfl some⟩⟩
  · have some : BitVec.ofNat 32 (p.best ctx) ≠ 0 :=
      fun zero => claimable.ne_zero (ofNat_inj (j := 0) zero)
    constructor
    · rintro ⟨-, first⟩ i j hi hj same highest
      obtain ⟨k, at', -, least⟩ := first some
      obtain rfl := ofNat_inj at'
      have equal := BitVec.le_antisymm (top i hi).1 (highest _ claimable)
      have ends (l : Fin 32) (hl : p.Claimable ctx l)
        (at'' : p.priority l = p.priority (p.best ctx)) :
          l = p.best ctx := Fin.le_antisymm ((top l hl).2 at'') ((least l hl).2 at'')
      rw [ends i hi equal, ends j hj (same ▸ equal)]
    · intro untied
      refine ⟨⟨fun zero => absurd zero some, fun empty => absurd claimable (empty _)⟩, fun _ =>
        ⟨_, rfl, claimable, fun j hj => ⟨(top j hj).1, fun same => ?_⟩⟩⟩
      exact Fin.le_of_eq (untied _ j claimable hj same.symm fun k hk => (top k hk).1)

/-! ## Claims over runs -/

inductive Event where
  | lines (pending : BitVec 32)
  | read (off : Nat)
  | write (off : Nat) (val : BitVec 32)

def step (p : Plic) : Event → Plic
  | .lines pending => { p with pending := pending }
  | .read off => (p.read off).2
  | .write off val => p.write off val

def claimReg : Nat := 0x200004 + ctx.val * 0x1000

theorem reg_claimReg : reg (claimReg ctx) = .claim ctx := by
  decide +revert

def Event.Completes (id : BitVec 32) : Event → Prop
  | .write off val => val = id ∧ ∃ ctx, reg off = .claim ctx
  | _ => False

theorem read_claimReg : p.read (claimReg ctx) = p.claim ctx := by
  rw [read, reg_claimReg]

variable {p} {i : Fin 32}

theorem claim_claimed (held : p.claimed.getLsbD i = true) :
    (p.claim ctx).2.claimed.getLsbD i = true := by
  unfold claim
  dsimp only
  split <;> simp [held]

theorem complete_claimed {val : BitVec 32} (other : val ≠ BitVec.ofNat 32 i)
    (held : p.claimed.getLsbD i = true) : (p.complete val).claimed.getLsbD i = true := by
  unfold complete
  split
  · have apart : i.val ≠ val.toNat :=
      fun same => other (by rw [same, BitVec.ofNat_toNat, BitVec.setWidth_eq])
    simpa [held] using (by omega : i.val < val.toNat ∨ ¬i.val - val.toNat = 0)
  · exact held

theorem step_claimed {e : Event} (other : ¬e.Completes (.ofNat 32 i))
    (held : p.claimed.getLsbD i = true) : (p.step e).claimed.getLsbD i = true := by
  cases e with
  | lines pending => exact held
  | read off =>
    change (p.read off).2.claimed.getLsbD i = true
    unfold read
    cases reg off with
    | claim ctx => exact claim_claimed ctx held
    | _ => exact held
  | write off val =>
    change (p.write off val).claimed.getLsbD i = true
    unfold write
    cases at' : reg off with
    | priority id =>
      dsimp only
      split <;> exact held
    | claim ctx => exact complete_claimed (fun same => other ⟨same, ctx, at'⟩) held
    | _ => exact held

/-- A claim returns the source it should exactly if no two claimable sources share the highest
priority; and no source is claimed again before it is completed. -/
theorem claim_chosen_iff (p : Plic) (ctx : Fin 2) : let id := (p.read (claimReg ctx)).1
    let p' := (p.read (claimReg ctx)).2
    (p.Chosen ctx id ↔ p.Untied ctx) ∧ ∀ events ctx',
      id ≠ 0 → Events.Admitted step (fun _ e => ¬e.Completes id) p' events →
        ((Events.run step p' events).read (claimReg ctx')).1 ≠ id := by
  simp only [read_claimReg]
  refine ⟨p.chosen_best_iff ctx, fun events ctx' some between again => ?_⟩
  have taken : p.best ctx ≠ 0 := fun zero => some (by simp [claim, zero])
  have held : (p.claim ctx).2.claimed.getLsbD (p.best ctx) = true := by
    simp [claim, taken]
  have later :=
    between.keeps (I := fun p' => p'.claimed.getLsbD (p.best ctx) = true) (fun _ _ => step_claimed)
      held
  have same := ofNat_inj again
  obtain ⟨zero, -⟩ | ⟨claimable, -⟩ := (Events.run step (p.claim ctx).2 events).best_top ctx'
  · exact taken (same.symm.trans zero)
  · rw [← same, claimable.2.2.1] at later
    cases later

/-- Sources 1 and 2 are pending with the same priority; the claim takes the second. -/
theorem tie_takes_last :
    let p := Events.run step new [.write 4 1, .write 8 1, .write 0x2000 6, .lines 6]
    p.Claimable 0 1 ∧ p.Claimable 0 2 ∧ p.priority 1 = p.priority 2 ∧
    (p.read (claimReg 0)).1 = 2 := by
  unfold Claimable
  decide +kernel

/-! ## Draining -/

/-- The numbers a handler gets that reads the claim register until it reads 0, if the given number
of reads is enough for that. -/
def drain : Nat → Plic → Option (List (BitVec 32))
  | 0, _ => none
  | n + 1, p =>
    let (id, p') := p.read (claimReg ctx)
    if id = 0 then some [] else (drain n p').map (id :: ·)

/-- Every claimable source once, from the highest priority to the lowest. -/
structure Drained (p : Plic) (ctx : Fin 2) (taken : List (Fin 32)) : Prop where
  once : taken.Nodup
  all : ∀ i, i ∈ taken ↔ p.Claimable ctx i
  ordered : taken.Pairwise fun i j => p.priority j ≤ p.priority i

theorem claimable_claim (taken : p.best ctx ≠ 0) (i : Fin 32) :
    (p.claim ctx).2.Claimable ctx i ↔ p.Claimable ctx i ∧ i ≠ p.best ctx := by
  have bit : (1#32 <<< (p.best ctx).val).getLsbD i = decide (i = p.best ctx) := by
    generalize p.best ctx = b
    decide +revert
  simp only [claim, if_pos taken, Claimable, BitVec.getLsbD_or, bit, Bool.or_eq_false_iff,
    decide_eq_false_iff_not]
  tauto

open Classical in
theorem drain_spec (n : Nat) (p : Plic) (enough : (Finset.univ.filter (p.Claimable ctx)).card < n) :
    ∃ taken, drain ctx n p = some (taken.map fun i => BitVec.ofNat 32 i.val) ∧
      p.Drained ctx taken := by
  induction n generalizing p with
  | zero => exact absurd enough (Nat.not_lt_zero _)
  | succ n ih =>
    simp only [drain, read_claimReg]
    rcases p.best_top ctx with ⟨zero, none⟩ | ⟨claimable, top⟩
    · exact ⟨[], by simp [claim, zero], .nil, by simp [none], .nil⟩
    · have taken := claimable.ne_zero
      have fewer : Finset.univ.filter ((p.claim ctx).2.Claimable ctx) =
          (Finset.univ.filter (p.Claimable ctx)).erase (p.best ctx) := by
        ext i
        simp [claimable_claim ctx taken, and_comm]
      have same : (p.claim ctx).2.priority = p.priority := by simp [claim, taken]
      obtain ⟨rest, later, once, all, ordered⟩ := ih (p.claim ctx).2 (by
        rw [fewer, Finset.card_erase_of_mem (by simpa using claimable)]
        have some : 0 < (Finset.univ.filter (p.Claimable ctx)).card :=
          Finset.card_pos.mpr ⟨_, by simpa using claimable⟩
        omega)
      simp only [claimable_claim ctx taken, same] at all ordered
      have id : (p.claim ctx).1 ≠ 0 := fun zero => taken (ofNat_inj (j := 0) zero)
      refine ⟨p.best ctx :: rest, ?_, .cons (fun later => ((all _).mp later).2 rfl) once,
        fun i => ?_, .cons (fun i later => (top i ((all i).mp later).1).1) ordered⟩
      · rw [if_neg id, later]
        rfl
      · rw [mem_cons, all]
        by_cases here : i = p.best ctx <;> simp [here, claimable]

/-- Reading the claim register until it reads 0 takes at most 32 reads, the last one included. -/
theorem drain_takes_each_once (p : Plic) (ctx : Fin 2) :
    ∃ taken, drain ctx 32 p = some (taken.map fun i => BitVec.ofNat 32 i.val) ∧
      p.Drained ctx taken := by
  classical
  refine drain_spec ctx 32 p ?_
  have without : Finset.univ.filter (p.Claimable ctx) ⊆ Finset.univ.erase 0 := fun i mem =>
    Finset.mem_erase.mpr ⟨(Finset.mem_filter.mp mem).2.ne_zero, Finset.mem_univ i⟩
  exact Nat.lt_succ_of_le (Finset.card_le_card without)

end Plic

end Rv64Js.Board
