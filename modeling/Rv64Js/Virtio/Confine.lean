import Rv64Js.Lib.Keyed
import Rv64Js.Virtio.Device

/-! # Where a virtio device writes

A device writes the used ring of its queue and the device-writable buffers of the chains it takes,
all guest-controlled, in the RAM it reads. `Confined W qi p` names a region `W` that holds what the
device will write, whatever `W` holds meanwhile; then a whole run of the loop stays in `W`. -/

set_option autoImplicit false

namespace Rv64Js.Virtio

open Fallible Keyed List
open Rv64Js.Core (Word)
open Rv64Js.Board (Ram)

def Within (W : Nat → Prop) (ram ram' : Ram) : Prop := ∀ a, ¬ W a → ram' a = ram a

namespace Within

variable {W : Nat → Prop}

theorem refl (ram : Ram) : Within W ram ram := fun _ _ => rfl

theorem trans (a b c : Ram) (first : Within W a b) (second : Within W b c) : Within W a c := by
  intro x outside
  rw [second x outside, first x outside]

theorem overwrite (ram : Ram) {off : Nat} {bytes : List Byte}
    (inside : ∀ a, off ≤ a → a < off + bytes.length → W a) :
    Within W ram (ram.overwrite off bytes) := by
  intro a outside
  unfold Ram.overwrite
  rw [if_neg]
  rintro ⟨low, high⟩
  exact outside (inside a low high)

theorem bytes {ram ram' : Ram} (within : Within W ram ram') {off n : Nat}
    (outside : ∀ a, off ≤ a → a < off + n → ¬ W a) : ram'.bytes off n = ram.bytes off n := by
  unfold Ram.bytes
  apply map_congr_left
  intro i member
  rw [mem_range] at member
  exact within _ (outside _ (Nat.le_add_right _ _) (Nat.add_lt_add_left member _))

end Within

/-- `m` writes in `W` only. -/
def Writes {α : Type} (W : Nat → Prop) (m : Dma α) : Prop := Along (Within W) m

namespace Writes

variable {W : Nat → Prop} {α β : Type} {m n : Dma α} {k : α → Dma β}

theorem pure (a : α) : Writes W (Pure.pure a : Dma α) := Along.pure Within.refl a

theorem throw (e : Panic) : Writes W (throw e : Dma α) := Along.throw Within.refl e

theorem get : Writes W (MonadState.get : Dma Ram) := Along.get Within.refl

theorem bind (first : Writes W m) (rest : ∀ a, Writes W (k a)) : Writes W (m >>= k) :=
  Along.bind Within.trans first rest

theorem ite {p : Prop} [Decidable p] (yes : Writes W m) (no : Writes W n) :
    Writes W (if p then m else n) :=
  Along.ite yes no

end Writes

/-- The bytes from `off` to `off + n` lie in `W`. -/
def Spans (W : Nat → Prop) (off n : Nat) : Prop := ∀ a, off ≤ a → a < off + n → W a

theorem Spans.shorter {W : Nat → Prop} {off n m : Nat} (spans : Spans W off n) (short : m ≤ n) :
    Spans W off m := by
  intro a low high
  exact spans a low (by omega)

@[simp] theorem leBytes_length (n : Nat) {w : Nat} (v : BitVec w) : (leBytes n v).length = n := by
  simp [leBytes]

section Primitive

variable {W : Nat → Prop} (window : Window)

theorem slice_along (off n : Nat) : Writes W (slice window off n) := by
  intro ram
  unfold slice
  split <;> exact .refl ram

theorem copyTo_along {off : Nat} {bytes : List Byte} (spans : Spans W off bytes.length) :
    Writes W (copyTo window off bytes) := by
  intro ram
  unfold copyTo
  split
  · exact .overwrite ram spans
  · exact .refl ram

theorem read16_along (addr : Word) : Writes W (read16 window addr) :=
  .map _ (slice_along window _ _)

theorem write16_along {addr : Word} (spans : Spans W (offset window addr) 2) (v : BitVec 16) :
    Writes W (write16 window addr v) :=
  copyTo_along window (by rwa [leBytes_length])

theorem write32_along {addr : Word} (spans : Spans W (offset window addr) 4) (v : BitVec 32) :
    Writes W (write32 window addr v) :=
  copyTo_along window (by rwa [leBytes_length])

end Primitive

/-- The used ring of a queue lies in `W`. -/
structure UsedIn (window : Window) (W : Nat → Prop) (q : Queue) : Prop where
  index : Spans W (offset window (q.used + 2)) 2
  slot : ∀ slot : Word, slot.toNat < q.num.toNat →
    Spans W (offset window (q.used + 4 + slot * 8)) 4 ∧
    Spans W (offset window (q.used + 4 + slot * 8 + 4)) 4

theorem slot_lt {num : BitVec 32} (sized : num ≠ 0) (x : BitVec 16) :
    (x.setWidth 64 % num.setWidth 64).toNat < num.toNat := by
  have positive : 0 < num.toNat := by
    rcases Nat.eq_zero_or_pos num.toNat with zero | positive
    · exact absurd (BitVec.eq_of_toNat_eq zero) sized
    · exact positive
  have same : (num.setWidth 64).toNat = num.toNat := by
    rw [BitVec.toNat_setWidth]
    exact Nat.mod_eq_of_lt (by omega)
  rw [BitVec.toNat_umod, same]
  exact Nat.mod_lt _ positive

theorem remainder_ok {x : BitVec 16} {num : BitVec 32} (sized : num ≠ 0) (ram : Ram) :
    ∃ slot : Word, remainder x num ram = .ok slot ram ∧ slot.toNat < num.toNat :=
  ⟨_, by rw [remainder, if_neg sized]; rfl, slot_lt sized x⟩

theorem remainder_steady (x : BitVec 16) (num : BitVec 32) (ram : Ram) :
    remainder x num ram = .ok (x.setWidth 64 % num.setWidth 64) ram ∨
    ∃ e, remainder x num ram = .error e ram := by
  unfold remainder
  split
  · exact .inr ⟨_, rfl⟩
  · exact .inl rfl

theorem remainder_zero {x : BitVec 16} {num : BitVec 32} (zero : num = 0) (ram : Ram) :
    remainder x num ram = .error .divideByZero ram := by
  rw [remainder, if_pos zero]
  rfl

section Confinement

variable {σ : Type} {W : Nat → Prop} {window : Window}

variable {q : Queue}

theorem publishUsed_along (used : UsedIn window W q) (head : BitVec 16)
    (written : BitVec 32) : Writes W (publishUsed window q head written) := by
  refine .bind (read16_along window _) fun usedIdx => ?_
  by_cases zero : q.num = 0
  · intro ram
    rw [bind_error _ (remainder_zero zero ram)]
    exact .refl ram
  · intro ram
    obtain ⟨slot, run, small⟩ := remainder_ok (x := usedIdx) zero ram
    rw [bind_ok _ run]
    have writes : Writes W _ :=
      .bind (write32_along window (used.slot slot small).1 (head.setWidth 32)) fun _ =>
      .bind (write32_along window (used.slot slot small).2 written) fun _ =>
        write16_along window used.index (usedIdx + 1)
    exact writes ram

/-- A device-writable buffer of the chain holds the byte. -/
def InBuffer (window : Window) (chain : List Descriptor) (a : Nat) : Prop :=
  ∃ d ∈ chain, d.writable = true ∧ offset window d.addr ≤ a ∧ a < offset window d.addr + d.len.toNat

variable {d : Descriptor}

theorem InBuffer.cons {rest : List Descriptor} {a : Nat}
    (inside : InBuffer window rest a) : InBuffer window (d :: rest) a := by
  obtain ⟨e, member, rest⟩ := inside
  exact ⟨e, mem_cons_of_mem _ member, rest⟩

theorem InBuffer.head {rest : List Descriptor} (writable : d.writable = true)
    (buffers : ∀ a, InBuffer window (d :: rest) a → W a) :
    Spans W (offset window d.addr) d.len.toNat :=
  fun a low high => buffers a ⟨d, mem_cons_self, writable, low, high⟩

variable {addr : Word}

theorem guestSlice_some {n off : Nat} (found : guestSlice window addr n = some off) :
    off = offset window addr ∧ off + n ≤ window.len := by
  unfold guestSlice at found
  split at found
  · cases found
    exact ⟨rfl, by omega⟩
  · cases found

theorem scatter_within : ∀ (chain : List Descriptor) (bytes : List Byte) (ram : Ram),
    (∀ a, InBuffer window chain a → W a) → Within W ram (scatter window chain bytes ram).2
  | [], _, ram, _ => .refl ram
  | d :: rest, bytes, ram, buffers => by
    have later : ∀ a, InBuffer window rest a → W a := fun a inside => buffers a inside.cons
    unfold scatter
    split
    · exact scatter_within rest bytes ram later
    · rename_i taken
      have writable : d.writable = true := by simp_all
      dsimp only
      split
      · exact .refl ram
      · rename_i off found
        obtain ⟨rfl, -⟩ := guestSlice_some found
        refine .trans _ _ _ (.overwrite ram ?_) (scatter_within rest _ _ later)
        refine (InBuffer.head writable buffers).shorter ?_
        rw [length_take]
        omega

variable {chain : List Descriptor}

theorem scatterDma_along (buffers : ∀ a, InBuffer window chain a → W a)
    (bytes : List Byte) : Writes W (scatterDma window chain bytes) :=
  fun ram => scatter_within chain bytes ram buffers

theorem consoleRx_along : ∀ (chain : List Descriptor) (rx : List Byte) (written : BitVec 32),
    (∀ a, InBuffer window chain a → W a) → Writes W (consoleRx window chain rx written)
  | [], _, _, _ => .pure _
  | d :: rest, rx, written, buffers => by
    have later : ∀ a, InBuffer window rest a → W a := fun a inside => buffers a inside.cons
    unfold consoleRx
    split
    · exact consoleRx_along rest rx written later
    · rename_i taken
      have writable : d.writable = true := by simp_all
      refine .bind (copyTo_along window ?_) fun _ =>
        .ite (.pure _) (consoleRx_along rest _ _ later)
      refine (InBuffer.head writable buffers).shorter ?_
      rw [length_take]
      omega

theorem consoleTx_along :
    ∀ (chain : List Descriptor) (tx : List Byte), Writes W (consoleTx window chain tx)
  | [], _ => .pure _
  | d :: rest, tx => by
    unfold consoleTx
    exact .ite (consoleTx_along rest tx)
      (.bind (slice_along window _ _) fun _ => consoleTx_along rest _)

theorem diskRange_along (disk : List Byte) (pos stop : Nat) : Writes W (diskRange disk pos stop) :=
  .ite (.pure _) (.throw _)

theorem blockBuffer_along (reqType : Nat)
    (buffer : d.writable = true → Spans W (offset window d.addr) d.len.toNat) (s : BlockState) :
    Writes W (blockBuffer window reqType d s) := by
  unfold blockBuffer
  dsimp only
  split
  · rename_i reading
    refine .ite (.bind (diskRange_along _ _ _) fun _ =>
      .bind (copyTo_along window ?_) fun _ => .pure _)
      (.pure _)
    refine (buffer reading.2).shorter ?_
    rw [length_take]
    omega
  · refine .ite (.ite ?_ (.pure _)) (.pure _)
    exact .bind (diskRange_along _ _ _) fun _ =>
      .bind (slice_along window _ _) fun _ => .pure _

theorem blockData_along (reqType : Nat) : ∀ (chain : List Descriptor) (s : BlockState),
    (∀ d ∈ chain, d.writable = true → Spans W (offset window d.addr) d.len.toNat) →
    Writes W (blockData window reqType chain s)
  | [], s, _ => .pure s
  | d :: rest, s, buffers => by
    unfold blockData
    exact .bind (blockBuffer_along reqType (buffers d mem_cons_self) s)
      fun s => blockData_along reqType rest s fun e member =>
        buffers e (mem_cons_of_mem _ member)

inductive Kind where
  | console
  | block
  | fs
  | fsExternal
  | net
  deriving DecidableEq

def Backend.kind : Backend σ → Kind
  | .console _ _ => .console
  | .block _ => .block
  | .fs _ => .fs
  | .fsExternal _ _ => .fsExternal
  | .net _ _ => .net

/-- A byte that servicing a chain may write. -/
def Written (window : Window) (kind : Kind) (qi : Fin 2) (chain : List Descriptor) (a : Nat) :
    Prop :=
  match kind with
  | .console | .net => qi = firstQueue ∧ InBuffer window chain a
  -- the status byte is written whatever the last descriptor's flags say
  | .block =>
    InBuffer window chain a ∨ ∃ d, chain.getLast? = some d ∧ a = offset window d.addr
  | .fs => InBuffer window chain a
  | .fsExternal => False

theorem serviceBlock_along (disk : List Byte) (buffers : ∀ a, InBuffer window chain a → W a)
    (status : ∀ d, chain.getLast? = some d → W (offset window d.addr)) :
    Writes W (serviceBlock window disk chain) := by
  match chain with
  | [] => exact .pure _
  | [hdr] =>
    exact .bind (slice_along window _ _) fun _ =>
      .bind (slice_along window _ _) fun _ => .throw _
  | hdr :: d :: rest =>
    refine .bind (slice_along window _ _) fun _ =>
      .bind (slice_along window _ _) fun _ =>
      .bind (blockData_along _ _ _ ?_) fun s =>
      .bind (copyTo_along window ?_) fun _ => .pure _
    · intro e member writable a low high
      exact buffers a ⟨e, mem_cons_of_mem _ (mem_of_mem_dropLast member), writable, low, high⟩
    · intro a low high
      have last := status _ (getLast?_eq_getLast_of_ne_nil (cons_ne_nil hdr (d :: rest)))
      rw [getLast_cons (cons_ne_nil d rest)] at last
      rw [length_singleton] at high
      obtain rfl : a = _ := Nat.le_antisymm (Nat.lt_succ_iff.mp high) low
      exact last

theorem serviceConsole_along (qi : Fin 2) (rxBuf txOut : List Byte)
    (confined : ∀ a, Written window .console qi chain a → W a) :
    Writes W (serviceConsole (σ := σ) window qi chain rxBuf txOut) := by
  unfold serviceConsole
  split
  · rename_i first
    refine .ite (.pure _) ?_
    exact .bind
      (consoleRx_along chain rxBuf 0 fun a inside => confined a ⟨Fin.ext first, inside⟩)
      fun _ => .pure _
  · exact .bind (consoleTx_along chain txOut) fun _ => .pure _

theorem serviceFs_along (handle : σ → List Byte → Option (List Byte) × σ) (srv : σ)
    (confined : ∀ a, InBuffer window chain a → W a) :
    Writes W (serviceFs window handle chain srv) := by
  refine .bind (.get) fun ram => ?_
  split
  · exact .pure _
  · exact .pure _
  · split
    · exact .throw _
    · exact .bind (scatterDma_along confined _) fun _ => .pure _

theorem serviceFsExternal_along (head : BitVec 16) (chain : List Descriptor)
    (requests : List (List Byte)) (pending : BitVec 16 → Option ExternalP9Pending) :
    Writes W (serviceFsExternal (σ := σ) window head chain requests pending) := by
  refine .bind (.get) fun ram => ?_
  split
  · exact .pure _
  · exact .ite (.pure _) (.pure _)

theorem netRx_along (confined : ∀ a, InBuffer window chain a → W a)
    (outbox inbox : List (List Byte)) : Writes W (netRx (σ := σ) window chain outbox inbox) := by
  cases inbox with
  | nil => exact .pure _
  | cons frame inbox =>
    exact .ite (.pure _)
      (.bind (scatterDma_along confined _) fun _ => .pure _)

theorem netTx_along (chain : List Descriptor) (inbox outbox : List (List Byte)) :
    Writes W (netTx (σ := σ) window chain inbox outbox) := by
  refine .bind (.get) fun ram => ?_
  split
  · exact .pure _
  · exact .ite (.pure _) (.pure _)

theorem service_along (handle : σ → List Byte → Option (List Byte) × σ) (qi : Fin 2)
    (head : BitVec 16) (backend : Backend σ)
    (confined : ∀ a, Written window backend.kind qi chain a → W a) :
    Writes W (service window handle qi head chain backend) := by
  cases backend with
  | console rxBuf txOut => exact serviceConsole_along qi rxBuf txOut confined
  | block disk =>
    exact .bind
      (serviceBlock_along disk (fun a inside => confined a (.inl inside))
        fun d last => confined _ (.inr ⟨d, last, rfl⟩))
      fun _ => .pure _
  | fs srv => exact serviceFs_along handle srv confined
  | fsExternal requests pending => exact serviceFsExternal_along head chain requests pending
  | net inbox outbox =>
    by_cases first : qi = firstQueue
    · subst first
      exact netRx_along (fun a inside => confined a ⟨rfl, inside⟩) outbox inbox
    · have second : (qi : Nat) ≠ 0 := fun zero => first (Fin.ext zero)
      unfold service
      dsimp only
      rw [if_neg second]
      exact netTx_along chain inbox outbox

/-! ## One turn -/

def half (window : Window) (ram : Ram) (addr : Word) : BitVec 16 :=
  BitVec.ofNat 16 (leValue (ram.bytes (offset window addr) 2))

def availIndex (window : Window) (q : Queue) (ram : Ram) :
    BitVec 16 := half window ram (q.avail + 2)

def availSlot (q : Queue) (i : BitVec 16) : Word := i.setWidth 64 % q.num.setWidth 64

def availHead (window : Window) (q : Queue) (i : BitVec 16) (ram : Ram) : BitVec 16 :=
  half window ram (q.avail + 4 + availSlot q i * 2)

/-- Position `i` has been published and not yet taken. -/
def Pending (window : Window) (q : Queue) (ram : Ram) (i : BitVec 16) : Prop :=
  i - q.lastAvailIdx < availIndex window q ram - q.lastAvailIdx

/-- What the device will write on this queue lies in `W`, and nothing it writes there
publishes a chain or turns a published one into one that leaves `W`. -/
structure Confined (window : Window) (W : Nat → Prop) (qi : Fin 2) (p : Port σ) : Prop where
  used : UsedIn window W (p.dev.queues qi)
  steady : ∀ ram, Within W p.ram ram →
    availIndex window (p.dev.queues qi) ram = availIndex window (p.dev.queues qi) p.ram
  chains : ∀ ram, Within W p.ram ram → ∀ i, Pending window (p.dev.queues qi) p.ram i →
    ∀ chain, descriptorChain window (p.dev.queues qi)
        (availHead window (p.dev.queues qi) i ram) ram = some chain →
      ∀ a, Written window p.dev.backend.kind qi chain a → W a

variable {ram : Ram}

theorem read16_ok (inside : offset window addr + 2 ≤ window.len) :
    read16 window addr ram = .ok (half window ram addr) ram := by
  have read : slice window (offset window addr) 2 ram =
      .ok (ram.bytes (offset window addr) 2) ram := by
    rw [slice, if_pos inside]
  exact bind_ok _ read

variable (window ram) in
theorem read16_steady (addr : Word) :
    read16 window addr ram = .ok (half window ram addr) ram ∨
    ∃ e, read16 window addr ram = .error e ram := by
  by_cases inside : offset window addr + 2 ≤ window.len
  · exact .inl (read16_ok inside)
  · have failed : slice window (offset window addr) 2 ram = .error .outOfBounds ram := by
      rw [slice, if_neg inside]
    exact .inr ⟨_, bind_error _ failed⟩

variable {p p' : Port σ}

theorem onRam_eq_ok {α : Type} {op : Dma α} {a : α}
    (run : onRam op p = .ok a p') : ∃ ram, op p.ram = .ok a ram ∧ p' = { p with ram := ram } :=
  zoom_eq_ok run

theorem onRam_steady {α : Type} {op : Dma α} {a : α}
    (steady : op p.ram = .ok a p.ram ∨ ∃ e, op p.ram = .error e p.ram) :
    onRam op p = .ok a p ∨ ∃ e, onRam op p = .error e p :=
  steady.imp zoom_ok fun ⟨e, failed⟩ => ⟨e, zoom_error failed⟩

variable {handle : σ → List Byte → Option (List Byte) × σ} {qi : Fin 2} {more : Bool}

theorem turn_idle (index : offset window ((p.dev.queues qi).avail + 2) + 2 ≤ window.len)
    (none : (p.dev.queues qi).lastAvailIdx = availIndex window (p.dev.queues qi) p.ram) :
    turn window handle qi p = .ok false p := by
  have read : onRam (read16 window ((p.dev.queues qi).avail + 2)) p =
      .ok (availIndex window (p.dev.queues qi) p.ram) p := zoom_ok (read16_ok index)
  rw [turn, get_bind, bind_ok _ read, if_pos none]
  rfl

variable (handle) in
theorem turn_serve (index : offset window ((p.dev.queues qi).avail + 2) + 2 ≤ window.len)
    (sized : (p.dev.queues qi).num ≠ 0) (slot : offset window ((p.dev.queues qi).avail + 4 +
      availSlot (p.dev.queues qi) (p.dev.queues qi).lastAvailIdx * 2) + 2 ≤ window.len)
    (some : (p.dev.queues qi).lastAvailIdx ≠ availIndex window (p.dev.queues qi) p.ram) :
    turn window handle qi p = serve window handle qi (p.dev.queues qi)
      (availHead window (p.dev.queues qi) (p.dev.queues qi).lastAvailIdx p.ram) p := by
  have read : onRam (read16 window ((p.dev.queues qi).avail + 2)) p =
      .ok (availIndex window (p.dev.queues qi) p.ram) p := zoom_ok (read16_ok index)
  have divided : onRam (remainder (p.dev.queues qi).lastAvailIdx (p.dev.queues qi).num) p =
      .ok (availSlot (p.dev.queues qi) (p.dev.queues qi).lastAvailIdx) p :=
    zoom_ok (by rw [remainder, if_neg sized]; rfl)
  have head : onRam (read16 window ((p.dev.queues qi).avail + 4 +
        availSlot (p.dev.queues qi) (p.dev.queues qi).lastAvailIdx * 2)) p =
      .ok (availHead window (p.dev.queues qi) (p.dev.queues qi).lastAvailIdx p.ram) p :=
    zoom_ok (read16_ok slot)
  rw [turn, get_bind, bind_ok _ read, if_neg some, bind_ok _ divided, bind_ok _ head]

/-- A turn goes no further than its reads, or serves the next position. -/
theorem turn_cases (window : Window) (handle : σ → List Byte → Option (List Byte) × σ) (qi : Fin 2)
    (p : Port σ) :
    turn window handle qi p = .ok false p ∨ (∃ e, turn window handle qi p = .error e p) ∨
    ((p.dev.queues qi).lastAvailIdx ≠ availIndex window (p.dev.queues qi) p.ram ∧
      turn window handle qi p = serve window handle qi (p.dev.queues qi)
        (availHead window (p.dev.queues qi) (p.dev.queues qi).lastAvailIdx p.ram) p) := by
  rw [turn, get_bind]
  rcases onRam_steady (read16_steady window p.ram ((p.dev.queues qi).avail + 2)) with read
    | ⟨e, failed⟩
  · rw [bind_ok _ read]
    by_cases same : (p.dev.queues qi).lastAvailIdx = half window p.ram ((p.dev.queues qi).avail + 2)
    · rw [if_pos same]
      exact .inl rfl
    · rw [if_neg same]
      rcases onRam_steady
        (remainder_steady (p.dev.queues qi).lastAvailIdx (p.dev.queues qi).num p.ram) with
        divided | ⟨e, failed⟩
      · rw [bind_ok _ divided]
        rcases onRam_steady (read16_steady window p.ram ((p.dev.queues qi).avail + 4 +
          availSlot (p.dev.queues qi) (p.dev.queues qi).lastAvailIdx * 2)) with head | ⟨e, failed⟩
        · exact .inr (.inr ⟨same, bind_ok _ head⟩)
        · exact .inr (.inl ⟨e, bind_error _ failed⟩)
      · exact .inr (.inl ⟨e, bind_error _ failed⟩)
  · exact .inr (.inl ⟨e, bind_error _ failed⟩)

def Queue.took (q : Queue) : Queue := { q with lastAvailIdx := q.lastAvailIdx + 1 }

@[simp] theorem advance_queue (dev : VirtioDev σ) (qi : Fin 2) :
    (dev.advance qi).queues qi = (dev.queues qi).took := by
  simp [VirtioDev.advance, VirtioDev.setQueue, Queue.took]

def tags : List (BitVec 16) := (List.range (2 ^ 16)).map (BitVec.ofNat 16)

theorem tags_nodup : tags.Nodup := by
  refine (nodup_map_iff_inj_on nodup_range).mpr fun a first b second same => ?_
  rw [mem_range] at first second
  have values := congrArg BitVec.toNat same
  rwa
    [BitVec.toNat_ofNat, BitVec.toNat_ofNat, Nat.mod_eq_of_lt first,
      Nat.mod_eq_of_lt second] at values

theorem mem_tags (tag : BitVec 16) : tag ∈ tags :=
  mem_map.mpr ⟨tag.toNat, mem_range.mpr tag.isLt, by rw [BitVec.ofNat_toNat, BitVec.setWidth_eq]⟩

def Backend.waiting : Backend σ → List ExternalP9Pending
  | .fsExternal _ pending => rows tags pending
  | _ => []

/-- Only a deferred chain is kept. -/
def Retained (head : BitVec 16) (chain : List Descriptor) (backend : Backend σ)
    (r : Backend σ × ServiceResult) : Prop :=
  match r.2 with
  | .deferred =>
    backend.kind = .fsExternal ∧
    r.1.waiting.Perm ({ head := head, chain := chain } :: backend.waiting)
  | _ => r.1.waiting = backend.waiting

/-- A backend stays of its kind, and only a deferred chain is kept. -/
theorem service_retained (handle : σ → List Byte → Option (List Byte) × σ) (qi : Nat)
    (head : BitVec 16) (chain : List Descriptor) (backend : Backend σ) :
    Returns (fun r => r.1.kind = backend.kind ∧ Retained head chain backend r)
      (service window handle qi head chain backend) := by
  cases backend with
  | console rxBuf txOut =>
    exact .ite (.ite (.pure ⟨rfl, rfl⟩) (.bind fun _ => .pure ⟨rfl, rfl⟩))
      (.bind fun _ => .pure ⟨rfl, rfl⟩)
  | block disk => exact .bind fun _ => .pure ⟨rfl, rfl⟩
  | fs srv =>
    refine .bind fun ram => ?_
    split
    · exact .pure ⟨rfl, rfl⟩
    · exact .pure ⟨rfl, rfl⟩
    · split
      · exact .throw _
      · exact .bind fun _ => .pure ⟨rfl, rfl⟩
  | fsExternal requests pending =>
    refine .bind fun ram => ?_
    split
    · exact .pure ⟨rfl, rfl⟩
    · rename_i bytes tag _
      by_cases busy : (pending tag).isSome
      · rw [if_pos busy]
        exact .pure ⟨rfl, rfl⟩
      · rw [if_neg busy]
        have free : pending tag = none := Option.not_isSome_iff_eq_none.mp busy
        exact .pure ⟨rfl, rfl, rows_insert tags_nodup (mem_tags tag) free _⟩
  | net inbox outbox =>
    refine .ite ?_ (.bind fun ram => ?_)
    · cases inbox with
      | nil => exact .pure ⟨rfl, rfl⟩
      | cons frame inbox => exact .ite (.pure ⟨rfl, rfl⟩) (.bind fun _ => .pure ⟨rfl, rfl⟩)
    · split
      · exact .pure ⟨rfl, rfl⟩
      · exact .ite (.pure ⟨rfl, rfl⟩) (.pure ⟨rfl, rfl⟩)

/-- What a turn leaves of the device: its kind, its rings, and one position more taken if
it goes on. -/
structure Took (qi : Fin 2) (p p' : Port σ) (more : Bool) : Prop where
  kind : p'.dev.backend.kind = p.dev.backend.kind
  queue : more = true → p'.dev.queues qi = (p.dev.queues qi).took

theorem complete_eq_ok {head : BitVec 16} {written : BitVec 32}
    (run : complete window qi q head written p = .ok more p') :
    Took qi p p' more ∧ ∃ ram, publishUsed window q head written p.ram = .ok () ram ∧
    p'.ram = ram := by
  obtain ⟨_, t, published, run⟩ := bind_eq_ok run
  obtain ⟨ram, wrote, rfl⟩ := onRam_eq_ok published
  cases run
  exact ⟨⟨rfl, fun _ => advance_queue p.dev qi⟩, ram, wrote, rfl⟩

theorem serve_confined {head : BitVec 16} (used : UsedIn window W (p.dev.queues qi))
    (chains : ∀ chain, descriptorChain window (p.dev.queues qi) head p.ram = some chain →
      ∀ a, Written window p.dev.backend.kind qi chain a → W a)
    (run : serve window handle qi (p.dev.queues qi) head p = .ok more p') :
    Within W p.ram p'.ram ∧ Took qi p p' more := by
  rw [serve, get_bind] at run
  cases walked : descriptorChain window (p.dev.queues qi) head p.ram with
  | none =>
    rw [walked] at run
    obtain ⟨took, ram, published, rfl⟩ := complete_eq_ok run
    exact ⟨(publishUsed_along used head 0).of_ok published, took⟩
  | some chain =>
    rw [walked] at run
    dsimp only at run
    rw [get_bind] at run
    obtain ⟨⟨backend, result⟩, t, serviced, run⟩ := bind_eq_ok run
    obtain ⟨ram, service, rfl⟩ := onRam_eq_ok serviced
    have kind := (service_retained handle qi head chain p.dev.backend p.ram _ _ service).1
    have within := (service_along handle qi head p.dev.backend (chains chain walked)).of_ok service
    cases result with
    | complete written =>
      obtain ⟨took, ram', published, rfl⟩ := complete_eq_ok run
      exact ⟨.trans _ _ _ within ((publishUsed_along used head written).of_ok published),
        ⟨took.kind.trans kind, took.queue⟩⟩
    | deferred =>
      cases run
      exact ⟨within, ⟨kind, fun _ => advance_queue _ qi⟩⟩
    | blocked =>
      cases run
      exact ⟨within, ⟨kind, nofun⟩⟩

theorem pending_took {i : BitVec 16} (some : q.lastAvailIdx ≠ availIndex window q ram)
    (pending : Pending window q.took ram i) : Pending window q ram i := by
  have index : availIndex window q.took ram = availIndex window q ram := rfl
  unfold Pending at pending ⊢
  rw [index] at pending
  have last : q.took.lastAvailIdx = q.lastAvailIdx + 1 := rfl
  rw [last] at pending
  revert pending some
  generalize availIndex window q ram = j, q.lastAvailIdx = l
  intro differ pending
  bv_omega

theorem Confined.took (confined : Confined window W qi p)
    (some : (p.dev.queues qi).lastAvailIdx ≠ availIndex window (p.dev.queues qi) p.ram)
    (within : Within W p.ram p'.ram) (took : Took qi p p' true) : Confined window W qi p' := by
  have index := confined.steady p'.ram within
  refine ⟨?_, fun ram changed => ?_, fun ram changed i pending chain walked a written => ?_⟩
  · rw [took.queue rfl]
    exact ⟨confined.used.index, confined.used.slot⟩
  · rw [took.queue rfl]
    exact (confined.steady ram (.trans _ _ _ within changed)).trans index.symm
  · rw [took.queue rfl] at pending walked
    rw [took.kind] at written
    refine confined.chains ram (.trans _ _ _ within changed) i ?_ chain walked a written
    have before : Pending window (p.dev.queues qi) p'.ram i :=
      pending_took (by rwa [index]) pending
    unfold Pending at before ⊢
    rwa [index] at before

theorem turn_confined (confined : Confined window W qi p)
    (run : turn window handle qi p = .ok more p') :
    Within W p.ram p'.ram ∧ (more = true → Confined window W qi p') := by
  rcases turn_cases window handle qi p with idle | ⟨e, failed⟩ | ⟨differ, served⟩
  · rw [idle] at run
    cases run
    exact ⟨.refl _, nofun⟩
  · rw [failed] at run
    cases run
  · rw [served] at run
    have pending : Pending window (p.dev.queues qi) p.ram (p.dev.queues qi).lastAvailIdx := by
      unfold Pending
      bv_omega
    obtain ⟨within, took⟩ := serve_confined confined.used
      (confined.chains p.ram (.refl _) _ pending) run
    refine ⟨within, fun goes => ?_⟩
    subst goes
    exact confined.took differ within took

theorem processLoop_confined :
    ∀ (fuel : Nat) {p p' : Port σ} {ended : Bool}, Confined window W qi p →
      processLoop window handle qi fuel p = .ok ended p' → Within W p.ram p'.ram
  | 0, p, p', _, _, run => by
    cases run
    exact .refl _
  | fuel + 1, p, p', _, confined, run => by
    obtain ⟨more, t, first, rest⟩ := bind_eq_ok run
    obtain ⟨within, next⟩ := turn_confined confined first
    cases more with
    | false =>
      cases rest
      exact within
    | true => exact .trans _ _ _ within (processLoop_confined fuel (next rfl) rest)

/-! ## Registers and input -/

theorem VirtioDev.consoleInput_kind (dev : VirtioDev σ) (bytes : List Byte) :
    (dev.consoleInput bytes).backend.kind = dev.backend.kind ∧
    (dev.consoleInput bytes).queues = dev.queues := by
  unfold VirtioDev.consoleInput
  split
  · rename_i rxBuf txOut backend
    exact ⟨by rw [backend]; rfl, rfl⟩
  · exact ⟨rfl, rfl⟩

theorem VirtioDev.write_notify {dev : VirtioDev σ} {reg : Word} {val qi : BitVec 32}
    (notify : (dev.write reg val).2 = some qi) :
    reg = 0x050 ∧ qi = val ∧ (dev.write reg val).1 = dev := by
  unfold VirtioDev.write at notify ⊢
  split at notify
  · rename_i notified
    rw [if_pos notified]
    exact ⟨notified, (Option.some.inj notify).symm, rfl⟩
  · cases notify

end Confinement

end Rv64Js.Virtio
