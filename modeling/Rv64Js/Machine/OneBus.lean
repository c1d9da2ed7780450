import Rv64Js.Machine.BusesExact

/-! # The buses of the boards and the bus of the hart

The hart is modelled over `Board.SystemBus`, which has the devices as a parameter and takes a host
panic for an absent access. On a 32-bit host its RAM and its code pages are those of both boards,
and the virt board is an instance of it: an access that does not panic ends alike. -/

set_option autoImplicit false

namespace Rv64Js.Machine

open Rv64Js.Core Rv64Js.Board

section Shared

variable {σ α ε : Type} {layout : Layout}

/-- An access ends alike on a board and on the bus of the hart, unless it panics. -/
inductive Alike (R : σ → Board.SystemBus layout ε → Prop) :
    EStateM.Result Stop σ α → EStateM.Result Exception (Board.SystemBus layout ε) α → Prop
  | ok {s : σ} {t : Board.SystemBus layout ε} (a : α) (same : R s t) : Alike R (.ok a s) (.ok a t)
  | fault {s : σ} {t : Board.SystemBus layout ε} (e : Exception) (same : R s t) :
      Alike R (.error (.fault e) s) (.error e t)
  | panic {s : σ} {result : EStateM.Result Exception (Board.SystemBus layout ε) α} :
      Alike R (.error .panic s) result

/-- RAM is laid out so, and the bitmap has a word for every 64 pages. -/
structure Laid (layout : Layout) (ramPtr : Word) (ramLen : Nat) (jitPages : List (BitVec 64)) :
    Prop where
  ptr : ramPtr = layout.ramPtr
  len : ramLen = layout.ramLen
  pages : jitPages.length = (layout.ramLen / 4096 + 63) / 64

variable {ramPtr : Word} {ramLen : Nat} {jitPages : List (BitVec 64)}
    (laid : Laid layout ramPtr ramLen jitPages)
include laid

theorem Laid.ramSlice (addr : Word) (width : Width) : ramSlice 32 ramLen addr width.bytes = .panic ∨
    ramSlice 32 ramLen addr width.bytes =
      (Board.SystemBus.ramSlice layout addr width.bytes).elim .absent .bytes := by
  have short := bytes_le width
  have fits := layout.fits
  have off : asUsize 32 (addr - RAM_BASE) < 2 ^ 32 := Nat.mod_lt _ (by decide)
  have board : Board.SystemBus.ramSlice layout addr width.bytes =
      if RAM_BASE ≤ addr ∧ asUsize 32 (addr - RAM_BASE) + width.bytes ≤ ramLen then
        some (asUsize 32 (addr - RAM_BASE)) else none := by rw [laid.len]; rfl
  have room : ramLen ≤ 2 ^ 32 := by have := laid.len; omega
  rw [board]
  unfold Machine.ramSlice addUsize slice
  generalize asUsize 32 (addr - RAM_BASE) = o at off
  by_cases above : RAM_BASE ≤ addr
  · by_cases whole : o + width.bytes < 2 ^ 32
    · rw [if_pos above, Nat.mod_eq_of_lt whole]
      by_cases inside : o + width.bytes ≤ ramLen
      · rw [if_pos inside, if_pos ⟨Nat.le_add_right .., inside⟩, if_pos ⟨above, inside⟩]
        exact .inr rfl
      · rw [if_neg inside, if_neg fun both => inside both.2]
        exact .inr rfl
    · have wrapped : (o + width.bytes) % 2 ^ 32 = o + width.bytes - 2 ^ 32 := by omega
      rw [if_pos above, wrapped]
      by_cases stop : o + width.bytes - 2 ^ 32 ≤ ramLen
      · rw [if_pos stop, if_neg fun order => by omega]
        exact .inl rfl
      · rw [if_neg stop, if_neg fun both => by omega]
        exact .inr rfl
  · rw [if_neg above, if_neg fun both => above both.1]
    exact .inr rfl

variable {board : Board.SystemBus layout ε} (marks : board.jitPages = pageBit jitPages)
include marks

theorem Laid.marked (page : Nat) : board.jitPageMarked page = pageBit jitPages page := by
  unfold Board.SystemBus.jitPageMarked
  rw [marks]
  by_cases room : page < layout.jitCapacity
  · rw [decide_eq_true room, Bool.true_and]
  · have beyond : jitPages[page / 64]? = none := by
      rw [List.getElem?_eq_none_iff, laid.pages]
      unfold Layout.jitCapacity at room
      omega
    rw [pageBit, beyond, Option.elim_none, Bool.and_false]

theorem Laid.checkStore (addr : Word) : board.jitCheckStore addr =
    { board with jitDirtyPages := jitCheckStore 32 jitPages addr board.jitDirtyPages } := by
  unfold Board.SystemBus.jitCheckStore ramPage jitCheckStore
  by_cases above : RAM_BASE ≤ addr
  · rw [if_pos above]
    dsimp only
    rw [laid.marked marks]
    by_cases marked : pageBit jitPages (usize ((addr - RAM_BASE) >>> 12)) = true
    · rw [if_pos marked, if_pos ⟨above, marked⟩]
      rfl
    · rw [if_neg marked, if_neg fun both => marked both.2]
  · rw [if_neg above, if_neg fun both => above both.1]

theorem Laid.jitFastOff (va pa : Word) (store : Bool) :
    board.jitFastOff va pa store = jitFastOff 32 ramLen ramPtr jitPages va pa store := by
  unfold Board.SystemBus.jitFastOff Machine.jitFastOff
  rw [laid.marked marks, laid.ptr, laid.len]
  rfl

end Shared

/-! ## The virt board -/

/-- What the board has besides RAM and the pages with code. -/
structure VirtRest (δ : Type) where
  devices : δ

instance {δ : Type} [VirtDevices δ] : Peripherals (VirtRest δ) where
  claims _ _ := false
  read width addr rest :=
    match VirtBus.window addr with
    | none => (none, rest)
    | some (win, off) =>
      let answer := VirtDevices.read win off width rest.devices
      (answer.1.map (·.setWidth _), ⟨answer.2⟩)
  write _ addr val rest ram :=
    match VirtBus.window addr with
    | none => (false, rest, ram)
    | some (win, off) =>
      let done := VirtDevices.write win off (val.setWidth 64) rest.devices ram
      (true, ⟨done.1⟩, done.2)
  irqLines rest := ((VirtDevices.irqLines rest.devices).1, ⟨(VirtDevices.irqLines rest.devices).2⟩)

namespace VirtBus

variable {δ : Type} {layout : Layout}

def board (layout : Layout) (bus : VirtBus δ) : Board.SystemBus layout (VirtRest δ) where
  ram := bus.ram
  jitPages := pageBit bus.jitPages
  jitDirtyPages := bus.jitDirtyPages
  devices := ⟨bus.devices⟩

def Shows (bus : VirtBus δ) (board : Board.SystemBus layout (VirtRest δ)) : Prop :=
  Laid layout bus.ramPtr bus.ramLen bus.jitPages ∧ board = bus.board layout

variable [VirtDevices δ] {bus : VirtBus δ} (laid : Laid layout bus.ramPtr bus.ramLen bus.jitPages)
include laid

theorem read_alike (width : Width) (addr : Word) :
    Alike Shows (read 32 width addr bus) (Board.SystemBus.read width addr (bus.board layout)) := by
  have target : (bus.board layout).target addr width.bytes =
      Board.SystemBus.ramSlice layout addr width.bytes := rfl
  unfold VirtBus.read Board.SystemBus.read
  rcases laid.ramSlice addr width with panic | same
  · rw [panic]
    exact .panic
  · rw [same, target]
    cases Board.SystemBus.ramSlice layout addr width.bytes with
    | some off => exact .ok _ ⟨laid, rfl⟩
    | none =>
      dsimp only [Option.elim_none, Peripherals.read, mmioRead]
      cases window addr with
      | none => exact .fault _ ⟨laid, rfl⟩
      | some win =>
        dsimp only [board]
        cases VirtDevices.read win.1 win.2 width bus.devices with
        | mk answer devices => cases answer with
          | none => exact .fault _ ⟨laid, rfl⟩
          | some v => exact .ok _ ⟨laid, rfl⟩

theorem write_alike (width : Width) (addr : Word) (val : BitVec width.bits) :
    Alike Shows (write 32 width addr val bus)
      (Board.SystemBus.write width addr val (bus.board layout)) := by
  have checked : (bus.board layout).jitCheckStore addr = (bus.checkStore 32 addr).board layout :=
    laid.checkStore rfl addr
  have target : ((bus.checkStore 32 addr).board layout).target addr width.bytes =
    Board.SystemBus.ramSlice layout addr width.bytes := rfl
  have len : (bus.checkStore 32 addr).ramLen = bus.ramLen := rfl
  unfold VirtBus.write Board.SystemBus.write
  dsimp only
  rw [checked, target, len]
  rcases laid.ramSlice addr width with panic | same
  · rw [panic]
    exact .panic
  · rw [same]
    cases Board.SystemBus.ramSlice layout addr width.bytes with
    | some off => exact .ok _ ⟨laid, rfl⟩
    | none =>
      dsimp only [Option.elim_none, Peripherals.write, mmioWrite]
      cases window addr with
      | none => exact .fault _ ⟨laid, rfl⟩
      | some win => exact .ok _ ⟨laid, rfl⟩

end VirtBus

end Rv64Js.Machine
