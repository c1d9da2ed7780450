import Rv64Js.Virtio.Totality

/-! # Device writes and compiled code

Stores of the processor record the page they dirty. Virtio devices get RAM directly, and nothing on
that path looks at the page marks; so the driver must keep rings and buffers apart from pages with
compiled code. -/

set_option autoImplicit false

namespace Rv64Js.Virtio

open Fallible
open Rv64Js.Core (Word)
open Rv64Js.Board (Ram Layout SystemBus RAM_BASE)

section Events

variable {σ : Type} {window : Window} {W : Nat → Prop}
    {handle : σ → List Byte → Option (List Byte) × σ}

def QueueConfined (window : Window) (W : Nat → Prop) (qi : Nat) (p : Port σ) : Prop :=
  ∀ bound : qi < 2, (p.dev.queues ⟨qi, bound⟩).ready ≠ 0 → Confined window W ⟨qi, bound⟩ p

/-- What an event makes the device write lies in `W`. -/
def EventConfined (window : Window) (W : Nat → Prop) (p : Port σ) : Event → Prop
  | .write reg val => reg = 0x050 → QueueConfined window W val.toNat p
  | .poll qi => QueueConfined window W qi p
  | .reply bytes =>
    ∀ waiting backend,
      ((p9Tag bytes).bind fun tag => p.dev.backend.takePending tag) = some (waiting, backend) →
      UsedIn window W (p.dev.queues firstQueue) ∧ ∀ a, InBuffer window waiting.chain a → W a
  | .consoleInput _ => QueueConfined window W 0 p
  | .netInput _ => True

variable {p p' : Port σ}

theorem process_confined {qi fuel : Nat} {ended : Bool} (confined : QueueConfined window W qi p)
    (run : process window handle qi fuel p = .ok ended p') : Within W p.ram p'.ram := by
  unfold process at run
  by_cases bound : qi < 2
  · simp only [bound, dif_pos, get_bind] at run
    by_cases off : (p.dev.queues ⟨qi, bound⟩).ready = 0
    · rw [if_pos off] at run
      cases run
      exact .refl _
    · rw [if_neg off] at run
      exact processLoop_confined fuel (confined bound off) run
  · rw [dif_neg bound] at run
    cases run
    exact .refl _

theorem fsExternalReply_confined {bytes : List Byte} {accepted : Bool}
    (confined : EventConfined window W p (.reply bytes))
    (run : fsExternalReply window bytes p = .ok accepted p') : Within W p.ram p'.ram := by
  rw [fsExternalReply, get_bind] at run
  cases answered : (p9Tag bytes).bind fun tag => p.dev.backend.takePending tag with
  | none =>
    rw [answered] at run
    cases run
    exact .refl _
  | some answer =>
    obtain ⟨waiting, backend⟩ := answer
    rw [answered] at run
    obtain ⟨used, buffers⟩ := confined waiting backend answered
    obtain ⟨_, t, first, run⟩ := bind_eq_ok run
    cases first
    obtain ⟨placed, t, scattered, run⟩ := bind_eq_ok run
    obtain ⟨ram, wrote, rfl⟩ := onRam_eq_ok scattered
    obtain ⟨_, t, published, run⟩ := bind_eq_ok run
    obtain ⟨ram', completed, rfl⟩ := onRam_eq_ok published
    cases run
    exact .trans _ _ _ ((scatterDma_along buffers bytes).of_ok wrote)
      ((publishUsed_along used _ _).of_ok completed)

theorem Confined.consoleInput {qi : Fin 2} (confined : Confined window W qi p)
    (bytes : List Byte) : Confined window W qi { p with dev := p.dev.consoleInput bytes } := by
  obtain ⟨kind, queues⟩ := p.dev.consoleInput_kind bytes
  refine ⟨?_, ?_, ?_⟩ <;> dsimp only <;> rw [queues]
  · exact confined.used
  · exact confined.steady
  · rw [kind]
    exact confined.chains

theorem perform_confined {e : Event} {fuel : Nat} {ended : Bool}
    (confined : EventConfined window W p e)
    (run : e.perform window handle fuel p = .ok ended p') : Within W p.ram p'.ram := by
  cases e with
  | write reg val =>
    rw [Event.perform, get_bind] at run
    dsimp only at run
    cases notify : (p.dev.write reg val).2 with
    | none =>
      rw [notify] at run
      cases run
      exact .refl _
    | some qi =>
      obtain ⟨notified, rfl, same⟩ := VirtioDev.write_notify notify
      rw [notify, same] at run
      exact process_confined (confined notified) run
  | poll qi => exact process_confined confined run
  | reply bytes =>
    obtain ⟨accepted, t, replied, run⟩ := bind_eq_ok run
    cases run
    exact fsExternalReply_confined confined replied
  | consoleInput bytes =>
    obtain ⟨_, t, queued, run⟩ := bind_eq_ok run
    cases queued
    refine process_confined (p := { p with dev := p.dev.consoleInput bytes }) ?_ run
    intro bound on
    rw [(p.dev.consoleInput_kind bytes).2] at on
    exact (confined bound on).consoleInput bytes
  | netInput frame =>
    cases run
    exact .refl _

end Events

/-! ## The board -/

structure VirtBus (layout : Layout) (δ σ : Type) where
  bus : SystemBus layout δ
  virtio : List (VirtioDev σ)

def ramWindow (layout : Layout) : Window :=
  .wasm RAM_BASE layout.ramLen (Nat.le_trans (Nat.le_add_left _ _) layout.fits)

section Board

variable {layout : Layout} {δ σ : Type} (handle : σ → List Byte → Option (List Byte) × σ)

namespace VirtBus

def put (board : VirtBus layout δ σ) (i : Nat) (p : Port σ) : VirtBus layout δ σ :=
  { bus := { board.bus with ram := p.ram }, virtio := board.virtio.set i p.dev }

/-- An event of device `i`: the device is taken out, works on RAM and is put back. -/
def perform (fuel i : Nat) (e : Event) : EStateM Panic (VirtBus layout δ σ) Bool := fun board =>
  match board.virtio[i]? with
  | none => .ok true board
  | some dev =>
    match e.perform (ramWindow layout) handle fuel { dev := dev, ram := board.bus.ram } with
    | .ok ended p => .ok ended (board.put i p)
    | .error panic p => .error panic (board.put i p)

/-- Every byte changed inside a marked page leaves the page recorded. -/
def Records (board board' : VirtBus layout δ σ) : Prop :=
  ∀ a, board'.bus.ram a ≠ board.bus.ram a → board'.bus.jitPageMarked (a / 4096) = true →
    a / 4096 ∈ board'.bus.jitDirtyPages

/-- The event's writes stay apart from marked pages that are not recorded already. -/
def Apart (board : VirtBus layout δ σ) (i : Nat) (e : Event) : Prop :=
  ∀ dev, board.virtio[i]? = some dev → ∃ W : Nat → Prop,
    EventConfined (ramWindow layout) W { dev := dev, ram := board.bus.ram } e ∧
    ∀ a, W a → board.bus.jitPageMarked (a / 4096) = true → a / 4096 ∈ board.bus.jitDirtyPages

variable {handle}

theorem perform_records {board board' : VirtBus layout δ σ} {fuel i : Nat} {e : Event}
    {ended : Bool} (apart : board.Apart i e)
    (run : perform handle fuel i e board = .ok ended board') : board.Records board' := by
  unfold perform at run
  cases device : board.virtio[i]? with
  | none =>
    rw [device] at run
    cases run
    exact fun a changed => absurd rfl changed
  | some dev =>
    rw [device] at run
    obtain ⟨W, confined, recorded⟩ := apart dev device
    dsimp only at run
    cases performed :
      e.perform (ramWindow layout) handle fuel { dev := dev, ram := board.bus.ram } with
    | error panic p =>
      rw [performed] at run
      cases run
    | ok ended p =>
      rw [performed] at run
      cases run
      have within := perform_confined confined performed
      intro a changed marked
      refine recorded a ?_ marked
      by_contra outside
      exact changed (within a outside)

/-- A step of device `i`; the rest of the machine may change the bus in between. -/
inductive Step (layout : Layout) (δ : Type) where
  | device (fuel i : Nat) (e : Event)
  | rest (bus : SystemBus layout δ)

variable (handle) in
def Step.Leads (board : VirtBus layout δ σ) : Step layout δ → VirtBus layout δ σ → Prop
  | .device fuel i e, board' => ∃ ended, perform handle fuel i e board = .ok ended board'
  | .rest bus, board' => board' = { board with bus := bus }

variable (handle) in
/-- Each device step keeps apart from compiled code that has no record yet. -/
def ApartRun : VirtBus layout δ σ → List (Step layout δ) → Prop
  | _, [] => True
  | board, step :: later =>
    (∀ fuel i e, step = .device fuel i e → board.Apart i e) ∧
      ∀ board', step.Leads handle board board' → ApartRun board' later

variable (handle) in
/-- Each device step leaves what it changed in marked pages recorded. -/
def RecordedRun : VirtBus layout δ σ → List (Step layout δ) → Prop
  | _, [] => True
  | board, step :: later =>
    ∀ board', step.Leads handle board board' →
      (∀ fuel i e, step = .device fuel i e → board.Records board') ∧ RecordedRun board' later

/-- If device steps keep apart from pages with compiled code, every byte a device changes in a
marked page leaves the page recorded. -/
theorem apart_run_recorded {board : VirtBus layout δ σ} {steps : List (Step layout δ)}
    (apart : ApartRun handle board steps) : RecordedRun handle board steps := by
  induction steps generalizing board with
  | nil => trivial
  | cons step later ih =>
    obtain ⟨first, next⟩ := apart
    intro board' leads
    refine ⟨fun fuel i e same => ?_, ih (next board' leads)⟩
    subst same
    obtain ⟨ended, run⟩ := leads
    exact perform_records (first fuel i e rfl) run

end VirtBus

end Board

def twoPages : Layout := { ramPtr := 0x10000, ramLen := 8192, fits := by decide }

/-! ## A frame received beside compiled code -/

namespace OneBuffer

/-- The code is in page 1, and nothing is recorded. -/
def board : VirtBus twoPages Unit (P9.Server P9.MemFs) :=
  { bus := { ram := ram, jitPages := (· == 1), jitDirtyPages := [], devices := () }
    virtio := [port.dev] }

theorem poll_recorded : VirtBus.ApartRun (memoryServer pages) board [.device 2 0 (.poll 0)] ∧
      VirtBus.RecordedRun (memoryServer pages) board [.device 2 0 (.poll 0)] := by
  have apart : VirtBus.ApartRun (memoryServer pages) board [.device 2 0 (.poll 0)] := by
    refine ⟨fun fuel i e same => ?_, fun _ _ => trivial⟩
    cases same
    intro dev found
    cases found
    refine ⟨region, fun _ _ => port_serviceable.toConfined, fun a inside marked => ?_⟩
    have first : a / 4096 = 0 := by
      unfold region at inside
      omega
    rw [first] at marked
    exact absurd marked (by decide)
  exact ⟨apart, VirtBus.apart_run_recorded apart⟩

end OneBuffer

/-! ## A disk read into compiled code -/

namespace DiskRead

/-- A read request at `0x300` for sector 0: one byte into page 1, the status to `0x310`. -/
def cells : List (Nat × Byte) :=
  [(0x001, 0x03), (0x003, 0x80), (0x008, 16), (0x00c, 1), (0x00e, 1),
   (0x011, 0x10), (0x013, 0x80), (0x018, 1), (0x01c, 3), (0x01e, 2),
   (0x020, 0x10), (0x021, 0x03), (0x023, 0x80), (0x028, 1), (0x02c, 2), (0x102, 1)]

def board : VirtBus twoPages Unit Unit :=
  { bus :=
      { ram := fun a => (cells.lookup a).getD 0
        jitPages := fun page => page == 1
        jitDirtyPages := []
        devices := () }
    virtio :=
      [{ backend := .block [0x13]
         queues := fun _ =>
           { ready := 1, num := 8, desc := 0x80000000, avail := 0x80000100, used := 0x80000200 } }]
             }

/-- The poll ended, with a new byte in page 1, the mark still there and no record. -/
def overwritten : EStateM.Result Panic (VirtBus twoPages Unit Unit) Bool → Bool
  | .ok ended b =>
    ended && b.bus.ram 0x1000 != board.bus.ram 0x1000 && b.bus.jitPageMarked 1 &&
      b.bus.jitDirtyPages == []
  | .error _ _ => false

theorem marked_page_overwritten :
    ¬ VirtBus.RecordedRun OneBuffer.noServer board [.device 2 0 (.poll 0)] := by
  have evaluated : overwritten (VirtBus.perform OneBuffer.noServer 2 0 (.poll 0) board) = true := by
    decide +kernel
  intro recorded
  cases run : VirtBus.perform OneBuffer.noServer 2 0 (.poll 0) board with
  | error panic b =>
    rw [run] at evaluated
    cases evaluated
  | ok ended b =>
    rw [run] at evaluated
    simp only [overwritten, Bool.and_eq_true, bne_iff_ne, beq_iff_eq] at evaluated
    obtain ⟨⟨⟨-, changed⟩, marked⟩, empty⟩ := evaluated
    have record := (recorded b ⟨ended, run⟩).1 2 0 (.poll 0) rfl 0x1000 changed marked
    rw [empty] at record
    cases record

end DiskRead

end Rv64Js.Virtio
