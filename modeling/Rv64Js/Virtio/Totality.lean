import Rv64Js.P9.Panics
import Rv64Js.Virtio.Confine

/-! # Queue processing ends without a panic

The transport indexes RAM directly and divides by the queue size, and the 9P server resizes files
to what it is told. Every event that finds its queue `Serviceable` ends; a queue that is merely made
ready panics. -/

set_option autoImplicit false

namespace Rv64Js.Virtio

open Fallible BitVec List
open Rv64Js.Core (Word)
open Rv64Js.Board (Ram)

section Finishing

variable {σ : Type} {window : Window}

variable {ram : Ram}

theorem slice_ok {off n : Nat} (inside : off + n ≤ window.len) :
    slice window off n ram = .ok (ram.bytes off n) ram := by
  rw [slice, if_pos inside]

theorem copyTo_ok {off : Nat} {bytes : List Byte} (inside : off + bytes.length ≤ window.len) :
    copyTo window off bytes ram = .ok () (ram.overwrite off bytes) := by
  rw [copyTo, if_pos inside]

theorem write16_ok {addr : Word} (inside : offset window addr + 2 ≤ window.len) (v : BitVec 16) :
    write16 window addr v ram = .ok () (ram.overwrite (offset window addr) (leBytes 2 v)) :=
  copyTo_ok (by rwa [leBytes_length])

theorem write32_ok {addr : Word} (inside : offset window addr + 4 ≤ window.len) (v : BitVec 32) :
    write32 window addr v ram = .ok () (ram.overwrite (offset window addr) (leBytes 4 v)) :=
  copyTo_ok (by rwa [leBytes_length])

/-- The used ring can be written. -/
structure UsedFits (window : Window) (q : Queue) : Prop where
  sized : q.num ≠ 0
  index : offset window (q.used + 2) + 2 ≤ window.len
  slot : ∀ slot : Word, slot.toNat < q.num.toNat →
    offset window (q.used + 4 + slot * 8) + 4 ≤ window.len ∧
    offset window (q.used + 4 + slot * 8 + 4) + 4 ≤ window.len

theorem publishUsed_ok {q : Queue} (fits : UsedFits window q) (head : BitVec 16)
    (written : BitVec 32) (ram : Ram) :
    ∃ ram', publishUsed window q head written ram = .ok () ram' := by
  obtain ⟨slot, divided, small⟩ :=
    remainder_ok (x := half window ram (q.used + 2)) fits.sized ram
  obtain ⟨first, second⟩ := fits.slot slot small
  rw [publishUsed, bind_ok _ (read16_ok fits.index), bind_ok _ divided,
    bind_ok _ (write32_ok first _), bind_ok _ (write32_ok second _)]
  exact ⟨_, write16_ok fits.index _⟩

/-- A buffer lies in RAM, at the truncated offset. -/
def BufferFits (window : Window) (d : Descriptor) : Prop :=
  offset window d.addr + d.len.toNat ≤ window.len

theorem consoleRx_ok :
    ∀ (chain : List Descriptor) (rx : List Byte) (written : BitVec 32) (ram : Ram),
    (∀ d ∈ chain, d.writable = true → BufferFits window d) →
    ∃ r ram', consoleRx window chain rx written ram = .ok r ram'
  | [], rx, written, ram, _ => ⟨(rx, written), ram, rfl⟩
  | d :: rest, rx, written, ram, fits => by
    have later : ∀ e ∈ rest, e.writable = true → BufferFits window e :=
      fun e member => fits e (mem_cons_of_mem _ member)
    unfold consoleRx
    split
    · exact consoleRx_ok rest rx written ram later
    · rename_i taken
      have writable : d.writable = true := by simp_all
      have room := fits d mem_cons_self writable
      rw [bind_ok _ (copyTo_ok (by rw [length_take]; unfold BufferFits at room; omega))]
      split
      · exact ⟨_, _, rfl⟩
      · exact consoleRx_ok rest _ _ _ later

theorem consoleTx_ok : ∀ (chain : List Descriptor) (tx : List Byte) (ram : Ram),
    (∀ d ∈ chain, d.writable = false → BufferFits window d) →
    ∃ r ram', consoleTx window chain tx ram = .ok r ram'
  | [], tx, ram, _ => ⟨tx, ram, rfl⟩
  | d :: rest, tx, ram, fits => by
    have later : ∀ e ∈ rest, e.writable = false → BufferFits window e :=
      fun e member => fits e (mem_cons_of_mem _ member)
    unfold consoleTx
    split
    · exact consoleTx_ok rest tx ram later
    · rename_i readable
      rw [bind_ok _ (slice_ok (fits d mem_cons_self (by simpa using readable)))]
      exact consoleTx_ok rest _ _ later

theorem blockBuffer_ok (reqType : Nat) {d : Descriptor} (fits : BufferFits window d)
    {s : BlockState} (low : s.pos + d.len.toNat < 2 ^ window.word) (ram : Ram) :
    ∃ s' ram', blockBuffer window reqType d s ram = .ok s' ram' ∧ s'.pos = s.pos + d.len.toNat := by
  have stop : (s.pos + d.len.toNat) % 2 ^ window.word = s.pos + d.len.toNat := Nat.mod_eq_of_lt low
  have range : ∀ inside : s.pos + d.len.toNat ≤ s.disk.length,
      diskRange s.disk s.pos (s.pos + d.len.toNat) ram = .ok () ram := by
    intro inside
    rw [diskRange, if_pos ⟨Nat.le_add_right _ _, inside⟩]
    rfl
  unfold blockBuffer
  rw [stop]
  split
  · split
    · rename_i inside
      rw [bind_ok _ (range inside), bind_ok _ (copyTo_ok (by
        rw [length_take]
        unfold BufferFits at fits
        omega))]
      exact ⟨_, _, rfl, rfl⟩
    · exact ⟨_, _, rfl, rfl⟩
  · split
    · split
      · rename_i inside
        rw [bind_ok _ (range inside), bind_ok _ (slice_ok fits)]
        exact ⟨_, _, rfl, rfl⟩
      · exact ⟨_, _, rfl, rfl⟩
    · exact ⟨_, _, rfl, rfl⟩

theorem blockData_ok (window : Window) (reqType : Nat) :
    ∀ (chain : List Descriptor) (s : BlockState) (ram : Ram),
    (∀ d ∈ chain, BufferFits window d) →
    s.pos + (chain.map fun d => d.len.toNat).sum < 2 ^ window.word →
    ∃ s' ram', blockData window reqType chain s ram = .ok s' ram'
  | [], s, ram, _, _ => ⟨s, ram, rfl⟩
  | d :: rest, s, ram, fits, low => by
    rw [map_cons, sum_cons] at low
    obtain ⟨s', ram', run, pos⟩ :=
      blockBuffer_ok reqType (fits d mem_cons_self) (s := s) (by omega) ram
    unfold blockData
    rw [bind_ok _ run]
    exact blockData_ok window reqType rest s' ram'
      (fun e member => fits e (mem_cons_of_mem _ member))
      (by omega)

/-- A block request the device can carry out: header, data buffers and status byte in RAM, and a
disk position that stays in the host word. -/
inductive BlockFits (window : Window) (ram : Ram) : List Descriptor → Prop
  | request {hdr status : Descriptor} {data : List Descriptor}
      (header : offset window hdr.addr + 16 ≤ window.len)
      (buffers : ∀ d ∈ data, BufferFits window d)
      (position : leValue (ram.bytes (offset window hdr.addr + 8) 8) * SECTOR % 2 ^ window.word +
        (data.map fun d => d.len.toNat).sum < 2 ^ window.word)
      (statusByte : offset window status.addr < window.len) :
      BlockFits window ram (hdr :: (data ++ [status]))

variable {chain : List Descriptor}

theorem serviceBlock_ok (disk : List Byte) (fits : BlockFits window ram chain) :
    ∃ r ram', serviceBlock window disk chain ram = .ok r ram' := by
  cases fits with
  | @request hdr status data header buffers position statusByte =>
    obtain ⟨d, rest, shape⟩ : ∃ d rest, data ++ [status] = d :: rest := by
      cases data with
      | nil => exact ⟨status, [], rfl⟩
      | cons d data => exact ⟨d, data ++ [status], rfl⟩
    have init : (d :: rest).dropLast = data := by rw [← shape, dropLast_concat]
    have last : (d :: rest).getLast (cons_ne_nil d rest) = status := by
      simp only [← shape, getLast_concat]
    rw [shape]
    rw [serviceBlock, bind_ok _ (slice_ok (by omega)), bind_ok _ (slice_ok (by omega)), init, last]
    obtain ⟨s, ram', run⟩ := blockData_ok window
      (leValue (ram.bytes (offset window hdr.addr) 4)) data
      { disk := disk
        pos := leValue (ram.bytes (offset window hdr.addr + 8) 8) * SECTOR % 2 ^ window.word
        written := 0
        ok := true } ram buffers position
    rw [bind_ok _ run,
      bind_ok _ (copyTo_ok (by rw [length_singleton]; omega))]
    exact ⟨_, _, rfl⟩

/-- The chain is one the backend can service, where the 9P server answers what is `answerable`. -/
def ChainFits (window : Window) (answerable : List Byte → Prop) (kind : Kind) (qi : Fin 2)
    (chain : List Descriptor) (ram : Ram) : Prop :=
  match kind with
  -- input is written, output read
  | .console => ∀ d ∈ chain, d.writable = decide (qi = firstQueue) → BufferFits window d
  | .block => chain = [] ∨ BlockFits window ram chain
  -- the other backends check each buffer
  | .fs => ∀ req ∈ gather window ram chain, answerable req
  | .fsExternal | .net => True

theorem scatterDma_finishes (chain : List Descriptor) (bytes : List Byte) :
    Finishes (scatterDma window chain bytes) := fun _ => ⟨_, _, rfl⟩

variable {handle : σ → List Byte → Option (List Byte) × σ} {answerable : List Byte → Prop}

/-- The server has a reply to every request that is answerable. -/
def Answers (handle : σ → List Byte → Option (List Byte) × σ) (answerable : List Byte → Prop) :
    Prop :=
  ∀ srv req, answerable req → ∃ out srv', handle srv req = (some out, srv')

theorem serviceFs_ok (answers : Answers handle answerable) (srv : σ)
    (fits : ∀ req ∈ gather window ram chain, answerable req) :
    ∃ r ram', serviceFs window handle chain srv ram = .ok r ram' := by
  rw [serviceFs, get_bind]
  cases gathered : gather window ram chain with
  | none => exact ⟨_, _, rfl⟩
  | some req =>
    obtain ⟨out, srv', served⟩ := answers srv req (fits req gathered)
    cases req with
    | nil => exact ⟨_, _, rfl⟩
    | cons b bytes =>
      dsimp only
      rw [served]
      exact ⟨_, _, rfl⟩

theorem serviceFsExternal_finishes (head : BitVec 16) (chain : List Descriptor)
    (requests : List (List Byte)) (pending : BitVec 16 → Option ExternalP9Pending) :
    Finishes (serviceFsExternal (σ := σ) window head chain requests pending) := by
  refine .bind (fun ram => ⟨ram, ram, rfl⟩) fun ram => ?_
  split
  · exact .pure _
  · exact .ite (.pure _) (.pure _)

theorem netRx_finishes (chain : List Descriptor) (outbox inbox : List (List Byte)) :
    Finishes (netRx (σ := σ) window chain outbox inbox) := by
  cases inbox with
  | nil => exact .pure _
  | cons frame inbox => exact .ite (.pure _) (.bind (scatterDma_finishes chain _) fun _ => .pure _)

theorem netTx_finishes (chain : List Descriptor) (inbox outbox : List (List Byte)) :
    Finishes (netTx (σ := σ) window chain inbox outbox) := by
  refine .bind (fun ram => ⟨ram, ram, rfl⟩) fun ram => ?_
  split
  · exact .pure _
  · exact .ite (.pure _) (.pure _)

theorem service_ok (answers : Answers handle answerable) (qi : Fin 2) (head : BitVec 16)
    (backend : Backend σ) (fits : ChainFits window answerable backend.kind qi chain ram) :
    ∃ r ram', service window handle qi head chain backend ram = .ok r ram' := by
  cases backend with
  | console rxBuf txOut =>
    rw [service]
    unfold serviceConsole
    split
    · rename_i first
      obtain rfl : qi = firstQueue := Fin.ext first
      split
      · exact ⟨_, _, rfl⟩
      · obtain ⟨r, ram', run⟩ := consoleRx_ok chain rxBuf 0 ram fits
        rw [bind_ok _ run]
        exact ⟨_, _, rfl⟩
    · rename_i second
      have other : decide (qi = firstQueue) = false := by
        rw [decide_eq_false_iff_not]
        rintro rfl
        exact second rfl
      obtain ⟨tx, ram', run⟩ := consoleTx_ok chain txOut ram
        fun d member readable => fits d member (readable.trans other.symm)
      rw [bind_ok _ run]
      exact ⟨_, _, rfl⟩
  | block disk =>
    have serviced : ∃ r ram', serviceBlock window disk chain ram = .ok r ram' := by
      rcases fits with rfl | fits
      · exact ⟨_, _, rfl⟩
      · exact serviceBlock_ok disk fits
    obtain ⟨r, ram', run⟩ := serviced
    rw [service, bind_ok _ run]
    exact ⟨_, _, rfl⟩
  | fs srv => exact serviceFs_ok answers srv fits
  | fsExternal requests pending => exact serviceFsExternal_finishes head chain requests pending ram
  | net inbox outbox =>
    exact Finishes.ite (netRx_finishes chain outbox inbox)
      (netTx_finishes chain inbox outbox) ram

/-! ## The loop -/

/-- The driver has set the queue up: rings in RAM, a size, pending chains the backend can service,
and a region `W`, apart from what the device reads, for its writes. -/
structure Serviceable (window : Window) (answerable : List Byte → Prop) (W : Nat → Prop)
    (qi : Fin 2) (p : Port σ) : Prop extends Confined window W qi p where
  usedFits : UsedFits window (p.dev.queues qi)
  index : offset window ((p.dev.queues qi).avail + 2) + 2 ≤ window.len
  fits : ∀ ram, Within W p.ram ram → ∀ i, Pending window (p.dev.queues qi) p.ram i →
    offset window
      ((p.dev.queues qi).avail + 4 + availSlot (p.dev.queues qi) i * 2) + 2 ≤ window.len ∧
    ∀ chain, descriptorChain window (p.dev.queues qi)
        (availHead window (p.dev.queues qi) i ram) ram = some chain →
      ChainFits window answerable p.dev.backend.kind qi chain ram

theorem complete_ok (qi : Fin 2) {q : Queue} (fits : UsedFits window q) (head : BitVec 16)
    (written : BitVec 32) (p : Port σ) :
    ∃ p', complete window qi q head written p = .ok true p' := by
  obtain ⟨ram, published⟩ := publishUsed_ok fits head written p.ram
  have lifted : onRam (publishUsed window q head written) p = .ok () { p with ram := ram } :=
    zoom_ok published
  rw [complete, bind_ok _ lifted]
  exact ⟨_, rfl⟩

variable {qi : Fin 2} {p : Port σ}

theorem serve_ok (answers : Answers handle answerable) {head : BitVec 16}
    (used : UsedFits window (p.dev.queues qi))
    (fits : ∀ chain, descriptorChain window (p.dev.queues qi) head p.ram = some chain →
      ChainFits window answerable p.dev.backend.kind qi chain p.ram) :
    ∃ more p', serve window handle qi (p.dev.queues qi) head p = .ok more p' := by
  rw [serve, get_bind]
  cases walked : descriptorChain window (p.dev.queues qi) head p.ram with
  | none =>
    obtain ⟨p', run⟩ := complete_ok qi used head 0 p
    exact ⟨true, p', run⟩
  | some chain =>
    obtain ⟨⟨backend, result⟩, ram, serviced⟩ :=
      service_ok answers qi head p.dev.backend (fits chain walked)
    have lifted : onRam (service window handle qi head chain p.dev.backend) p =
        .ok (backend, result) { p with ram := ram } := zoom_ok serviced
    dsimp only
    rw [get_bind, bind_ok _ lifted]
    cases result with
    | complete written =>
      obtain ⟨p', run⟩ := complete_ok qi used head written
        { p with dev := { p.dev with backend := backend }, ram := ram }
      exact ⟨true, p', run⟩
    | deferred => exact ⟨_, _, rfl⟩
    | blocked => exact ⟨_, _, rfl⟩

/-- Published positions that are still to be taken. -/
def backlog (window : Window) (qi : Fin 2) (p : Port σ) : Nat :=
  (availIndex window (p.dev.queues qi) p.ram - (p.dev.queues qi).lastAvailIdx).toNat

/-- One turn of a serviceable queue returns; if it goes on, the queue is serviceable still
and one position shorter. -/
theorem turn_ok (answers : Answers handle answerable) {W : Nat → Prop}
    (ready : Serviceable window answerable W qi p) :
    ∃ more p', turn window handle qi p = .ok more p' ∧
      (more = true → Serviceable window answerable W qi p' ∧
        backlog window qi p' < backlog window qi p) := by
  by_cases differ : (p.dev.queues qi).lastAvailIdx = availIndex window (p.dev.queues qi) p.ram
  · exact ⟨false, p, turn_idle ready.index differ, nofun⟩
  have pending : Pending window (p.dev.queues qi) p.ram (p.dev.queues qi).lastAvailIdx := by
    unfold Pending
    bv_omega
  obtain ⟨slot, chains⟩ := ready.fits p.ram (.refl _) _ pending
  obtain ⟨more, p', served⟩ := serve_ok answers ready.usedFits chains
  refine ⟨more, p', by rw [turn_serve handle ready.index ready.usedFits.sized slot differ, served],
    ?_⟩
  rintro rfl
  obtain ⟨within, took⟩ := serve_confined ready.used
    (ready.chains p.ram (.refl _) _ pending) served
  have steady := ready.steady p'.ram within
  have queue := took.queue rfl
  have index : availIndex window (p'.dev.queues qi) p'.ram =
      availIndex window (p.dev.queues qi) p.ram := by
    rw [queue]
    exact steady
  refine ⟨⟨ready.toConfined.took differ within took, ?_, ?_, ?_⟩, ?_⟩
  · rw [queue]
    exact ⟨ready.usedFits.sized, ready.usedFits.index, ready.usedFits.slot⟩
  · rw [queue]
    exact ready.index
  · intro ram changed i still
    have before : Pending window (p.dev.queues qi) p.ram i := by
      rw [queue] at still
      have unread := pending_took (by rwa [steady]) still
      unfold Pending at unread ⊢
      rwa [steady] at unread
    rw [queue, took.kind]
    exact ready.fits ram (.trans _ _ _ within changed) i before
  · unfold backlog
    rw [index, queue, Queue.took]
    bv_omega

theorem processLoop_ok (answers : Answers handle answerable) {W : Nat → Prop} :
    ∀ (n : Nat) (p : Port σ), Serviceable window answerable W qi p → backlog window qi p < n →
      ∃ p', processLoop window handle qi n p = .ok true p'
  | 0, _, _, short => absurd short (Nat.not_lt_zero _)
  | n + 1, p, ready, short => by
    obtain ⟨more, t, run, next⟩ := turn_ok answers ready
    rw [processLoop, bind_ok _ run]
    cases more with
    | false => exact ⟨t, rfl⟩
    | true =>
      obtain ⟨still, fewer⟩ := next rfl
      exact processLoop_ok answers n t still (by omega)

end Finishing

/-! ## Runs -/

section Runs

variable {σ : Type} (window : Window) (handle : σ → List Byte → Option (List Byte) × σ)
  (answerable : List Byte → Prop)

/-- A queue that is ready is set up. -/
def QueueOrderly (qi : Nat) (p : Port σ) : Prop :=
  ∀ bound : qi < 2, (p.dev.queues ⟨qi, bound⟩).ready ≠ 0 →
    ∃ W, Serviceable window answerable W ⟨qi, bound⟩ p

/-- What must hold before an event: the queue it processes is set up; the queue a reply
completes on has its used ring. -/
def Orderly (p : Port σ) : Event → Prop
  | .write reg val => reg = 0x050 → QueueOrderly window answerable val.toNat p
  | .poll qi => QueueOrderly window answerable qi p
  | .reply _ => UsedFits window (p.dev.queues firstQueue)
  | .consoleInput _ => QueueOrderly window answerable 0 p
  | .netInput _ => True

def Ends (e : Event) (p p' : Port σ) : Prop := ∃ fuel, e.perform window handle fuel p = .ok true p'

/-- Between events the guest may change RAM. -/
inductive Step where
  | event (e : Event)
  | guest (ram : Ram)

def Step.Leads (p : Port σ) : Step → Port σ → Prop
  | .event e, p' => Ends window handle e p p'
  | .guest ram, p' => p' = { p with ram := ram }

/-- Each event finds its queue in order. -/
def OrderlyRun : Port σ → List Step → Prop
  | _, [] => True
  | p, step :: rest =>
    (∀ e, step = .event e → Orderly window answerable p e) ∧
      ∀ p', step.Leads window handle p p' → OrderlyRun p' rest

def Run : Port σ → List Step → Port σ → Prop
  | p, [], p' => p' = p
  | p, step :: rest, p' => ∃ t, step.Leads window handle p t ∧ Run t rest p'

variable {window handle answerable}

variable {p : Port σ}

theorem process_ok (answers : Answers handle answerable) {qi : Nat}
    (ready : QueueOrderly window answerable qi p) :
    ∃ fuel p', process window handle qi fuel p = .ok true p' := by
  unfold process
  by_cases bound : qi < 2
  · simp only [bound, dif_pos, get_bind]
    by_cases off : (p.dev.queues ⟨qi, bound⟩).ready = 0
    · exact ⟨0, p, by rw [if_pos off]; rfl⟩
    · obtain ⟨W, serviceable⟩ := ready bound off
      obtain ⟨p', run⟩ := processLoop_ok answers (backlog window ⟨qi, bound⟩ p + 1) p
        serviceable (Nat.lt_succ_self _)
      exact ⟨_, p', by rw [if_neg off]; exact run⟩
  · exact ⟨0, p, by rw [dif_neg bound]; rfl⟩

theorem fsExternalReply_ok (fits : UsedFits window (p.dev.queues firstQueue)) (bytes : List Byte) :
    ∃ accepted p', fsExternalReply window bytes p = .ok accepted p' := by
  rw [fsExternalReply, get_bind]
  cases (p9Tag bytes).bind fun tag => p.dev.backend.takePending tag with
  | none => exact ⟨_, _, rfl⟩
  | some answered =>
    obtain ⟨waiting, backend⟩ := answered
    obtain ⟨ram, published⟩ := publishUsed_ok fits waiting.head
      (.ofNat 32 (scatter window waiting.chain bytes p.ram).1)
      (scatter window waiting.chain bytes p.ram).2
    have lifted : onRam (publishUsed window (p.dev.queues firstQueue) waiting.head
          (.ofNat 32 (scatter window waiting.chain bytes p.ram).1))
        { p with
          dev := { p.dev with backend := backend }
          ram := (scatter window waiting.chain bytes p.ram).2 } =
        .ok () { p with dev := { p.dev with backend := backend }, ram := ram } :=
      zoom_ok published
    exact ⟨true, _, bind_ok _ lifted⟩

theorem QueueOrderly.consoleInput {qi : Nat} (ready : QueueOrderly window answerable qi p)
    (bytes : List Byte) :
    QueueOrderly window answerable qi { p with dev := p.dev.consoleInput bytes } := by
  obtain ⟨kind, queues⟩ := p.dev.consoleInput_kind bytes
  intro bound on
  rw [queues] at on
  obtain ⟨W, serviceable⟩ := ready bound on
  refine ⟨W, ⟨⟨?_, ?_, ?_⟩, ?_, ?_, ?_⟩⟩ <;> rw [queues]
  · exact serviceable.used
  · exact serviceable.steady
  · rw [kind]
    exact serviceable.chains
  · exact serviceable.usedFits
  · exact serviceable.index
  · rw [kind]
    exact serviceable.fits

theorem event_ends (answers : Answers handle answerable) {e : Event}
    (orderly : Orderly window answerable p e) : ∃ p', Ends window handle e p p' := by
  cases e with
  | write reg val =>
    cases notify : (p.dev.write reg val).2 with
    | none =>
      refine ⟨{ p with dev := (p.dev.write reg val).1 }, 0, ?_⟩
      rw [Event.perform, get_bind]
      dsimp only
      rw [notify]
      rfl
    | some qi =>
      obtain ⟨notified, rfl, same⟩ := VirtioDev.write_notify notify
      obtain ⟨fuel, p', run⟩ := process_ok answers (orderly notified)
      refine ⟨p', fuel, ?_⟩
      rw [Event.perform, get_bind]
      dsimp only
      rw [notify, same]
      exact run
  | poll qi =>
    obtain ⟨fuel, p', run⟩ := process_ok answers orderly
    exact ⟨p', fuel, run⟩
  | reply bytes =>
    obtain ⟨accepted, p', run⟩ := fsExternalReply_ok orderly bytes
    refine ⟨p', 0, ?_⟩
    rw [Event.perform, bind_ok _ run]
    rfl
  | consoleInput bytes =>
    obtain ⟨fuel, p', run⟩ := process_ok answers (.consoleInput orderly bytes)
    exact ⟨p', fuel, run⟩
  | netInput frame => exact ⟨_, 0, rfl⟩

theorem run_ends (answers : Answers handle answerable) {steps : List Step} :
    ∀ {p : Port σ}, OrderlyRun window handle answerable p steps →
    ∃ p', Run window handle p steps p' := by
  induction steps with
  | nil => exact fun {p} _ => ⟨p, rfl⟩
  | cons step rest ih =>
    rintro p ⟨first, later⟩
    have leads : ∃ t, step.Leads window handle p t := by
      cases step with
      | event e => exact event_ends answers (first e rfl)
      | guest ram => exact ⟨_, rfl⟩
    obtain ⟨t, lead⟩ := leads
    obtain ⟨p', run⟩ := ih (later t lead)
    exact ⟨p', t, lead, run⟩

end Runs

open P9 (MemFs HostFs)

/-- The 9P server on files in memory. -/
def memoryServer (window : Window) :
    P9.Server MemFs → List Byte → Option (List Byte) × P9.Server MemFs :=
  P9.Server.handle window.word (MemFs.backend window.word)

/-- The 9P server on a directory of the host. -/
def hostServer (window : Window) :
    P9.Server HostFs → List Byte → Option (List Byte) × P9.Server HostFs :=
  P9.Server.handle window.word HostFs.backend

namespace OneBuffer

/-- Two pages of RAM. -/
def pages : Window := .wasm 0x80000000 8192 (by decide)

def noServer (srv : Unit) (_ : List Byte) : Option (List Byte) × Unit := (some [], srv)

/-- Descriptors at `0x000`, the avail ring at `0x100`, the used ring at `0x200`. -/
def queue : Queue :=
  { ready := 1, num := 1, desc := 0x80000000, avail := 0x80000100, used := 0x80000200 }

/-- Descriptor 0 is a device-writable buffer of 16 bytes at `0x300`; it has been published. -/
def ram : Ram := fun a =>
  if a = 0x001 then 0x03 else if a = 0x003 then 0x80 else if a = 0x008 then 0x10
  else if a = 0x00c then 0x02 else if a = 0x102 then 1 else 0

def port {σ : Type} : Port σ :=
  { dev := { backend := .net [[1, 2, 3, 4]] [], queues := fun _ => queue }, ram := ram }

/-- The used ring and the buffer. -/
def region (a : Nat) : Prop := 0x200 ≤ a ∧ a < 0x20c ∨ 0x300 ≤ a ∧ a < 0x310

theorem spans_region {off n : Nat}
    (inside : 0x200 ≤ off ∧ off + n ≤ 0x20c ∨ 0x300 ≤ off ∧ off + n ≤ 0x310) :
    Spans region off n := by
  intro a low high
  unfold region
  omega

variable {ram' : Ram}

theorem bytes_kept (within : Within region ram ram') {off n : Nat}
    (below : off + n ≤ 0x200) : ram'.bytes off n = ram.bytes off n := by
  refine within.bytes fun a low high inside => ?_
  unfold region at inside
  omega

theorem readDescriptor_kept (within : Within region ram ram') :
    readDescriptor pages ram' 0x80000000 1 0 =
      some { addr := 0x80000300, len := 16, flags := 2, next := 0 } := by
  have found : guestSlice pages (0x80000000 + BitVec.ofNat 64 (0 * DESCRIPTOR_BYTES))
    DESCRIPTOR_BYTES =
      some 0 := by decide
  rw [readDescriptor, if_neg (by decide), if_neg (by decide), found, Option.map_some,
    bytes_kept within (by decide), bytes_kept within (by decide), bytes_kept within (by decide),
    bytes_kept within (by decide)]
  decide

theorem descriptorChain_kept (within : Within region ram ram') (i : BitVec 16) :
    descriptorChain pages queue (availHead pages queue i ram') ram' =
      some [{ addr := 0x80000300, len := 16, writable := true }] := by
  have slot : availSlot queue i = 0 := by
    unfold availSlot queue
    exact umod_one
  have head : availHead pages queue i ram' = 0 := by
    rw [availHead, slot, half, bytes_kept within (by decide)]
    decide
  have read : readDescriptor pages ram' queue.desc queue.num.toNat (0 : BitVec 16).toNat =
      some { addr := 0x80000300, len := 16, flags := 2, next := 0 } := readDescriptor_kept within
  rw [head, descriptorChain, read, Option.bind_some, if_pos (by decide), walkDescriptorTable,
    if_neg (by decide), show queue.num.toNat = 0 + 1 from rfl, walkFrom]
  rw [show queue.num.toNat = 0 + 1 from rfl] at read
  rw [read, Option.bind_some, if_neg (by decide), if_pos (by decide)]
  decide

theorem slot_zero {slot : Word} (small : slot.toNat < queue.num.toNat) : slot = 0 := by
  apply eq_of_toNat_eq
  have one : queue.num.toNat = 1 := rfl
  rw [one] at small
  exact Nat.lt_one_iff.mp small

theorem port_serviceable :
    Serviceable pages (P9.Answerable (MemFs.Fits 32)) region firstQueue
      (port : Port (P9.Server MemFs)) where
  used := by
    refine ⟨spans_region (by decide), fun slot small => ?_⟩
    obtain rfl := slot_zero small
    exact ⟨spans_region (by decide), spans_region (by decide)⟩
  steady ram' within := by
    have same : ram'.bytes (offset pages (queue.avail + 2)) 2 =
        ram.bytes (offset pages (queue.avail + 2)) 2 := bytes_kept within (by decide)
    exact congrArg (fun bytes => BitVec.ofNat 16 (leValue bytes)) same
  chains ram' within i _ chain walked a written := by
    have same := (descriptorChain_kept within i).symm.trans walked
    cases Option.some.inj same
    obtain ⟨-, d, member, -, low, high⟩ := written
    rw [mem_singleton] at member
    subst member
    have buffer : Spans region 0x300 16 := spans_region (by decide)
    exact buffer a low high
  usedFits := by
    refine ⟨by decide, by decide, fun slot small => ?_⟩
    obtain rfl := slot_zero small
    exact ⟨by decide, by decide⟩
  index := by decide
  fits ram' within i _ := by
    refine ⟨?_, fun _ _ => trivial⟩
    have slot : availSlot queue i = 0 := by
      unfold availSlot queue
      exact umod_one
    change offset pages (queue.avail + 4 + availSlot queue i * 2) + 2 ≤ pages.len
    rw [slot]
    decide

end OneBuffer

/-! ## Queues out of order -/

namespace BareQueue

open OneBuffer (pages noServer)

def fresh : Port Unit := { dev := { backend := .block [] }, ram := fun _ => 0 }

/-- A ready queue of no size, with a published position. -/
def unsized : Port Unit :=
  { dev := { backend := .net [] [], queues := fun _ => { ready := 1, avail := 0x80000000 } }
    ram := fun a => if a = 2 then 1 else 0 }

/-- Used ring and avail ring in one place, no descriptor table in RAM. -/
def sharedQueue (last : BitVec 16) : Queue :=
  { ready := 1, num := 1, avail := 0x80000000, used := 0x80000000, lastAvailIdx := last }

/-- There is always one position more to take. -/
structure Chasing (p : Port Unit) : Prop where
  queue : ∃ last, p.dev.queues firstQueue = sharedQueue last ∧
    half pages p.ram 0x80000002 = last + 1

theorem half_write16 (ram : Ram) (v : BitVec 16) :
    half pages (ram.overwrite (offset pages 0x80000002) (leBytes 2 v)) 0x80000002 = v := by
  have low : (ram.overwrite (offset pages 0x80000002) (leBytes 2 v)) 2 = v.setWidth 8 := by
    simp [Ram.overwrite, offset, pages, Window.wasm, leBytes]
  have high : (ram.overwrite (offset pages 0x80000002) (leBytes 2 v)) 3 = (v >>> 8).setWidth 8 := by
    simp [Ram.overwrite, offset, pages, Window.wasm, leBytes]
  have read : (ram.overwrite (offset pages 0x80000002) (leBytes 2 v)).bytes
      (offset pages 0x80000002) 2 = [v.setWidth 8, (v >>> 8).setWidth 8] := by
    rw [← low, ← high]
    rfl
  rw [half, read]
  apply eq_of_toNat_eq
  simp only [leValue, toNat_ofNat, toNat_setWidth, toNat_ushiftRight,
    Nat.shiftRight_eq_div_pow]
  have small := v.isLt
  omega

theorem malformed (last head : BitVec 16) (ram : Ram) :
    descriptorChain pages (sharedQueue last) head ram = none := by
  have unread : readDescriptor pages ram 0 1 head.toNat = none := by
    unfold readDescriptor
    split
    · rfl
    · rename_i first
      have zero : head.toNat = 0 := by omega
      rw [zero]
      rfl
  have table : readDescriptor pages ram (sharedQueue last).desc (sharedQueue last).num.toNat
    head.toNat =
      none := unread
  rw [descriptorChain, table]
  rfl

theorem availSlot_shared (last i : BitVec 16) : availSlot (sharedQueue last) i = 0 := umod_one

theorem publishUsed_shared (last head : BitVec 16) (written : BitVec 32) (ram : Ram) :
    ∃ ram', publishUsed pages (sharedQueue last) head written ram = .ok () ram' ∧
      half pages ram' 0x80000002 = half pages ram 0x80000002 + 1 := by
  have divided : remainder (half pages ram 0x80000002) (sharedQueue last).num ram =
      .ok (availSlot (sharedQueue last) (half pages ram 0x80000002)) ram := rfl
  rw [availSlot_shared] at divided
  have first : offset pages (0x80000000 + 4 + 0 * 8) + 4 ≤ pages.len := by decide
  have second : offset pages (0x80000000 + 4 + 0 * 8 + 4) + 4 ≤ pages.len := by decide
  have index : offset pages 0x80000002 + 2 ≤ pages.len := by decide
  have run : publishUsed pages (sharedQueue last) head written ram = _ :=
    (bind_ok _ (read16_ok index)).trans <| (bind_ok _ divided).trans <|
      (bind_ok _ (write32_ok first _)).trans <|
      (bind_ok _ (write32_ok second _)).trans (write16_ok index _)
  exact ⟨_, run, half_write16 _ _⟩

theorem Chasing.turn {p : Port Unit} (chasing : Chasing p) :
    ∃ p', Virtio.turn pages noServer firstQueue p = .ok true p' ∧ Chasing p' := by
  obtain ⟨last, queue, index⟩ := chasing.queue
  have inside : offset pages 0x80000002 + 2 ≤ pages.len := by decide
  have entry : offset pages (0x80000000 + 4 + 0 * 2) + 2 ≤ pages.len := by decide
  have differ : last ≠ last + 1 := by bv_omega
  have served :=
    turn_serve noServer (p := p)
      (show offset pages ((p.dev.queues firstQueue).avail + 2) + 2 ≤ pages.len by
    rw [queue]; exact inside) (by rw [queue]; exact nofun)
    (by rw [queue, availSlot_shared]; exact entry)
    (by rw [queue]; exact fun same => differ (same.trans index))
  generalize availHead pages (p.dev.queues firstQueue) (p.dev.queues firstQueue).lastAvailIdx
    p.ram = head at served
  obtain ⟨ram, published, next⟩ := publishUsed_shared last head 0 p.ram
  have lifted : onRam (publishUsed pages (p.dev.queues firstQueue) head 0) p =
      .ok () { p with ram := ram } := by
    rw [queue]
    exact zoom_ok published
  refine ⟨{ p with dev := (p.dev.advance firstQueue).interrupt, ram := ram }, ?_,
    ⟨last + 1, ?_, ?_⟩⟩
  · rw [served, serve, get_bind, queue, malformed, ← queue]
    exact bind_ok _ lifted
  · change (p.dev.advance firstQueue).queues firstQueue = _
    rw [advance_queue, queue]
    rfl
  · exact next.trans (by rw [index])

theorem Chasing.never_ends : ∀ (fuel : Nat) {p : Port Unit}, Chasing p → ∀ p',
    processLoop pages noServer firstQueue fuel p ≠ .ok true p'
  | 0, _, _, _ => nofun
  | fuel + 1, p, chasing, p' => by
    obtain ⟨t, run, next⟩ := chasing.turn
    rw [processLoop, bind_ok _ run]
    exact Chasing.never_ends fuel next p'

/-- Used ring on the avail ring, one position published. -/
def shared : Port Unit :=
  { dev := { backend := .net [] [], queues := fun _ => sharedQueue 0 }
    ram := fun a => if a = 2 then 1 else 0 }

/-- A `Twrite` of one byte at offset `0x7fffffff`. -/
def growing : List Byte :=
  P9.reply P9.T_WRITE 0 (P9.le32 1 ++ P9.le64 0x7fffffff ++ P9.le32 1 ++ [0x78])

/-- Fid 1 is open on a file `a`. -/
def files : P9.Server MemFs :=
  { P9.Server.new ((MemFs.new.alloc (.file []) P9.S_IFREG).linkChild 0 ['a'] 1) with
    fids := fun _ => some ⟨['/', 'a'], true, none⟩ }

/-- A queue in order with the request at `0x300`. -/
def written : Port (P9.Server MemFs) :=
  { dev := { backend := .fs files, queues := fun _ => OneBuffer.queue }
    ram := Ram.overwrite
      (fun a => ([(0x001, 0x03), (0x003, 0x80), (0x008, 24), (0x102, 1)].lookup a).getD 0) 0x300
        growing }

def serverPanicked : EStateM.Result Panic (Port (P9.Server MemFs)) Bool → Bool
  | .error .server _ => true
  | _ => false

end BareQueue

end Rv64Js.Virtio
