import Rv64Js.Board.SystemBus

/-! # The virtio-mmio transport

`virtio.rs`: split virtqueues over guest RAM with the console, block, 9P, external 9P and network
backends. An index outside RAM or the disk, an inverted range and a remainder by zero are panics,
errors here. Arithmetic wraps; the window says how many bits `usize` has. The 9P server is a
parameter, and may panic. -/

set_option autoImplicit false

namespace Rv64Js.Board.Ram

def bytes (ram : Ram) (off n : Nat) : List (BitVec 8) := (List.range n).map fun i => ram (off + i)

def overwrite (ram : Ram) (off : Nat) (bytes : List (BitVec 8)) : Ram := fun a =>
  if off ≤ a ∧ a < off + bytes.length then bytes.getD (a - off) 0 else ram a

end Rv64Js.Board.Ram

namespace Rv64Js.Virtio

open Rv64Js.Core (Word)
open Rv64Js.Board (Ram)

abbrev Byte := BitVec 8

inductive Panic where
  | outOfBounds
  | divideByZero
  /-- the 9P server's own -/
  | server
  deriving DecidableEq

/-- The RAM slice handed to the device: `ram_base` and `ram.len()`, on a host whose `usize` has
`word` bits. -/
structure Window where
  base : Word
  len : Nat
  word : Nat
  fits : len ≤ 2 ^ word
  bits : 32 ≤ word ∧ word ≤ 64

/-- On a 32-bit host. -/
def Window.wasm (base : Word) (len : Nat) (fits : len ≤ 2 ^ 32) : Window :=
  ⟨base, len, 32, fits, by decide⟩

abbrev Dma (α : Type) := EStateM Panic Ram α

/-! ## Guest memory -/

def leValue : List Byte → Nat
  | [] => 0
  | b :: rest => b.toNat + 256 * leValue rest

def leBytes (n : Nat) {w : Nat} (v : BitVec w) : List Byte :=
  (List.range n).map fun i => (v >>> (8 * i)).setWidth 8

section Memory

variable (window : Window)

def offset (addr : Word) : Nat := (addr - window.base).toNat % 2 ^ window.word

def slice (off n : Nat) : Dma (List Byte) := fun ram =>
  if off + n ≤ window.len then .ok (ram.bytes off n) ram else .error .outOfBounds ram

def copyTo (off : Nat) (bytes : List Byte) : Dma Unit := fun ram =>
  if off + bytes.length ≤ window.len then .ok () (ram.overwrite off bytes)
  else .error .outOfBounds ram

def read16 (addr : Word) : Dma (BitVec 16) := do
  let bytes ← slice window (offset window addr) 2
  pure (BitVec.ofNat 16 (leValue bytes))

def write16 (addr : Word) (v : BitVec 16) : Dma Unit :=
  copyTo window (offset window addr) (leBytes 2 v)

def write32 (addr : Word) (v : BitVec 32) : Dma Unit :=
  copyTo window (offset window addr) (leBytes 4 v)

/-- RAM offset of a buffer that lies entirely in RAM (`guest_slice`, `guest_slice_mut`). -/
def guestSlice (addr : Word) (n : Nat) : Option Nat :=
  if window.base ≤ addr ∧ offset window addr + n ≤ window.len then some (offset window addr)
    else none

end Memory

/-! ## Descriptors -/

def VIRTQ_DESC_F_NEXT : BitVec 16 := 1#16
def VIRTQ_DESC_F_WRITE : BitVec 16 := 2#16
def VIRTQ_DESC_F_INDIRECT : BitVec 16 := 4#16
def DESCRIPTOR_BYTES : Nat := 16

structure Descriptor where
  addr : Word
  len : BitVec 32
  writable : Bool
  deriving DecidableEq

/-- A table entry as the guest wrote it. -/
structure RawDescriptor where
  addr : Word
  len : BitVec 32
  flags : BitVec 16
  next : BitVec 16
  deriving DecidableEq

structure Queue where
  ready : BitVec 32 := 0
  num : BitVec 32 := 0
  desc : Word := 0
  avail : Word := 0
  used : Word := 0
  lastAvailIdx : BitVec 16 := 0

section Chains

variable (window : Window)

def readDescriptor (ram : Ram) (table : Word) (count index : Nat) : Option RawDescriptor :=
  if count ≤ index then none
  else if 2 ^ 64 ≤ table.toNat + index * DESCRIPTOR_BYTES then none
  else
    (guestSlice window (table + BitVec.ofNat 64 (index * DESCRIPTOR_BYTES)) DESCRIPTOR_BYTES).map
      fun off =>
        { addr := BitVec.ofNat 64 (leValue (ram.bytes off 8))
          len := BitVec.ofNat 32 (leValue (ram.bytes (off + 8) 4))
          flags := BitVec.ofNat 16 (leValue (ram.bytes (off + 12) 2))
          next := BitVec.ofNat 16 (leValue (ram.bytes (off + 14) 2)) }

/-- The loop of `walk_descriptor_table`, with the iterations that are left. -/
def walkFrom (ram : Ram) (table : Word) (count : Nat) : Nat → Nat → Option (List Descriptor)
  -- more NEXT links than table entries: a cycle
  | 0, _ => none
  | n + 1, index =>
    (readDescriptor window ram table count index).bind fun raw =>
      if raw.flags &&& VIRTQ_DESC_F_INDIRECT ≠ 0 then none
      else
        let entry : Descriptor :=
          { addr := raw.addr, len := raw.len, writable := raw.flags &&& VIRTQ_DESC_F_WRITE ≠ 0 }
        if raw.flags &&& VIRTQ_DESC_F_NEXT = 0 then some [entry]
        else (walkFrom ram table count n raw.next.toNat).map (entry :: ·)

def walkDescriptorTable (ram : Ram) (table : Word) (count first : Nat) : Option (List Descriptor) :=
  if count = 0 ∨ count ≤ first then none else walkFrom window ram table count count first

def descriptorChain (q : Queue) (head : BitVec 16) (ram : Ram) : Option (List Descriptor) :=
  (readDescriptor window ram q.desc q.num.toNat head.toNat).bind fun raw =>
    if raw.flags &&& VIRTQ_DESC_F_INDIRECT = 0 then
      walkDescriptorTable window ram q.desc q.num.toNat head.toNat
    else if raw.flags &&& VIRTQ_DESC_F_NEXT ≠ 0 ∨ raw.len = 0 ∨
      raw.len.toNat % DESCRIPTOR_BYTES ≠ 0 then
      none
    else walkDescriptorTable window ram raw.addr (raw.len.toNat / DESCRIPTOR_BYTES) 0

def remainder (x : BitVec 16) (num : BitVec 32) : Dma Word :=
  if num = 0 then throw .divideByZero else pure (x.setWidth 64 % num.setWidth 64)

def publishUsed (q : Queue) (head : BitVec 16) (written : BitVec 32) : Dma Unit := do
  let usedIdx ← read16 window (q.used + 2)
  let slot ← remainder usedIdx q.num
  write32 window (q.used + 4 + slot * 8) (head.setWidth 32)
  write32 window (q.used + 4 + slot * 8 + 4) written
  write16 window (q.used + 2) (usedIdx + 1)

/-- All readable buffers of a chain in order, unless one is not in RAM. -/
def gather (ram : Ram) : List Descriptor → Option (List Byte)
  | [] => some []
  | d :: rest =>
    if d.writable then gather ram rest
    else
      (guestSlice window d.addr d.len.toNat).bind fun off =>
        (gather ram rest).map (ram.bytes off d.len.toNat ++ ·)

/-- Spread bytes over the writable buffers of a chain, up to the first that is not in RAM;
with the number of bytes placed. -/
def scatter : List Descriptor → List Byte → Ram → Nat × Ram
  | [], _, ram => (0, ram)
  | d :: rest, bytes, ram =>
    if !d.writable || bytes.isEmpty then scatter rest bytes ram
    else
      let n := min bytes.length d.len.toNat
      match guestSlice window d.addr n with
      | none => (0, ram)
      | some off =>
        let placed := scatter rest (bytes.drop n) (ram.overwrite off (bytes.take n))
        (n + placed.1, placed.2)

def scatterDma (chain : List Descriptor) (bytes : List Byte) : Dma Nat := fun ram =>
  .ok (scatter window chain bytes ram).1 (scatter window chain bytes ram).2

end Chains

/-! ## Backends -/

/-- A chain an external 9P server has yet to answer. -/
structure ExternalP9Pending where
  head : BitVec 16
  chain : List Descriptor

inductive Backend (σ : Type) where
  | console (rxBuf txOut : List Byte)
  | block (disk : List Byte)
  | fs (srv : σ)
  | fsExternal (requests : List (List Byte)) (pending : BitVec 16 → Option ExternalP9Pending)
  | net (inbox outbox : List (List Byte))

inductive ServiceResult where
  /-- the chain completed and enters the used ring now -/
  | complete (written : BitVec 32)
  /-- an asynchronous backend has kept the chain -/
  | deferred
  /-- the chain stays on the avail ring -/
  | blocked

def NET_HDR_LEN : Nat := 12
def NET_MAX_FRAME : Nat := 1600
def NET_QUEUE_LIMIT : Nat := 256
def SECTOR : Nat := 512
def VIRTIO_BLK_T_IN : Nat := 0
def VIRTIO_BLK_T_OUT : Nat := 1

/-- `virtio_net_hdr_v1` with `num_buffers = 1`. -/
def netHeader : List Byte := List.replicate 10 0 ++ [1, 0]

def p9Tag (message : List Byte) : Option (BitVec 16) :=
  match message.drop 5 with
  | lo :: hi :: _ => some (hi ++ lo)
  | _ => none

section Service

variable {σ : Type} (window : Window) (handle : σ → List Byte → Option (List Byte) × σ)

def consoleRx : List Descriptor → List Byte → BitVec 32 → Dma (List Byte × BitVec 32)
  | [], rx, written => pure (rx, written)
  | d :: rest, rx, written =>
    if !d.writable || rx.isEmpty then consoleRx rest rx written
    else do
      let n := min rx.length d.len.toNat
      copyTo window (offset window d.addr) (rx.take n)
      if (rx.drop n).isEmpty then pure (rx.drop n, written + BitVec.ofNat 32 n)
      else consoleRx rest (rx.drop n) (written + BitVec.ofNat 32 n)

def consoleTx : List Descriptor → List Byte → Dma (List Byte)
  | [], tx => pure tx
  | d :: rest, tx =>
    if d.writable then consoleTx rest tx
    else do
      let bytes ← slice window (offset window d.addr) d.len.toNat
      consoleTx rest (tx ++ bytes)

/-- The data phase of a block request. -/
structure BlockState where
  disk : List Byte
  pos : Nat
  written : BitVec 32
  ok : Bool

/-- `&disk[pos..pos + len]`, where the end has wrapped to `stop`. -/
def diskRange (disk : List Byte) (pos stop : Nat) : Dma Unit :=
  if pos ≤ stop ∧ stop ≤ disk.length then pure () else throw .outOfBounds

def blockBuffer (reqType : Nat) (d : Descriptor) (s : BlockState) : Dma BlockState := do
  let off := offset window d.addr
  let len := d.len.toNat
  let stop := (s.pos + len) % 2 ^ window.word
  if reqType = VIRTIO_BLK_T_IN ∧ d.writable then
    if stop ≤ s.disk.length then
      diskRange s.disk s.pos stop
      copyTo window off ((s.disk.drop s.pos).take len)
      pure { s with pos := stop, written := s.written + d.len }
    else pure { s with pos := stop, written := s.written + d.len, ok := false }
  else if reqType = VIRTIO_BLK_T_OUT ∧ ¬ d.writable then
    if stop ≤ s.disk.length then
      diskRange s.disk s.pos stop
      let bytes ← slice window off len
      pure { s with disk := s.disk.take s.pos ++ bytes ++ s.disk.drop stop, pos := stop }
    else pure { s with pos := stop, ok := false }
  else pure { s with pos := stop, ok := false }

def blockData (reqType : Nat) : List Descriptor → BlockState → Dma BlockState
  | [], s => pure s
  | d :: rest, s => do
    let s ← blockBuffer window reqType d s
    blockData reqType rest s

/-- Header, data buffers, status byte. -/
def serviceBlock (disk : List Byte) : List Descriptor → Dma (List Byte × BitVec 32)
  | [] => pure (disk, 0)
  -- `&chain[1..chain.len() - 1]` of a single descriptor
  | [hdr] => do
    let _ ← slice window (offset window hdr.addr) 4
    let _ ← slice window (offset window hdr.addr + 8) 8
    throw .outOfBounds
  | hdr :: d :: rest => do
    let reqType ← slice window (offset window hdr.addr) 4
    let sector ← slice window (offset window hdr.addr + 8) 8
    let start : BlockState :=
      { disk := disk, pos := leValue sector * SECTOR % 2 ^ window.word, written := 0, ok := true }
    let s ← blockData window (leValue reqType) (d :: rest).dropLast start
    let status := (d :: rest).getLast (List.cons_ne_nil d rest)
    copyTo window (offset window status.addr) [if s.ok then 0 else 1]
    pure (s.disk, s.written + 1)

def serviceConsole (qi : Nat) (chain : List Descriptor) (rxBuf txOut : List Byte) :
    Dma (Backend σ × ServiceResult) :=
  if qi = 0 then
    if rxBuf.isEmpty then pure (.console rxBuf txOut, .blocked)
    else do
      let (rx, written) ← consoleRx window chain rxBuf 0
      pure (.console rx txOut, .complete written)
  else do
    let tx ← consoleTx window chain txOut
    pure (.console rxBuf tx, .complete 0)

def serviceFs (chain : List Descriptor) (srv : σ) : Dma (Backend σ × ServiceResult) := do
  match gather window (← get) chain with
  | none | some [] => pure (.fs srv, .complete 0)
  | some req =>
    match handle srv req with
    | (none, _) => throw .server
    | (some reply, srv) =>
      let placed ← scatterDma window chain reply
      pure (.fs srv, .complete (BitVec.ofNat 32 placed))

def serviceFsExternal (head : BitVec 16) (chain : List Descriptor) (requests : List (List Byte))
    (pending : BitVec 16 → Option ExternalP9Pending) : Dma (Backend σ × ServiceResult) := do
  match (gather window (← get) chain).bind fun bytes => (p9Tag bytes).map fun tag =>
    (bytes, tag) with
  | none => pure (.fsExternal requests pending, .complete 0)
  | some (bytes, tag) =>
    if (pending tag).isSome then pure (.fsExternal requests pending, .complete 0)
    else
      pure (.fsExternal (requests ++ [bytes])
        (fun t => if t = tag then some { head := head, chain := chain } else pending t), .deferred)

/-- Network input; a frame that does not fit is dropped. -/
def netRx (chain : List Descriptor) (outbox : List (List Byte)) :
    List (List Byte) → Dma (Backend σ × ServiceResult)
  | [] => pure (.net [] outbox, .blocked)
  | frame :: inbox =>
    let capacity := ((chain.filter (·.writable)).map fun d => d.len.toNat).sum % 2 ^ window.word
    if capacity < NET_HDR_LEN + frame.length then pure (.net inbox outbox, .blocked)
    else do
      let placed ← scatterDma window chain (netHeader ++ frame)
      pure (.net inbox outbox, .complete (BitVec.ofNat 32 placed))

/-- Network output, without the header. -/
def netTx (chain : List Descriptor) (inbox outbox : List (List Byte)) :
    Dma (Backend σ × ServiceResult) := do
  match gather window (← get) chain with
  | none => pure (.net inbox outbox, .complete 0)
  | some frame =>
    if NET_HDR_LEN < frame.length ∧ frame.length - NET_HDR_LEN ≤ NET_MAX_FRAME ∧
        outbox.length < NET_QUEUE_LIMIT then
      pure (.net inbox (outbox ++ [frame.drop NET_HDR_LEN]), .complete 0)
    else pure (.net inbox outbox, .complete 0)

def service (qi : Nat) (head : BitVec 16) (chain : List Descriptor) :
    Backend σ → Dma (Backend σ × ServiceResult)
  | .console rxBuf txOut => serviceConsole window qi chain rxBuf txOut
  | .block disk => do
    let (disk, written) ← serviceBlock window disk chain
    pure (.block disk, .complete written)
  | .fs srv => serviceFs window handle chain srv
  | .fsExternal requests pending => serviceFsExternal window head chain requests pending
  | .net inbox outbox =>
    if qi = 0 then netRx window chain outbox inbox else netTx window chain inbox outbox

end Service

/-! ## The device -/

def firstQueue : Fin 2 := 0

structure VirtioDev (σ : Type) where
  backend : Backend σ
  status : BitVec 32 := 0
  deviceFeaturesSel : BitVec 32 := 0
  driverFeaturesSel : BitVec 32 := 0
  queueSel : Fin 2 := firstQueue
  queues : Fin 2 → Queue := fun _ => {}
  intStatus : BitVec 32 := 0

namespace VirtioDev

variable {σ : Type} (dev : VirtioDev σ)

def queueNumMax : BitVec 32 :=
  match dev.backend with
  | .fs _ | .fsExternal _ _ => 128
  | .net _ _ => 256
  | .console _ _ => 128
  | .block _ => 16

def setQueue (qi : Fin 2) (update : Queue → Queue) : VirtioDev σ :=
  { dev with queues := fun i => if i = qi then update (dev.queues i) else dev.queues i }

/-- `qm()`: the selected queue. -/
def selected (update : Queue → Queue) : VirtioDev σ :=
  dev.setQueue dev.queueSel update

def setLo (v : Word) (val : BitVec 32) : Word := (v &&& ~~~0xffffffff#64) ||| val.setWidth 64

def setHi (v : Word) (val : BitVec 32) : Word := (v &&& 0xffffffff#64) ||| (val.setWidth 64 <<< 32)

def writeStatus (val : BitVec 32) : VirtioDev σ :=
  let driverOk := dev.status &&& 4 ≠ 0
  let dev := { dev with status := val }
  if val = 0 then
    let dev := { dev with queues := fun _ => {}, intStatus := 0 }
    match dev.backend with
    | .fsExternal _ _ => { dev with backend := .fsExternal [] fun _ => none }
    | _ => dev
  else if ¬ driverOk ∧ val &&& 4 ≠ 0 then
    match dev.backend with
    | .console _ _ => { dev with intStatus := dev.intStatus ||| 2 }
    | _ => dev
  else dev

def setRegister (offset : Word) (val : BitVec 32) : VirtioDev σ :=
  if offset = 0x014 then { dev with deviceFeaturesSel := val }
  else if offset = 0x024 then { dev with driverFeaturesSel := val }
  else if offset = 0x030 then { dev with queueSel := if val = 0 then firstQueue else 1 }
  else if offset = 0x038 then
    dev.selected fun q => { q with num := if val ≤ dev.queueNumMax then val else dev.queueNumMax }
  else if offset = 0x044 then dev.selected fun q => { q with ready := val &&& 1 }
  else if offset = 0x064 then { dev with intStatus := dev.intStatus &&& ~~~val }
  else if offset = 0x070 then dev.writeStatus val
  else if offset = 0x080 then dev.selected fun q => { q with desc := setLo q.desc val }
  else if offset = 0x084 then dev.selected fun q => { q with desc := setHi q.desc val }
  else if offset = 0x090 then dev.selected fun q => { q with avail := setLo q.avail val }
  else if offset = 0x094 then dev.selected fun q => { q with avail := setHi q.avail val }
  else if offset = 0x0a0 then dev.selected fun q => { q with used := setLo q.used val }
  else if offset = 0x0a4 then dev.selected fun q => { q with used := setHi q.used val }
  else dev

/-- An MMIO register write, with the queue to process if it is a notification. -/
def write (offset : Word) (val : BitVec 32) : VirtioDev σ × Option (BitVec 32) :=
  if offset = 0x050 then (dev, some val) else (dev.setRegister offset val, none)

def advance (qi : Fin 2) : VirtioDev σ :=
  dev.setQueue qi fun q => { q with lastAvailIdx := q.lastAvailIdx + 1 }

def interrupt : VirtioDev σ := { dev with intStatus := dev.intStatus ||| 1 }

def consoleInput (bytes : List Byte) : VirtioDev σ :=
  match dev.backend with
  | .console rxBuf txOut => { dev with backend := .console (rxBuf ++ bytes) txOut }
  | _ => dev

/-- Queue a frame from the host, if there is room. -/
def netInput (frame : List Byte) : VirtioDev σ × Bool :=
  match dev.backend with
  | .net inbox outbox =>
    if frame.length ≤ NET_MAX_FRAME ∧ inbox.length < NET_QUEUE_LIMIT then
      ({ dev with backend := .net (inbox ++ [frame]) outbox }, true)
    else (dev, false)
  | _ => (dev, false)

end VirtioDev

/-- A device with the RAM it works on. -/
structure Port (σ : Type) where
  dev : VirtioDev σ
  ram : Ram

section Processing

variable {σ : Type} (window : Window) (handle : σ → List Byte → Option (List Byte) × σ)

def onRam {α : Type} (op : Dma α) : EStateM Panic (Port σ) α :=
  Fallible.zoom Port.ram (fun ram p => { p with ram := ram }) op

def onDev (update : VirtioDev σ → VirtioDev σ) : EStateM Panic (Port σ) Unit :=
  modify fun p => { p with dev := update p.dev }

def complete (qi : Fin 2) (q : Queue) (head : BitVec 16) (written : BitVec 32) :
    EStateM Panic (Port σ) Bool := do
  onRam (publishUsed window q head written)
  onDev fun dev => (dev.advance qi).interrupt
  pure true

/-- Take the chain that starts at `head`; whether there may be more. -/
def serve (qi : Fin 2) (q : Queue) (head : BitVec 16) : EStateM Panic (Port σ) Bool := do
  match descriptorChain window q head (← get).ram with
  -- a malformed chain is consumed
  | none => complete window qi q head 0
  | some chain =>
    let (backend, result) ← onRam (service window handle qi head chain (← get).dev.backend)
    onDev fun dev => { dev with backend := backend }
    match result with
    | .complete written => complete window qi q head written
    | .deferred =>
      onDev fun dev => dev.advance qi
      pure true
    | .blocked => pure false

/-- One round of the loop: take the next available chain. -/
def turn (qi : Fin 2) : EStateM Panic (Port σ) Bool := do
  let q := (← get).dev.queues qi
  let availIdx ← onRam (read16 window (q.avail + 2))
  if q.lastAvailIdx = availIdx then pure false
  else
    let slot ← onRam (remainder q.lastAvailIdx q.num)
    let head ← onRam (read16 window (q.avail + 4 + slot * 2))
    serve window handle qi q head

/-- The loop of `process`; whether it has come to its end. -/
def processLoop (qi : Fin 2) : Nat → EStateM Panic (Port σ) Bool
  | 0 => pure false
  | n + 1 => do
    if ← turn window handle qi then processLoop qi n else pure true

/-- `process`, in at most `fuel` rounds of its loop. -/
def process (qi : Nat) (fuel : Nat) : EStateM Panic (Port σ) Bool := do
  if bound : qi < 2 then
    if ((← get).dev.queues ⟨qi, bound⟩).ready = 0 then pure true
    else processLoop window handle ⟨qi, bound⟩ fuel
  else pure true

def Backend.takePending (tag : BitVec 16) : Backend σ → Option (ExternalP9Pending × Backend σ)
  | .fsExternal requests pending =>
    (pending tag).map fun waiting =>
      (waiting, .fsExternal requests fun t => if t = tag then none else pending t)
  | _ => none

/-- Complete the request a reply of the external server answers. -/
def fsExternalReply (bytes : List Byte) : EStateM Panic (Port σ) Bool := do
  let p ← get
  match (p9Tag bytes).bind fun tag => p.dev.backend.takePending tag with
  | none => pure false
  | some (waiting, backend) =>
    onDev fun dev => { dev with backend := backend }
    let placed ← onRam (scatterDma window waiting.chain bytes)
    onRam (publishUsed window (p.dev.queues firstQueue) waiting.head (BitVec.ofNat 32 placed))
    onDev VirtioDev.interrupt
    pure true

/-- What reaches a device: register writes and polls, and the host's input. -/
inductive Event where
  | write (offset : Word) (val : BitVec 32)
  | poll (qi : Nat)
  | reply (bytes : List Byte)
  | consoleInput (bytes : List Byte)
  | netInput (frame : List Byte)

/-- An event, in at most `fuel` rounds of a queue loop; whether it has come to its end. -/
def Event.perform (fuel : Nat) : Event → EStateM Panic (Port σ) Bool
  | .write offset val => do
    let (dev, notify) := (← get).dev.write offset val
    onDev fun _ => dev
    match notify with
    | some qi => process window handle qi.toNat fuel
    | none => pure true
  | .poll qi => process window handle qi fuel
  | .reply bytes => do
    let _ ← fsExternalReply window bytes
    pure true
  | .consoleInput bytes => do
    onDev fun dev => dev.consoleInput bytes
    process window handle 0 fuel
  | .netInput frame => do
    onDev fun dev => (dev.netInput frame).1
    pure true

end Processing

end Rv64Js.Virtio
